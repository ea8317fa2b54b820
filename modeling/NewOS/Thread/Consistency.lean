import NewOS.Kernel

/-! The scheduler's consistency holds in every reachable state of the whole subsystem, and what
it says about the run queues, the dead queue and the current threads. -/
namespace NewOS
namespace Kernel
open Function Sched

variable {P : Priorities} {ncpu : Nat} {k k' : Kernel} {c : Nat}

theorem schedInv_init : SchedInv P ncpu (init P ncpu).sched := by
  refine ⟨⟨fun _ => List.nodup_nil, List.nodup_nil, fun _ _ h => (by cases h), fun _ h => (by cases h),
    fun t h => ?_, fun t h => ?_⟩, fun c hc => ?_, fun c hc => ?_, fun t h => ?_⟩
  all_goals simp only [init] at *
  · split_ifs at h
  · simp [show ¬ t < ncpu by omega]
  · simp [hc]
  · simp [hc]
  · split_ifs at h with ht
    exact ⟨t, ht, rfl⟩

/-- The scheduler half of `Kernel.threadResched` is `Sched.threadResched`. -/
theorem threadResched_sched {rand : Nat → Nat} {now : Int}
    (hs : k.threadResched P c rand now = some k') : k.sched.threadResched P c rand now = some k'.sched := by
  unfold Kernel.threadResched at hs
  cases hr : k.sched.threadResched P c rand now with
  | none => simp [hr] at hs
  | some s =>
    simp only [hr] at hs
    split_ifs at hs
    · cases hs; rfl
    · split at hs
      · cases hs; rfl
      · cases hs

theorem schedInv_createThread (h : SchedInv P ncpu k.sched) (pid : Int) :
    SchedInv P ncpu (k.createThread P pid).1.sched := by
  have h1 := h.createThreadLocked (P := P)
  obtain ⟨hq, hd, hlt, hnc, -⟩ := h.createThreadLocked_fresh (P := P)
  rcases createThread_sched (k := k) pid with he | he <;> rw [he]
  · exact h1.setState hq hd hlt hnc (by simp) (by simp)
  · exact h1.congr rfl rfl rfl rfl rfl rfl rfl

/-- Every step keeps the scheduler consistent. -/
theorem schedInv_step (h : SchedInv P ncpu k.sched) {op : Op} (hs : step P ncpu k op = some k') :
    SchedInv P ncpu k'.sched := by
  cases op with
  | resched c ns rand now =>
    simp only [step] at hs
    split_ifs at hs with hc
    refine SchedInv.threadResched ?_ hc.1 ?_ (threadResched_sched hs)
    · exact h.congr rfl rfl rfl rfl rfl rfl rfl
    · simpa using hc.2
  | wakeUp t =>
    simp only [step] at hs
    split_ifs at hs with ht
    cases hs; exact h.wakeUp ht
  | setPriority c id priority =>
    simp only [step] at hs
    split_ifs at hs with hc
    cases hs; exact h.threadSetPriority hc id priority
  | createThread pid =>
    simp only [step] at hs
    cases hs; exact schedInv_createThread h pid
  | exitBegin c =>
    simp only [step] at hs
    split_ifs at hs with hc
    cases hs
    have h1 := h.threadSetPriority hc.1 (k.sched.tid (k.sched.current c)) P.high
    unfold Kernel.exitBegin
    dsimp only
    split
    · split_ifs <;> exact h1
    · exact h1
  | exitFinish c rand now =>
    simp only [step] at hs
    split_ifs at hs with hc
    unfold Kernel.exitFinish at hs
    refine SchedInv.threadResched ?_ hc.1 ?_ (threadResched_sched hs)
    · exact h.congr rfl rfl rfl rfl rfl rfl rfl
    · simp [Outgoing]
  | createProc c newSession newPgroup aspace =>
    simp only [step] at hs
    split_ifs at hs
    obtain ⟨k₁, p, tid, hp, hct⟩ := createProc_some hs
    rw [show k' = _ from (congrArg Prod.fst hct).symm]
    apply schedInv_createThread
    rw [(createProcPublish_some hp).1]; exact h
  | teardown p => rw [step_procs_only hs (.inl ⟨p, rfl⟩)]; exact h
  | setpgid c pid pgid => rw [step_procs_only hs (.inr (.inl ⟨c, pid, pgid, rfl⟩))]; exact h
  | setsid c => rw [step_procs_only hs (.inr (.inr ⟨c, rfl⟩))]; exact h

theorem schedInv_of_reachable {ok : Op → Prop} (hk : Reachable P ncpu ok k) : SchedInv P ncpu k.sched := by
  induction hk with
  | init => exact schedInv_init
  | step _ _ hs ih => exact schedInv_step ih hs

/-- The operations of the scheduler alone: rescheduling, wake-ups, priority changes and thread
creation. -/
def Op.IsSched : Op → Prop
  | .resched .. | .wakeUp _ | .setPriority .. | .createThread _ => True
  | _ => False

/-- A thread is on at most one of the run queues and the dead queue, and on it at most once; a
thread on `run_q[i]` has priority `i` and is `READY`, one on the dead queue is
`FREE_ON_RESCHED`; the current thread of each of the `ncpu` CPUs is `RUNNING`, names that CPU
and is on no queue; and no other thread is `RUNNING`. -/
def QueuesConsistent (ncpu : Nat) (s : Sched) : Prop :=
  (∀ t, (∀ i, (s.runQ i).count t ≤ 1) ∧ s.deadQ.count t ≤ 1 ∧
    (∀ i j, t ∈ s.runQ i → t ∈ s.runQ j → i = j) ∧ (∀ i, t ∈ s.runQ i → t ∉ s.deadQ)) ∧
  (∀ i, ∀ t ∈ s.runQ i, s.priority t = i ∧ s.state t = .ready) ∧
  (∀ t ∈ s.deadQ, s.state t = .freeOnResched) ∧
  (∀ c < ncpu, s.state (s.current c) = .running ∧ s.cpu (s.current c) = some c ∧
    (∀ i, s.current c ∉ s.runQ i) ∧ s.current c ∉ s.deadQ) ∧
  (∀ t, s.state t = .running → ∃ c < ncpu, s.current c = t)

theorem runQueues_consistent {ok : Op → Prop} (hk : Reachable P ncpu ok k) :
    QueuesConsistent ncpu k.sched := by
  have h := schedInv_of_reachable hk
  refine ⟨fun t => ⟨fun i => List.nodup_iff_count_le_one.1 (h.runQ_nodup i) t,
      List.nodup_iff_count_le_one.1 h.deadQ_nodup t, fun i j hi hj => h.runQ_unique hi hj,
      fun i hi => h.not_mem_deadQ (by rw [(h.runQ_mem i t hi).2.1]; simp)⟩,
    fun i t ht => ⟨(h.runQ_mem i t ht).1, (h.runQ_mem i t ht).2.1⟩, h.deadQ_mem,
    fun c hc => ⟨h.current_running c hc, h.current_cpu c hc, ?_, ?_⟩, h.running_current⟩
  · exact h.not_mem_runQ (by rw [h.current_running c hc]; simp)
  · exact h.not_mem_deadQ (by rw [h.current_running c hc]; simp)

theorem runQueues_consistent_new_proc :
    ∃ k, run Priorities.sample 2 (init Priorities.sample 2)
        [.createProc 0 false false 0, .wakeUp 2, .resched 0 .ready (fun _ => 0x3001) 0] = some k ∧
      QueuesConsistent 2 k.sched := by
  have hrun : run Priorities.sample 2 (init Priorities.sample 2)
      [.createProc 0 false false 0, .wakeUp 2, .resched 0 .ready (fun _ => 0x3001) 0] = some _ := rfl
  exact ⟨_, hrun, runQueues_consistent (Reachable.init.run (fun _ _ => trivial) hrun)⟩

/-- An idle thread need not be current or queued. On one CPU, create a thread in the kernel
process, wake it, and reschedule the idle thread with `next_state` `SUSPENDED`: the idle thread
is then current on no CPU and on no run queue nor the dead queue. -/
theorem idle_thread_unqueued :
    ¬ ∀ k, Reachable Priorities.sample 1 Op.IsSched k → ∀ c < 1,
      (∃ d < 1, k.sched.current d = k.sched.idle c) ∨ (∃ i, k.sched.idle c ∈ k.sched.runQ i) ∨
        k.sched.idle c ∈ k.sched.deadQ := by
  intro hall
  obtain ⟨k, hrun, hs⟩ : ∃ k, run Priorities.sample 1 (init Priorities.sample 1)
      [.createThread 1, .wakeUp 1, .resched 0 .suspended (fun _ => 0x3001) 0] = some k ∧
      k.sched.state (k.sched.idle 0) = .suspended := ⟨_, rfl, by decide⟩
  have hk : Reachable Priorities.sample 1 Op.IsSched k := by
    refine Reachable.init.run ?_ hrun
    intro op hop
    simp only [List.mem_cons, List.not_mem_nil, or_false] at hop
    rcases hop with rfl | rfl | rfl <;> trivial
  have h := schedInv_of_reachable hk
  rcases hall k hk 0 (by decide) with ⟨d, hd, he⟩ | ⟨i, hi⟩ | hd
  · have := h.current_running d hd; rw [he, hs] at this; cases this
  · exact h.not_mem_runQ (by rw [hs]; simp) i hi
  · exact h.not_mem_deadQ (by rw [hs]; simp) hd

/-- Idle threads share one run queue, so an idle thread can run on another CPU. On two CPUs,
create a thread in the kernel process and wake it; CPU 0 reschedules, queueing its idle thread
on `run_q[THREAD_IDLE_PRIORITY]` and taking the new thread; CPU 1 reschedules, queueing its own
idle thread behind, finds no regular thread and dequeues the head of the idle queue:
`idle_threads[0]`, which becomes the current thread of CPU 1. -/
theorem idle_thread_migrates :
    ¬ ∀ k, Reachable Priorities.sample 2 Op.IsSched k → ∀ c < 2, ∀ d < 2,
      k.sched.current d = k.sched.idle c → d = c := by
  intro hall
  obtain ⟨k, hrun, hk1⟩ : ∃ k, run Priorities.sample 2 (init Priorities.sample 2)
      [.createThread 1, .wakeUp 2, .resched 0 .ready (fun _ => 0x3001) 0,
        .resched 1 .ready (fun _ => 0x3001) 0] = some k ∧
      k.sched.current 1 = k.sched.idle 0 := ⟨_, rfl, rfl⟩
  have hk : Reachable Priorities.sample 2 Op.IsSched k := by
    refine Reachable.init.run ?_ hrun
    intro op hop
    simp only [List.mem_cons, List.not_mem_nil, or_false] at hop
    rcases hop with rfl | rfl | rfl | rfl <;> trivial
  exact absurd (hall k hk 0 (by decide) 1 (by decide) hk1) (by decide)

end Kernel
end NewOS
