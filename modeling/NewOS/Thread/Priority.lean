import NewOS.Thread.Consistency

/-! What the scheduler makes of the real-time band. `thread_set_priority` accepts priorities up
to `THREAD_MAX_RT_PRIORITY`, but every requeue goes through `thread_enqueue_run_q`, which clamps
the priority to `THREAD_MAX_PRIORITY`: no real-time run queue ever holds a thread, and
`thread_resched` dispatches only threads of the regular and idle bands. -/
namespace NewOS
namespace Sched
open Function

variable {P : Priorities} {ncpu : Nat} {s s' : Sched} {c : Nat}

theorem runLevel_of_max_lt {p : Int} (hp : P.max < p) : runLevel P p = P.max := by
  simp [runLevel, hp]

/-- A priority of the real-time band stays above `THREAD_MAX_PRIORITY` through the clamp of
`thread_set_priority`. -/
theorem max_lt_clampPriority {p : Int} (hp : P.minRT ≤ p) : P.max < clampPriority P p := by
  have := P.max_lt_minRT; have := P.minRT_le_maxRT; have := P.min_le_max
  dsimp only [clampPriority]; split_ifs <;> omega

/-- The thread `thread_resched` dispatches on CPU `c` has a priority of the regular or idle
band. -/
theorem SchedInv.threadResched_priority_le (h : SchedInv P ncpu s) (hc : c < ncpu)
    (hn : Outgoing (s.nextState (s.current c))) {rand : Nat → Nat} {now : Int}
    (hs : s.threadResched P c rand now = some s') : s'.priority (s'.current c) ≤ P.max := by
  have h1 := h.queueInv_putOld hc hn
  simp only [Sched.threadResched] at hs
  generalize reschedLevel P (putOld P s (s.current c)).runQ rand = i at hs
  split at hs
  · cases hs
  rename_i next rest hqi
  have hle := (h1.runQ_mem i next (by rw [hqi]; exact List.mem_cons_self _ _))
  split_ifs at hs with heq <;> cases hs
  · subst heq; rw [runNext_current, putOld_current, runNext_priority]; omega
  · rw [switchTo_current, update_same, switchTo_priority, runNext_priority]; omega

/-! ## The idle band -/

/-- A thread in use at the idle priority is an idle thread; any other thread in use has a
priority of at least `THREAD_MIN_PRIORITY`. -/
def IdleLevel (P : Priorities) (ncpu : Nat) (s : Sched) : Prop :=
  ∀ t, s.state t ≠ .birth → (s.priority t = P.idle ∧ ∃ d < ncpu, s.idle d = t) ∨ P.min ≤ s.priority t

theorem runLevel_idle : runLevel P P.idle = P.idle := by
  have := P.idle_nonneg; have := P.idle_lt_min; have := P.min_le_max
  unfold runLevel; split_ifs <;> omega

theorem min_le_runLevel {p : Int} (hp : P.min ≤ p) : P.min ≤ runLevel P p := by
  have := P.idle_nonneg; have := P.idle_lt_min; have := P.min_le_max
  unfold runLevel; split_ifs <;> omega

theorem min_le_clampPriority (p : Int) : P.min ≤ clampPriority P p := by
  have := P.min_le_max; have := P.max_lt_minRT; have := P.minRT_le_maxRT
  dsimp only [clampPriority]; split_ifs <;> omega

namespace IdleLevel

variable {t : Nat}

theorem of_eq (h : IdleLevel P ncpu s) (h1 : s'.state = s.state) (h2 : s'.priority = s.priority)
    (h3 : s'.idle = s.idle) : IdleLevel P ncpu s' := by
  intro u; rw [h1, h2, h3]; exact h u

/-- A new state for `t`, in use only if `t` was. -/
theorem setState (h : IdleLevel P ncpu s) {st : ThreadState} (ht : st ≠ .birth → s.state t ≠ .birth) :
    IdleLevel P ncpu { s with state := update s.state t st } := by
  intro u hu
  by_cases hut : u = t
  · subst hut; exact h u (ht (by simpa using hu))
  · exact h u (by simpa [update_noteq hut] using hu)

theorem withPriority (h : IdleLevel P ncpu s) {p : Int} (hp : P.min ≤ p) :
    IdleLevel P ncpu (s.withPriority t p) := by
  intro u hu
  by_cases hut : u = t
  · subst hut; exact .inr (by simpa using hp)
  · simpa [update_noteq hut] using h u hu

theorem threadEnqueueRunQ (h : IdleLevel P ncpu s) (t : Nat) :
    IdleLevel P ncpu (threadEnqueueRunQ P s t) := by
  intro u hu
  rw [threadEnqueueRunQ_state] at hu
  rw [threadEnqueueRunQ_priority]
  by_cases hut : u = t
  · subst hut
    rw [update_same]
    rcases h u hu with ⟨hi, hd⟩ | hm
    · exact .inl ⟨by rw [hi, runLevel_idle], hd⟩
    · exact .inr (min_le_runLevel hm)
  · rw [update_noteq hut]; exact h u hu

theorem putOld (h : IdleLevel P ncpu s) (ht : s.state t ≠ .birth) : IdleLevel P ncpu (putOld P s t) := by
  unfold Sched.putOld
  split
  · exact (h.threadEnqueueRunQ t).setState fun _ => ht
  · exact (h.threadEnqueueRunQ t).setState fun _ => ht
  · exact (h.of_eq rfl rfl rfl : IdleLevel P ncpu { s with deadQ := _ }).setState fun _ => ht
  · exact h.setState fun _ => ht

theorem threadResched (h : IdleLevel P ncpu s) (hq : QueueInv P (Sched.putOld P s (s.current c)))
    (hold : s.state (s.current c) ≠ .birth) {rand : Nat → Nat} {now : Int}
    (hs : s.threadResched P c rand now = some s') : IdleLevel P ncpu s' := by
  have h1 := h.putOld hold
  simp only [Sched.threadResched] at hs
  generalize reschedLevel P (Sched.putOld P s (s.current c)).runQ rand = i at hs
  split at hs
  · cases hs
  rename_i next rest hqi
  have hn := (hq.runQ_mem i next (by rw [hqi]; exact List.mem_cons_self _ _)).2.1
  have h2 : IdleLevel P ncpu ((Sched.putOld P s (s.current c)).runNext i next rest) :=
    (h1.setState (t := next) fun (_ : ThreadState.running ≠ .birth) => by rw [hn]; simp).of_eq rfl rfl rfl
  split_ifs at hs <;> cases hs
  · exact h2
  · exact h2.of_eq switchTo_state switchTo_priority switchTo_idle

theorem threadSetPriority (h : IdleLevel P ncpu s) (c : Nat) (id p : Int) :
    IdleLevel P ncpu (s.threadSetPriority P c id p).1 := by
  have hp := min_le_clampPriority (P := P) p
  unfold Sched.threadSetPriority
  dsimp only
  split_ifs
  · exact h.withPriority hp
  · split
    · exact h
    · split_ifs
      · exact ((h.of_eq rfl rfl rfl : IdleLevel P ncpu (s.threadDequeueThread _)).withPriority
          hp).threadEnqueueRunQ _
      · exact h.withPriority hp

theorem createThreadLocked (h : IdleLevel P ncpu s) : IdleLevel P ncpu (s.createThreadLocked P).1 := by
  intro u hu
  rw [createThreadLocked_state] at hu
  rw [createThreadLocked_priority]
  by_cases hut : u = s.deadQ.headD s.nextRec
  · subst hut; simp at hu
  · rw [update_noteq hut] at hu
    rw [update_noteq hut, update_noteq hut]
    exact h u hu

/-- `_create_thread` leaves its new thread `SUSPENDED` at `THREAD_MEDIUM_PRIORITY`. -/
theorem createThread (h : IdleLevel P ncpu s) :
    IdleLevel P ncpu { (s.createThreadLocked P).1 with
      state := update (s.createThreadLocked P).1.state (s.createThreadLocked P).2 .suspended } := by
  intro u hu
  by_cases hut : u = (s.createThreadLocked P).2
  · subst hut
    exact .inr (by rw [createThreadLocked_priority, createThreadLocked_snd, update_same]; exact P.medium_mem.1)
  · exact h.createThreadLocked u (by simpa [update_noteq hut] using hu)

end IdleLevel

end Sched

namespace Kernel
open Function Sched

variable {P : Priorities} {ncpu : Nat} {ok : Op → Prop} {k : Kernel}

/-- A `READY` thread that `thread_set_priority` moves into the real-time band is requeued at
`THREAD_MAX_PRIORITY`: the call succeeds, but `thread_enqueue_run_q` clamps the priority. -/
theorem setPriority_rt_demoted (hk : Reachable P ncpu ok k) {c t : Nat} {p : Int}
    (ht : k.sched.state t = .ready) (hid : k.sched.tid (k.sched.current c) ≠ k.sched.tid t)
    (hl : k.sched.threadGetThreadStructLocked (k.sched.tid t) = some t) (hp : P.minRT ≤ p) :
    (k.sched.threadSetPriority P c (k.sched.tid t) p).2 = .ok () ∧
    (k.sched.threadSetPriority P c (k.sched.tid t) p).1.priority t = P.max ∧
    t ∈ (k.sched.threadSetPriority P c (k.sched.tid t) p).1.runQ P.max := by
  have h := schedInv_of_reachable hk
  have hle := (h.runQ_mem _ t (h.ready_mem t ht)).2.2
  have hcl := max_lt_clampPriority hp
  have hne : k.sched.priority t ≠ clampPriority P p := by omega
  simp only [Sched.threadSetPriority, if_neg hid, hl, ht, ne_eq, hne, not_false_eq_true, and_self,
    if_true]
  exact ⟨trivial, by simp [threadEnqueueRunQ_priority, runLevel_of_max_lt hcl],
    mem_threadEnqueueRunQ.2 (.inr ⟨rfl, by simp [runLevel_of_max_lt hcl]⟩)⟩

theorem setPriority_rt_demoted_one_cpu :
    ∃ k, run Priorities.sample 1 (init Priorities.sample 1) [.createThread 1, .wakeUp 1] = some k ∧
      (k.sched.threadSetPriority Priorities.sample 0 2 63).2 = .ok () ∧
      (k.sched.threadSetPriority Priorities.sample 0 2 63).1.priority 1 = 47 ∧
      1 ∈ (k.sched.threadSetPriority Priorities.sample 0 2 63).1.runQ 47 := by
  have hrun : run Priorities.sample 1 (init Priorities.sample 1) [.createThread 1, .wakeUp 1] =
    some _ := rfl
  exact ⟨_, hrun, setPriority_rt_demoted (c := 0) (t := 1) (p := 63)
    ((Reachable.init : Reachable Priorities.sample 1 (fun _ => True) _).run (fun _ _ => trivial) hrun)
    (by decide) (by decide) (by decide) (by decide)⟩

/-- In every reachable state the run queues of the real-time band are empty, and every
reschedule dispatches a thread of priority at most `THREAD_MAX_PRIORITY`, whatever the draws. -/
theorem rt_band_never_dispatched (hk : Reachable P ncpu ok k) :
    (∀ i, P.max < i → k.sched.runQ i = []) ∧
    ∀ c ns rand now k', step P ncpu k (.resched c ns rand now) = some k' →
      k'.sched.priority (k'.sched.current c) ≤ P.max := by
  have h := schedInv_of_reachable hk
  refine ⟨fun i hi => List.eq_nil_iff_forall_not_mem.2 fun t ht => ?_, fun c ns rand now k' hs => ?_⟩
  · have := (h.runQ_mem i t ht).2.2; omega
  · simp only [step] at hs
    split_ifs at hs with hc
    refine SchedInv.threadResched_priority_le ?_ hc.1 ?_ (threadResched_sched hs)
    · exact h.congr rfl rfl rfl rfl rfl rfl rfl
    · simpa using hc.2

theorem rt_band_never_dispatched_new_proc :
    ∃ k, run Priorities.sample 2 (init Priorities.sample 2)
        [.createProc 0 false false 0, .wakeUp 2, .resched 0 .ready (fun _ => 0x3001) 0] = some k ∧
      (∀ i, Priorities.sample.max < i → k.sched.runQ i = []) ∧
      ∀ c ns rand now k', step Priorities.sample 2 k (.resched c ns rand now) = some k' →
        k'.sched.priority (k'.sched.current c) ≤ Priorities.sample.max := by
  have hrun : run Priorities.sample 2 (init Priorities.sample 2)
      [.createProc 0 false false 0, .wakeUp 2, .resched 0 .ready (fun _ => 0x3001) 0] = some _ := rfl
  exact ⟨_, hrun, rt_band_never_dispatched (Reachable.init.run (fun _ _ => trivial) hrun)⟩

theorem idleLevel_step (hi : IdleLevel P ncpu k.sched) (h : SchedInv P ncpu k.sched) {op : Op}
    (hop : Op.IsSched op) {k' : Kernel} (hs : step P ncpu k op = some k') : IdleLevel P ncpu k'.sched := by
  cases op with
  | resched c ns rand now =>
    simp only [step] at hs
    split_ifs at hs with hc
    have h₀ : SchedInv P ncpu { k.sched with nextState := update k.sched.nextState (k.sched.current c) ns } :=
      h.congr rfl rfl rfl rfl rfl rfl rfl
    have hi₀ : IdleLevel P ncpu
        { k.sched with nextState := update k.sched.nextState (k.sched.current c) ns } :=
      hi.of_eq rfl rfl rfl
    exact hi₀.threadResched (h₀.queueInv_putOld hc.1 (by simpa using hc.2))
      (by simp [h.current_running c hc.1]) (threadResched_sched hs)
  | wakeUp t =>
    simp only [step] at hs
    split_ifs at hs with ht
    cases hs
    exact (hi.setState fun _ => by rcases ht with ht | ht <;> simp [ht]).threadEnqueueRunQ t
  | setPriority c id priority =>
    simp only [step] at hs
    split_ifs at hs
    cases hs
    exact hi.threadSetPriority c id priority
  | createThread pid =>
    simp only [step] at hs
    cases hs
    rcases createThread_sched (k := k) pid with he | he <;> rw [he]
    · exact hi.createThread
    · exact hi.createThreadLocked.of_eq rfl rfl rfl
  | _ => exact hop.elim

theorem idleLevel_of_reachable (hk : Reachable P ncpu Op.IsSched k) : IdleLevel P ncpu k.sched := by
  induction hk with
  | init =>
    intro t ht
    have htn : t < ncpu := by by_contra hn; simp [init, hn] at ht
    exact .inl ⟨rfl, t, htn, rfl⟩
  | step reach hop hs ih => exact idleLevel_step ih (schedInv_of_reachable reach) hop hs

/-- The idle threads share one run queue. In every state reached by rescheduling, wake-ups,
priority changes and thread creation, `run_q[THREAD_IDLE_PRIORITY]` holds idle threads only, and a
`thread_resched` on CPU `c` that finds every higher level empty takes the head of that queue: the
idle thread of some CPU `d`, which need not be `c`. -/
theorem idle_fallthrough_takes_queue_head (hk : Reachable P ncpu Op.IsSched k) :
    (∀ t ∈ k.sched.runQ P.idle, ∃ d < ncpu, k.sched.idle d = t) ∧
    ∀ c ns rand now k', step P ncpu k (.resched c ns rand now) = some k' →
      (∀ j, P.idle < j → (Sched.putOld P { k.sched with
          nextState := update k.sched.nextState (k.sched.current c) ns } (k.sched.current c)).runQ j = []) →
      ∃ d < ncpu, ∃ rest, (Sched.putOld P { k.sched with
          nextState := update k.sched.nextState (k.sched.current c) ns } (k.sched.current c)).runQ P.idle =
          k.sched.idle d :: rest ∧ k'.sched.current c = k.sched.idle d := by
  have h := schedInv_of_reachable hk
  have hi := idleLevel_of_reachable hk
  have hmin := P.idle_lt_min
  refine ⟨fun t ht => ?_, fun c ns rand now k' hs hfall => ?_⟩
  · obtain ⟨hp, hr, -⟩ := h.runQ_mem _ t ht
    rcases hi t (by simp [hr]) with ⟨-, hd⟩ | hm
    · exact hd
    · omega
  simp only [step] at hs
  split_ifs at hs with hc
  have hs' := threadResched_sched hs
  have h₀ : SchedInv P ncpu { k.sched with nextState := update k.sched.nextState (k.sched.current c) ns } :=
    h.congr rfl rfl rfl rfl rfl rfl rfl
  have hq := h₀.queueInv_putOld hc.1 (by simpa using hc.2)
  have hi₁ := (hi.of_eq rfl rfl rfl : IdleLevel P ncpu { k.sched with
    nextState := update k.sched.nextState (k.sched.current c) ns }).putOld
    (t := k.sched.current c) (by simp [h.current_running c hc.1])
  simp only [Sched.threadResched] at hs'
  generalize hsel : reschedLevel P _ rand = i at hs'
  split at hs'
  · cases hs'
  rename_i next rest hqi
  obtain ⟨hpi, hr, -⟩ := hq.runQ_mem i next (by rw [hqi]; exact List.mem_cons_self _ _)
  obtain ⟨hpn, d, hd, hdn⟩ : _ ∧ ∃ d < ncpu, _ := (hi₁ next (by simp [hr])).resolve_right fun hm => by
    have hmi : P.min ≤ i := by rw [← hpi]; exact hm
    have := hfall i (by omega); rw [hqi] at this; cases this
  obtain rfl : i = P.idle := hpi.symm.trans hpn
  rw [putOld_idle] at hdn
  subst hdn
  refine ⟨d, hd, rest, hqi, ?_⟩
  split_ifs at hs' with heq <;> rw [← Option.some.inj hs']
  · simpa using heq.symm
  · simp

theorem idle_fallthrough_takes_queue_head_two_cpus :
    ∃ k, run Priorities.sample 2 (init Priorities.sample 2)
        [.createThread 1, .wakeUp 2, .resched 0 .ready (fun _ => 0x3001) 0] = some k ∧
      (∀ t ∈ k.sched.runQ Priorities.sample.idle, ∃ d < 2, k.sched.idle d = t) ∧
      ∀ c ns rand now k', step Priorities.sample 2 k (.resched c ns rand now) = some k' →
        (∀ j, Priorities.sample.idle < j → (Sched.putOld Priorities.sample { k.sched with
            nextState := update k.sched.nextState (k.sched.current c) ns } (k.sched.current c)).runQ j = []) →
        ∃ d < 2, ∃ rest, (Sched.putOld Priorities.sample { k.sched with
            nextState := update k.sched.nextState (k.sched.current c) ns } (k.sched.current c)).runQ
              Priorities.sample.idle = k.sched.idle d :: rest ∧ k'.sched.current c = k.sched.idle d := by
  have hrun : run Priorities.sample 2 (init Priorities.sample 2)
      [.createThread 1, .wakeUp 2, .resched 0 .ready (fun _ => 0x3001) 0] = some _ := rfl
  exact ⟨_, hrun, idle_fallthrough_takes_queue_head (Reachable.init.run (by simp [Op.IsSched]) hrun)⟩

end Kernel
end NewOS
