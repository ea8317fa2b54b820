import NewOS.Thread.Sched

/-! The consistency of the run queues, the dead queue and the per-CPU current threads, and its
preservation by each scheduler operation of `kernel/thread.c`. -/
namespace NewOS
namespace Sched
open Function

variable {P : Priorities} {ncpu : Nat} {s : Sched} {t x : Nat} {i : Int}

/-! ## Field lemmas -/

@[simp] theorem threadEnqueueRunQ_state : (threadEnqueueRunQ P s t).state = s.state := rfl
@[simp] theorem threadEnqueueRunQ_cpu : (threadEnqueueRunQ P s t).cpu = s.cpu := rfl
@[simp] theorem threadEnqueueRunQ_current : (threadEnqueueRunQ P s t).current = s.current := rfl
@[simp] theorem threadEnqueueRunQ_deadQ : (threadEnqueueRunQ P s t).deadQ = s.deadQ := rfl
@[simp] theorem threadEnqueueRunQ_nextRec : (threadEnqueueRunQ P s t).nextRec = s.nextRec := rfl

theorem threadEnqueueRunQ_priority :
    (threadEnqueueRunQ P s t).priority = update s.priority t (runLevel P (s.priority t)) := rfl

theorem mem_threadEnqueueRunQ :
    x ∈ (threadEnqueueRunQ P s t).runQ i ↔
      x ∈ s.runQ i ∨ (x = t ∧ i = runLevel P (s.priority t)) := by
  by_cases hi : i = runLevel P (s.priority t)
  · subst hi
    simp [threadEnqueueRunQ, threadEnqueue]
  · simp [threadEnqueueRunQ, update_noteq hi, hi]

theorem nodup_threadEnqueueRunQ (hs : ∀ i, (s.runQ i).Nodup) (ht : ∀ i, t ∉ s.runQ i) (i : Int) :
    ((threadEnqueueRunQ P s t).runQ i).Nodup := by
  by_cases hi : i = runLevel P (s.priority t)
  · subst hi
    simpa [threadEnqueueRunQ, threadEnqueue, List.nodup_append] using ⟨hs _, ht _⟩
  · simpa [threadEnqueueRunQ, update_noteq hi] using hs i

@[simp] theorem threadDequeueThread_state : (threadDequeueThread s t).state = s.state := rfl
@[simp] theorem threadDequeueThread_priority :
    (threadDequeueThread s t).priority = s.priority := rfl
@[simp] theorem threadDequeueThread_cpu : (threadDequeueThread s t).cpu = s.cpu := rfl
@[simp] theorem threadDequeueThread_current :
    (threadDequeueThread s t).current = s.current := rfl
@[simp] theorem threadDequeueThread_nextRec :
    (threadDequeueThread s t).nextRec = s.nextRec := rfl
@[simp] theorem threadDequeueThread_runQ (i : Int) :
    (threadDequeueThread s t).runQ i = (s.runQ i).erase t := rfl
@[simp] theorem threadDequeueThread_deadQ : (threadDequeueThread s t).deadQ = s.deadQ.erase t := rfl

@[simp] theorem withPriority_state (p : Int) : (s.withPriority t p).state = s.state := rfl
@[simp] theorem withPriority_runQ (p : Int) : (s.withPriority t p).runQ = s.runQ := rfl
@[simp] theorem withPriority_deadQ (p : Int) : (s.withPriority t p).deadQ = s.deadQ := rfl
@[simp] theorem withPriority_cpu (p : Int) : (s.withPriority t p).cpu = s.cpu := rfl
@[simp] theorem withPriority_current (p : Int) : (s.withPriority t p).current = s.current := rfl
@[simp] theorem withPriority_nextRec (p : Int) : (s.withPriority t p).nextRec = s.nextRec := rfl
@[simp] theorem withPriority_priority (p : Int) :
    (s.withPriority t p).priority = update s.priority t p := rfl

variable {q : List Nat}

@[simp] theorem runNext_runQ : (s.runNext i t q).runQ = update s.runQ i q := rfl
@[simp] theorem runNext_state : (s.runNext i t q).state = update s.state t .running := rfl
@[simp] theorem runNext_priority : (s.runNext i t q).priority = s.priority := rfl
@[simp] theorem runNext_deadQ : (s.runNext i t q).deadQ = s.deadQ := rfl
@[simp] theorem runNext_cpu : (s.runNext i t q).cpu = s.cpu := rfl
@[simp] theorem runNext_current : (s.runNext i t q).current = s.current := rfl
@[simp] theorem runNext_nextRec : (s.runNext i t q).nextRec = s.nextRec := rfl
@[simp] theorem runNext_nextState :
    (s.runNext i t q).nextState = update s.nextState t .ready := rfl

theorem withPriority_self : s.withPriority t (s.priority t) = s := by
  cases s; simp [withPriority]

section switch
variable {c old new : Nat} {now : Int}
@[simp] theorem switchTo_runQ : (s.switchTo c old new now).runQ = s.runQ := by
  unfold switchTo; cases s.lastTimeType old <;> rfl
@[simp] theorem switchTo_deadQ : (s.switchTo c old new now).deadQ = s.deadQ := by
  unfold switchTo; cases s.lastTimeType old <;> rfl
@[simp] theorem switchTo_state : (s.switchTo c old new now).state = s.state := by
  unfold switchTo; cases s.lastTimeType old <;> rfl
@[simp] theorem switchTo_priority : (s.switchTo c old new now).priority = s.priority := by
  unfold switchTo; cases s.lastTimeType old <;> rfl
@[simp] theorem switchTo_nextRec : (s.switchTo c old new now).nextRec = s.nextRec := by
  unfold switchTo; cases s.lastTimeType old <;> rfl
@[simp] theorem switchTo_cpu :
    (s.switchTo c old new now).cpu = update (update s.cpu new (s.cpu old)) old none := by
  unfold switchTo; cases s.lastTimeType old <;> rfl
@[simp] theorem switchTo_current :
    (s.switchTo c old new now).current = update s.current c new := by
  unfold switchTo; cases s.lastTimeType old <;> rfl
@[simp] theorem switchTo_nextState : (s.switchTo c old new now).nextState = s.nextState := by
  unfold switchTo; cases s.lastTimeType old <;> rfl
@[simp] theorem switchTo_idle : (s.switchTo c old new now).idle = s.idle := by
  unfold switchTo; cases s.lastTimeType old <;> rfl
end switch

@[simp] theorem putOld_cpu : (putOld P s t).cpu = s.cpu := by
  unfold putOld; cases s.nextState t <;> rfl
@[simp] theorem putOld_idle : (putOld P s t).idle = s.idle := by
  unfold putOld; cases s.nextState t <;> rfl
@[simp] theorem putOld_current : (putOld P s t).current = s.current := by
  unfold putOld; cases s.nextState t <;> rfl
@[simp] theorem putOld_state :
    (putOld P s t).state = update s.state t (s.nextState t) := by
  unfold putOld; cases s.nextState t <;> rfl

theorem putOld_ready (hn : s.nextState t = .ready) :
    putOld P s t = threadEnqueueRunQ P { s with state := update s.state t .ready } t := by
  simp only [putOld, hn]; rfl

theorem putOld_free (hn : s.nextState t = .freeOnResched) :
    putOld P s t = { s with deadQ := threadEnqueue t s.deadQ,
                            state := update s.state t .freeOnResched } := by
  simp only [putOld, hn]

theorem putOld_other (hr : s.nextState t ≠ .ready) (hrun : s.nextState t ≠ .running)
    (hf : s.nextState t ≠ .freeOnResched) :
    putOld P s t = { s with state := update s.state t (s.nextState t) } := by
  unfold putOld; cases h : s.nextState t <;> simp_all

section create
theorem createThreadLocked_snd : (s.createThreadLocked P).2 = s.deadQ.headD s.nextRec := rfl
theorem createThreadLocked_threadHash :
    (s.createThreadLocked P).1.threadHash = (s.createThreadLocked P).2 :: s.threadHash := rfl
theorem createThreadLocked_state :
    (s.createThreadLocked P).1.state = update s.state (s.deadQ.headD s.nextRec) .birth := rfl
theorem createThreadLocked_priority :
    (s.createThreadLocked P).1.priority =
      update (update s.priority (s.deadQ.headD s.nextRec) (-1)) (s.deadQ.headD s.nextRec) P.medium := rfl
theorem createThreadLocked_cpu :
    (s.createThreadLocked P).1.cpu = update s.cpu (s.deadQ.headD s.nextRec) none := rfl
@[simp] theorem createThreadLocked_runQ : (s.createThreadLocked P).1.runQ = s.runQ := rfl
@[simp] theorem createThreadLocked_deadQ : (s.createThreadLocked P).1.deadQ = s.deadQ.tail := rfl
@[simp] theorem createThreadLocked_current : (s.createThreadLocked P).1.current = s.current := rfl
theorem createThreadLocked_nextRec :
    (s.createThreadLocked P).1.nextRec = if s.deadQ = [] then s.nextRec + 1 else s.nextRec := rfl
end create

@[simp] theorem wakeUp_eq :
    wakeUp P s t = threadEnqueueRunQ P { s with state := update s.state t .ready } t := rfl

/-! ## The invariant -/

/-- The `next_state` values the code gives an outgoing thread: `READY`, `SUSPENDED`, `WAITING`
(the semaphore code) and `FREE_ON_RESCHED` (`thread_exit2`). -/
def Outgoing (ns : ThreadState) : Prop :=
  ns = .ready ∨ ns = .suspended ∨ ns = .waiting ∨ ns = .freeOnResched

/-- The consistency of the queues. A queued thread sits at the level of its priority, below
the real-time band; a `READY` thread is queued there; the dead queue holds `FREE_ON_RESCHED`
records. Records past the allocation frontier are untouched `BIRTH` memory. -/
structure QueueInv (P : Priorities) (s : Sched) : Prop where
  runQ_nodup : ∀ i, (s.runQ i).Nodup
  deadQ_nodup : s.deadQ.Nodup
  runQ_mem : ∀ i t, t ∈ s.runQ i → s.priority t = i ∧ s.state t = .ready ∧ i ≤ P.max
  deadQ_mem : ∀ t ∈ s.deadQ, s.state t = .freeOnResched
  ready_mem : ∀ t, s.state t = .ready → t ∈ s.runQ (s.priority t)
  unallocated : ∀ t, s.nextRec ≤ t → s.state t = .birth

/-- The scheduler's consistency on `ncpu` CPUs: the queues are consistent, and the current
thread of each CPU is the one `RUNNING` thread that names the CPU. -/
structure SchedInv (P : Priorities) (ncpu : Nat) (s : Sched) extends QueueInv P s : Prop where
  current_running : ∀ c < ncpu, s.state (s.current c) = .running
  current_cpu : ∀ c < ncpu, s.cpu (s.current c) = some c
  running_current : ∀ t, s.state t = .running → ∃ c < ncpu, s.current c = t

namespace QueueInv

theorem not_mem_runQ (h : QueueInv P s) (ht : s.state t ≠ .ready) (i : Int) :
    t ∉ s.runQ i := fun hm => ht (h.runQ_mem i t hm).2.1

theorem not_mem_deadQ (h : QueueInv P s) (ht : s.state t ≠ .freeOnResched) :
    t ∉ s.deadQ := fun hm => ht (h.deadQ_mem t hm)

theorem lt_nextRec (h : QueueInv P s) (ht : s.state t ≠ .birth) : t < s.nextRec := by
  by_contra hge
  exact ht (h.unallocated t (by omega))

/-- A thread is on at most one run queue. -/
theorem runQ_unique (h : QueueInv P s) {j : Int} (hi : t ∈ s.runQ i) (hj : t ∈ s.runQ j) :
    i = j := by
  have := (h.runQ_mem i t hi).1
  have := (h.runQ_mem j t hj).1
  omega

/-- A thread on no queue, made `READY` and put on its run queue. -/
theorem enqueueReady (h : QueueInv P s) (hq : ∀ i, t ∉ s.runQ i) (hd : t ∉ s.deadQ)
    (hlt : t < s.nextRec) :
    QueueInv P (threadEnqueueRunQ P { s with state := update s.state t .ready } t) := by
  constructor
  · exact nodup_threadEnqueueRunQ h.runQ_nodup hq
  · exact h.deadQ_nodup
  · intro i y hy
    rcases mem_threadEnqueueRunQ.1 hy with hy | ⟨rfl, hi⟩
    · have hyt : y ≠ t := fun he => hq i (he ▸ hy)
      simpa [threadEnqueueRunQ_priority, update_noteq hyt] using h.runQ_mem i y hy
    · simp [threadEnqueueRunQ_priority, hi, runLevel_le_max]
  · intro y hy
    have hyt : y ≠ t := fun he => hd (he ▸ hy)
    simpa [update_noteq hyt] using h.deadQ_mem y hy
  · intro y hy
    by_cases hyt : y = t
    · subst hyt
      exact mem_threadEnqueueRunQ.2 (.inr ⟨rfl, by simp [threadEnqueueRunQ_priority]⟩)
    · simp only [threadEnqueueRunQ_state, update_noteq hyt] at hy
      simpa [threadEnqueueRunQ_priority, update_noteq hyt, mem_threadEnqueueRunQ]
        using Or.inl (h.ready_mem y hy)
  · intro y hy
    have hyt : y ≠ t := by simp at hy; omega
    simpa [update_noteq hyt] using h.unallocated y (by simpa using hy)

/-- A thread on no queue takes a state other than `READY` and `FREE_ON_RESCHED`. -/
theorem setState (h : QueueInv P s) (hq : ∀ i, t ∉ s.runQ i) (hd : t ∉ s.deadQ) (hlt : t < s.nextRec)
    {st : ThreadState} (hr : st ≠ .ready) :
    QueueInv P { s with state := update s.state t st } := by
  constructor
  · exact h.runQ_nodup
  · exact h.deadQ_nodup
  · intro i y hy
    have hyt : y ≠ t := fun he => hq i (he ▸ hy)
    simpa [update_noteq hyt] using h.runQ_mem i y hy
  · intro y hy
    have hyt : y ≠ t := fun he => hd (he ▸ hy)
    simpa [update_noteq hyt] using h.deadQ_mem y hy
  · intro y hy
    by_cases hyt : y = t
    · subst hyt; simp [hr] at hy
    · simpa using h.ready_mem y (by simpa [update_noteq hyt] using hy)
  · intro y hy
    have hyt : y ≠ t := by simp at hy; omega
    simpa [update_noteq hyt] using h.unallocated y hy

/-- A thread on no queue is freed onto the dead queue. -/
theorem toDeadQ (h : QueueInv P s) (hq : ∀ i, t ∉ s.runQ i) (hd : t ∉ s.deadQ) (hlt : t < s.nextRec) :
    QueueInv P { s with deadQ := threadEnqueue t s.deadQ,
                        state := update s.state t .freeOnResched } := by
  constructor
  · exact h.runQ_nodup
  · simpa [threadEnqueue, List.nodup_append] using ⟨h.deadQ_nodup, hd⟩
  · intro i y hy
    have hyt : y ≠ t := fun he => hq i (he ▸ hy)
    simpa [update_noteq hyt] using h.runQ_mem i y hy
  · intro y hy
    by_cases hyt : y = t
    · subst hyt; simp
    · simpa [update_noteq hyt] using h.deadQ_mem y (by simpa [threadEnqueue, hyt] using hy)
  · intro y hy
    by_cases hyt : y = t
    · subst hyt; simp at hy
    · simpa using h.ready_mem y (by simpa [update_noteq hyt] using hy)
  · intro y hy
    have hyt : y ≠ t := by simp at hy; omega
    simpa [update_noteq hyt] using h.unallocated y hy

/-- A priority change of a thread that is not `READY`. -/
theorem of_eq {s' : Sched} (h : QueueInv P s) (h1 : s'.runQ = s.runQ) (h2 : s'.deadQ = s.deadQ)
    (h3 : s'.state = s.state) (h4 : s'.priority = s.priority) (h5 : s'.nextRec = s.nextRec) :
    QueueInv P s' := by
  obtain ⟨a, b, c, d, e, f⟩ := h
  exact ⟨h1 ▸ a, h2 ▸ b, h1 ▸ h3 ▸ h4 ▸ c, h2 ▸ h3 ▸ d, h1 ▸ h3 ▸ h4 ▸ e, h5 ▸ h3 ▸ f⟩

/-- The outgoing thread of `thread_resched`, on no queue, is put where its next state
belongs. -/
theorem putOld (h : QueueInv P s) (hq : ∀ i, t ∉ s.runQ i) (hd : t ∉ s.deadQ) (hlt : t < s.nextRec)
    (hn : Outgoing (s.nextState t)) : QueueInv P (Sched.putOld P s t) := by
  rcases hn with hn | hn | hn | hn
  · rw [putOld_ready hn]; exact h.enqueueReady hq hd hlt
  · rw [putOld_other (by simp [hn]) (by simp [hn]) (by simp [hn])]
    exact h.setState hq hd hlt (by simp [hn])
  · rw [putOld_other (by simp [hn]) (by simp [hn]) (by simp [hn])]
    exact h.setState hq hd hlt (by simp [hn])
  · rw [putOld_free hn]; exact h.toDeadQ hq hd hlt

theorem withPriority (h : QueueInv P s) (ht : s.state t ≠ .ready) (p : Int) :
    QueueInv P (s.withPriority t p) := by
  constructor
  · exact h.runQ_nodup
  · exact h.deadQ_nodup
  · intro i y hy
    have hyt : y ≠ t := fun he => h.not_mem_runQ ht i (he ▸ hy)
    simpa [update_noteq hyt] using h.runQ_mem i y hy
  · simpa using h.deadQ_mem
  · intro y hy
    have hyt : y ≠ t := fun he => ht (he ▸ hy)
    simpa [update_noteq hyt] using h.ready_mem y hy
  · simpa using h.unallocated

/-- The requeue by `thread_set_priority` of a `READY` thread at a new priority. -/
theorem requeue (h : QueueInv P s) (ht : s.state t = .ready) (p : Int) :
    QueueInv P (((s.threadDequeueThread t).withPriority t p).threadEnqueueRunQ P t) := by
  have hd : t ∉ s.deadQ := h.not_mem_deadQ (by simp [ht])
  have hq : ∀ i, t ∉ (s.runQ i).erase t := fun i => (h.runQ_nodup i).not_mem_erase
  have hmem : ∀ i y, y ∈ (s.runQ i).erase t ↔ y ≠ t ∧ y ∈ s.runQ i :=
    fun i y => (h.runQ_nodup i).mem_erase_iff
  constructor
  · exact nodup_threadEnqueueRunQ (fun i => (h.runQ_nodup i).erase t) hq
  · exact h.deadQ_nodup.erase t
  · intro i y hy
    rcases mem_threadEnqueueRunQ.1 hy with hy | ⟨rfl, hi⟩
    · obtain ⟨hyt, hy⟩ := (hmem i y).1 hy
      simpa [threadEnqueueRunQ_priority, update_noteq hyt] using h.runQ_mem i y hy
    · simp [threadEnqueueRunQ_priority, hi, runLevel_le_max, ht]
  · intro y hy
    exact h.deadQ_mem y (List.mem_of_mem_erase (by simpa using hy))
  · intro y hy
    by_cases hyt : y = t
    · subst hyt
      exact mem_threadEnqueueRunQ.2 (.inr ⟨rfl, by simp [threadEnqueueRunQ_priority]⟩)
    · simp only [threadEnqueueRunQ_state, withPriority_state, threadDequeueThread_state] at hy
      simpa [threadEnqueueRunQ_priority, update_noteq hyt, mem_threadEnqueueRunQ, hmem, hyt]
        using h.ready_mem y hy
  · simpa using h.unallocated

/-- The dequeue of the head of level `i`, which becomes `RUNNING`. -/
theorem runNext (h : QueueInv P s) (hi : s.runQ i = t :: q) : QueueInv P (s.runNext i t q) := by
  have hti : t ∈ s.runQ i := by simp [hi]
  have htr := (h.runQ_mem i t hti).2.1
  have hnd := h.runQ_nodup i
  rw [hi, List.nodup_cons] at hnd
  constructor
  · intro j
    by_cases hj : j = i
    · subst hj; simpa [runNext] using hnd.2
    · simpa [update_noteq hj] using h.runQ_nodup j
  · exact h.deadQ_nodup
  · intro j y hy
    have hyt : y ≠ t := by
      rintro rfl
      by_cases hj : j = i
      · subst hj; simp [hnd.1] at hy
      · exact hj (h.runQ_unique (by simpa [update_noteq hj] using hy) hti)
    have hy' : y ∈ s.runQ j := by
      by_cases hj : j = i
      · subst hj; simp [hi] at hy ⊢; exact .inr hy
      · simpa [update_noteq hj] using hy
    simpa [update_noteq hyt] using h.runQ_mem j y hy'
  · intro y hy
    have hyt : y ≠ t := fun he => by have := h.deadQ_mem y hy; rw [he, htr] at this; cases this
    simpa [update_noteq hyt] using h.deadQ_mem y hy
  · intro y hy
    have hyt : y ≠ t := fun he => by subst he; simp at hy
    have hy' := h.ready_mem y (by simpa [update_noteq hyt] using hy)
    by_cases hj : s.priority y = i
    · simp only [runNext_runQ, runNext_priority, hj, update_same]
      rw [hj, hi] at hy'
      exact (List.mem_cons.1 hy').resolve_left hyt
    · simpa [update_noteq hj] using hy'
  · intro y hy
    have hyt : y ≠ t := fun he => by
      have := h.unallocated y hy; rw [he, htr] at this; cases this
    simpa [update_noteq hyt] using h.unallocated y hy

end QueueInv

namespace SchedInv

theorem not_running_of_queued (h : SchedInv P ncpu s) (hq : t ∈ s.runQ i) (c : Nat) (hc : c < ncpu) :
    s.current c ≠ t := fun he => by
  have := h.current_running c hc
  rw [he, (h.runQ_mem i t hq).2.1] at this; cases this

theorem current_inj (h : SchedInv P ncpu s) {c d : Nat} (hc : c < ncpu) (hd : d < ncpu)
    (he : s.current c = s.current d) : c = d := by
  have h1 := h.current_cpu c hc
  rw [he, h.current_cpu d hd] at h1
  exact (Option.some.inj h1).symm

/-- The wake-up of a blocked thread. -/
protected theorem wakeUp (h : SchedInv P ncpu s) (ht : s.state t = .waiting ∨ s.state t = .suspended) :
    SchedInv P ncpu (Sched.wakeUp P s t) := by
  have hnr : s.state t ≠ .ready := by rcases ht with ht | ht <;> simp [ht]
  have hnc : ∀ c < ncpu, s.current c ≠ t := fun c hc he => by
    have := h.current_running c hc; rw [he] at this; rcases ht with ht | ht <;> simp_all
  refine ⟨h.toQueueInv.enqueueReady (h.not_mem_runQ hnr)
    (h.not_mem_deadQ (by rcases ht with ht | ht <;> simp [ht]))
    (h.lt_nextRec (by rcases ht with ht | ht <;> simp [ht])), ?_, ?_, ?_⟩
  · intro c hc
    simpa [update_noteq (hnc c hc)] using h.current_running c hc
  · intro c hc
    simpa using h.current_cpu c hc
  · intro y hy
    by_cases hyt : y = t
    · subst hyt; simp at hy
    · simp only [wakeUp_eq, threadEnqueueRunQ_state, update_noteq hyt] at hy
      simpa using h.running_current y hy

theorem of_queue {s' : Sched} (h : SchedInv P ncpu s) (hq : QueueInv P s') (h1 : s'.state = s.state)
    (h2 : s'.cpu = s.cpu) (h3 : s'.current = s.current) : SchedInv P ncpu s' :=
  ⟨hq, h1 ▸ h3 ▸ h.current_running, h2 ▸ h3 ▸ h.current_cpu, h1 ▸ h3 ▸ h.running_current⟩

/-- `SchedInv` reads only the queues, the states, the priorities, the CPU fields, the current
threads and the allocation frontier. -/
theorem congr {s' : Sched} (h : SchedInv P ncpu s) (h1 : s'.runQ = s.runQ)
    (h2 : s'.deadQ = s.deadQ) (h3 : s'.state = s.state) (h4 : s'.priority = s.priority)
    (h5 : s'.cpu = s.cpu) (h6 : s'.current = s.current) (h7 : s'.nextRec = s.nextRec) :
    SchedInv P ncpu s' :=
  h.of_queue (h.toQueueInv.of_eq h1 h2 h3 h4 h7) h3 h5 h6

theorem not_ready_current (h : SchedInv P ncpu s) {c : Nat} (hc : c < ncpu) :
    s.state (s.current c) ≠ .ready := by
  rw [h.current_running c hc]; simp

/-- Every `thread_set_priority` from CPU `c`, with any id and any priority. -/
protected theorem threadSetPriority (h : SchedInv P ncpu s) {c : Nat} (hc : c < ncpu) (id p : Int) :
    SchedInv P ncpu (s.threadSetPriority P c id p).1 := by
  simp only [Sched.threadSetPriority]
  split_ifs with h1
  · exact h.of_queue (h.toQueueInv.withPriority (h.not_ready_current hc) _) rfl rfl rfl
  · cases s.threadGetThreadStructLocked id with
    | none => exact h
    | some t =>
      simp only
      split_ifs with h2
      · exact h.of_queue (h.toQueueInv.requeue h2.1 _) rfl rfl rfl
      · by_cases hr : s.state t = .ready
        · have he : clampPriority P p = s.priority t := by
            by_contra hne; exact h2 ⟨hr, fun he => hne he.symm⟩
          rw [he, withPriority_self]; exact h
        · exact h.of_queue (h.toQueueInv.withPriority hr _) rfl rfl rfl

/-- The first half of `thread_resched` on CPU `c` keeps the queues consistent. -/
theorem queueInv_putOld (h : SchedInv P ncpu s) {c : Nat} (hc : c < ncpu)
    (hn : Outgoing (s.nextState (s.current c))) : QueueInv P (putOld P s (s.current c)) := by
  have hrun := h.current_running c hc
  exact h.toQueueInv.putOld (h.not_mem_runQ (by simp [hrun])) (h.not_mem_deadQ (by simp [hrun]))
    (h.lt_nextRec (by simp [hrun])) hn

/-- Every `thread_resched` on CPU `c`, with an outgoing `next_state` the code assigns and any
`_rand()` draws. -/
protected theorem threadResched (h : SchedInv P ncpu s) {c : Nat} (hc : c < ncpu)
    (hn : Outgoing (s.nextState (s.current c))) {rand : Nat → Nat} {now : Int} {s' : Sched}
    (hs : s.threadResched P c rand now = some s') : SchedInv P ncpu s' := by
  have h1 := h.queueInv_putOld hc hn
  have hnr : s.nextState (s.current c) ≠ .running := by rcases hn with hn | hn | hn | hn <;> simp [hn]
  -- the current threads of the other CPUs are untouched by `putOld`
  have hother : ∀ d < ncpu, d ≠ c → s.current d ≠ s.current c := fun d hd hdc he =>
    hdc (h.current_inj hd hc he)
  have hst1 : ∀ y, y ≠ s.current c → (putOld P s (s.current c)).state y = s.state y := fun y hy => by
    simp [update_noteq hy]
  simp only [Sched.threadResched] at hs
  generalize reschedLevel P (putOld P s (s.current c)).runQ rand = i at hs
  split at hs
  · cases hs
  rename_i next rest hqi
  have h2 := h1.runNext hqi
  have hnext : (putOld P s (s.current c)).state next = .ready :=
    (h1.runQ_mem i next (by rw [hqi]; exact List.mem_cons_self _ _)).2.1
  -- a running thread of `s` other than the outgoing one keeps running
  have hkeep : ∀ y, y ≠ next → (putOld P s (s.current c)).state y = .running →
      ∃ d < ncpu, d ≠ c ∧ s.current d = y := fun y hyn hy => by
    have hyo : y ≠ s.current c := fun he => hnr (by simpa [he] using hy)
    obtain ⟨d, hd, rfl⟩ := h.running_current y (by rwa [hst1 y hyo] at hy)
    exact ⟨d, hd, fun hdc => hyo (hdc ▸ rfl), rfl⟩
  have hcur_ne : ∀ d < ncpu, d ≠ c → s.current d ≠ next := fun d hd hdc he => by
    have := hst1 _ (hother d hd hdc); rw [h.current_running d hd, he, hnext] at this; cases this
  split_ifs at hs with heq
  · cases hs
    subst heq
    refine ⟨h2, fun d hd => ?_, fun d hd => by simpa using h.current_cpu d hd, fun y hy => ?_⟩
    · by_cases hdc : d = c
      · subst hdc; simp
      · simpa [update_noteq (hother d hd hdc), hst1 _ (hother d hd hdc)] using h.current_running d hd
    · by_cases hyn : y = s.current c
      · exact ⟨c, hc, by simp [hyn]⟩
      · obtain ⟨d, hd, -, rfl⟩ := hkeep y hyn (by simpa [update_noteq hyn] using hy)
        exact ⟨d, hd, by simp⟩
  · cases hs
    refine ⟨h2.of_eq (by simp) (by simp) (by simp) (by simp) (by simp), fun d hd => ?_,
      fun d hd => ?_, fun y hy => ?_⟩
    · by_cases hdc : d = c
      · subst hdc; simp
      · simpa [update_noteq hdc, update_noteq (hcur_ne d hd hdc), update_noteq (hother d hd hdc)]
          using h.current_running d hd
    · by_cases hdc : d = c
      · subst hdc; simpa [update_noteq heq] using h.current_cpu d hd
      · simpa [update_noteq hdc, update_noteq (hcur_ne d hd hdc), update_noteq (hother d hd hdc)]
          using h.current_cpu d hd
    · by_cases hyn : y = next
      · exact ⟨c, hc, by simp [hyn]⟩
      · obtain ⟨d, hd, hdc, rfl⟩ := hkeep y hyn (by simpa [update_noteq hyn] using hy)
        exact ⟨d, hd, by simp [update_noteq hdc]⟩

/-- A record that is current nowhere and on no queue takes a state other than `READY` and
`RUNNING`. -/
theorem setState (h : SchedInv P ncpu s) (hq : ∀ i, t ∉ s.runQ i) (hd : t ∉ s.deadQ)
    (hlt : t < s.nextRec) (hnc : ∀ c < ncpu, s.current c ≠ t) {st : ThreadState}
    (hr : st ≠ .ready) (hrun : st ≠ .running) : SchedInv P ncpu { s with state := update s.state t st } := by
  refine ⟨h.toQueueInv.setState hq hd hlt hr, fun c hc => ?_, h.current_cpu, fun y hy => ?_⟩
  · simpa [update_noteq (hnc c hc)] using h.current_running c hc
  · by_cases hyt : y = t
    · subst hyt; simp [hrun] at hy
    · exact h.running_current y (by simpa [update_noteq hyt] using hy)

/-- The record `_create_thread` takes, from the dead queue or fresh, is current nowhere and on
no queue once taken. -/
theorem createThreadLocked_fresh (h : SchedInv P ncpu s) :
    let r := s.createThreadLocked P
    (∀ i, r.2 ∉ r.1.runQ i) ∧ r.2 ∉ r.1.deadQ ∧ r.2 < r.1.nextRec ∧
      (∀ c < ncpu, r.1.current c ≠ r.2) ∧ r.1.state r.2 = .birth := by
  have key : (s.state (s.deadQ.headD s.nextRec) = .birth ∨
      s.state (s.deadQ.headD s.nextRec) = .freeOnResched) ∧
      s.deadQ.headD s.nextRec ∉ s.deadQ.tail ∧
      s.deadQ.headD s.nextRec < (if s.deadQ = [] then s.nextRec + 1 else s.nextRec) := by
    cases hd : s.deadQ with
    | nil => exact ⟨.inl (h.unallocated _ le_rfl), by simp, by simp⟩
    | cons t q =>
      have hdn := h.deadQ_nodup; rw [hd, List.nodup_cons] at hdn
      exact ⟨.inr (h.deadQ_mem t (by simp [hd])), hdn.1,
        by simpa using h.lt_nextRec (by rw [h.deadQ_mem t (by simp [hd])]; simp)⟩
  obtain ⟨hst, htl, hlt⟩ := key
  have hnr : s.state (s.deadQ.headD s.nextRec) ≠ .ready := by rcases hst with h' | h' <;> rw [h'] <;> simp
  have hnrun : s.state (s.deadQ.headD s.nextRec) ≠ .running := by
    rcases hst with h' | h' <;> rw [h'] <;> simp
  refine ⟨h.not_mem_runQ hnr, htl, hlt, fun c hc he => hnrun ?_, ?_⟩
  · have := h.current_running c hc
    rwa [show s.current c = s.deadQ.headD s.nextRec from he] at this
  · show update _ (s.deadQ.headD s.nextRec) _ (s.deadQ.headD s.nextRec) = _
    exact update_same _ _ _

/-- The first thread-lock section of `_create_thread`. -/
protected theorem createThreadLocked (h : SchedInv P ncpu s) :
    SchedInv P ncpu (s.createThreadLocked P).1 := by
  obtain ⟨hq, -, hlt, hnc, hb⟩ := h.createThreadLocked_fresh
  simp only [createThreadLocked_snd] at hq hlt hnc hb
  generalize ht : s.deadQ.headD s.nextRec = t at hq hlt hnc hb
  have hrec : s.nextRec ≤ (s.createThreadLocked P).1.nextRec := by
    simp only [createThreadLocked_nextRec]; split_ifs <;> omega
  -- away from the new record, nothing the invariant reads has changed
  have hst : ∀ y, y ≠ t → (s.createThreadLocked P).1.state y = s.state y := fun y hy => by
    rw [createThreadLocked_state, ht, update_noteq hy]
  have hpr : ∀ y, y ≠ t → (s.createThreadLocked P).1.priority y = s.priority y := fun y hy => by
    rw [createThreadLocked_priority, ht, update_noteq hy, update_noteq hy]
  have hcpu : ∀ y, y ≠ t → (s.createThreadLocked P).1.cpu y = s.cpu y := fun y hy => by
    rw [createThreadLocked_cpu, ht, update_noteq hy]
  have hdt : t ∉ s.deadQ.tail := by
    have := (h.createThreadLocked_fresh).2.1
    rwa [createThreadLocked_snd, ht, createThreadLocked_deadQ] at this
  simp only [createThreadLocked_runQ, createThreadLocked_current] at hq hnc
  refine ⟨⟨fun i => by simpa using h.runQ_nodup i,
    by simpa using h.deadQ_nodup.sublist (List.tail_sublist _),
    fun i y hy => ?_, fun y hy => ?_, fun y hy => ?_, fun y hy => ?_⟩,
    fun c hc => ?_, fun c hc => ?_, fun y hy => ?_⟩
  · simp only [createThreadLocked_runQ] at hy
    have hyr : y ≠ t := fun he => hq i (he ▸ hy)
    rw [hst y hyr, hpr y hyr]; exact h.runQ_mem i y hy
  · simp only [createThreadLocked_deadQ] at hy
    have hyr : y ≠ t := fun he => hdt (he ▸ hy)
    rw [hst y hyr]; exact h.deadQ_mem y (List.mem_of_mem_tail hy)
  · have hyr : y ≠ t := fun he => by rw [he, hb] at hy; cases hy
    rw [createThreadLocked_runQ, hpr y hyr]; exact h.ready_mem y (by rwa [hst y hyr] at hy)
  · have hyr : y ≠ t := by omega
    rw [hst y hyr]; exact h.unallocated y (by omega)
  · rw [createThreadLocked_current, hst _ (hnc c hc)]; exact h.current_running c hc
  · rw [createThreadLocked_current, hcpu _ (hnc c hc)]; exact h.current_cpu c hc
  · have hyr : y ≠ t := fun he => by rw [he, hb] at hy; cases hy
    obtain ⟨c, hc, he⟩ := h.running_current y (by rwa [hst y hyr] at hy)
    exact ⟨c, hc, by rw [createThreadLocked_current]; exact he⟩

end SchedInv
end Sched
end NewOS
