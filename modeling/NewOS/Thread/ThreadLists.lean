import NewOS.Proc.ProcTree
import NewOS.Thread.Consistency

/-! # The thread lists of processes

`insert_thread_into_proc` and `remove_thread_from_proc` keep a process's `thread_list`,
`num_threads` and `main_thread`, and the thread's `proc`; the ghost list `inserted` records every
insertion into a process, the latest first. -/
namespace NewOS
open Function

namespace Sched

variable {P : Priorities} {s s' : Sched} {c t : Nat}

/-- A record in use: on no dead queue, and below the allocation frontier. -/
def Live (s : Sched) (t : Nat) : Prop := t ∉ s.deadQ ∧ t < s.nextRec

theorem putOld_deadQ_of_ne (hn : s.nextState t ≠ .freeOnResched) :
    (putOld P s t).deadQ = s.deadQ := by
  unfold putOld; cases h : s.nextState t <;> first | rfl | exact absurd h hn

theorem putOld_nextRec : (putOld P s t).nextRec = s.nextRec := by
  unfold putOld; cases s.nextState t <;> rfl

/-- A reschedule changes the dead queue only where the outgoing thread goes, and neither the
allocation frontier nor the idle threads. -/
theorem threadResched_frame {rand : Nat → Nat} {now : Int}
    (h : s.threadResched P c rand now = some s') :
    s'.deadQ = (putOld P s (s.current c)).deadQ ∧ s'.nextRec = s.nextRec ∧
      s'.idle = s.idle := by
  dsimp only [threadResched] at h
  split at h
  · cases h
  · split_ifs at h <;> cases h <;> simp [runNext, putOld_nextRec]

/-- `thread_set_priority` moves a thread between run queues only. -/
theorem threadSetPriority_frame (h : QueueInv P s) (id p : Int) :
    (s.threadSetPriority P c id p).1.deadQ = s.deadQ ∧
      (s.threadSetPriority P c id p).1.nextRec = s.nextRec ∧
      (s.threadSetPriority P c id p).1.idle = s.idle := by
  dsimp only [threadSetPriority]
  split_ifs
  · exact ⟨rfl, rfl, rfl⟩
  · split
    · exact ⟨rfl, rfl, rfl⟩
    · rename_i u _
      split_ifs with hr
      · refine ⟨?_, rfl, rfl⟩
        simp only [threadEnqueueRunQ_deadQ, withPriority_deadQ, threadDequeueThread_deadQ]
        exact List.erase_of_not_mem (h.not_mem_deadQ (by rw [hr.1]; decide))
      · exact ⟨rfl, rfl, rfl⟩

/-- The record `create_thread_struct` takes becomes the one new record in use. -/
theorem createThreadLocked_live (h : QueueInv P s) (u : Nat) :
    (s.createThreadLocked P).1.Live u ↔ s.Live u ∨ u = (s.createThreadLocked P).2 := by
  show u ∉ s.deadQ.tail ∧ u < (if s.deadQ = [] then s.nextRec + 1 else s.nextRec) ↔
    (u ∉ s.deadQ ∧ u < s.nextRec) ∨ u = s.deadQ.headD s.nextRec
  have hn := h.deadQ_nodup
  cases hd : s.deadQ with
  | nil => simp only [List.tail_nil, List.not_mem_nil, not_false_eq_true, true_and, if_true,
      List.headD_nil]; omega
  | cons t q =>
    have ht : t < s.nextRec := h.lt_nextRec (by rw [h.deadQ_mem t (by simp [hd])]; decide)
    rw [hd, List.nodup_cons] at hn
    simp only [List.tail_cons, reduceCtorEq, if_false, List.headD_cons, List.mem_cons, not_or]
    constructor
    · rintro ⟨hq, hu⟩
      by_cases e : u = t
      · exact .inr e
      · exact .inl ⟨⟨e, hq⟩, hu⟩
    · rintro (⟨⟨-, hq⟩, hu⟩ | rfl)
      · exact ⟨hq, hu⟩
      · exact ⟨hn.1, ht⟩

theorem createThreadLocked_not_live : ¬ s.Live (s.createThreadLocked P).2 := by
  show ¬ (s.deadQ.headD s.nextRec ∉ s.deadQ ∧ s.deadQ.headD s.nextRec < s.nextRec)
  cases s.deadQ with
  | nil => simp
  | cons a q => simp

end Sched

namespace Procs

variable {ps ps' ps'' : Procs} {p t : Nat}

@[simp] theorem insertThreadIntoProc_threadList :
    (ps.insertThreadIntoProc p t).threadList = update ps.threadList p (t :: ps.threadList p) := rfl
@[simp] theorem insertThreadIntoProc_numThreads :
    (ps.insertThreadIntoProc p t).numThreads = update ps.numThreads p (ps.numThreads p + 1) := rfl
theorem insertThreadIntoProc_mainThread :
    (ps.insertThreadIntoProc p t).mainThread =
      if ps.numThreads p + 1 = 1 then update ps.mainThread p (some t) else ps.mainThread := rfl
@[simp] theorem insertThreadIntoProc_threadProc :
    (ps.insertThreadIntoProc p t).threadProc = update ps.threadProc t (some p) := rfl
@[simp] theorem insertThreadIntoProc_inserted :
    (ps.insertThreadIntoProc p t).inserted = update ps.inserted p (t :: ps.inserted p) := rfl

theorem insertThreadIntoProc_mainThread_apply (q : Nat) :
    (ps.insertThreadIntoProc p t).mainThread q =
      if q = p ∧ ps.numThreads p + 1 = 1 then some t else ps.mainThread q := by
  rw [insertThreadIntoProc_mainThread]
  by_cases hq : q = p
  · subst hq; by_cases e : ps.numThreads q + 1 = 1 <;> simp [e]
  · by_cases e : ps.numThreads p + 1 = 1 <;> simp [hq, e]

/-- Membership in a list-valued field after a push at the head of the list of `p`. -/
theorem mem_update_cons {f : Nat → List Nat} {q u : Nat} :
    u ∈ update f p (t :: f p) q ↔ q = p ∧ u = t ∨ u ∈ f q := by
  by_cases e : q = p
  · subst e; simp
  · simp [e]

@[simp] theorem removeThreadFromProc_threadList :
    (ps.removeThreadFromProc p t).threadList = fun q => (ps.threadList q).erase t := rfl
@[simp] theorem removeThreadFromProc_numThreads :
    (ps.removeThreadFromProc p t).numThreads = update ps.numThreads p (ps.numThreads p - 1) := rfl

/-- Two process states that agree on every field the thread lists involve. -/
structure SameThreads (ps ps' : Procs) : Prop where
  threadList : ps'.threadList = ps.threadList
  numThreads : ps'.numThreads = ps.numThreads
  mainThread : ps'.mainThread = ps.mainThread
  state : ps'.state = ps.state
  threadProc : ps'.threadProc = ps.threadProc
  inserted : ps'.inserted = ps.inserted
  nextRec : ps'.nextRec = ps.nextRec
  kernelProc : ps'.kernelProc = ps.kernelProc

/-- The thread lists of the allocated process records, for a notion `live` of records in use
and the kernel process's main thread `main`. -/
structure ThreadLists (ps : Procs) (live : Nat → Prop) (main : Nat) : Prop where
  num : ∀ p < ps.nextRec, ps.numThreads p = (ps.threadList p).length
  nodup : ∀ p < ps.nextRec, (ps.threadList p).Nodup
  list_proc : ∀ p < ps.nextRec, ∀ t ∈ ps.threadList p,
    ps.threadProc t = some p ∧ live t ∧ t ∈ ps.inserted p
  proc_list : ∀ t p, ps.threadProc t = some p → live t → t ∈ ps.threadList p
  main_first : ∀ p < ps.nextRec, ps.mainThread p = (ps.inserted p).getLast?
  main_dead : ∀ p < ps.nextRec, ∀ t, ps.mainThread p = some t → t ∉ ps.threadList p →
    ps.state p = .death
  kernel_lt : ps.kernelProc < ps.nextRec
  kernel_main : ps.mainThread ps.kernelProc = some main
  kernel_alive : ps.state ps.kernelProc ≠ .death

/-- How the thread fields may change over a step: insertions only grow, at the front of a process
that is not dying; the main thread stays; a dying process stays dying. -/
structure ThreadsGrow (ps ps' : Procs) : Prop where
  nextRec_le : ps.nextRec ≤ ps'.nextRec
  inserted : ∀ p < ps.nextRec, ∃ l, ps'.inserted p = l ++ ps.inserted p ∧
    (l ≠ [] → ps.state p ≠ .death)
  main_keep : ∀ p < ps.nextRec, ∀ t, ps.mainThread p = some t → ps'.mainThread p = some t
  death_keep : ∀ p < ps.nextRec, ps.state p = .death → ps'.state p = .death

namespace ThreadsGrow

theorem of_eq (hr : ps'.nextRec = ps.nextRec) (hi : ps'.inserted = ps.inserted)
    (hm : ps'.mainThread = ps.mainThread) (hs : ps'.state = ps.state) : ThreadsGrow ps ps' :=
  ⟨hr.ge, fun p _ => ⟨[], by rw [hi]; rfl, fun h => absurd rfl h⟩,
    fun p _ t h => by rw [hm]; exact h, fun p _ h => by rw [hs]; exact h⟩

theorem of_same (e : SameThreads ps ps') : ThreadsGrow ps ps' :=
  of_eq e.nextRec e.inserted e.mainThread e.state

theorem refl (ps : Procs) : ThreadsGrow ps ps := of_eq rfl rfl rfl rfl

theorem trans (h₁ : ThreadsGrow ps ps') (h₂ : ThreadsGrow ps' ps'') : ThreadsGrow ps ps'' where
  nextRec_le := h₁.nextRec_le.trans h₂.nextRec_le
  inserted p hp := by
    obtain ⟨l₁, e₁, a₁⟩ := h₁.inserted p hp
    obtain ⟨l₂, e₂, a₂⟩ := h₂.inserted p (lt_of_lt_of_le hp h₁.nextRec_le)
    refine ⟨l₂ ++ l₁, by rw [e₂, e₁, List.append_assoc], fun hne => ?_⟩
    by_cases h : l₁ = []
    · subst h
      exact fun hd => a₂ (by simpa using hne) (h₁.death_keep p hp hd)
    · exact a₁ h
  main_keep p hp t h :=
    h₂.main_keep p (lt_of_lt_of_le hp h₁.nextRec_le) t (h₁.main_keep p hp t h)
  death_keep p hp h := h₂.death_keep p (lt_of_lt_of_le hp h₁.nextRec_le) (h₁.death_keep p hp h)

end ThreadsGrow

namespace ThreadLists

variable {live live' : Nat → Prop} {main : Nat}

theorem of_same (h : ThreadLists ps live main) (e : SameThreads ps ps') :
    ThreadLists ps' live main := by
  obtain ⟨e₁, e₂, e₃, e₄, e₅, e₆, e₇, e₈⟩ := e
  exact ⟨e₇ ▸ e₁ ▸ e₂ ▸ h.num, e₇ ▸ e₁ ▸ h.nodup, e₇ ▸ e₁ ▸ e₅ ▸ e₆ ▸ h.list_proc,
    e₁ ▸ e₅ ▸ h.proc_list, e₇ ▸ e₃ ▸ e₆ ▸ h.main_first, e₇ ▸ e₃ ▸ e₁ ▸ e₄ ▸ h.main_dead,
    e₇ ▸ e₈ ▸ h.kernel_lt, e₈ ▸ e₃ ▸ h.kernel_main, e₈ ▸ e₄ ▸ h.kernel_alive⟩

/-- A change of which records are in use that no thread on a list, and no thread naming a
process, notices. -/
theorem mono (h : ThreadLists ps live main)
    (hl : ∀ p < ps.nextRec, ∀ t ∈ ps.threadList p, live' t)
    (hl' : ∀ t p, ps.threadProc t = some p → live' t → live t) : ThreadLists ps live' main :=
  { h with
    list_proc := fun p hp t ht =>
      ⟨(h.list_proc p hp t ht).1, hl p hp t ht, (h.list_proc p hp t ht).2.2⟩
    proc_list := fun t p hp hl'' => h.proc_list t p hp (hl' t p hp hl'') }

theorem mainThread_mem (h : ThreadLists ps live main) (hp : p < ps.nextRec)
    (hs : ps.state p ≠ .death) {m : Nat} (hm : ps.mainThread p = some m) :
    m ∈ ps.threadList p :=
  by_contra fun hn => hs (h.main_dead p hp m hm hn)

/-- A process that is not dying has had a thread inserted exactly when its list is
non-empty. -/
theorem inserted_eq_nil_iff (h : ThreadLists ps live main) (hp : p < ps.nextRec)
    (hs : ps.state p ≠ .death) : ps.inserted p = [] ↔ ps.numThreads p = 0 := by
  rw [h.num p hp, Int.ofNat_eq_zero, List.length_eq_zero]
  constructor
  · intro hi
    exact List.eq_nil_iff_forall_not_mem.2 fun u hu => by
      simpa [hi] using (h.list_proc p hp u hu).2.2
  · intro hn
    by_contra hne
    obtain ⟨m, hm⟩ := Option.ne_none_iff_exists'.1 (mt List.getLast?_eq_none_iff.1 hne)
    have := h.mainThread_mem hp hs ((h.main_first p hp).trans hm)
    rw [hn] at this
    exact List.not_mem_nil _ this

theorem not_mem_of_not_live (h : ThreadLists ps live main) (ht : ¬ live t) :
    ∀ q < ps.nextRec, t ∉ ps.threadList q :=
  fun q hq hm => ht (h.list_proc q hq t hm).2.1

/-- `insert_thread_into_proc(p, t)` for a live process `p` and a thread on no list: the
thread is in use from then on. -/
theorem insert (h : ThreadLists ps live main) (hp : p < ps.nextRec) (hs : ps.state p ≠ .death)
    (ht : ∀ q < ps.nextRec, t ∉ ps.threadList q) :
    ThreadLists (ps.insertThreadIntoProc p t) (fun u => live u ∨ u = t) main ∧
      ThreadsGrow ps (ps.insertThreadIntoProc p t) := by
  have hfirst : ps.numThreads p + 1 = 1 ↔ ps.inserted p = [] := by
    rw [h.inserted_eq_nil_iff hp hs]; omega
  have hkeep : ∀ q u, ps.mainThread q = some u →
      (ps.insertThreadIntoProc p t).mainThread q = some u := by
    intro q u hu
    rw [insertThreadIntoProc_mainThread_apply, if_neg]
    · exact hu
    · rintro ⟨rfl, e⟩
      rw [h.main_first _ hp, hfirst.1 e] at hu
      cases hu
  refine ⟨⟨fun q hq => ?_, fun q hq => ?_, fun q hq u hu => ?_, fun u q hu hl => ?_,
    fun q hq => ?_, fun q hq u hu hn => ?_, h.kernel_lt, hkeep _ _ h.kernel_main, h.kernel_alive⟩,
    ⟨le_rfl, fun q hq => ?_, fun q _ => hkeep q, fun q _ hd => hd⟩⟩
  · by_cases e : q = p
    · subst e; simp [h.num q hq]
    · simp [e, h.num q hq]
  · by_cases e : q = p
    · subst e; simpa using ⟨ht q hq, h.nodup q hq⟩
    · simpa [e] using h.nodup q hq
  · rw [insertThreadIntoProc_threadList, mem_update_cons] at hu
    rcases hu with ⟨rfl, rfl⟩ | hu
    · simp
    · have hut : u ≠ t := fun e => ht q hq (e ▸ hu)
      obtain ⟨h₁, h₂, h₃⟩ := h.list_proc q hq u hu
      exact ⟨(update_noteq hut _ _).trans h₁, .inl h₂, mem_update_cons.2 (.inr h₃)⟩
  · rw [insertThreadIntoProc_threadList, mem_update_cons]
    by_cases hut : u = t
    · subst hut
      simp only [insertThreadIntoProc_threadProc, update_same, Option.some.injEq] at hu
      exact .inl ⟨hu.symm, rfl⟩
    · rw [insertThreadIntoProc_threadProc, update_noteq hut] at hu
      exact .inr (h.proc_list u q hu (hl.resolve_right hut))
  · rw [insertThreadIntoProc_mainThread_apply, insertThreadIntoProc_inserted]
    by_cases e : q = p
    · subst e
      by_cases e₁ : ps.numThreads q + 1 = 1
      · simp [e₁, hfirst.1 e₁]
      · obtain ⟨x, xs, hx⟩ := List.exists_cons_of_ne_nil (mt hfirst.2 e₁)
        simp [e₁, h.main_first q hq, hx, List.getLast?_cons_cons]
    · simp [e, h.main_first q hq]
  · rw [insertThreadIntoProc_mainThread_apply] at hu
    rw [insertThreadIntoProc_threadList, mem_update_cons, not_or] at hn
    split_ifs at hu with e
    · cases hu; exact absurd ⟨e.1, rfl⟩ hn.1
    · exact h.main_dead q hq u hu hn.2
  · by_cases e : q = p
    · subst e; exact ⟨[t], by simp, fun _ => hs⟩
    · exact ⟨[], by simp [e], fun h => absurd rfl h⟩

/-- `remove_thread_from_proc(p, t)` for a thread in use that names `p`, where `p` is dying if
`t` is its main thread: from then on the lists treat `t` as not in use. -/
theorem remove (h : ThreadLists ps live main) (hp : p < ps.nextRec) (ht : ps.threadProc t = some p)
    (hl : live t) (hm : ps.mainThread p = some t → ps.state p = .death) :
    ThreadLists (ps.removeThreadFromProc p t) (fun u => live u ∧ u ≠ t) main ∧
      ThreadsGrow ps (ps.removeThreadFromProc p t) := by
  have htp := h.proc_list t p ht hl
  have hown : ∀ q < ps.nextRec, t ∈ ps.threadList q → q = p := fun q hq hm =>
    Option.some.inj ((h.list_proc q hq t hm).1.symm.trans ht)
  refine ⟨⟨fun q hq => ?_, fun q hq => (h.nodup q hq).erase t, fun q hq u hu => ?_,
    fun u q hu hl' => ?_, h.main_first, fun q hq u hu hn => ?_, h.kernel_lt, h.kernel_main,
    h.kernel_alive⟩, .of_eq rfl rfl rfl rfl⟩
  · by_cases e : q = p
    · subst e
      have := List.length_pos_of_mem htp
      simp only [removeThreadFromProc_numThreads, removeThreadFromProc_threadList, update_same,
        List.length_erase_of_mem htp, h.num q hq]
      omega
    · have hn : t ∉ ps.threadList q := fun hm => e (hown q hq hm)
      simp [e, List.erase_of_not_mem hn, h.num q hq]
  · obtain ⟨hut, hu⟩ := ((h.nodup q hq).mem_erase_iff).1 hu
    obtain ⟨h₁, h₂, h₃⟩ := h.list_proc q hq u hu
    exact ⟨h₁, ⟨h₂, hut⟩, h₃⟩
  · exact (List.mem_erase_of_ne hl'.2).2 (h.proc_list u q hu hl'.1)
  · by_cases hu' : u ∈ ps.threadList q
    · have hut : u = t := by_contra fun e => hn ((List.mem_erase_of_ne e).2 hu')
      subst hut
      obtain rfl := hown q hq hu'
      exact hm hu
    · exact h.main_dead q hq u hu hu'

/-- The process `p` becomes `PROC_STATE_DEATH`. -/
theorem kill (h : ThreadLists ps live main) (hk : p ≠ ps.kernelProc) :
    ThreadLists { ps with state := update ps.state p .death } live main ∧
      ThreadsGrow ps { ps with state := update ps.state p .death } := by
  refine ⟨{ h with main_dead := fun q hq u hu hn => ?_, kernel_alive := ?_ },
    ⟨le_rfl, fun q _ => ⟨[], rfl, fun h => absurd rfl h⟩, fun q _ u hu => hu,
      fun q _ hd => ?_⟩⟩
  · by_cases e : q = p
    · subst e; exact update_same _ _ _
    · exact (update_noteq e _ _).trans (h.main_dead q hq u hu hn)
  · show update ps.state p .death ps.kernelProc ≠ .death
    rw [update_noteq hk.symm]; exact h.kernel_alive
  · by_cases e : q = p
    · subst e; exact update_same _ _ _
    · exact (update_noteq e _ _).trans hd

/-- The thread `t`, on no list, names no process any more: `create_thread_struct` clears its
`proc`. -/
theorem clearProc (h : ThreadLists ps live main) (ht : ∀ q < ps.nextRec, t ∉ ps.threadList q) :
    ThreadLists { ps with threadProc := update ps.threadProc t none } live main ∧
      ThreadsGrow ps { ps with threadProc := update ps.threadProc t none } := by
  refine ⟨{ h with list_proc := fun q hq u hu => ?_, proc_list := fun u q hu hl => ?_ },
    .of_eq rfl rfl rfl rfl⟩
  · have hut : u ≠ t := fun e => ht q hq (e ▸ hu)
    obtain ⟨h₁, h₂, h₃⟩ := h.list_proc q hq u hu
    exact ⟨(update_noteq hut _ _).trans h₁, h₂, h₃⟩
  · have hut : u ≠ t := by rintro rfl; simp at hu
    exact h.proc_list u q ((update_noteq hut _ _).symm.trans hu) hl

/-- `create_proc_struct` allocates a record that no thread names. -/
theorem createProcStruct (h : ThreadLists ps live main)
    (hf : ∀ t, ps.threadProc t ≠ some ps.nextRec) :
    ThreadLists ps.createProcStruct.1 live main ∧ ThreadsGrow ps ps.createProcStruct.1 := by
  have hk : ps.kernelProc ≠ ps.nextRec := h.kernel_lt.ne
  have hold : ∀ {α} (f : Nat → α) (v : α) (q : Nat), q < ps.nextRec →
      update f ps.nextRec v q = f q :=
    fun f v q hq => update_noteq hq.ne _ _
  have hlt : ∀ q, q < ps.nextRec + 1 → q ≠ ps.nextRec → q < ps.nextRec := fun q _ _ => by omega
  refine ⟨⟨fun q hq => ?_, fun q hq => ?_, fun q hq u hu => ?_, fun u q hu hl => ?_,
    fun q hq => ?_, fun q hq u hu hn => ?_, Nat.lt_succ_of_lt h.kernel_lt, ?_, ?_⟩,
    ⟨Nat.le_succ _, fun q hq => ⟨[], by
        show update ps.inserted ps.nextRec [] q = [] ++ ps.inserted q
        rw [hold _ _ q hq]; rfl, fun h => absurd rfl h⟩,
      fun q hq u hu => (hold _ _ q hq).trans hu, fun q hq hd => (hold _ _ q hq).trans hd⟩⟩
  all_goals simp only [Procs.createProcStruct] at *
  · by_cases e : q = ps.nextRec
    · subst e; simp
    · simp [e, h.num q (hlt q hq e)]
  · by_cases e : q = ps.nextRec
    · subst e; simp
    · simpa [e] using h.nodup q (hlt q hq e)
  · by_cases e : q = ps.nextRec
    · subst e; simp at hu
    · simp only [update_noteq e] at hu ⊢
      exact h.list_proc q (hlt q hq e) u hu
  · have e : q ≠ ps.nextRec := fun e => hf u (e ▸ hu)
    simpa [e] using h.proc_list u q hu hl
  · by_cases e : q = ps.nextRec
    · subst e; simp
    · simp [e, h.main_first q (hlt q hq e)]
  · by_cases e : q = ps.nextRec
    · subst e; simp at hu
    · simp only [update_noteq e] at hu hn ⊢
      exact h.main_dead q (hlt q hq e) u hu hn
  · rw [update_noteq hk]; exact h.kernel_main
  · rw [update_noteq hk]; exact h.kernel_alive

end ThreadLists
end Procs

/-- The operations as the code performs them: `FREE_ON_RESCHED` is the next state that
`thread_exit2` alone gives a thread, so a plain reschedule never passes it. -/
def Op.Ordinary : Op → Prop
  | .resched _ ns _ _ => ns ≠ .freeOnResched
  | _ => True

namespace Kernel
open Procs Sched

variable {P : Priorities} {ncpu : Nat} {ok : Op → Prop} {k k' : Kernel} {c : Nat}

/-- The current thread of a CPU is in use. -/
theorem live_current (hs : SchedInv P ncpu k.sched) (hc : c < ncpu) :
    k.sched.Live (k.sched.current c) := by
  have hr := hs.current_running c hc
  exact ⟨hs.not_mem_deadQ (by rw [hr]; decide), hs.lt_nextRec (by rw [hr]; decide)⟩

/-- `_create_thread`, whether it inserts the new thread into its process or aborts with
`ERR_TASK_PROC_DELETED`. -/
theorem threadLists_createThread (hs : SchedInv P ncpu k.sched) (hr : RecInv k.procs)
    (h : k.procs.ThreadLists k.sched.Live (k.sched.idle 0)) (pid : Int) :
    (k.createThread P pid).1.procs.ThreadLists (k.createThread P pid).1.sched.Live
      ((k.createThread P pid).1.sched.idle 0) ∧
      ThreadsGrow k.procs (k.createThread P pid).1.procs := by
  have hoff := h.not_mem_of_not_live (createThreadLocked_not_live (P := P))
  have hlive := createThreadLocked_live (P := P) hs.toQueueInv
  obtain ⟨h₁, g₁⟩ := h.clearProc hoff
  -- on abort the new record is on no list and names no process
  have habort := h₁.mono
    (fun q hq u hu => (hlive u).2 (.inl (h₁.list_proc q hq u hu).2.1))
    fun u q hu hl => ((hlive u).1 hl).resolve_right (by rintro rfl; simp at hu)
  simp only [createThread, createThreadPublish, createThreadAttach]
  split
  · rename_i p hp
    split_ifs with hd
    · obtain ⟨h₂, g₂⟩ := h₁.insert (hr.hash_lt p (List.mem_of_find?_eq_some hp)) hd hoff
      exact ⟨h₂.mono (fun q hq u hu => (hlive u).2 (h₂.list_proc q hq u hu).2.1)
        (fun u q _ hl => (hlive u).1 hl), g₁.trans g₂⟩
    · exact ⟨habort, g₁⟩
  · exact ⟨habort, g₁⟩

/-- The first part of `thread_exit`: outside the kernel process the thread moves into the
kernel process, and its process dies with its main thread. -/
theorem threadLists_exitBegin (hs : SchedInv P ncpu k.sched) (hr : RecInv k.procs) (hc : c < ncpu)
    (h : k.procs.ThreadLists k.sched.Live (k.sched.idle 0)) :
    (k.exitBegin P c).procs.ThreadLists (k.exitBegin P c).sched.Live
      ((k.exitBegin P c).sched.idle 0) ∧ ThreadsGrow k.procs (k.exitBegin P c).procs := by
  have hsched : (k.exitBegin P c).sched =
      (k.sched.threadSetPriority P c (k.sched.tid (k.sched.current c)) P.high).1 := by
    dsimp only [exitBegin]; split
    · split_ifs <;> rfl
    · rfl
  obtain ⟨hd, hn, hi⟩ := threadSetPriority_frame (P := P) (c := c) hs.toQueueInv
    (k.sched.tid (k.sched.current c)) P.high
  have hL : (k.exitBegin P c).sched.Live = k.sched.Live := by
    funext u; rw [hsched]; simp only [Live, hd, hn]
  rw [hL, hsched, hi]
  have ht := live_current hs hc
  dsimp only [exitBegin]
  split
  · rename_i p hp
    have hpl := hr.threadProc_lt _ p hp
    -- the thread, off every list, joins the kernel process
    have hmove : ∀ {ps : Procs},
        ps.ThreadLists (fun u => k.sched.Live u ∧ u ≠ k.sched.current c) (k.sched.idle 0) →
        (ps.insertThreadIntoProc ps.kernelProc (k.sched.current c)).ThreadLists
          k.sched.Live (k.sched.idle 0) ∧
        ThreadsGrow ps (ps.insertThreadIntoProc ps.kernelProc (k.sched.current c)) := by
      intro ps h₁
      obtain ⟨h₂, g₂⟩ := h₁.insert h₁.kernel_lt h₁.kernel_alive
        (h₁.not_mem_of_not_live fun hl => hl.2 rfl)
      exact ⟨h₂.mono (fun q hq u hu => (h₂.list_proc q hq u hu).2.1.elim And.left (· ▸ ht))
        fun u _ _ hl => (em (u = k.sched.current c)).elim .inr fun e => .inl ⟨hl, e⟩, g₂⟩
    split_ifs with hk hm
    · obtain ⟨h₀, g₀⟩ := h.kill hk
      obtain ⟨h₁, g₁⟩ := h₀.remove hpl hp ht fun _ => update_same _ _ _
      obtain ⟨h₂, g₂⟩ := hmove h₁
      exact ⟨h₂, g₀.trans (g₁.trans g₂)⟩
    · obtain ⟨h₁, g₁⟩ := h.remove hpl hp ht fun e => absurd e hm
      obtain ⟨h₂, g₂⟩ := hmove h₁
      exact ⟨h₂, g₁.trans g₂⟩
    · exact ⟨h, .refl _⟩
  · exact ⟨h, .refl _⟩

/-- `thread_exit2`: the exiting thread leaves the kernel process, whose main thread is an idle
thread and so never exits, and its record goes to the dead queue. -/
theorem threadLists_exitFinish (hs : SchedInv P ncpu k.sched) (hc : c < ncpu) (hn : 0 < ncpu)
    (hidle : ∀ d < ncpu, k.sched.current c ≠ k.sched.idle d)
    (hkp : k.curProc c = some k.procs.kernelProc)
    (h : k.procs.ThreadLists k.sched.Live (k.sched.idle 0)) {rand : Nat → Nat} {now : Int}
    (he : k.exitFinish P c rand now = some k') :
    k'.procs.ThreadLists k'.sched.Live (k'.sched.idle 0) ∧ ThreadsGrow k.procs k'.procs := by
  unfold exitFinish at he
  have hp := threadResched_procs he
  obtain ⟨hd, hnr, hi⟩ := threadResched_frame (threadResched_sched he)
  rw [putOld_free (by exact update_same _ _ _)] at hd
  obtain ⟨h₁, g₁⟩ := h.remove h.kernel_lt hkp (live_current hs hc) fun e =>
    absurd (Option.some.inj (h.kernel_main.symm.trans e)).symm (hidle 0 hn)
  have hL : ∀ u, k'.sched.Live u ↔ k.sched.Live u ∧ u ≠ k.sched.current c := fun u => by
    simp only [Live, hd, hnr, threadEnqueue, List.mem_append, List.mem_singleton, not_or]
    tauto
  rw [hp, hi]
  exact ⟨h₁.mono (fun q hq u hu => (hL u).2 (h₁.list_proc q hq u hu).2.1)
    fun u _ _ hl => (hL u).1 hl, g₁⟩

/-- A successful `proc_create_proc`: a fresh record, then the first thread into it. -/
theorem threadLists_createProc (hs : SchedInv P ncpu k.sched) (hr : RecInv k.procs)
    (h : k.procs.ThreadLists k.sched.Live (k.sched.idle 0)) {ns np : Bool} {aspace : Int}
    (he : k.createProc P c ns np aspace = some k') :
    k'.procs.ThreadLists k'.sched.Live (k'.sched.idle 0) ∧ ThreadsGrow k.procs k'.procs := by
  obtain ⟨k₁, p, tid, hpub, hct⟩ := createProc_some he
  obtain ⟨hsc, -, cp, -, hl⟩ := createProcPublish_some hpub
  have hr₁ := hr.procCreateProcLocked hl
  obtain ⟨h₁, g₁⟩ := h.createProcStruct fun t e => lt_irrefl _ (hr.threadProc_lt t _ e)
  have e₁ : SameThreads k.procs.createProcStruct.1 k₁.procs := by
    obtain ⟨rfl, _, _, _, _, _, -, e⟩ := procCreateProcLocked_eq hl
    rw [e]; exact ⟨rfl, rfl, rfl, rfl, rfl, rfl, rfl, rfl⟩
  set k₂ : Kernel :=
    { k₁ with procs := { k₁.procs with aspaceId := update k₁.procs.aspaceId p aspace } }
  have e₂ : SameThreads k₁.procs k₂.procs := ⟨rfl, rfl, rfl, rfl, rfl, rfl, rfl, rfl⟩
  have hk₂ : k₂.sched = k.sched := hsc
  obtain ⟨h₃, g₃⟩ := threadLists_createThread (P := P) (k := k₂) (hk₂ ▸ hs)
    ⟨hr₁.nextProcId_eq, hr₁.pid_eq, hr₁.hash_lt, hr₁.kernel_mem, hr₁.threadProc_lt⟩
    (hk₂ ▸ (h₁.of_same e₁).of_same e₂) (k₁.procs.pid p)
  rw [hct] at h₃ g₃
  exact ⟨h₃, g₁.trans <| (ThreadsGrow.of_same e₁).trans <| (ThreadsGrow.of_same e₂).trans g₃⟩

/-- Every step of the code keeps the thread lists, and lets them grow as `ThreadsGrow` says. -/
theorem threadLists_step (hs : SchedInv P ncpu k.sched) (hr : RecInv k.procs) (hn : 0 < ncpu)
    (h : k.procs.ThreadLists k.sched.Live (k.sched.idle 0)) {op : Op} (hop : op.Ordinary)
    (hst : step P ncpu k op = some k') :
    k'.procs.ThreadLists k'.sched.Live (k'.sched.idle 0) ∧ ThreadsGrow k.procs k'.procs := by
  cases op with
  | resched c ns rand now =>
    simp only [step] at hst
    split_ifs at hst with hc
    have hp := threadResched_procs hst
    obtain ⟨hd, hnr, hi⟩ := threadResched_frame (threadResched_sched hst)
    rw [putOld_deadQ_of_ne (by exact (update_same _ _ _).trans_ne hop)] at hd
    have hL : k'.sched.Live = k.sched.Live := by funext u; simp only [Live, hd, hnr]
    rw [hp, hL, hi]
    exact ⟨h, .refl _⟩
  | wakeUp t =>
    simp only [step] at hst
    split_ifs at hst
    cases hst
    exact ⟨h, .refl _⟩
  | setPriority c id pr =>
    simp only [step] at hst
    split_ifs at hst
    cases hst
    obtain ⟨hd, hnr, hi⟩ := threadSetPriority_frame (P := P) (c := c) hs.toQueueInv id pr
    have hL : (k.sched.threadSetPriority P c id pr).1.Live = k.sched.Live := by
      funext u; simp only [Live, hd, hnr]
    exact ⟨hL ▸ hi ▸ h, .refl _⟩
  | createThread pid =>
    cases hst
    exact threadLists_createThread hs hr h pid
  | exitBegin c =>
    simp only [step] at hst
    split_ifs at hst with hc
    cases hst
    exact threadLists_exitBegin hs hr hc.1 h
  | teardown p =>
    simp only [step] at hst
    split_ifs at hst
    obtain ⟨ps, hps, rfl⟩ := Option.map_eq_some'.1 hst
    have e : SameThreads k.procs ps := by
      rw [teardown_frame hps]; exact ⟨rfl, rfl, rfl, rfl, rfl, rfl, rfl, rfl⟩
    exact ⟨h.of_same e, .of_same e⟩
  | exitFinish c rand now =>
    simp only [step] at hst
    split_ifs at hst with hc
    exact threadLists_exitFinish hs hc.1 hn hc.2.1 hc.2.2 h hst
  | createProc c ns np aspace =>
    simp only [step] at hst
    split_ifs at hst
    exact threadLists_createProc hs hr h hst
  | setpgid c pid pgid =>
    simp only [step] at hst
    split_ifs at hst
    obtain ⟨cp, -, hst⟩ := Option.bind_eq_some.1 hst
    obtain ⟨⟨ps, r⟩, hps, rfl⟩ := Option.map_eq_some'.1 hst
    have e : SameThreads k.procs ps := by
      rw [setpgid_frame hps]; exact ⟨rfl, rfl, rfl, rfl, rfl, rfl, rfl, rfl⟩
    exact ⟨h.of_same e, .of_same e⟩
  | setsid c =>
    simp only [step] at hst
    split_ifs at hst
    obtain ⟨cp, -, hst⟩ := Option.bind_eq_some.1 hst
    obtain ⟨⟨ps, r⟩, hps, rfl⟩ := Option.map_eq_some'.1 hst
    have e : SameThreads k.procs ps := by
      rw [setsid_frame hps]; exact ⟨rfl, rfl, rfl, rfl, rfl, rfl, rfl, rfl⟩
    exact ⟨h.of_same e, .of_same e⟩

theorem threadLists_init (hn : 0 < ncpu) :
    (init P ncpu).procs.ThreadLists (init P ncpu).sched.Live ((init P ncpu).sched.idle 0) := by
  have h0 : (List.range ncpu).reverse.getLast? = some 0 := by
    obtain ⟨n, rfl⟩ := Nat.exists_eq_add_of_lt hn
    simp [List.getLast?_reverse, List.range_succ_eq_map]
  refine ⟨fun p hp => ?_, fun p hp => ?_, fun p hp t ht => ?_, fun t p hp hl => ?_,
    fun p hp => ?_, fun p hp t ht hn' => ?_, Nat.one_pos, rfl, by simp [init]⟩
  all_goals simp only [init, Live, Nat.lt_one_iff, List.mem_reverse, List.mem_range] at *
  · simp
  · exact List.nodup_reverse.2 (List.nodup_range ncpu)
  · subst hp; simp [ht]
  · split_ifs at hp with h₁
    · cases hp; simpa using h₁
  · exact h0.symm
  · cases ht; exact absurd hn hn'

theorem threadLists_of_reachable (hn : 0 < ncpu) (hok : ∀ op, ok op → op.Ordinary)
    (hk : Reachable P ncpu ok k) : k.procs.ThreadLists k.sched.Live (k.sched.idle 0) := by
  induction hk with
  | init => exact threadLists_init hn
  | step reach hop hs ih =>
    exact (threadLists_step (schedInv_of_reachable reach) (recInv_of_reachable reach) hn ih
      (hok _ hop) hs).1

/-- A step allocates process records only in `proc_create_proc`, which leaves them in
`PROC_STATE_BIRTH`. -/
theorem step_fresh_birth {op : Op} (hst : step P ncpu k op = some k') {p : Nat}
    (h₁ : k.procs.nextRec ≤ p) (h₂ : p < k'.procs.nextRec) : k'.procs.state p = .birth := by
  rcases step_procs_cases hst with e | ⟨pid, rfl⟩ | ⟨c, -, -, rfl⟩ | ⟨c, -, -, e⟩ |
    ⟨q, ps, -, -, -, -, htd, rfl⟩ | ⟨c, ns, np, aspace, k₁, q, tid, -, -, hpub, hct⟩ |
    ⟨c, cp, pid, pgid, ps, r, -, hps, rfl⟩ | ⟨c, cp, ps, r, -, hps, rfl⟩
  · rw [e] at h₂; omega
  · obtain ⟨_, _, _, _, _, e⟩ := createThread_procs_eq (P := P) (k := k) pid
    rw [e] at h₂; exact absurd h₂ (not_lt.2 h₁)
  · obtain ⟨_, _, _, _, _, _, e⟩ := exitBegin_procs_eq (P := P) (k := k) (c := c)
    rw [e] at h₂; exact absurd h₂ (not_lt.2 h₁)
  · rw [e] at h₂; exact absurd h₂ (not_lt.2 h₁)
  · rw [teardown_frame htd] at h₂; exact absurd h₂ (not_lt.2 h₁)
  · obtain ⟨-, -, cp, -, hl⟩ := createProcPublish_some hpub
    obtain ⟨rfl, _, _, _, _, _, -, e₁⟩ := procCreateProcLocked_eq hl
    obtain ⟨_, _, _, _, _, e⟩ := createThread_procs_eq (P := P)
      (k := { k₁ with procs :=
        { k₁.procs with aspaceId := update k₁.procs.aspaceId k.procs.nextRec aspace } })
      (k₁.procs.pid k.procs.nextRec)
    rw [hct] at e
    have e' : k'.procs = _ := e
    rw [e', e₁] at h₂ ⊢
    obtain rfl : p = k.procs.nextRec := by change p < k.procs.nextRec + 1 at h₂; omega
    exact update_same _ _ _
  · rw [setpgid_frame hps] at h₂; exact absurd h₂ (not_lt.2 h₁)
  · rw [setsid_frame hps] at h₂; exact absurd h₂ (not_lt.2 h₁)

/-- An aborted `_create_thread` (`ERR_TASK_PROC_DELETED`) leaves `thread_hash` and every thread
list as they were: the record it published is withdrawn again. -/
theorem createThread_abort {pid : Int} {e : KernErr} (h : (k.createThread P pid).2 = .error e) :
    (k.createThread P pid).1.sched.threadHash = k.sched.threadHash ∧
      (k.createThread P pid).1.procs.threadList = k.procs.threadList := by
  revert h
  simp only [createThread, createThreadPublish, createThreadAttach]
  split
  · split_ifs
    · intro h; cases h
    · intro _; exact ⟨List.erase_cons_head _ _, rfl⟩
  · intro _; exact ⟨List.erase_cons_head _ _, rfl⟩

/-- The thread lists are consistent in every reachable state, and a step never reassigns a main
thread nor inserts into a dying process. -/
theorem threadLists_consistent (hn : 0 < ncpu) (hok : ∀ op, ok op → op.Ordinary)
    (hk : Reachable P ncpu ok k) :
    (∀ p < k.procs.nextRec,
      k.procs.numThreads p = (k.procs.threadList p).length ∧
      (∀ t ∈ k.procs.threadList p, k.procs.threadProc t = some p) ∧
      k.procs.mainThread p = (k.procs.inserted p).getLast? ∧
      ∀ t, k.procs.mainThread p = some t → t ∉ k.procs.threadList p → k.procs.state p = .death) ∧
    (∀ p < k.procs.nextRec, ∀ q < k.procs.nextRec, ∀ t,
      t ∈ k.procs.threadList p → t ∈ k.procs.threadList q → p = q) ∧
    (∀ op k', ok op → step P ncpu k op = some k' →
      (∀ p < k.procs.nextRec, ∀ t, k.procs.mainThread p = some t → k'.procs.mainThread p = some t) ∧
      ∀ p < k'.procs.nextRec, k'.procs.inserted p ≠ k.procs.inserted p →
        (p < k.procs.nextRec ∧ k.procs.state p ≠ .death) ∨
        (k.procs.nextRec ≤ p ∧ k'.procs.state p = .birth)) ∧
    ∀ pid e, (k.createThread P pid).2 = .error e →
      (k.createThread P pid).1.sched.threadHash = k.sched.threadHash ∧
      (k.createThread P pid).1.procs.threadList = k.procs.threadList := by
  have h := threadLists_of_reachable hn hok hk
  refine ⟨fun p hp => ⟨h.num p hp, fun t ht => (h.list_proc p hp t ht).1, h.main_first p hp,
    h.main_dead p hp⟩, fun p hp q hq t hp' hq' => ?_, fun op k' hop hs => ?_,
    fun _ _ he => createThread_abort he⟩
  · exact Option.some.inj ((h.list_proc p hp t hp').1.symm.trans (h.list_proc q hq t hq').1)
  · have g := (threadLists_step (schedInv_of_reachable hk) (recInv_of_reachable hk) hn h
      (hok op hop) hs).2
    refine ⟨g.main_keep, fun p _ hne => ?_⟩
    by_cases hp : p < k.procs.nextRec
    · obtain ⟨l, e, ha⟩ := g.inserted p hp
      exact .inl ⟨hp, ha fun hl => hne (by rw [e, hl]; rfl)⟩
    · exact .inr ⟨not_lt.1 hp, step_fresh_birth hs (not_lt.1 hp) ‹_›⟩

theorem threadLists_consistent_new_proc :
    ∃ k, run Priorities.sample 1 (init Priorities.sample 1)
        [.createProc 0 false false 0, .wakeUp 1, .resched 0 .ready (fun _ => 0x3001) 0] = some k ∧
    (∀ p < k.procs.nextRec,
      k.procs.numThreads p = (k.procs.threadList p).length ∧
      (∀ t ∈ k.procs.threadList p, k.procs.threadProc t = some p) ∧
      k.procs.mainThread p = (k.procs.inserted p).getLast? ∧
      ∀ t, k.procs.mainThread p = some t → t ∉ k.procs.threadList p → k.procs.state p = .death) ∧
    (∀ p < k.procs.nextRec, ∀ q < k.procs.nextRec, ∀ t,
      t ∈ k.procs.threadList p → t ∈ k.procs.threadList q → p = q) ∧
    (∀ op k', op.Ordinary → step Priorities.sample 1 k op = some k' →
      (∀ p < k.procs.nextRec, ∀ t, k.procs.mainThread p = some t → k'.procs.mainThread p = some t) ∧
      ∀ p < k'.procs.nextRec, k'.procs.inserted p ≠ k.procs.inserted p →
        (p < k.procs.nextRec ∧ k.procs.state p ≠ .death) ∨
        (k.procs.nextRec ≤ p ∧ k'.procs.state p = .birth)) ∧
    ∀ pid e, (k.createThread Priorities.sample pid).2 = .error e →
      (k.createThread Priorities.sample pid).1.sched.threadHash = k.sched.threadHash ∧
      (k.createThread Priorities.sample pid).1.procs.threadList = k.procs.threadList := by
  have hrun : run Priorities.sample 1 (init Priorities.sample 1)
      [.createProc 0 false false 0, .wakeUp 1, .resched 0 .ready (fun _ => 0x3001) 0] = some _ := rfl
  exact ⟨_, hrun, threadLists_consistent Nat.one_pos (fun _ h => h)
    (Reachable.init.run (by simp [Op.Ordinary]) hrun)⟩

end Kernel
end NewOS
