import NewOS.Thread.SchedInv
import NewOS.Proc.Procs

/-! The thread and process subsystem as one system: the scheduler state, the process state and
the translation map installed on each CPU. Each operation is one step, atomic at the granularity
of the code's lock sections, and `Reachable` closes the state `thread_init` leaves under them.
`proc_create_proc` is a step only when it succeeds: a call that fails after its locked section
(`NewOS.Proc.CreateFail`), and one whose `create_proc_struct` fails in
`arch_proc_init_proc_struct` after taking an id from `next_proc_id`, are not steps here. -/
namespace NewOS
open Function

/-- A translation map: the kernel's, or that of the user address space with the given id
(`vm_get_aspace_by_id` makes the address space a function of its id). -/
inductive TMap
  | kernel | user (aspaceId : Int)
  deriving DecidableEq, Repr

/-- The map of a process: `p->aspace->translation_map` when `p->aspace_id >= 0`, else
`p->kaspace->translation_map`. -/
def procTMap (aspaceId : Int) : TMap := if aspaceId ≥ 0 then .user aspaceId else .kernel

/-- The four-way case analysis of `thread_context_switch` on the `aspace_id`s of the outgoing
and incoming threads' processes: the map to install, `none` for `NULL`. -/
def newTMap (fromAs toAs : Int) : Option TMap :=
  if fromAs ≥ 0 ∧ toAs ≥ 0 then (if fromAs = toAs then none else some (.user toAs))
  else if fromAs < 0 ∧ toAs < 0 then none
  else if toAs < 0 then some .kernel
  else some (.user toAs)

/-- The subsystem's state. -/
structure Kernel where
  sched : Sched
  procs : Procs
  activeMap : Nat → TMap

/-- The operations, each with the CPU it runs on where that matters. -/
inductive Op
  /-- A `thread_resched` after the outgoing thread's `next_state` was set to `ns` -/
  | resched (c : Nat) (ns : ThreadState) (rand : Nat → Nat) (now : Int)
  /-- a semaphore release or `SIGCONT` waking a blocked thread -/
  | wakeUp (t : Nat)
  | setPriority (c : Nat) (id priority : Int)
  /-- A `_create_thread` into the process with id `pid` -/
  | createThread (pid : Int)
  /-- A `thread_exit` up to the teardown of its process -/
  | exitBegin (c : Nat)
  /-- the teardown of a dead process once its last thread is gone -/
  | teardown (p : Nat)
  /-- A `thread_exit2` on the death stack and its last reschedule -/
  | exitFinish (c : Nat) (rand : Nat → Nat) (now : Int)
  /-- a successful `proc_create_proc` whose address space gets id `aspace`; failed calls are no
  steps -/
  | createProc (c : Nat) (newSession newPgroup : Bool) (aspace : Int)
  | setpgid (c : Nat) (pid pgid : Int)
  | setsid (c : Nat)

namespace Kernel
variable (P : Priorities)

instance : DecidablePred Sched.Outgoing := fun ns => inferInstanceAs (Decidable (ns = .ready ∨ _))

/-- The process of the current thread of CPU `c`. -/
def curProc (k : Kernel) (c : Nat) : Option Nat := k.procs.threadProc (k.sched.current c)

/-- Models `thread_resched` on CPU `c`: the scheduler's part, then, when the thread changes, the map
`thread_context_switch` passes to `arch_thread_context_switch`, installed if not `NULL`. -/
def threadResched (k : Kernel) (c : Nat) (rand : Nat → Nat) (now : Int) : Option Kernel :=
  let old := k.sched.current c
  match k.sched.threadResched P c rand now with
  | none => none
  | some s =>
    let new := s.current c
    if new = old then some { k with sched := s } else
    match k.procs.threadProc old, k.procs.threadProc new with
    | some po, some pn =>
      some { k with sched := s,
                    activeMap := match newTMap (k.procs.aspaceId po) (k.procs.aspaceId pn) with
                      | none => k.activeMap
                      | some m => update k.activeMap c m }
    | _, _ => none

/-- The first thread-lock section of `_create_thread`: the record `create_thread_struct` took
(whose `proc` it set to `NULL`) is initialised and published in `thread_hash`. -/
def createThreadPublish (k : Kernel) : Kernel × Nat :=
  let r := k.sched.createThreadLocked P
  ({ k with sched := r.1, procs := { k.procs with threadProc := update k.procs.threadProc r.2 none } },
    r.2)

/-- The rest of `_create_thread` for the published record `t`: under the process lock it is
inserted into the process with id `pid` and later made `SUSPENDED`, or, when the process is
gone or dying, withdrawn from `thread_hash` with `ERR_TASK_PROC_DELETED`. -/
def createThreadAttach (k : Kernel) (t : Nat) (pid : Int) : Kernel × Except KernErr Int :=
  match k.procs.procGetProcStructLocked pid with
  | some p =>
    if k.procs.state p ≠ .death then
      ({ k with sched := { k.sched with state := update k.sched.state t .suspended },
                procs := k.procs.insertThreadIntoProc p t }, .ok (k.sched.tid t))
    else ({ k with sched := { k.sched with threadHash := k.sched.threadHash.erase t } },
      .error .taskProcDeleted)
  | none => ({ k with sched := { k.sched with threadHash := k.sched.threadHash.erase t } },
      .error .taskProcDeleted)

/-- Models `_create_thread` into the process with id `pid`: its two sections in turn. -/
def createThread (k : Kernel) (pid : Int) : Kernel × Except KernErr Int :=
  let r := k.createThreadPublish P
  r.1.createThreadAttach r.2 pid

/-- Models `thread_exit` on CPU `c` up to the process teardown: the priority boost, and, outside the
kernel process, the move of the thread into the kernel process (the process dies with its
main thread) and the swap to the kernel's address space. -/
def exitBegin (k : Kernel) (c : Nat) : Kernel :=
  let t := k.sched.current c
  let s := (k.sched.threadSetPriority P c (k.sched.tid t) P.high).1
  let kp := k.procs.kernelProc
  match k.procs.threadProc t with
  | some p =>
    if p ≠ kp then
      let ps := (k.procs.removeThreadFromProc p t).insertThreadIntoProc kp t
      let ps := if k.procs.mainThread p = some t then { ps with state := update ps.state p .death }
        else ps
      { k with sched := s, procs := ps, activeMap := update k.activeMap c .kernel }
    else { k with sched := s }
  | none => { k with sched := s }

/-- Models `thread_exit2` on CPU `c`: the thread leaves the kernel process and `thread_hash`, takes
`FREE_ON_RESCHED` as its next state and reschedules for the last time. -/
def exitFinish (k : Kernel) (c : Nat) (rand : Nat → Nat) (now : Int) : Option Kernel :=
  let t := k.sched.current c
  let k := { k with procs := k.procs.removeThreadFromProc k.procs.kernelProc t,
                    sched := { k.sched with threadHash := k.sched.threadHash.erase t,
                                            nextState := update k.sched.nextState t .freeOnResched } }
  k.threadResched P c rand now

/-- The process-lock section of `proc_create_proc` from CPU `c`: the new process is published
in `proc_hash`, under its creator and in its group and session, with no thread yet. -/
def createProcPublish (k : Kernel) (c : Nat) (newSession newPgroup : Bool) :
    Option (Kernel × Nat) :=
  match k.curProc c with
  | none => none
  | some cp => (k.procs.procCreateProcLocked (k.procs.pid cp) newSession newPgroup).map
      fun r => ({ k with procs := r.1 }, r.2)

/-- A successful `proc_create_proc` from CPU `c`: the locked publication, the new address space,
and the first thread, a kernel thread of the new process. The call tests the id the thread
creation returns with `if(tid < 0)`: a negative id is taken for an error code, and the call
fails. -/
def createProc (k : Kernel) (c : Nat) (newSession newPgroup : Bool) (aspace : Int) :
    Option Kernel :=
  match k.createProcPublish c newSession newPgroup with
  | none => none
  | some (k, p) =>
    let k := { k with procs := { k.procs with aspaceId := update k.procs.aspaceId p aspace } }
    match k.createThread P (k.procs.pid p) with
    | (k, .ok tid) => if tid < 0 then none else some k
    | (_, .error _) => none

/-- What `thread_get_thread_info` copies out; the name and the user stack base are not
modelled. -/
structure ThreadInfo where
  id : Int
  ownerProcId : Int
  state : ThreadState
  priority : Int
  userTime : Int
  kernelTime : Int
  deriving DecidableEq, Repr

/-- Models `thread_get_thread_info(id)` under the thread lock. `none` is the `NULL` dereference of
`t->proc->id`. -/
def threadGetThreadInfo (k : Kernel) (id : Int) : Option (Except KernErr ThreadInfo) :=
  match k.sched.threadGetThreadStructLocked id with
  | none => some (.error .invalidHandle)
  | some t => (k.procs.threadProc t).map fun p =>
      .ok ⟨id, k.procs.pid p, k.sched.state t, k.sched.priority t, k.sched.userTime t,
        k.sched.kernelTime t⟩

/-- Models `proc_get_main_thread(id)` under the process lock. `none` is the `NULL` dereference of
`p->main_thread->id`. -/
def procGetMainThread (k : Kernel) (id : Int) : Option (Except KernErr Int) :=
  match k.procs.procGetProcStructLocked id with
  | none => some (.error .invalidHandle)
  | some p => (k.procs.mainThread p).map fun t => .ok (k.sched.tid t)

/-- One step of the system. `none`: the operation is not enabled, or it crashes. An exiting
thread is never an idle thread (idle threads never leave their CPU). -/
def step (ncpu : Nat) (k : Kernel) : Op → Option Kernel
  | .resched c ns rand now =>
    if c < ncpu ∧ Sched.Outgoing ns then
      { k with sched := { k.sched with nextState := update k.sched.nextState (k.sched.current c) ns } }
        |>.threadResched P c rand now
    else none
  | .wakeUp t =>
    if k.sched.state t = .waiting ∨ k.sched.state t = .suspended then
      some { k with sched := k.sched.wakeUp P t }
    else none
  | .setPriority c id priority =>
    if c < ncpu then some { k with sched := (k.sched.threadSetPriority P c id priority).1 } else none
  | .createThread pid => some (k.createThread P pid).1
  | .exitBegin c =>
    if c < ncpu ∧ ∀ d < ncpu, k.sched.current c ≠ k.sched.idle d then some (k.exitBegin P c)
    else none
  | .teardown p =>
    if p ∈ k.procs.procHash ∧ p ≠ k.procs.kernelProc ∧ k.procs.state p = .death ∧
        k.procs.numThreads p = 0 then
      (k.procs.teardown p).map fun ps => { k with procs := ps }
    else none
  | .exitFinish c rand now =>
    if c < ncpu ∧ (∀ d < ncpu, k.sched.current c ≠ k.sched.idle d) ∧
        k.curProc c = some k.procs.kernelProc then k.exitFinish P c rand now
    else none
  | .createProc c newSession newPgroup aspace =>
    if c < ncpu ∧ 0 ≤ aspace then k.createProc P c newSession newPgroup aspace else none
  | .setpgid c pid pgid =>
    if c < ncpu then (k.curProc c).bind fun cp =>
      (k.procs.setpgid (k.procs.pid cp) pid pgid).map fun r => { k with procs := r.1 }
    else none
  | .setsid c =>
    if c < ncpu then (k.curProc c).bind fun cp =>
      (k.procs.setsid (k.procs.pid cp)).map fun r => { k with procs := r.1 }
    else none

/-- The state `thread_init` leaves on `ncpu` CPUs: the kernel process (record 0, id 1) is its
own parent and founds group and session 1; idle thread `c` (record `c`, id `c + 1`) runs on
CPU `c`, is in `thread_hash` and in the kernel process, whose main thread is idle thread 0. -/
def init (ncpu : Nat) : Kernel where
  sched :=
    { tid := fun t => t + 1
      state := fun t => if t < ncpu then .running else .birth
      nextState := fun _ => .ready
      priority := fun _ => P.idle
      cpu := fun t => if t < ncpu then some t else none
      userTime := fun _ => 0
      kernelTime := fun _ => 0
      lastTime := fun _ => 0
      lastTimeType := fun _ => .kernel
      runQ := fun _ => []
      deadQ := []
      current := fun c => c
      idle := fun c => c
      threadHash := (List.range ncpu).reverse
      nextThreadId := ncpu + 1
      nextRec := ncpu }
  procs :=
    { pid := fun _ => 1
      parent := fun _ => some 0
      children := fun _ => []
      pgid := fun _ => 1
      sid := fun _ => 1
      threadList := fun _ => (List.range ncpu).reverse
      numThreads := fun _ => ncpu
      mainThread := fun _ => some 0
      state := fun _ => .normal
      aspaceId := fun _ => -1
      procHash := [0]
      pgroups := { hash := [0], id := fun _ => 1, list := fun n => if n = 0 then [0] else [], nextNode := 1 }
      sessions := { hash := [0], id := fun _ => 1, list := fun n => if n = 0 then [0] else [], nextNode := 1 }
      kernelProc := 0
      nextProcId := 2
      nextRec := 1
      threadProc := fun t => if t < ncpu then some 0 else none
      inserted := fun _ => (List.range ncpu).reverse
      pgSignals := [] }
  activeMap := fun _ => .kernel

/-! ## What each operation can do -/

section spec
variable {P} {k k' : Kernel} {c : Nat} {newSession newPgroup : Bool}

/-- `_create_thread` leaves the scheduler as its first section left it, with the new record
made `SUSPENDED` on success or withdrawn from `thread_hash` on abort. -/
theorem createThread_sched (pid : Int) :
    (k.createThread P pid).1.sched =
        { (k.sched.createThreadLocked P).1 with
          state := update (k.sched.createThreadLocked P).1.state (k.sched.createThreadLocked P).2
            .suspended } ∨
      (k.createThread P pid).1.sched =
        { (k.sched.createThreadLocked P).1 with
          threadHash := (k.sched.createThreadLocked P).1.threadHash.erase
            (k.sched.createThreadLocked P).2 } := by
  simp only [createThread, createThreadPublish, createThreadAttach]
  split
  · split_ifs
    · exact .inl rfl
    · exact .inr rfl
  · exact .inr rfl

theorem createProcPublish_some {p : Nat}
    (h : k.createProcPublish c newSession newPgroup = some (k', p)) :
    k'.sched = k.sched ∧ k'.activeMap = k.activeMap ∧ ∃ cp, k.curProc c = some cp ∧
      k.procs.procCreateProcLocked (k.procs.pid cp) newSession newPgroup = some (k'.procs, p) := by
  unfold createProcPublish at h
  split at h
  · cases h
  · rename_i cp hcp
    obtain ⟨r, hr, he⟩ := Option.map_eq_some'.1 h
    cases he
    exact ⟨rfl, rfl, cp, hcp, hr⟩

/-- A successful `proc_create_proc` is its publication followed by a successful
`_create_thread` into the new process. -/
theorem createProc_some {aspace : Int} (h : k.createProc P c newSession newPgroup aspace = some k') :
    ∃ k₁ p tid, k.createProcPublish c newSession newPgroup = some (k₁, p) ∧
      Kernel.createThread P
        { k₁ with procs := { k₁.procs with aspaceId := update k₁.procs.aspaceId p aspace } }
        (k₁.procs.pid p) = (k', .ok tid) := by
  unfold createProc at h
  split at h
  · cases h
  · rename_i k₁ p hp
    dsimp only at h
    split at h
    · rename_i tid hct
      split_ifs at h
      cases h
      exact ⟨k₁, p, tid, hp, hct⟩
    · cases h

/-- The converse of `createProc_some`: the publication followed by a successful
`_create_thread` into the new process, with a non-negative id, is a successful
`proc_create_proc`. -/
theorem createProc_eq {k₁ : Kernel} {p : Nat} {aspace tid : Int}
    (hp : k.createProcPublish c newSession newPgroup = some (k₁, p))
    (ht : (Kernel.createThread P
      { k₁ with procs := { k₁.procs with aspaceId := update k₁.procs.aspaceId p aspace } }
      (k₁.procs.pid p)).2 = .ok tid) (hn : 0 ≤ tid) :
    k.createProc P c newSession newPgroup aspace = some (Kernel.createThread P
      { k₁ with procs := { k₁.procs with aspaceId := update k₁.procs.aspaceId p aspace } }
      (k₁.procs.pid p)).1 := by
  unfold createProc
  rw [hp]
  dsimp only
  split
  · rename_i h; rw [h] at ht ⊢; cases ht; rw [if_neg (by omega)]
  · rename_i h; rw [h] at ht; cases ht

/-- The teardown, `setpgid` and `setsid` change only the process state. -/
theorem step_procs_only {ncpu : Nat} {op : Op} (hs : step P ncpu k op = some k')
    (hop : (∃ p, op = .teardown p) ∨ (∃ c pid pgid, op = .setpgid c pid pgid) ∨ ∃ c, op = .setsid c) :
    k' = { k with procs := k'.procs } := by
  rcases hop with ⟨p, rfl⟩ | ⟨c, pid, pgid, rfl⟩ | ⟨c, rfl⟩ <;> simp only [step] at hs <;>
    split_ifs at hs
  · obtain ⟨_, -, rfl⟩ := Option.map_eq_some'.1 hs; rfl
  all_goals
    obtain ⟨_, -, hs⟩ := Option.bind_eq_some.1 hs
    obtain ⟨_, -, rfl⟩ := Option.map_eq_some'.1 hs
    rfl

end spec

/-- The states reachable from `thread_init`'s by the operations allowed by `ok`. -/
inductive Reachable (ncpu : Nat) (ok : Op → Prop) : Kernel → Prop
  | init : Reachable ncpu ok (init P ncpu)
  | step {k k' : Kernel} {op : Op} (reach : Reachable ncpu ok k) (allowed : ok op)
      (hstep : step P ncpu k op = some k') : Reachable ncpu ok k'

/-- The state after a sequence of operations, when each is enabled. -/
def run (ncpu : Nat) : Kernel → List Op → Option Kernel
  | k, [] => some k
  | k, op :: ops => (step P ncpu k op).bind fun k' => run ncpu k' ops

theorem Reachable.run {P : Priorities} {ncpu : Nat} {ok : Op → Prop} {k k' : Kernel} {ops : List Op}
    (hk : Reachable P ncpu ok k) (hops : ∀ op ∈ ops, ok op) (h : Kernel.run P ncpu k ops = some k') :
    Reachable P ncpu ok k' := by
  induction ops generalizing k with
  | nil => cases h; exact hk
  | cons op ops ih =>
    simp only [Kernel.run, Option.bind_eq_some] at h
    obtain ⟨k₁, h₁, h₂⟩ := h
    exact ih (hk.step (hops op (by simp)) h₁) (fun o ho => hops o (by simp [ho])) h₂

end Kernel
end NewOS
