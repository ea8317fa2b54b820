import NewOS.Basic
import Mathlib.Data.List.Nodup

/-! The scheduler state that the thread lock protects, and the functions of `kernel/thread.c`
that act on it: the queue primitives, `thread_enqueue_run_q`, `thread_set_priority` and the
selection and switch of `thread_resched`. A thread record is named by its address; each field
of `struct thread` that the scheduler reads is a map from address to value. -/
namespace NewOS
open Function

/-- The thread-lock-protected state: the scheduling fields of every thread record, the run
queues, the dead queue, the current thread of each CPU and `thread_hash`. -/
structure Sched where
  tid : Nat → Int
  state : Nat → ThreadState
  nextState : Nat → ThreadState
  priority : Nat → Int
  cpu : Nat → Option Nat
  userTime : Nat → Int
  kernelTime : Nat → Int
  lastTime : Nat → Int
  lastTimeType : Nat → TimeType
  runQ : Int → List Nat
  deadQ : List Nat
  current : Nat → Nat
  idle : Nat → Nat
  threadHash : List Nat
  nextThreadId : Int
  nextRec : Nat

namespace Sched
variable (P : Priorities)

/-! ## Queue primitives -/

/-- Models `thread_enqueue`, a `list_add_tail`. -/
def threadEnqueue (t : Nat) (q : List Nat) : List Nat := q ++ [t]

/-- The level `thread_enqueue_run_q` files a thread under: its priority clamped into
`[0, THREAD_MAX_PRIORITY]`. -/
def runLevel (p : Int) : Int := if p > P.max then P.max else if p < 0 then 0 else p

/-- Models `thread_enqueue_run_q`: the clamped priority is written back, and the thread goes to the
tail of that level. -/
def threadEnqueueRunQ (s : Sched) (t : Nat) : Sched :=
  let p := runLevel P (s.priority t)
  { s with priority := update s.priority t p,
           runQ := update s.runQ p (threadEnqueue t (s.runQ p)) }

/-- Models `thread_dequeue_thread`: `list_delete` unlinks the thread's queue node from whichever
queue holds it. -/
def threadDequeueThread (s : Sched) (t : Nat) : Sched :=
  { s with runQ := fun i => (s.runQ i).erase t, deadQ := s.deadQ.erase t }

/-- Lookup as `thread_get_thread_struct_locked` does it: the `thread_hash` lookup by id. -/
def threadGetThreadStructLocked (s : Sched) (id : Int) : Option Nat :=
  s.threadHash.find? fun t => decide (s.tid t = id)

def withPriority (s : Sched) (t : Nat) (p : Int) : Sched :=
  { s with priority := update s.priority t p }

theorem runLevel_le_max (p : Int) : runLevel P p ≤ P.max := by
  have := P.idle_nonneg; have := P.idle_lt_min; have := P.min_le_max
  unfold runLevel; split_ifs <;> omega

/-! ## `thread_set_priority` -/

/-- The clamp of `thread_set_priority` into `[THREAD_MIN_PRIORITY, THREAD_MAX_RT_PRIORITY]`. -/
def clampPriority (p : Int) : Int :=
  let p := if p > P.maxRT then P.maxRT else p
  if p < P.min then P.min else p

/-- Models `thread_set_priority(id, priority)` called on CPU `c`. A `READY` thread whose priority
changes is unlinked and requeued. -/
def threadSetPriority (s : Sched) (c : Nat) (id priority : Int) : Sched × Except KernErr Unit :=
  let priority := clampPriority P priority
  let t := s.current c
  if s.tid t = id then (s.withPriority t priority, .ok ())
  else match s.threadGetThreadStructLocked id with
    | none => (s, .error .invalidHandle)
    | some t =>
      if s.state t = .ready ∧ s.priority t ≠ priority then
        (((s.threadDequeueThread t).withPriority t priority).threadEnqueueRunQ P t, .ok ())
      else (s.withPriority t priority, .ok ())

/-! ## `thread_resched` -/

/-- The real-time levels in the order `thread_resched` scans them. -/
def rtLevels : List Int :=
  (List.range (P.maxRT - P.minRT + 1).toNat).map fun k => P.maxRT - k

/-- The regular levels above the idle level, highest first. -/
def regularLevels : List Int :=
  (List.range (P.max - P.idle).toNat).map fun k => P.max - k

/-- The regular-band loop of `thread_resched`. Each non-empty level costs one `_rand()` draw
(`rand k` is the `k`-th): above `0x3000` the level is taken, otherwise it becomes
`last_thread_pri`. Returns the level taken and the last level skipped. -/
def regularScan (q : Int → List Nat) (rand : Nat → Nat) :
    List Int → Nat → Option Int → Option Int × Option Int
  | [], _, last => (none, last)
  | i :: is, k, last =>
    if q i = [] then regularScan q rand is k last
    else if rand k > 0x3000 then (some i, last)
    else regularScan q rand is (k + 1) (some i)

/-- The run queue `thread_resched` dequeues its next thread from: the first non-empty real-time
level, else the regular level the scan takes, else `last_thread_pri`, else the idle level. -/
def reschedLevel (q : Int → List Nat) (rand : Nat → Nat) : Int :=
  match (rtLevels P).find? fun i => decide (q i ≠ []) with
  | some i => i
  | none =>
    match regularScan q rand (regularLevels P) 0 none with
    | (some i, _) => i
    | (none, some last) => last
    | (none, none) => P.idle

/-- The first half of `thread_resched`: the outgoing thread is put where its `next_state`
belongs, and takes that state. -/
def putOld (s : Sched) (t : Nat) : Sched :=
  let s' := match s.nextState t with
    | .running | .ready => threadEnqueueRunQ P s t
    | .freeOnResched => { s with deadQ := threadEnqueue t s.deadQ }
    | _ => s
  { s' with state := update s'.state t (s.nextState t) }

/-- The bookkeeping half of `thread_context_switch` on CPU `c`: the outgoing thread's current
time bucket is credited, the incoming thread starts its clock, and the CPU changes hands. -/
def switchTo (s : Sched) (c old new : Nat) (now : Int) : Sched :=
  let s := match s.lastTimeType old with
    | .kernel => { s with kernelTime := update s.kernelTime old (s.kernelTime old + (now - s.lastTime old)) }
    | .user => { s with userTime := update s.userTime old (s.userTime old + (now - s.lastTime old)) }
  { s with lastTime := update s.lastTime new now,
           cpu := update (update s.cpu new (s.cpu old)) old none,
           current := update s.current c new }

/-- The dequeue of the selected thread, which becomes `RUNNING` with `next_state` `READY`. -/
def runNext (s : Sched) (i : Int) (next : Nat) (rest : List Nat) : Sched :=
  { s with runQ := update s.runQ i rest, state := update s.state next .running,
           nextState := update s.nextState next .ready }

/-- Models `thread_resched` on CPU `c` with the `_rand()` draws `rand` and `system_time()` `now`.
`none` is the panic on an empty idle queue. The quantum timer is not modelled. -/
def threadResched (s : Sched) (c : Nat) (rand : Nat → Nat) (now : Int) : Option Sched :=
  let old := s.current c
  let s := putOld P s old
  let i := reschedLevel P s.runQ rand
  match s.runQ i with
  | [] => none
  | next :: rest =>
    let s := runNext s i next rest
    if next = old then some s else some (switchTo s c old next now)

/-- Models `create_thread_struct`: the head of the dead queue, else a fresh record from `kmalloc`,
with a new id from `next_thread_id` and its scheduling fields cleared. -/
def createThreadStruct (s : Sched) : Sched × Nat :=
  let t := s.deadQ.headD s.nextRec
  let (id, next) := atomicAdd s.nextThreadId 1
  ({ s with deadQ := s.deadQ.tail,
            nextRec := if s.deadQ = [] then s.nextRec + 1 else s.nextRec,
            tid := update s.tid t id, nextThreadId := next, cpu := update s.cpu t none,
            priority := update s.priority t (-1), userTime := update s.userTime t 0,
            kernelTime := update s.kernelTime t 0, lastTime := update s.lastTime t 0,
            lastTimeType := update s.lastTimeType t .kernel }, t)

/-- Models `_create_thread` up to the end of its first thread-lock section: the new record gets
`THREAD_MEDIUM_PRIORITY`, state `BIRTH` with next state `SUSPENDED`, and is published in
`thread_hash`. -/
def createThreadLocked (s : Sched) : Sched × Nat :=
  let (s, t) := s.createThreadStruct
  ({ s with priority := update s.priority t P.medium, state := update s.state t .birth,
            nextState := update s.nextState t .suspended, threadHash := t :: s.threadHash }, t)

/-- The wake-up the semaphore and signal code performs under the thread lock: a blocked thread
is made `READY` and put on its run queue. -/
def wakeUp (s : Sched) (t : Nat) : Sched :=
  threadEnqueueRunQ P { s with state := update s.state t .ready } t

end Sched
end NewOS
