import NewOS.Basic
import Mathlib.Data.List.Nodup

/-! The process-lock-protected state of `kernel/thread.c`: process records, `proc_hash`, the
process-group and session tables, and the thread-to-process links; and the functions that act
on it. A record is named by its address, each field of `struct proc` is a map from address
to value, and an intrusive list is the list of the records on it, head first. -/
namespace NewOS
open Function

/-- The two signals the process code itself fans out to a process group. -/
inductive Signal
  | hup | cont
  deriving DecidableEq, Repr

/-- A hash table of group nodes (`pgid_hash` or `sid_hash`) with the nodes' fields. -/
structure Groups where
  hash : List Nat
  id : Nat → Int
  list : Nat → List Nat
  nextNode : Nat

namespace Groups

/-- The `hash_lookup` of a group or session id: the most recently inserted node with the id. -/
def lookup (g : Groups) (id : Int) : Option Nat := g.hash.find? fun n => decide (g.id n = id)

/-- Both `create_pgroup_struct` and `create_session_struct`: a fresh node with an empty list. -/
def create (g : Groups) (id : Int) : Groups × Nat :=
  ({ g with id := update g.id g.nextNode id, list := update g.list g.nextNode [],
            nextNode := g.nextNode + 1 }, g.nextNode)

/-- The `hash_insert` of a node. -/
def insert (g : Groups) (n : Nat) : Groups := { g with hash := n :: g.hash }

/-- A member added by `list_add_head(&node->list, ...)`. -/
def addMember (g : Groups) (n p : Nat) : Groups := { g with list := update g.list n (p :: g.list n) }

/-- The membership node of `p` is on the list of an allocated node. `create_proc_struct` clears
it with `list_clear_node`, and `list_delete` clears it again: a node on no list has `NULL`
links. -/
def Linked (g : Groups) (p : Nat) : Prop := ∃ n, n < g.nextNode ∧ p ∈ g.list n

instance (g : Groups) (p : Nat) : Decidable (g.Linked p) :=
  inferInstanceAs (Decidable (∃ n, n < g.nextNode ∧ p ∈ g.list n))

/-- The `list_delete` of a process's membership node: it leaves whichever list holds it. On a
node with `NULL` links the first store, `e->next->prev = e->prev`, goes through `NULL`: `none`. -/
def delMember (g : Groups) (p : Nat) : Option Groups :=
  if g.Linked p then some { g with list := fun n => (g.list n).erase p } else none

/-- The body shared by `add_proc_to_pgroup` and `add_proc_to_session`, on the table `g` whose
ids the process field `f` holds: when a node with id `id` exists, `p` takes the id and joins the
node's list; otherwise nothing changes (`ERR_NOT_FOUND`). -/
def addProc (g : Groups) (f : Nat → Int) (p : Nat) (id : Int) : Groups × (Nat → Int) :=
  match g.lookup id with
  | none => (g, f)
  | some n => (g.addMember n p, update f p id)

/-- The body shared by `remove_proc_from_pgroup` and `remove_proc_from_session`: when a node with
id `id` exists, `p` leaves whichever list holds it. -/
def removeProc (g : Groups) (p : Nat) (id : Int) : Option Groups :=
  match g.lookup id with
  | none => some g
  | some _ => g.delMember p

/-- The part shared by `setpgid` and `setsid` once the target is known, with the node
allocation succeeding: a fresh node with id `id` is published when none exists, and `p` leaves
its group for the one with id `id`. -/
def move (g : Groups) (f : Nat → Int) (p : Nat) (id : Int) : Option (Groups × (Nat → Int)) :=
  let g := match g.lookup id with
    | some _ => g
    | none => let (g, n) := g.create id; g.insert n
  (g.removeProc p (f p)).map fun g => g.addProc f p id

end Groups

/-- The process-lock-protected state. `threadProc` is the `proc` field of the thread records,
written under this lock. `inserted` is ghost history: the threads ever inserted into each
process, newest first. `pgSignals` logs the group signals sent to each member process. -/
structure Procs where
  pid : Nat → Int
  parent : Nat → Option Nat
  children : Nat → List Nat
  pgid : Nat → Int
  sid : Nat → Int
  threadList : Nat → List Nat
  numThreads : Nat → Int
  mainThread : Nat → Option Nat
  state : Nat → ProcState
  aspaceId : Nat → Int
  procHash : List Nat
  pgroups : Groups
  sessions : Groups
  kernelProc : Nat
  nextProcId : Int
  nextRec : Nat
  threadProc : Nat → Option Nat
  inserted : Nat → List Nat
  pgSignals : List (Nat × Signal)

namespace Procs

/-- Lookup as `proc_get_proc_struct_locked` does it: the `proc_hash` lookup by id. -/
def procGetProcStructLocked (ps : Procs) (id : Int) : Option Nat :=
  ps.procHash.find? fun p => decide (ps.pid p = id)

/-! ## Threads of a process -/

/-- Models `insert_thread_into_proc`: the first thread inserted becomes `main_thread`. -/
def insertThreadIntoProc (ps : Procs) (p t : Nat) : Procs :=
  let n := ps.numThreads p + 1
  { ps with threadList := update ps.threadList p (t :: ps.threadList p),
            numThreads := update ps.numThreads p n,
            mainThread := if n = 1 then update ps.mainThread p (some t) else ps.mainThread,
            threadProc := update ps.threadProc t (some p),
            inserted := update ps.inserted p (t :: ps.inserted p) }

/-- Models `remove_thread_from_proc`: the thread's list node is unlinked from whichever list holds it. -/
def removeThreadFromProc (ps : Procs) (p t : Nat) : Procs :=
  { ps with threadList := fun q => (ps.threadList q).erase t,
            numThreads := update ps.numThreads p (ps.numThreads p - 1) }

/-! ## Parent and children -/

/-- Models `insert_proc_into_parent`. -/
def insertProcIntoParent (ps : Procs) (parent p : Nat) : Procs :=
  { ps with children := update ps.children parent (p :: ps.children parent),
            parent := update ps.parent p (some parent) }

/-- Models `remove_proc_from_parent`: the sibling node is unlinked from whichever list holds it. -/
def removeProcFromParent (ps : Procs) (p : Nat) : Procs :=
  { ps with children := fun q => (ps.children q).erase p, parent := update ps.parent p none }

/-- Models `create_proc_struct`: a fresh record with a new id from `next_proc_id`. -/
def createProcStruct (ps : Procs) : Procs × Nat :=
  let p := ps.nextRec
  let (id, next) := atomicAdd ps.nextProcId 1
  ({ ps with pid := update ps.pid p id, parent := update ps.parent p none,
             children := update ps.children p [], pgid := update ps.pgid p (-1),
             sid := update ps.sid p (-1), threadList := update ps.threadList p [],
             numThreads := update ps.numThreads p 0, mainThread := update ps.mainThread p none,
             state := update ps.state p .birth, aspaceId := update ps.aspaceId p (-1),
             inserted := update ps.inserted p [], nextProcId := next, nextRec := p + 1 }, p)

/-! ## Process groups and sessions -/

/-- Models `add_proc_to_pgroup`. -/
def addProcToPgroup (ps : Procs) (p : Nat) (pgid : Int) : Procs :=
  let r := ps.pgroups.addProc ps.pgid p pgid
  { ps with pgroups := r.1, pgid := r.2 }

/-- Models `remove_proc_from_pgroup`. -/
def removeProcFromPgroup (ps : Procs) (p : Nat) (pgid : Int) : Option Procs :=
  (ps.pgroups.removeProc p pgid).map fun g => { ps with pgroups := g }

/-- Models `add_proc_to_session`. -/
def addProcToSession (ps : Procs) (p : Nat) (sid : Int) : Procs :=
  let r := ps.sessions.addProc ps.sid p sid
  { ps with sessions := r.1, sid := r.2 }

/-- Models `remove_proc_from_session`. -/
def removeProcFromSession (ps : Procs) (p : Nat) (sid : Int) : Option Procs :=
  (ps.sessions.removeProc p sid).map fun g => { ps with sessions := g }

/-- Models `check_for_pgrp_connection(pgid, check_for, ignore_proc)`: some member of the group, other
than `ignore`, has its parent in group `check_for`. -/
def checkForPgrpConnection (ps : Procs) (pgid checkFor : Int) (ignore : Option Nat) : Bool :=
  match ps.pgroups.lookup pgid with
  | none => false
  | some n => (ps.pgroups.list n).any fun q =>
      decide (some q ≠ ignore) && (ps.parent q).any fun r => decide (ps.pgid r = checkFor)

/-- Models `send_pgrp_signal_etc_locked`: the signal goes to the main thread of every member of
the group, in list order. `none` is the `NULL` dereference of a member's `main_thread`. -/
def sendPgrpSignalEtcLocked (ps : Procs) (pgid : Int) (sig : Signal) : Option Procs :=
  match ps.pgroups.lookup pgid with
  | none => some ps
  | some n =>
    ((ps.pgroups.list n).mapM fun q => (ps.mainThread q).map fun _ => (q, sig)).map fun sent =>
      { ps with pgSignals := ps.pgSignals ++ sent }

/-- Sends `SIGHUP` then `SIGCONT` to a group that the exit of `p` orphans. -/
def hangUpIfOrphaned (ps : Procs) (orphaned : Bool) (pgid : Int) : Option Procs :=
  if orphaned then (ps.sendPgrpSignalEtcLocked pgid .hup).bind (·.sendPgrpSignalEtcLocked pgid .cont)
  else some ps

/-- One iteration of `proc_reparent_children(p)`: `child` moves to `parent`, the parent of `p`,
and its group is hung up if that orphans it. -/
def reparentChild (p parent : Nat) (ps : Procs) (child : Nat) : Option Procs :=
  let ps := (ps.removeProcFromParent child).insertProcIntoParent parent child
  ps.hangUpIfOrphaned (ps.sid p = ps.sid child ∧ ps.pgid p ≠ ps.pgid child ∧
    ps.checkForPgrpConnection (ps.pgid child) (ps.pgid p) none = false) (ps.pgid child)

/-- Models `proc_reparent_children`: the safe iteration walks the children list as it was. -/
def procReparentChildren (ps : Procs) (p parent : Nat) : Option Procs :=
  (ps.children p).foldlM (reparentChild p parent) ps

/-- The process teardown in `thread_exit`, run by the exiting main thread of `p` under the
process lock once no thread is left in `p`. `none` is a `NULL` dereference: of a missing
parent, of a group member's `main_thread`, or of the links of a group node on no list. -/
def teardown (ps : Procs) (p : Nat) : Option Procs := do
  let q ← ps.parent p
  let ps ← ps.hangUpIfOrphaned (ps.sid p = ps.sid q ∧ ps.pgid p ≠ ps.pgid q ∧
    ps.checkForPgrpConnection (ps.pgid p) (ps.pgid q) (some p) = false) (ps.pgid p)
  let ps := { ps with procHash := ps.procHash.erase p }
  let ps ← ps.procReparentChildren p q
  let ps ← ps.removeProcFromPgroup p (ps.pgid p)
  let ps ← ps.removeProcFromSession p (ps.sid p)
  return ps.removeProcFromParent p

/-- The part of `proc_create_proc` under the process lock, with the nodes it preallocates:
the new record is published in `proc_hash`, linked under the creator's process (looked up by
the id `curPid`) and put in a group and a session. `PROC_FLAG_NEW_SESSION` implies
`PROC_FLAG_NEW_PGROUP`. `none` is the `NULL` dereference of a missing creator. -/
def procCreateProcLocked (ps : Procs) (curPid : Int) (newSession newPgroup : Bool) :
    Option (Procs × Nat) :=
  let (ps, p) := ps.createProcStruct
  let newPgroup := newPgroup || newSession
  let (sessions, sn) := ps.sessions.create (ps.pid p)
  let (pgroups, pn) := ps.pgroups.create (ps.pid p)
  let ps := { ps with sessions := if newSession then sessions else ps.sessions,
                      pgroups := if newPgroup then pgroups else ps.pgroups }
  let ps := { ps with procHash := p :: ps.procHash }
  match ps.procGetProcStructLocked curPid with
  | none => none
  | some cur =>
    let ps := ps.insertProcIntoParent cur p
    let ps := if newSession then
        { ps with sessions := ps.sessions.insert sn }.addProcToSession p (ps.pid p)
      else { ps with sid := update ps.sid p (ps.sid cur) }.addProcToSession p (ps.sid cur)
    let ps := if newPgroup then
        { ps with pgroups := ps.pgroups.insert pn }.addProcToPgroup p (ps.pid p)
      else { ps with pgid := update ps.pgid p (ps.pgid cur) }.addProcToPgroup p (ps.pgid cur)
    some (ps, p)

/-- The part of `setpgid` after the arguments are checked and normalised: move `p` into group
`pgid`, publishing a fresh node when no node with that id exists. -/
def movePgroup (ps : Procs) (p : Nat) (pgid : Int) : Option Procs :=
  (ps.pgroups.move ps.pgid p pgid).map fun r => { ps with pgroups := r.1, pgid := r.2 }

/-- Models `setpgid(pid, pgid)` called by a thread of the process with id `curPid`, when the node
allocation succeeds. `none`: the call faults. -/
def setpgid (ps : Procs) (curPid pid pgid : Int) : Option (Procs × Except KernErr Unit) :=
  if pid < 0 ∨ pgid < 0 then some (ps, .error .invalidArgs) else
  let pid := if pid = 0 then curPid else pid
  let pgid := if pgid = 0 then pid else pgid
  match ps.procGetProcStructLocked pid with
  | none => some (ps, .error .notFound)
  | some p => if ps.pgid p = pgid then some (ps, .ok ()) else
    (ps.movePgroup p pgid).map fun ps => (ps, .ok ())

/-- Models `getpgid(pid)`. -/
def getpgid (ps : Procs) (curPid pid : Int) : Except KernErr Int :=
  if pid < 0 then .error .invalidArgs else
  let pid := if pid = 0 then curPid else pid
  match ps.procGetProcStructLocked pid with
  | none => .error .notFound
  | some p => .ok (ps.pgid p)

/-- The part of `setsid` that moves `p` into session `sid`, publishing a fresh node when no
node with that id exists. -/
def moveSession (ps : Procs) (p : Nat) (sid : Int) : Option Procs :=
  (ps.sessions.move ps.sid p sid).map fun r => { ps with sessions := r.1, sid := r.2 }

/-- Models `setsid()` called by a thread of the process with id `curPid`, when the node allocation
succeeds: the new session's id is the caller's process id, and the call returns `NO_ERROR`.
`none`: the call faults. -/
def setsid (ps : Procs) (curPid : Int) : Option (Procs × Except KernErr Unit) :=
  match ps.procGetProcStructLocked curPid with
  | none => some (ps, .error .notFound)
  | some p => if ps.sid p = curPid then some (ps, .ok ()) else
    (ps.moveSession p curPid).map fun ps => (ps, .ok ())

end Procs
end NewOS
