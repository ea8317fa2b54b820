import NewOS.Proc.Groups

/-! # The split `setpgid` and `setsid`

When the target group or session has no node, `setpgid` and `setsid` release the process lock,
allocate a node with `create_pgroup_struct` or `create_session_struct`, take the lock again and
publish the node, unless a node with its id appeared meanwhile: then they free their own. The
kernel model runs each call at once. Here a call is split where it releases the lock, into its
first critical section together with the allocation, and its second critical section, and every
other operation of the kernel may run between the two.

The second section looks neither the process up again nor at `proc_hash`: when the teardown of
the target process runs in the window, `remove_proc_from_pgroup` runs `list_delete` on the node
the teardown already unlinked, whose links are `NULL`, and faults. The recheck of the table does
its job: a second section publishes its node only where no node has its id, and never publishes
the node of a call that lost the race.
-/
namespace NewOS
open Function

namespace Groups

variable {g g' g'' : Groups} {f : Nat → Int} {p n node : Nat} {id : Int}

/-- The recheck of the second critical section: publish `node`, or hand it back as
`free_node` when a node with id `id` is in the table. -/
def recheck (g : Groups) (id : Int) (node : Nat) : Groups × Option Nat :=
  match g.lookup id with
  | some _ => (g, some node)
  | none => (g.insert node, none)

/-- The second critical section of a group move whose node `node` was allocated with the lock
released: the recheck, then `remove_proc_from_pgroup(p, p->pgid)` and
`add_proc_to_pgroup(p, id)` (or their session twins). It returns `free_node`. -/
def moveFinish (g : Groups) (f : Nat → Int) (p : Nat) (id : Int) (node : Nat) :
    Option ((Groups × (Nat → Int)) × Option Nat) :=
  let r := g.recheck id node
  (r.1.removeProc p (f p)).map fun g => (g.addProc f p id, r.2)

theorem lookup_create_eq_none (hf : g.nextNode ∉ g.hash) (h : g.lookup id = none) :
    (g.create id).1.lookup id = none :=
  List.find?_eq_none.2 fun n hn => by
    have hne : n ≠ g.nextNode := fun e => hf (e ▸ hn)
    simpa [create, update_noteq hne] using lookup_eq_none h n hn

/-- The atomic move is the split one run without a break: when no node has id `id`, allocate
one and run the second critical section at once. -/
theorem move_eq_moveFinish (hf : g.nextNode ∉ g.hash) (h : g.lookup id = none) :
    g.move f p id = ((g.create id).1.moveFinish f p id (g.create id).2).map Prod.fst := by
  simp only [move, moveFinish, recheck, h, lookup_create_eq_none hf h, Option.map_map]
  rfl

theorem move_of_lookup_some (h : g.lookup id = some n) :
    g.move f p id = (g.removeProc p (f p)).map fun g => g.addProc f p id := by
  simp only [move, h]

@[simp] theorem recheck_id : (g.recheck id node).1.id = g.id := by
  unfold recheck; split <;> rfl
@[simp] theorem recheck_nextNode : (g.recheck id node).1.nextNode = g.nextNode := by
  unfold recheck; split <;> rfl

theorem recheck_hash :
    (g.recheck id node).1.hash = if g.lookup id = none then node :: g.hash else g.hash := by
  unfold recheck; split <;> simp_all [insert]

theorem recheck_free : (g.recheck id node).2 = if g.lookup id = none then none else some node := by
  unfold recheck; split <;> simp_all

theorem recheck_linked (id : Int) (node : Nat) : (g.recheck id node).1.Linked p ↔ g.Linked p := by
  unfold recheck; split <;> rfl

/-- The second section completes, but for the `list_delete` of an unlinked node. -/
theorem moveFinish_eq {r : (Groups × (Nat → Int)) × Option Nat}
    (h : g.moveFinish f p id node = some r) :
    ∃ g₂, (g.recheck id node).1.removeProc p (f p) = some g₂ ∧
      r = (g₂.addProc f p id, (g.recheck id node).2) := by
  obtain ⟨g₂, h₂, rfl⟩ := Option.map_eq_some'.1 h
  exact ⟨g₂, h₂, rfl⟩

theorem lookup_recheck (id : Int) (node : Nat) {x : Int} (h : g.lookup x ≠ none) :
    (g.recheck id node).1.lookup x ≠ none := by
  unfold recheck
  split
  · exact h
  · intro h'
    simp only [lookup, insert, List.find?_cons] at h'
    split at h'
    · cases h'
    · exact h h'

/-- The second section faults when the process is on no list while a node has its current id:
the `list_delete` of `remove_proc_from_pgroup` goes through `NULL` links. -/
theorem moveFinish_of_not_linked (hl : ¬g.Linked p) (hn : g.lookup (f p) ≠ none) :
    g.moveFinish f p id node = none := by
  obtain ⟨n, hn'⟩ := Option.ne_none_iff_exists'.1 (lookup_recheck id node hn)
  simp only [moveFinish, removeProc, hn', delMember, if_neg (mt (recheck_linked id node).1 hl),
    Option.map_none']

/-- It completes when the process is on a list. -/
theorem moveFinish_of_linked (f : Nat → Int) (id : Int) (node : Nat) (hl : g.Linked p) :
    ∃ r, g.moveFinish f p id node = some r := by
  obtain ⟨g₂, h₂⟩ := removeProc_of_linked (f p) ((recheck_linked id node).2 hl)
  exact ⟨_, by simp only [moveFinish, h₂]; rfl⟩

theorem moveFinish_frame {r : (Groups × (Nat → Int)) × Option Nat}
    (h : g.moveFinish f p id node = some r) :
    r.1.1.id = g.id ∧ r.1.1.nextNode = g.nextNode ∧ r.1.1.hash = (g.recheck id node).1.hash := by
  obtain ⟨g₂, h₂, rfl⟩ := moveFinish_eq h
  obtain ⟨e₁, e₂, e₃⟩ := removeProc_frame h₂
  simp only [addProc_id, addProc_nextNode, addProc_hash, e₁, e₂, e₃, recheck_id, recheck_nextNode,
    and_self]

/-- How a table may change outside a second critical section: the allocation frontier only
advances, allocated nodes keep their ids, and the hash gains only nodes allocated since. -/
structure Grows (g g' : Groups) : Prop where
  nextNode_le : g.nextNode ≤ g'.nextNode
  id_eq : ∀ n < g.nextNode, g'.id n = g.id n
  hash_mem : ∀ n ∈ g'.hash, n ∈ g.hash ∨ g.nextNode ≤ n ∧ n < g'.nextNode

namespace Grows

theorem refl (g : Groups) : Grows g g := ⟨le_rfl, fun _ _ => rfl, fun _ hn => .inl hn⟩

theorem trans (h₁ : Grows g g') (h₂ : Grows g' g'') : Grows g g'' where
  nextNode_le := h₁.nextNode_le.trans h₂.nextNode_le
  id_eq n hn := (h₂.id_eq n (lt_of_lt_of_le hn h₁.nextNode_le)).trans (h₁.id_eq n hn)
  hash_mem n hn := (h₂.hash_mem n hn).elim
    (fun hm => (h₁.hash_mem n hm).imp_right fun h => ⟨h.1, lt_of_lt_of_le h.2 h₂.nextNode_le⟩)
    fun h => .inr ⟨h₁.nextNode_le.trans h.1, h.2⟩

theorem of_eq (hh : g'.hash = g.hash) (hi : g'.id = g.id) (hn : g'.nextNode = g.nextNode) :
    Grows g g' :=
  ⟨hn.ge, fun n _ => congrFun hi n, fun _ hm => .inl (hh ▸ hm)⟩

theorem publish : Grows g (g.publish id) where
  nextNode_le := by simp
  id_eq n hn := by simp [Groups.publish, create, insert, update_noteq hn.ne]
  hash_mem n hn := by
    rcases List.mem_cons.1 hn with rfl | hm
    · exact .inr ⟨le_rfl, Nat.lt_succ_self _⟩
    · exact .inl hm

theorem create : Grows g (g.create id).1 where
  nextNode_le := by simp [Groups.create]
  id_eq n hn := by simp [Groups.create, update_noteq hn.ne]
  hash_mem n hn := .inl hn

theorem addProc : Grows g (g.addProc f p id).1 := of_eq (by simp) (by simp) (by simp)

theorem removeProc (h : g.removeProc p id = some g') : Grows g g' :=
  let e := removeProc_frame h
  of_eq e.1 e.2.1 e.2.2

theorem move {r : Groups × (Nat → Int)} (h : g.move f p id = some r) : Grows g r.1 := by
  obtain ⟨g₁, hg, e⟩ := move_eq g f p id
  rw [e] at h
  obtain ⟨g₂, h₂, rfl⟩ := Option.map_eq_some'.1 h
  rcases hg with ⟨-, rfl⟩ | ⟨-, rfl⟩
  · exact (removeProc h₂).trans addProc
  · exact publish.trans ((removeProc h₂).trans addProc)

theorem join {new : Bool} {v : Int} : Grows g (g.join f p new id v).1 := by
  cases new
  · exact addProc
  · exact publish.trans addProc

/-- A table that grows keeps every node below the frontier. -/
theorem hash_lt (h : Grows g g') (hl : ∀ n ∈ g.hash, n < g.nextNode) :
    ∀ n ∈ g'.hash, n < g'.nextNode := fun n hn =>
  (h.hash_mem n hn).elim (fun hm => lt_of_lt_of_le (hl n hm) h.nextNode_le) And.right

/-- A node allocated and not published stays so, with its id, while the table grows. -/
theorem unpublished (h : Grows g g') (hn : n < g.nextNode) (hm : n ∉ g.hash) :
    n < g'.nextNode ∧ n ∉ g'.hash ∧ g'.id n = g.id n :=
  ⟨lt_of_lt_of_le hn h.nextNode_le,
   fun hm' => (h.hash_mem n hm').elim hm fun h' => absurd h'.1 (not_le.2 hn), h.id_eq n hn⟩

end Grows

end Groups

namespace Procs

variable {ps ps' : Procs}

/-- The first critical section of `setpgid(pid, pgid)`, called by a thread of the process with id
`curPid`, as it ends: `.ok none` when the call returns from it, `.ok (some (p, pgid))` when it
releases the process lock to allocate a node for the group `pgid` of the process `p`. -/
def setpgidLocked (ps : Procs) (curPid pid pgid : Int) :
    Option (Procs × Except KernErr (Option (Nat × Int))) :=
  if pid < 0 ∨ pgid < 0 then some (ps, .error .invalidArgs) else
  let pid := if pid = 0 then curPid else pid
  let pgid := if pgid = 0 then pid else pgid
  match ps.procGetProcStructLocked pid with
  | none => some (ps, .error .notFound)
  | some p =>
    if ps.pgid p = pgid then some (ps, .ok none) else
    match ps.pgroups.lookup pgid with
    | some _ => (ps.movePgroup p pgid).map fun ps => (ps, .ok none)
    | none => some (ps, .ok (some (p, pgid)))

/-- The first critical section of `setsid()`, called by a thread of the process with id
`curPid`. -/
def setsidLocked (ps : Procs) (curPid : Int) : Option (Procs × Except KernErr (Option (Nat × Int))) :=
  match ps.procGetProcStructLocked curPid with
  | none => some (ps, .error .notFound)
  | some p =>
    if ps.sid p = curPid then some (ps, .ok none) else
    match ps.sessions.lookup curPid with
    | some _ => (ps.moveSession p curPid).map fun ps => (ps, .ok none)
    | none => some (ps, .ok (some (p, curPid)))

/-- The second critical section of `setpgid`, with the node `node` allocated for group `pgid`; it
returns `free_node`. -/
def setpgidFinish (ps : Procs) (p : Nat) (pgid : Int) (node : Nat) : Option (Procs × Option Nat) :=
  (ps.pgroups.moveFinish ps.pgid p pgid node).map fun r => ({ ps with pgroups := r.1.1, pgid := r.1.2 }, r.2)

/-- The second critical section of `setsid`. -/
def setsidFinish (ps : Procs) (p : Nat) (sid : Int) (node : Nat) : Option (Procs × Option Nat) :=
  (ps.sessions.moveFinish ps.sid p sid node).map fun r => ({ ps with sessions := r.1.1, sid := r.1.2 }, r.2)

/-- The table `setsid` (`true`) or `setpgid` (`false`) works on. -/
def table (ps : Procs) (session : Bool) : Groups := if session then ps.sessions else ps.pgroups

/-- The process field that holds the ids of that table. -/
def ids (ps : Procs) (session : Bool) : Nat → Int := if session then ps.sid else ps.pgid

/-- The process state with the table `session` names replaced. -/
def setTable (ps : Procs) (session : Bool) (g : Groups) : Procs :=
  if session then { ps with sessions := g } else { ps with pgroups := g }

@[simp] theorem table_setTable {s s' : Bool} {g : Groups} :
    (ps.setTable s g).table s' = if s' = s then g else ps.table s' := by
  cases s <;> cases s' <;> rfl

/-- The second critical section of the call `(session, p, id, node)`. -/
def finish (ps : Procs) (session : Bool) (p : Nat) (id : Int) (node : Nat) : Option Procs :=
  if session then (ps.setsidFinish p id node).map Prod.fst else (ps.setpgidFinish p id node).map Prod.fst

theorem finish_eq {s : Bool} {p node : Nat} {id : Int} :
    ps.finish s p id node = ((ps.table s).moveFinish (ps.ids s) p id node).map fun r =>
      if s then { ps with sessions := r.1.1, sid := r.1.2 } else { ps with pgroups := r.1.1, pgid := r.1.2 } := by
  cases s <;> simp only [finish, setsidFinish, setpgidFinish, Option.map_map] <;> rfl

/-- What a second critical section does to the tables: it publishes the call's node in its table
when no node there has the call's id, and keeps the nodes' ids and the frontiers. -/
theorem finish_tables {s : Bool} {p node : Nat} {id : Int} (h : ps.finish s p id node = some ps')
    (s' : Bool) :
    (ps'.table s').hash = (if s' = s ∧ (ps.table s).lookup id = none then node :: (ps.table s').hash
      else (ps.table s').hash) ∧
    (ps'.table s').id = (ps.table s').id ∧ (ps'.table s').nextNode = (ps.table s').nextNode := by
  rw [finish_eq] at h
  obtain ⟨r, hr, rfl⟩ := Option.map_eq_some'.1 h
  obtain ⟨e₁, e₂, e₃⟩ := Groups.moveFinish_frame hr
  have e : (if s then { ps with sessions := r.1.1, sid := r.1.2 }
      else { ps with pgroups := r.1.1, pgid := r.1.2 }).table s' = if s' = s then r.1.1 else ps.table s' := by
    cases s <;> cases s' <;> rfl
  rw [e]
  by_cases hs : s' = s
  · subst hs
    simp only [if_true, true_and, e₁, e₂, e₃, Groups.recheck_hash, and_self]
  · simp [hs]

theorem finish_of_linked {s : Bool} {p node : Nat} {id : Int} (hl : (ps.table s).Linked p) :
    ∃ ps', ps.finish s p id node = some ps' := by
  obtain ⟨r, hr⟩ := Groups.moveFinish_of_linked (ps.ids s) id node hl
  exact ⟨_, by rw [finish_eq, hr]; rfl⟩

theorem finish_of_not_linked {s : Bool} {p node : Nat} {id : Int} (hl : ¬(ps.table s).Linked p)
    (hn : (ps.table s).lookup (ps.ids s p) ≠ none) : ps.finish s p id node = none := by
  rw [finish_eq, Groups.moveFinish_of_not_linked hl hn]; rfl

theorem setpgidLocked_cases {cur pid pgid : Int} {res : Except KernErr (Option (Nat × Int))}
    (h : ps.setpgidLocked cur pid pgid = some (ps', res)) :
    ps' = ps ∨ ∃ p g, ps.movePgroup p g = some ps' := by
  unfold setpgidLocked at h
  by_cases hn : pid < 0 ∨ pgid < 0
  · rw [if_pos hn] at h; cases h; exact .inl rfl
  rw [if_neg hn] at h
  dsimp only at h
  generalize (if pid = 0 then cur else pid) = q at h
  generalize (if pgid = 0 then q else pgid) = g at h
  split at h
  · cases h; exact .inl rfl
  · split_ifs at h
    · cases h; exact .inl rfl
    · split at h
      · obtain ⟨_, hm, he⟩ := Option.map_eq_some'.1 h
        cases he; exact .inr ⟨_, _, hm⟩
      · cases h; exact .inl rfl

theorem setsidLocked_cases {cur : Int} {res : Except KernErr (Option (Nat × Int))}
    (h : ps.setsidLocked cur = some (ps', res)) : ps' = ps ∨ ∃ p, ps.moveSession p cur = some ps' := by
  unfold setsidLocked at h
  split at h
  · cases h; exact .inl rfl
  · split_ifs at h
    · cases h; exact .inl rfl
    · split at h
      · obtain ⟨_, hm, he⟩ := Option.map_eq_some'.1 h
        cases he; exact .inr ⟨_, hm⟩
      · cases h; exact .inl rfl

/-- The first critical sections only move processes between groups and sessions. -/
theorem setpgidLocked_grows {cur pid pgid : Int} {res : Except KernErr (Option (Nat × Int))}
    (h : ps.setpgidLocked cur pid pgid = some (ps', res)) (s : Bool) :
    Groups.Grows (ps.table s) (ps'.table s) := by
  rcases setpgidLocked_cases h with rfl | ⟨p, g, e⟩
  · exact .refl _
  · obtain ⟨_, hm, rfl⟩ := Option.map_eq_some'.1 e
    cases s
    · exact .move hm
    · exact .refl _

theorem setsidLocked_grows {cur : Int} {res : Except KernErr (Option (Nat × Int))}
    (h : ps.setsidLocked cur = some (ps', res)) (s : Bool) :
    Groups.Grows (ps.table s) (ps'.table s) := by
  rcases setsidLocked_cases h with rfl | ⟨p, e⟩
  · exact .refl _
  · obtain ⟨_, hm, rfl⟩ := Option.map_eq_some'.1 e
    cases s
    · exact .refl _
    · exact .move hm

/-- The atomic `setpgid` of the kernel model is its first critical section followed at once by
the allocation and the second one. -/
theorem setpgid_eq_split {cur pid pgid : Int} (hf : ps.pgroups.nextNode ∉ ps.pgroups.hash) :
    ps.setpgid cur pid pgid = (ps.setpgidLocked cur pid pgid).bind fun
      | (ps', .ok (some (p, g))) =>
        ({ ps' with pgroups := (ps'.pgroups.create g).1 }.setpgidFinish p g
          (ps'.pgroups.create g).2).map fun r : Procs × Option Nat => (r.1, .ok ())
      | (ps', r) => some (ps', Except.map (fun _ => ()) r) := by
  unfold setpgid setpgidLocked
  by_cases hn : pid < 0 ∨ pgid < 0
  · simp only [if_pos hn]; rfl
  simp only [if_neg hn]
  generalize (if pid = 0 then cur else pid) = q
  generalize (if pgid = 0 then q else pgid) = g
  cases ps.procGetProcStructLocked q with
  | none => rfl
  | some p =>
    dsimp only
    by_cases he : ps.pgid p = g
    · simp only [if_pos he]; rfl
    simp only [if_neg he]
    cases h : ps.pgroups.lookup g with
    | some n =>
      simp only [movePgroup, Groups.move_of_lookup_some h, Option.map_map, Option.bind_map]
      cases ps.pgroups.removeProc p (ps.pgid p) <;> rfl
    | none =>
      simp only [movePgroup, Groups.move_eq_moveFinish hf h, Option.map_map, Option.some_bind,
        setpgidFinish]
      rfl

/-- The atomic `setsid` of the kernel model is its first critical section followed at once by
the allocation and the second one. -/
theorem setsid_eq_split {cur : Int} (hf : ps.sessions.nextNode ∉ ps.sessions.hash) :
    ps.setsid cur = (ps.setsidLocked cur).bind fun
      | (ps', .ok (some (p, s))) =>
        ({ ps' with sessions := (ps'.sessions.create s).1 }.setsidFinish p s
          (ps'.sessions.create s).2).map fun r : Procs × Option Nat => (r.1, .ok ())
      | (ps', r) => some (ps', Except.map (fun _ => ()) r) := by
  unfold setsid setsidLocked
  cases ps.procGetProcStructLocked cur with
  | none => rfl
  | some p =>
    dsimp only
    by_cases he : ps.sid p = cur
    · simp only [if_pos he]; rfl
    simp only [if_neg he]
    cases h : ps.sessions.lookup cur with
    | some n =>
      simp only [moveSession, Groups.move_of_lookup_some h, Option.map_map, Option.bind_map]
      cases ps.sessions.removeProc p (ps.sid p) <;> rfl
    | none =>
      simp only [moveSession, Groups.move_eq_moveFinish hf h, Option.map_map, Option.some_bind,
        setsidFinish]
      rfl

end Procs

namespace Kernel
open Procs

variable {P : Priorities} {ncpu : Nat} {k k' : Kernel} {op : Op}

/-- Every step of the kernel model lets both tables grow. -/
theorem step_grows (hs : step P ncpu k op = some k') (s : Bool) :
    Groups.Grows (k.procs.table s) (k'.procs.table s) := by
  rcases step_procs_cases hs with e | ⟨pid, rfl⟩ | ⟨c, -, -, rfl⟩ | ⟨c, -, -, e⟩ |
    ⟨p, ps, -, -, -, -, htd, rfl⟩ | ⟨c, ns, np, aspace, k₁, p, tid, -, -, hpub, hct⟩ |
    ⟨c, cp, pid, pgid, ps, r, -, hr, rfl⟩ | ⟨c, cp, ps, r, -, hr, rfl⟩
  · rw [e]; exact .refl _
  · obtain ⟨_, _, _, _, _, e⟩ := createThread_procs_eq (P := P) (k := k) pid
    rw [e]; cases s <;> exact .refl _
  · obtain ⟨_, _, _, _, _, _, e⟩ := exitBegin_procs_eq (P := P) (k := k) (c := c)
    rw [e]; cases s <;> exact .refl _
  · rw [e]; cases s <;> exact .refl _
  · obtain ⟨hg, hs⟩ := teardown_groups htd
    cases s
    · exact .removeProc hg
    · exact .removeProc hs
  · obtain ⟨-, -, cp, -, hl⟩ := createProcPublish_some hpub
    obtain ⟨_, _, _, _, _, e⟩ := createThread_procs_eq (P := P)
      (k := { k₁ with procs := { k₁.procs with aspaceId := update k₁.procs.aspaceId p aspace } })
      (k₁.procs.pid p)
    rw [hct] at e
    have e' : k'.procs = _ := e
    obtain ⟨c, -, hs, hg⟩ := procCreateProcLocked_groups hl
    rw [e']
    cases s
    · show Groups.Grows _ k₁.procs.pgroups
      rw [show k₁.procs.pgroups = _ from congrArg Prod.fst hg]; exact .join
    · show Groups.Grows _ k₁.procs.sessions
      rw [show k₁.procs.sessions = _ from congrArg Prod.fst hs]; exact .join
  · rcases setpgid_cases hr with rfl | ⟨p, -, g, e⟩
    · exact .refl _
    · obtain ⟨_, hm, rfl⟩ := Option.map_eq_some'.1 e
      cases s
      · exact .move hm
      · exact .refl _
  · rcases setsid_cases hr with rfl | ⟨p, -, e⟩
    · exact .refl _
    · obtain ⟨_, hm, rfl⟩ := Option.map_eq_some'.1 e
      cases s
      · exact .refl _
      · exact .move hm

end Kernel

/-- A `setpgid` (`session = false`) or `setsid` (`session = true`) call between its two critical
sections: it is to move the process `p` into the group or session `id`, and allocated the node
`node` for it. -/
structure Pending where
  session : Bool
  p : Nat
  id : Int
  node : Nat
  deriving DecidableEq, Repr

/-- The kernel with the calls that are between their two critical sections, by calling thread. -/
structure Race where
  kernel : Kernel
  calls : Nat → Option Pending

/-- The operations of the race system: any operation of the kernel model; the first critical
section of a `setpgid` or `setsid` called on CPU `c`, with the allocation after it; and the
second critical section of the call of thread `t`. -/
inductive RaceOp
  | kernel (op : Op)
  | setpgid (c : Nat) (pid pgid : Int)
  | setsid (c : Nat)
  | finish (t : Nat)

/-- The CPU whose current thread performs an operation of the kernel model itself, for the
operations a thread performs. A thread inside `setpgid` or `setsid` performs none of them. -/
def Op.cpu : Op → Option Nat
  | .setPriority c .. | .exitBegin c | .exitFinish c .. | .createProc c .. | .setpgid c ..
  | .setsid c => some c
  | _ => none

namespace Race
open Procs

/-- The state `thread_init` leaves, with no call in progress. -/
def init (P : Priorities) (ncpu : Nat) : Race := ⟨Kernel.init P ncpu, fun _ => none⟩

/-- What the first critical section run by thread `t` leaves: its process state and, when it
released the lock, the call parked with the node allocated for it in the table `session` names. -/
def park (r : Race) (t : Nat) (session : Bool) : Procs × Except KernErr (Option (Nat × Int)) → Race
  | (ps, .ok (some (p, id))) =>
    let a := (ps.table session).create id
    { kernel := { r.kernel with procs := ps.setTable session a.1 },
      calls := update r.calls t (some ⟨session, p, id, a.2⟩) }
  | (ps, _) => { r with kernel := { r.kernel with procs := ps } }

section
variable (P : Priorities) (ncpu : Nat)

/-- One step of the race system. -/
def step (r : Race) : RaceOp → Option Race
  | .kernel op =>
    if op.cpu.all fun c => (r.calls (r.kernel.sched.current c)).isNone then
      (Kernel.step P ncpu r.kernel op).map fun k => { r with kernel := k }
    else none
  | .setpgid c pid pgid =>
    if c < ncpu ∧ r.calls (r.kernel.sched.current c) = none then
      (r.kernel.curProc c).bind fun cp =>
        (r.kernel.procs.setpgidLocked (r.kernel.procs.pid cp) pid pgid).map
          (r.park (r.kernel.sched.current c) false)
    else none
  | .setsid c =>
    if c < ncpu ∧ r.calls (r.kernel.sched.current c) = none then
      (r.kernel.curProc c).bind fun cp =>
        (r.kernel.procs.setsidLocked (r.kernel.procs.pid cp)).map
          (r.park (r.kernel.sched.current c) true)
    else none
  | .finish t =>
    (r.calls t).bind fun x => (r.kernel.procs.finish x.session x.p x.id x.node).map fun ps =>
      { kernel := { r.kernel with procs := ps }, calls := update r.calls t none }

inductive Reachable : Race → Prop
  | init : Reachable (init P ncpu)
  | step {r r' : Race} {op : RaceOp} (reach : Reachable r) (hstep : step P ncpu r op = some r') :
      Reachable r'

/-- The state after a sequence of operations, when each is enabled. -/
def run : Race → List RaceOp → Option Race
  | r, [] => some r
  | r, op :: ops => (step P ncpu r op).bind fun r' => run r' ops

end

variable {P : Priorities} {ncpu : Nat} {r r' : Race} {t : Nat} {x : Pending}

/-- What holds of the tables and of the parked calls: the nodes of a hash lie below its frontier,
and the node of each parked call is allocated, unpublished, carries the call's id, and is no
other parked call's. -/
structure Inv (r : Race) : Prop where
  hash_lt : ∀ s, ∀ n ∈ (r.kernel.procs.table s).hash, n < (r.kernel.procs.table s).nextNode
  node_lt : ∀ t x, r.calls t = some x → x.node < (r.kernel.procs.table x.session).nextNode
  node_not_mem : ∀ t x, r.calls t = some x → x.node ∉ (r.kernel.procs.table x.session).hash
  node_id : ∀ t x, r.calls t = some x → (r.kernel.procs.table x.session).id x.node = x.id
  node_inj : ∀ t t' x x', r.calls t = some x → r.calls t' = some x' → x.session = x'.session →
    x.node = x'.node → t = t'

namespace Inv

/-- Growing tables keep the invariant while no call is parked or resumed. -/
theorem grows (h : Inv r)
    (hg : ∀ s, Groups.Grows (r.kernel.procs.table s) (r'.kernel.procs.table s))
    (hc : r'.calls = r.calls) : Inv r' := by
  have hx : ∀ {t x}, r'.calls t = some x → r.calls t = some x := fun e => (congrFun hc _).symm.trans e
  have hu : ∀ {t x}, r'.calls t = some x →
      x.node < (r'.kernel.procs.table x.session).nextNode ∧
      x.node ∉ (r'.kernel.procs.table x.session).hash ∧
      (r'.kernel.procs.table x.session).id x.node = (r.kernel.procs.table x.session).id x.node :=
    fun e => (hg _).unpublished (h.node_lt _ _ (hx e)) (h.node_not_mem _ _ (hx e))
  exact ⟨fun s => (hg s).hash_lt (h.hash_lt s), fun _ _ e => (hu e).1, fun _ _ e => (hu e).2.1,
    fun _ _ e => (hu e).2.2.trans (h.node_id _ _ (hx e)),
    fun _ _ _ _ e₁ e₂ => h.node_inj _ _ _ _ (hx e₁) (hx e₂)⟩

/-- Parking a call on a fresh node keeps the invariant. -/
theorem alloc (h : Inv r)
    (hg : ∀ s, Groups.Grows (r.kernel.procs.table s) (r'.kernel.procs.table s))
    (hc : r'.calls = update r.calls t (some x)) (ht : r.calls t = none)
    (hn : (r.kernel.procs.table x.session).nextNode ≤ x.node)
    (hlt : x.node < (r'.kernel.procs.table x.session).nextNode)
    (hnm : x.node ∉ (r'.kernel.procs.table x.session).hash)
    (hid : (r'.kernel.procs.table x.session).id x.node = x.id) : Inv r' := by
  have hcall : ∀ {t' y}, r'.calls t' = some y → (t' = t ∧ y = x) ∨ (t' ≠ t ∧ r.calls t' = some y) := by
    intro t' y e
    rw [hc] at e
    by_cases ht' : t' = t
    · subst ht'; simp only [update_same, Option.some.injEq] at e; exact .inl ⟨rfl, e.symm⟩
    · exact .inr ⟨ht', (update_noteq ht' _ _).symm.trans e⟩
  have hold : ∀ {t' y}, r.calls t' = some y →
      y.node < (r'.kernel.procs.table y.session).nextNode ∧
      y.node ∉ (r'.kernel.procs.table y.session).hash ∧
      (r'.kernel.procs.table y.session).id y.node = (r.kernel.procs.table y.session).id y.node :=
    fun e => (hg _).unpublished (h.node_lt _ _ e) (h.node_not_mem _ _ e)
  have hne : ∀ {t' y}, r.calls t' = some y → x.session = y.session → x.node ≠ y.node := by
    intro t' y e hs hn'
    have := h.node_lt _ _ e
    rw [← hs, ← hn'] at this
    exact absurd this (not_lt.2 hn)
  refine ⟨fun s => (hg s).hash_lt (h.hash_lt s), fun t' y e => ?_, fun t' y e => ?_,
    fun t' y e => ?_, fun t₁ t₂ y₁ y₂ e₁ e₂ hs hn' => ?_⟩
  · rcases hcall e with ⟨-, rfl⟩ | ⟨-, e⟩
    · exact hlt
    · exact (hold e).1
  · rcases hcall e with ⟨-, rfl⟩ | ⟨-, e⟩
    · exact hnm
    · exact (hold e).2.1
  · rcases hcall e with ⟨-, rfl⟩ | ⟨-, e⟩
    · exact hid
    · exact (hold e).2.2.trans (h.node_id _ _ e)
  · rcases hcall e₁ with ⟨rfl, rfl⟩ | ⟨h₁, e₁⟩ <;> rcases hcall e₂ with ⟨rfl, rfl⟩ | ⟨h₂, e₂⟩
    · rfl
    · exact absurd hn' (hne e₂ hs)
    · exact absurd hn'.symm (hne e₁ hs.symm)
    · exact h.node_inj _ _ _ _ e₁ e₂ hs hn'

/-- The end of a first critical section keeps the invariant, the allocation included. -/
theorem park {res : Procs × Except KernErr (Option (Nat × Int))} {s : Bool}
    (h : Inv { r with kernel := { r.kernel with procs := res.1 } }) (ht : r.calls t = none) :
    Inv (r.park t s res) := by
  rcases res with ⟨ps, _ | _ | ⟨p, id⟩⟩
  · exact h
  · exact h
  · refine h.alloc (x := ⟨s, p, id, (ps.table s).nextNode⟩) (fun s' => ?_) rfl ht le_rfl ?_ ?_ ?_
    all_goals dsimp only [Race.park]; simp only [table_setTable]
    · split_ifs with e
      · subst e; exact .create
      · exact .refl _
    · simp [Groups.create]
    · exact fun hm => lt_irrefl _ (h.hash_lt s _ hm)
    · simp [Groups.create]

/-- A second critical section keeps the invariant. -/
theorem finish {ps : Procs} (h : Inv r) (hx : r.calls t = some x)
    (hf : r.kernel.procs.finish x.session x.p x.id x.node = some ps) :
    Inv { kernel := { r.kernel with procs := ps }, calls := update r.calls t none } := by
  have hcall : ∀ {t' y}, update r.calls t none t' = some y → t' ≠ t ∧ r.calls t' = some y := by
    intro t' y e
    by_cases ht' : t' = t
    · subst ht'; simp at e
    · exact ⟨ht', (update_noteq ht' _ _).symm.trans e⟩
  refine ⟨fun s n hn => ?_, fun t' y e => ?_, fun t' y e => ?_, fun t' y e => ?_,
    fun t₁ t₂ y₁ y₂ e₁ e₂ => h.node_inj t₁ t₂ y₁ y₂ (hcall e₁).2 (hcall e₂).2⟩
  · obtain ⟨e₁, -, e₃⟩ := finish_tables hf s
    dsimp only at hn ⊢
    rw [e₁] at hn
    rw [e₃]
    split_ifs at hn with hs
    · rcases List.mem_cons.1 hn with rfl | hn
      · obtain ⟨rfl, -⟩ := hs; exact h.node_lt _ _ hx
      · exact h.hash_lt s n hn
    · exact h.hash_lt s n hn
  · dsimp only; rw [(finish_tables hf _).2.2]; exact h.node_lt _ _ (hcall e).2
  · dsimp only
    rw [(finish_tables hf _).1]
    split_ifs with hs
    · refine List.not_mem_cons_of_ne_of_not_mem (fun hn => (hcall e).1 ?_) (h.node_not_mem _ _ (hcall e).2)
      exact h.node_inj _ _ _ _ (hcall e).2 hx hs.1 hn
    · exact h.node_not_mem _ _ (hcall e).2
  · dsimp only; rw [(finish_tables hf _).2.1]; exact h.node_id _ _ (hcall e).2

theorem step (h : Inv r) {op : RaceOp} (hs : Race.step P ncpu r op = some r') : Inv r' := by
  cases op with
  | kernel op =>
    simp only [Race.step] at hs
    split_ifs at hs
    obtain ⟨k, hk, rfl⟩ := Option.map_eq_some'.1 hs
    exact h.grows (fun s => Kernel.step_grows hk s) rfl
  | setpgid c pid pgid =>
    simp only [Race.step] at hs
    split_ifs at hs with hc
    obtain ⟨cp, -, hs⟩ := Option.bind_eq_some.1 hs
    obtain ⟨⟨ps, res⟩, hres, rfl⟩ := Option.map_eq_some'.1 hs
    exact park (h.grows (fun s => setpgidLocked_grows hres s) rfl) hc.2
  | setsid c =>
    simp only [Race.step] at hs
    split_ifs at hs with hc
    obtain ⟨cp, -, hs⟩ := Option.bind_eq_some.1 hs
    obtain ⟨⟨ps, res⟩, hres, rfl⟩ := Option.map_eq_some'.1 hs
    exact park (h.grows (fun s => setsidLocked_grows hres s) rfl) hc.2
  | finish t =>
    obtain ⟨x, hx, hs⟩ := Option.bind_eq_some.1 hs
    obtain ⟨ps, hf, rfl⟩ := Option.map_eq_some'.1 hs
    exact h.finish hx hf

end Inv

theorem Reachable.run {ops : List RaceOp} (hr : Reachable P ncpu r)
    (h : Race.run P ncpu r ops = some r') : Reachable P ncpu r' := by
  induction ops generalizing r with
  | nil => cases h; exact hr
  | cons op ops ih =>
    obtain ⟨r₁, hs, h⟩ := Option.bind_eq_some.1 h
    exact ih (hr.step hs) h

theorem inv_of_reachable (hr : Reachable P ncpu r) : Inv r := by
  induction hr with
  | init =>
    refine ⟨fun s n hn => ?_, fun _ _ e => ?_, fun _ _ e => ?_, fun _ _ e => ?_, fun _ _ _ _ e => ?_⟩
    · cases s <;> simp_all [table, Race.init, Kernel.init]
    all_goals exact absurd e (by simp [Race.init])
  | step _ hs ih => exact ih.step hs

/-- Under any interleaving, the second critical section of a parked `setpgid` or `setsid` call
runs when its process is on a list of the call's table, and faults in `list_delete` when the
process is on none while a node has its current id, as after the process's teardown. When it
runs, it publishes the call's node exactly when no node of the table has the call's id, so the
node of a call that lost the race is never published, and it never raises the number of nodes
with one id above one. -/
theorem finish_publishes_once (hr : Reachable P ncpu r) (ht : r.calls t = some x) :
    ((r.kernel.procs.table x.session).Linked x.p → ∃ r', step P ncpu r (.finish t) = some r') ∧
    (¬(r.kernel.procs.table x.session).Linked x.p →
      (r.kernel.procs.table x.session).lookup (r.kernel.procs.ids x.session x.p) ≠ none →
      step P ncpu r (.finish t) = none) ∧
    ∀ r', step P ncpu r (.finish t) = some r' → r'.calls t = none ∧
      (x.node ∈ (r'.kernel.procs.table x.session).hash ↔
        (r.kernel.procs.table x.session).lookup x.id = none) ∧
      ∀ s i, (r'.kernel.procs.table s).hash.countP (fun n => (r'.kernel.procs.table s).id n = i) ≤
        max 1 ((r.kernel.procs.table s).hash.countP fun n => (r.kernel.procs.table s).id n = i) := by
  have h := inv_of_reachable hr
  refine ⟨fun hl => ?_, fun hl hn => ?_, fun r' hs => ?_⟩
  · obtain ⟨ps, hf⟩ : ∃ ps, r.kernel.procs.finish x.session x.p x.id x.node = some ps :=
      finish_of_linked hl
    exact ⟨_, by simp only [step, ht, Option.some_bind, hf]; rfl⟩
  · simp only [step, ht, Option.some_bind, finish_of_not_linked hl hn]; rfl
  obtain ⟨y, hy, hs⟩ := Option.bind_eq_some.1 hs
  rw [ht] at hy; cases hy
  obtain ⟨ps, hf, rfl⟩ := Option.map_eq_some'.1 hs
  refine ⟨by simp, ?_, fun s i => ?_⟩
  · dsimp only
    rw [(finish_tables hf _).1]
    split_ifs with hl
    · simp [hl.2]
    · simp only [true_and] at hl
      simp only [hl, iff_false]
      exact h.node_not_mem _ _ ht
  · dsimp only
    rw [(finish_tables hf _).1, (finish_tables hf _).2.1]
    split_ifs with hl
    · obtain ⟨rfl, hl⟩ := hl
      rw [List.countP_cons, h.node_id _ _ ht]
      by_cases hi : x.id = i
      · subst hi
        have h0 : ((r.kernel.procs.table x.session).hash.countP
            fun n => (r.kernel.procs.table x.session).id n = x.id) = 0 :=
          List.countP_eq_zero.2 fun n hn => by simpa using Groups.lookup_eq_none hl n hn
        simp [h0]
      · simp [hi]
    · exact le_max_right _ _

/-- On one CPU, process 2 (record 1), created by the kernel process, runs `setpgid(0, 5)` from
its thread; the kernel process creates process 3 in the window, and the second section then
publishes group 5. -/
theorem finish_publishes_once_new_proc :
    ∃ r x, run Priorities.sample 1 (init Priorities.sample 1)
        [.kernel (.createProc 0 false false 0), .kernel (.wakeUp 1),
          .kernel (.resched 0 .ready (fun _ => 0) 0), .setpgid 0 0 5] = some r ∧
      r.calls 1 = some x ∧
      ((r.kernel.procs.table x.session).Linked x.p → ∃ r', step Priorities.sample 1 r (.finish 1) = some r') ∧
      (¬(r.kernel.procs.table x.session).Linked x.p →
        (r.kernel.procs.table x.session).lookup (r.kernel.procs.ids x.session x.p) ≠ none →
        step Priorities.sample 1 r (.finish 1) = none) ∧
      ∀ r', step Priorities.sample 1 r (.finish 1) = some r' → r'.calls 1 = none ∧
        (x.node ∈ (r'.kernel.procs.table x.session).hash ↔
          (r.kernel.procs.table x.session).lookup x.id = none) ∧
        ∀ s i, (r'.kernel.procs.table s).hash.countP (fun n => (r'.kernel.procs.table s).id n = i) ≤
          max 1 ((r.kernel.procs.table s).hash.countP fun n => (r.kernel.procs.table s).id n = i) := by
  have hrun : run Priorities.sample 1 (init Priorities.sample 1)
      [.kernel (.createProc 0 false false 0), .kernel (.wakeUp 1),
        .kernel (.resched 0 .ready (fun _ => 0) 0), .setpgid 0 0 5] = some _ := rfl
  exact ⟨_, _, hrun, rfl, finish_publishes_once (Reachable.init.run hrun) rfl⟩

/-- On two CPUs, the kernel process creates process 2 (record 1) from CPU 0. Idle thread 1 calls
`setpgid(2, 5)` on CPU 1, finds no group 5, and releases the process lock to allocate its node.
CPU 0 runs the new process's thread, which exits as the process's main thread, and the process is
torn down: it leaves `proc_hash` and its group's list, whose `list_delete` leaves its node's links
`NULL`. The second critical section of `setpgid` then runs `remove_proc_from_pgroup` on it, and
the `list_delete` there faults. -/
theorem setpgid_faults_on_torn_down :
    ∃ r, run Priorities.sample 2 (init Priorities.sample 2)
        [.kernel (.createProc 0 false false 0), .setpgid 1 2 5, .kernel (.wakeUp 2),
          .kernel (.resched 0 .ready (fun _ => 0) 0), .kernel (.exitBegin 0),
          .kernel (.teardown 1)] = some r ∧
      r.calls 1 = some ⟨false, 1, 5, 1⟩ ∧ 1 ∉ r.kernel.procs.procHash ∧
      ¬r.kernel.procs.pgroups.Linked 1 ∧ r.kernel.procs.pgroups.lookup (r.kernel.procs.pgid 1) ≠ none ∧
      step Priorities.sample 2 r (.finish 1) = none := by
  have hrun : run Priorities.sample 2 (init Priorities.sample 2)
      [.kernel (.createProc 0 false false 0), .setpgid 1 2 5, .kernel (.wakeUp 2),
        .kernel (.resched 0 .ready (fun _ => 0) 0), .kernel (.exitBegin 0),
        .kernel (.teardown 1)] = some _ := rfl
  exact ⟨_, hrun, rfl, by decide, by decide, by decide, rfl⟩

end Race
end NewOS
