import NewOS.Proc.IdWrap

/-! # Process groups and sessions

`pgid_hash` and `sid_hash` are tables of nodes, each node with an id and the list of the
processes of its group or session. The code keeps every process of `proc_hash` on exactly one
list of each table, that of a published node whose id is the process's `pgid` (or `sid`), and
keeps the node ids of `sid_hash` distinct. It does not keep the ids of `pgid_hash` distinct:
`proc_create_proc` with `PROC_FLAG_NEW_PGROUP` inserts its node without looking for one with the
same id, which `setpgid` may have created for an id that was then no process's. Nor does it keep
groups inside sessions: `setpgid` moves a process into a group of another session without a
check, and `setsid` gives a process a new session but keeps its group. -/
namespace NewOS
open Function

namespace Groups

variable {g : Groups} {f : Nat → Int} {p n m : Nat} {id : Int}

theorem lookup_some (h : g.lookup id = some n) : n ∈ g.hash ∧ g.id n = id :=
  ⟨List.mem_of_find?_eq_some h, by simpa using List.find?_some h⟩

theorem mem_addMember_list {q : Nat} :
    q ∈ (g.addMember n p).list m ↔ (m = n ∧ q = p) ∨ q ∈ g.list m := by
  by_cases hm : m = n
  · subst hm; simp [addMember]
  · simp [addMember, hm]

/-- The table after the allocation of a node with id `id` and its `hash_insert`. -/
def publish (g : Groups) (id : Int) : Groups := (g.create id).1.insert (g.create id).2

@[simp] theorem publish_hash : (g.publish id).hash = g.nextNode :: g.hash := rfl
@[simp] theorem publish_nextNode : (g.publish id).nextNode = g.nextNode + 1 := rfl

theorem lookup_publish : (g.publish id).lookup id = some g.nextNode := by
  simp [lookup, publish, create, insert]

theorem lookup_eq_none (h : g.lookup id = none) : ∀ n ∈ g.hash, g.id n ≠ id := fun n hn e =>
  absurd (List.find?_eq_none.1 h n hn) (by simp [e])

@[simp] theorem addProc_hash : (g.addProc f p id).1.hash = g.hash := by
  unfold addProc; split <;> rfl
@[simp] theorem addProc_id : (g.addProc f p id).1.id = g.id := by
  unfold addProc; split <;> rfl
@[simp] theorem addProc_nextNode : (g.addProc f p id).1.nextNode = g.nextNode := by
  unfold addProc; split <;> rfl
theorem delMember_of_linked (h : g.Linked p) :
    g.delMember p = some { g with list := fun n => (g.list n).erase p } := if_pos h

theorem linked_publish (h : g.Linked p) : (g.publish id).Linked p := by
  obtain ⟨n, hn, hm⟩ := h
  exact ⟨n, Nat.lt_succ_of_lt hn, by simpa [publish, create, insert, update_noteq hn.ne] using hm⟩

/-- `remove_proc_from_pgroup` leaves the table as it was (no node has the id), or the member
linked and off every list. -/
theorem removeProc_eq {g' : Groups} (h : g.removeProc p id = some g') :
    g' = g ∨ g.Linked p ∧ g' = { g with list := fun n => (g.list n).erase p } := by
  unfold removeProc delMember at h
  split at h
  · exact .inl (Option.some.inj h).symm
  · split_ifs at h with hl
    exact .inr ⟨hl, (Option.some.inj h).symm⟩

theorem removeProc_frame {g' : Groups} (h : g.removeProc p id = some g') :
    g'.hash = g.hash ∧ g'.id = g.id ∧ g'.nextNode = g.nextNode := by
  rcases removeProc_eq h with rfl | ⟨-, rfl⟩ <;> exact ⟨rfl, rfl, rfl⟩

/-- A linked member can always be removed. -/
theorem removeProc_of_linked (id : Int) (h : g.Linked p) : ∃ g', g.removeProc p id = some g' := by
  unfold removeProc
  split
  · exact ⟨_, rfl⟩
  · exact ⟨_, delMember_of_linked h⟩

/-- The table a move works on: the table itself when a node with id `id` exists, else the table
with a fresh node for `id` published. -/
theorem move_eq (g : Groups) (f : Nat → Int) (p : Nat) (id : Int) :
    ∃ g₁, ((∃ n, g.lookup id = some n) ∧ g₁ = g ∨ g.lookup id = none ∧ g₁ = g.publish id) ∧
    g.move f p id = (g₁.removeProc p (f p)).map fun g => g.addProc f p id := by
  unfold move
  split
  · exact ⟨g, .inl ⟨⟨_, ‹_›⟩, rfl⟩, rfl⟩
  · exact ⟨_, .inr ⟨‹_›, rfl⟩, rfl⟩

/-- A move of a linked member always completes. -/
theorem move_of_linked (f : Nat → Int) (id : Int) (h : g.Linked p) : ∃ r, g.move f p id = some r := by
  obtain ⟨g₁, hg, e⟩ := move_eq g f p id
  have hl : g₁.Linked p := by rcases hg with ⟨-, rfl⟩ | ⟨-, rfl⟩; exacts [h, linked_publish h]
  obtain ⟨g₂, h₂⟩ := removeProc_of_linked (f p) hl
  exact ⟨_, by rw [e, h₂]; rfl⟩

/-- How the locked section of `proc_create_proc` puts the new process `p` into a table whose
ids the field `f` holds: into a freshly published node with id `id` when `new`, else into the
node found for `v`, the id its creator has in that table. -/
def join (g : Groups) (f : Nat → Int) (p : Nat) (new : Bool) (id v : Int) : Groups × (Nat → Int) :=
  if new then (g.publish id).addProc f p id else g.addProc (update f p v) p v

/-- The nodes of the table after `join`: the old ones with their ids, and, when `new`, the fresh
node with id `id`. -/
theorem join_hash {new : Bool} {v : Int} :
    (g.join f p new id v).1.hash = if new then g.nextNode :: g.hash else g.hash := by
  cases new <;> simp [join]

theorem join_id {new : Bool} {v : Int} :
    (g.join f p new id v).1.id = if new then update g.id g.nextNode id else g.id := by
  cases new <;> simp [join, publish, create, insert]

end Groups

/-- The published nodes of a table are distinct and have distinct ids. -/
structure IdsUnique (g : Groups) : Prop where
  nodup : g.hash.Nodup
  id_inj : ∀ n ∈ g.hash, ∀ m ∈ g.hash, g.id n = g.id m → n = m

namespace IdsUnique

variable {g : Groups} {f : Nat → Int} {p : Nat} {id : Int}

/-- Publishing a fresh node whose id no published node has keeps the ids distinct. -/
theorem publish (h : IdsUnique g) (hlt : ∀ n ∈ g.hash, n < g.nextNode)
    (hid : ∀ n ∈ g.hash, g.id n ≠ id) : IdsUnique (g.publish id) := by
  have hne : ∀ n ∈ g.hash, n ≠ g.nextNode := fun n hn => (hlt n hn).ne
  refine ⟨List.nodup_cons.2 ⟨fun hm => hne _ hm rfl, h.nodup⟩, fun n hn m hm e => ?_⟩
  simp only [Groups.publish_hash, List.mem_cons] at hn hm
  have eid : ∀ x ∈ g.hash, (g.publish id).id x = g.id x := fun x hx =>
    update_noteq (hne x hx) _ _
  have enew : (g.publish id).id g.nextNode = id := update_same _ _ _
  rcases hn with rfl | hn <;> rcases hm with rfl | hm
  · rfl
  · rw [enew, eid m hm] at e; exact absurd e.symm (hid m hm)
  · rw [enew, eid n hn] at e; exact absurd e (hid n hn)
  · rw [eid n hn, eid m hm] at e; exact h.id_inj n hn m hm e

theorem addProc (h : IdsUnique g) : IdsUnique (g.addProc f p id).1 :=
  ⟨by simpa using h.nodup, by simpa using h.id_inj⟩

theorem removeProc {g' : Groups} (h : IdsUnique g) (hr : g.removeProc p id = some g') :
    IdsUnique g' := by
  obtain ⟨e₁, e₂, -⟩ := Groups.removeProc_frame hr
  exact ⟨e₁ ▸ h.nodup, by rw [e₁, e₂]; exact h.id_inj⟩

/-- The move of `setsid` publishes a node only for an id no node has. -/
theorem move {r : Groups × (Nat → Int)} (h : IdsUnique g) (hlt : ∀ n ∈ g.hash, n < g.nextNode)
    (hm : g.move f p id = some r) : IdsUnique r.1 := by
  obtain ⟨g₁, hg, e⟩ := Groups.move_eq g f p id
  rw [e] at hm
  obtain ⟨g₂, h₂, rfl⟩ := Option.map_eq_some'.1 hm
  rcases hg with ⟨-, rfl⟩ | ⟨hl, rfl⟩
  · exact (h.removeProc h₂).addProc
  · exact ((h.publish hlt (Groups.lookup_eq_none hl)).removeProc h₂).addProc

end IdsUnique

/-- The membership of the processes of `hash` in the table `g`, whose ids the process field `f`
holds: every process is on the list of a published node with its id; no process is on two
lists, nor twice on one; the lists hold processes of `hash` only; and the published nodes lie
below the allocation frontier `nextNode`. -/
structure MemberInv (g : Groups) (f : Nat → Int) (hash : List Nat) : Prop where
  member : ∀ p ∈ hash, ∃ n ∈ g.hash, g.id n = f p ∧ p ∈ g.list n
  unique : ∀ p n m, p ∈ g.list n → p ∈ g.list m → n = m
  nodup : ∀ n, (g.list n).Nodup
  list_mem : ∀ n, ∀ p ∈ g.list n, p ∈ hash
  hash_lt : ∀ n ∈ g.hash, n < g.nextNode

namespace MemberInv

variable {g : Groups} {f f' : Nat → Int} {hash hash' : List Nat} {p n : Nat} {id : Int}

/-- The tables as `thread_init` leaves them: one node, of id `i`, whose list holds the kernel
process, record 0. -/
theorem single (i : Int) :
    MemberInv ⟨[0], fun _ => i, fun n => if n = 0 then [0] else [], 1⟩ (fun _ => i) [0] where
  member _ hp := ⟨0, List.mem_singleton_self _, rfl, by simpa using hp⟩
  unique _ n m hn hm := by dsimp only at hn hm; split_ifs at hn hm <;> simp_all
  nodup n := by dsimp only; split_ifs <;> simp
  list_mem n _ hp := by dsimp only at hp; split_ifs at hp <;> simp_all
  hash_lt _ hn := by simp_all

/-- The lookup of the id of a member finds a node. -/
theorem lookup_isSome (h : MemberInv g f hash) (hp : p ∈ hash) : ∃ n, g.lookup (f p) = some n := by
  obtain ⟨n, hn, hid, -⟩ := h.member p hp
  cases hl : g.lookup (f p) with
  | none => exact absurd (List.find?_eq_none.1 hl n hn) (by simp [hid])
  | some m => exact ⟨m, rfl⟩

/-- The invariant reads `f` on the members only, and `hash` as a set. -/
theorem congr (h : MemberInv g f hash) (hf : ∀ q ∈ hash, f' q = f q)
    (he : ∀ x, x ∈ hash' ↔ x ∈ hash) : MemberInv g f' hash' := by
  refine ⟨fun q hq => ?_, h.unique, h.nodup, fun m q hq => (he q).2 (h.list_mem m q hq), h.hash_lt⟩
  rw [he] at hq
  rw [hf q hq]; exact h.member q hq

/-- Publishing a freshly allocated node, whose list is empty, keeps the invariant. -/
theorem publish (h : MemberInv g f hash) : MemberInv (g.publish id) f hash := by
  have hlist : ∀ m, (g.publish id).list m = if m = g.nextNode then [] else g.list m := fun m => by
    by_cases hm : m = g.nextNode <;> simp [Groups.publish, Groups.create, Groups.insert, hm]
  have hne : ∀ m ∈ g.hash, m ≠ g.nextNode := fun m hm => (h.hash_lt m hm).ne
  refine ⟨fun q hq => ?_, fun q a b ha hb => ?_, fun m => ?_, fun m q hq => ?_, fun m hm => ?_⟩
  · obtain ⟨m, hm, hid, hqm⟩ := h.member q hq
    refine ⟨m, by simp [hm], ?_, by rw [hlist, if_neg (hne m hm)]; exact hqm⟩
    simp [Groups.publish, Groups.create, Groups.insert, update_noteq (hne m hm), hid]
  · rw [hlist] at ha hb
    split_ifs at ha hb <;> first | cases ha | cases hb | exact h.unique q a b ha hb
  · rw [hlist]; split_ifs
    · exact List.nodup_nil
    · exact h.nodup m
  · rw [hlist] at hq; split_ifs at hq
    · cases hq
    · exact h.list_mem m q hq
  · rw [Groups.publish_hash] at hm
    rcases List.mem_cons.1 hm with rfl | hm
    · exact Nat.lt_succ_self _
    · exact Nat.lt_succ_of_lt (h.hash_lt m hm)

/-- A process new to `hash` joins the node the lookup of `id` finds. -/
theorem addProc (h : MemberInv g f hash) (hp : p ∉ hash) (hl : g.lookup id = some n) :
    MemberInv (g.addProc f p id).1 (g.addProc f p id).2 (p :: hash) := by
  obtain ⟨hn, hid⟩ := Groups.lookup_some hl
  have hpl : ∀ m, p ∉ g.list m := fun m hm => hp (h.list_mem m p hm)
  simp only [Groups.addProc, hl]
  refine ⟨fun q hq => ?_, fun q a b ha hb => ?_, fun m => ?_, fun m q hq => ?_, h.hash_lt⟩
  · rcases List.mem_cons.1 hq with rfl | hq
    · exact ⟨n, hn, by simp [Groups.addMember, hid], Groups.mem_addMember_list.2 (.inl ⟨rfl, rfl⟩)⟩
    · have hqp : q ≠ p := fun e => hp (e ▸ hq)
      obtain ⟨m, hm, hmid, hqm⟩ := h.member q hq
      exact ⟨m, hm, by simp [Groups.addMember, update_noteq hqp, hmid],
        Groups.mem_addMember_list.2 (.inr hqm)⟩
  · rw [Groups.mem_addMember_list] at ha hb
    rcases ha with ⟨ha, hq⟩ | ha <;> rcases hb with ⟨hb, hq'⟩ | hb
    · rw [ha, hb]
    · subst hq; exact absurd hb (hpl b)
    · subst hq'; exact absurd ha (hpl a)
    · exact h.unique q a b ha hb
  · by_cases hm : m = n
    · subst hm; simpa [Groups.addMember] using ⟨hpl m, h.nodup m⟩
    · simpa [Groups.addMember, hm] using h.nodup m
  · rcases Groups.mem_addMember_list.1 hq with ⟨-, rfl⟩ | hq
    · exact List.mem_cons_self _ _
    · exact List.mem_cons_of_mem _ (h.list_mem m q hq)

/-- A member's node is on a list. -/
theorem linked (h : MemberInv g f hash) (hp : p ∈ hash) : g.Linked p :=
  let ⟨n, hn, _, hpn⟩ := h.member p hp
  ⟨n, h.hash_lt n hn, hpn⟩

/-- A member leaves every list when its node is found by the lookup of its own id. -/
theorem removeProc {g' : Groups} (h : MemberInv g f hash) (hp : p ∈ hash)
    (he : ∀ x, x ∈ hash' ↔ x ≠ p ∧ x ∈ hash) (hr : g.removeProc p (f p) = some g') :
    MemberInv g' f hash' := by
  obtain ⟨n, hl⟩ := h.lookup_isSome hp
  simp only [Groups.removeProc, hl, Groups.delMember_of_linked (h.linked hp), Option.some.injEq] at hr
  subst hr
  refine ⟨fun q hq => ?_, fun q a b ha hb => h.unique q a b (List.mem_of_mem_erase ha)
    (List.mem_of_mem_erase hb), fun m => (h.nodup m).erase p, fun m q hq => ?_, h.hash_lt⟩
  · obtain ⟨hqp, hq⟩ := (he q).1 hq
    obtain ⟨m, hm, hid, hqm⟩ := h.member q hq
    exact ⟨m, hm, hid, (List.mem_erase_of_ne hqp).2 hqm⟩
  · rw [(h.nodup m).mem_erase_iff] at hq
    exact (he q).2 ⟨hq.1, h.list_mem m q hq.2⟩

/-- The move of `setpgid` and `setsid` keeps the invariant. -/
theorem move {r : Groups × (Nat → Int)} (h : MemberInv g f hash) (hp : p ∈ hash)
    (hm : g.move f p id = some r) : MemberInv r.1 r.2 hash := by
  obtain ⟨g₁, hg, e⟩ := Groups.move_eq g f p id
  rw [e] at hm
  obtain ⟨g₂, h₂, rfl⟩ := Option.map_eq_some'.1 hm
  obtain ⟨h₁, n, hl⟩ : MemberInv g₁ f hash ∧ ∃ n, g₁.lookup id = some n := by
    rcases hg with ⟨hn, rfl⟩ | ⟨-, rfl⟩
    · exact ⟨h, hn⟩
    · exact ⟨h.publish, _, Groups.lookup_publish⟩
  have hf := Groups.removeProc_frame h₂
  have hl₂ : g₂.lookup id = some n := by simp only [Groups.lookup, hf.1, hf.2.1]; exact hl
  have h₃ : MemberInv g₂ f (hash.filter (· ≠ p)) := h₁.removeProc hp (fun x => by simp [and_comm]) h₂
  refine (h₃.addProc (by simp) hl₂).congr (fun _ _ => rfl) fun x => ?_
  by_cases hx : x = p
  · subst hx; simp [hp]
  · simp [hx]

/-- The join of `proc_create_proc` puts a process new to `hash` into the table, when a fresh
node is published for it or the lookup of its creator's id finds a node. -/
theorem join {g' : Groups} {f₀ f'' : Nat → Int} {new : Bool} {v : Int}
    (h : MemberInv g f hash) (he : (g', f'') = g.join f₀ p new id v) (hp : p ∉ hash)
    (hv : new = false → ∃ n, g.lookup v = some n) (hf : ∀ q ∈ hash, f₀ q = f q) :
    MemberInv g' f'' (p :: hash) := by
  obtain ⟨rfl, rfl⟩ := Prod.ext_iff.1 he
  cases new
  · obtain ⟨n, hl⟩ := hv rfl
    refine (h.congr (fun q hq => ?_) fun _ => Iff.rfl).addProc hp hl
    rw [update_noteq (show q ≠ p from fun e => hp (e ▸ hq)), hf q hq]
  · exact (h.congr hf fun _ => Iff.rfl).publish.addProc hp Groups.lookup_publish

end MemberInv

namespace Groups

variable {g : Groups} {f : Nat → Int} {p n : Nat} {id : Int}

/-- The nodes after a move: the old ones with their ids, and possibly a fresh one with id `id`. -/
theorem mem_move_hash {r : Groups × (Nat → Int)} (hm : g.move f p id = some r) (hn : n ∈ r.1.hash) :
    (n ∈ g.hash ∧ r.1.id n = g.id n) ∨ r.1.id n = id := by
  obtain ⟨g₁, hg, e⟩ := move_eq g f p id
  rw [e] at hm
  obtain ⟨g₂, h₂, rfl⟩ := Option.map_eq_some'.1 hm
  obtain ⟨e₁, e₂, -⟩ := removeProc_frame h₂
  simp only [addProc_hash, addProc_id, e₁, e₂] at hn ⊢
  rcases hg with ⟨-, rfl⟩ | ⟨-, rfl⟩
  · exact .inl ⟨hn, rfl⟩
  · by_cases hnn : n = g.nextNode
    · subst hnn; exact .inr (update_same _ _ _)
    · exact .inl ⟨(List.mem_cons.1 hn).resolve_left hnn, update_noteq hnn _ _⟩

theorem addProc_snd_of_lookup (h : g.lookup id = some n) : (g.addProc f p id).2 = update f p id := by
  simp only [addProc, h]

/-- A move gives `p` the id `id`, whether a node with that id was found or published for it, and
leaves every other process's id as it was. -/
theorem move_snd {r : Groups × (Nat → Int)} (hm : g.move f p id = some r) : r.2 = update f p id := by
  obtain ⟨g₁, hg, e⟩ := move_eq g f p id
  rw [e] at hm
  obtain ⟨g₂, h₂, rfl⟩ := Option.map_eq_some'.1 hm
  obtain ⟨e₁, e₂, -⟩ := removeProc_frame h₂
  have hl : ∃ n, g₁.lookup id = some n := by
    rcases hg with ⟨hn, rfl⟩ | ⟨-, rfl⟩
    · exact hn
    · exact ⟨_, lookup_publish⟩
  obtain ⟨n, hl⟩ := hl
  exact addProc_snd_of_lookup (n := n) (by simp only [lookup, e₁, e₂]; exact hl)

end Groups

namespace IdsUnique

variable {g : Groups} {f : Nat → Int} {p : Nat} {id : Int}

theorem join (h : IdsUnique g) (hlt : ∀ n ∈ g.hash, n < g.nextNode) {new : Bool} {v : Int}
    (hid : new = true → ∀ n ∈ g.hash, g.id n ≠ id) : IdsUnique (g.join f p new id v).1 := by
  cases new
  · exact h.addProc
  · exact (h.publish hlt (hid rfl)).addProc

end IdsUnique

namespace Procs

variable {ps ps' : Procs} {p : Nat}

/-- The locked section of `proc_create_proc` joins the new process to a session and to a group:
to fresh ones with its own id under `PROC_FLAG_NEW_SESSION` (which implies
`PROC_FLAG_NEW_PGROUP`) and `PROC_FLAG_NEW_PGROUP`, else to those of the creator `c` that the
lookup of the creator's id finds. -/
theorem procCreateProcLocked_groups {cur : Int} {ns np : Bool}
    (h : ps.procCreateProcLocked cur ns np = some (ps', p)) :
    ∃ c, (p :: ps.procHash).find? (fun q => decide (update ps.pid p ps.nextProcId q = cur)) = some c ∧
      (ps'.sessions, ps'.sid) =
        ps.sessions.join (update ps.sid p (-1)) p ns (ps'.pid p) (update ps.sid p (-1) c) ∧
      (ps'.pgroups, ps'.pgid) =
        ps.pgroups.join (update ps.pgid p (-1)) p (np || ns) (ps'.pid p) (update ps.pgid p (-1) c) := by
  simp only [procCreateProcLocked, createProcStruct] at h
  split at h
  · cases h
  rename_i c hc
  simp only [Option.some.injEq, Prod.mk.injEq] at h
  obtain ⟨rfl, rfl⟩ := h
  exact ⟨c, hc, by cases ns <;> cases np <;> exact ⟨rfl, rfl⟩⟩

/-- The group and session tables of the process state: the membership in both, and in
`sid_hash` distinct ids, each the id of an allocated record. -/
structure GroupsInv (ps : Procs) : Prop where
  pgroups : MemberInv ps.pgroups ps.pgid ps.procHash
  sessions : MemberInv ps.sessions ps.sid ps.procHash
  sid_unique : IdsUnique ps.sessions
  sid_pid : ∀ n ∈ ps.sessions.hash, ∃ r < ps.nextRec, ps.sessions.id n = ps.pid r

namespace GroupsInv

theorem teardown (h : GroupsInv ps) (hn : ps.procHash.Nodup) (ht : ps.teardown p = some ps')
    (hp : p ∈ ps.procHash) : GroupsInv ps' := by
  obtain ⟨hg, hs⟩ := teardown_groups ht
  have hsf := Groups.removeProc_frame hs
  rw [teardown_frame ht]
  exact ⟨h.pgroups.removeProc hp (fun _ => hn.mem_erase_iff) hg,
    h.sessions.removeProc hp (fun _ => hn.mem_erase_iff) hs, h.sid_unique.removeProc hs,
    by rw [hsf.1, hsf.2.1]; exact h.sid_pid⟩

theorem setpgid (h : GroupsInv ps) {cur pid g : Int} {r : Except KernErr Unit}
    (hs : ps.setpgid cur pid g = some (ps', r)) : GroupsInv ps' := by
  rcases setpgid_cases hs with rfl | ⟨p, hp, g', e⟩
  · exact h
  obtain ⟨_, hm, rfl⟩ := Option.map_eq_some'.1 e
  exact ⟨h.pgroups.move hp hm, h.sessions, h.sid_unique, h.sid_pid⟩

/-- `setsid` called from a process keeps the tables: the session it may publish has the
caller's id. -/
theorem setsid (h : GroupsInv ps) {cur : Int} {r : Except KernErr Unit}
    (hcur : ∃ r < ps.nextRec, ps.pid r = cur) (hs : ps.setsid cur = some (ps', r)) :
    GroupsInv ps' := by
  rcases setsid_cases hs with rfl | ⟨p, hp, e⟩
  · exact h
  obtain ⟨_, hm, rfl⟩ := Option.map_eq_some'.1 e
  refine ⟨h.pgroups, h.sessions.move hp hm, h.sid_unique.move h.sessions.hash_lt hm, fun n hn => ?_⟩
  rcases Groups.mem_move_hash hm hn with ⟨hn, e⟩ | e
  · obtain ⟨r, hr, hid⟩ := h.sid_pid n hn
    exact ⟨r, hr, e.trans hid⟩
  · obtain ⟨r, hr, hid⟩ := hcur
    exact ⟨r, hr, e.trans hid.symm⟩

/-- The locked section of `proc_create_proc` keeps the tables, while the creator lookup finds a
process of `proc_hash` and the new process's id is no allocated record's. -/
theorem procCreateProcLocked (h : GroupsInv ps) (hr : RecInv ps) {cp : Nat} {ns np : Bool}
    (hc : ps.procCreateProcLocked (ps.pid cp) ns np = some (ps', p)) (hcp : cp < ps.nextRec)
    (hb : ps.nextRec < 2 ^ 32) : GroupsInv ps' := by
  obtain ⟨c, hf, hs, hg⟩ := procCreateProcLocked_groups hc
  obtain ⟨rfl, c', _, _, _, _, -, hpe⟩ := procCreateProcLocked_eq hc
  have hcm := hr.creator_mem hcp hb hf
  have hp : ps.nextRec ∉ ps.procHash := fun hm => lt_irrefl _ (hr.hash_lt _ hm)
  have hne : ∀ q ∈ ps.procHash, q ≠ ps.nextRec := fun q hq e => hp (e ▸ hq)
  have hpid : ps'.pid ps.nextRec = wrap32 (ps.nextRec + 1) := by
    rw [hpe]; exact (update_same _ _ _).trans hr.nextProcId_eq
  have hpid' : ∀ r < ps.nextRec, ps'.pid r = ps.pid r := fun r hr' => by
    rw [hpe]; exact update_noteq hr'.ne _ _
  have hhash : ps'.procHash = ps.nextRec :: ps.procHash := by rw [hpe]
  have hrec : ps'.nextRec = ps.nextRec + 1 := by rw [hpe]
  have hupd : ∀ (f : Nat → Int) (v : Int), ∀ q ∈ ps.procHash, update f ps.nextRec v q = f q :=
    fun f v q hq => update_noteq (hne q hq) _ _
  refine ⟨hhash ▸ h.pgroups.join hg hp (fun _ => ?_) (hupd _ _),
    hhash ▸ h.sessions.join hs hp (fun _ => ?_) (hupd _ _), ?_, fun n hn => ?_⟩
  · rw [hupd _ _ c hcm]; exact h.pgroups.lookup_isSome hcm
  · rw [hupd _ _ c hcm]; exact h.sessions.lookup_isSome hcm
  · rw [show ps'.sessions = _ from congrArg Prod.fst hs]
    refine h.sid_unique.join h.sessions.hash_lt fun _ n hn e => ?_
    obtain ⟨r, hr', hid⟩ := h.sid_pid n hn
    rw [hid, hr.pid_eq r hr', hpid] at e
    unfold wrap32 at e
    omega
  · rw [show ps'.sessions = _ from congrArg Prod.fst hs, Groups.join_hash] at hn
    rw [show ps'.sessions = _ from congrArg Prod.fst hs, Groups.join_id, hrec]
    split_ifs at hn ⊢ with hns
    · rcases List.mem_cons.1 hn with rfl | hn
      · exact ⟨ps.nextRec, Nat.lt_succ_self _, update_same _ _ _⟩
      · obtain ⟨r, hr', hid⟩ := h.sid_pid n hn
        exact ⟨r, Nat.lt_succ_of_lt hr', by
          rw [update_noteq (h.sessions.hash_lt n hn).ne, hid, hpid' r hr']⟩
    · obtain ⟨r, hr', hid⟩ := h.sid_pid n hn
      exact ⟨r, Nat.lt_succ_of_lt hr', by rw [hid, hpid' r hr']⟩

end GroupsInv
end Procs

namespace Kernel
open Procs

variable {P : Priorities} {ncpu : Nat} {ok : Op → Prop} {k k' : Kernel} {op : Op}

theorem groupsInv_step (hrec : RecInv k.procs) (ht : TreeInv k.procs.tree) (hg : GroupsInv k.procs)
    (hs : step P ncpu k op = some k') (hb : k'.procs.nextRec ≤ 2 ^ 32) : GroupsInv k'.procs := by
  rcases step_procs_cases hs with e | ⟨pid, rfl⟩ | ⟨c, -, -, rfl⟩ | ⟨c, -, -, e⟩ |
    ⟨p, ps, hp, -, -, -, htd, rfl⟩ | ⟨c, ns, np, aspace, k₁, p, tid, -, -, hpub, hct⟩ |
    ⟨c, cp, pid, pgid, ps, r, -, hr, rfl⟩ | ⟨c, cp, ps, r, hcp, hr, rfl⟩
  · rw [e]; exact hg
  · obtain ⟨_, _, _, _, _, e⟩ := createThread_procs_eq (P := P) (k := k) pid
    rw [e]; exact ⟨hg.1, hg.2, hg.3, hg.4⟩
  · obtain ⟨_, _, _, _, _, _, e⟩ := exitBegin_procs_eq (P := P) (k := k) (c := c)
    rw [e]; exact ⟨hg.1, hg.2, hg.3, hg.4⟩
  · rw [e]; exact ⟨hg.1, hg.2, hg.3, hg.4⟩
  · exact hg.teardown ht.hash_nodup htd hp
  · obtain ⟨-, -, cp, hcp, hl⟩ := createProcPublish_some hpub
    obtain ⟨_, _, _, _, _, e⟩ := createThread_procs_eq (P := P)
      (k := { k₁ with procs := { k₁.procs with aspaceId := update k₁.procs.aspaceId p aspace } })
      (k₁.procs.pid p)
    rw [hct] at e
    have e' : k'.procs = _ := e
    obtain ⟨rfl, hn⟩ := procCreateProcLocked_nextRec hl
    have hlt : k.procs.nextRec < 2 ^ 32 := by
      rw [e'] at hb; change k₁.procs.nextRec ≤ _ at hb; omega
    have hg₁ := hg.procCreateProcLocked hrec hl (hrec.threadProc_lt _ _ hcp) hlt
    rw [e']; exact ⟨hg₁.1, hg₁.2, hg₁.3, hg₁.4⟩
  · exact hg.setpgid hr
  · exact hg.setsid ⟨cp, hrec.threadProc_lt _ _ hcp, rfl⟩ hr

theorem groupsInv_of_reachable (hk : Reachable P ncpu ok k) (hb : k.procs.nextRec ≤ 2 ^ 32) :
    GroupsInv k.procs := by
  induction hk with
  | init =>
    exact ⟨.single 1, .single 1, ⟨List.nodup_singleton _, fun n hn m hm _ =>
      (List.mem_singleton.1 hn).trans (List.mem_singleton.1 hm).symm⟩, fun _ _ => ⟨0, Nat.one_pos, rfl⟩⟩
  | step reach _ hs ih =>
    exact groupsInv_step (recInv_of_reachable reach) (treeInv_of_reachable reach
      ((nextRec_le_step hs).trans hb)) (ih ((nextRec_le_step hs).trans hb)) hs hb

/-- While fewer than `2^32` process records have been allocated, in every reachable state each
process of `proc_hash` is on the list of a published node of `pgid_hash` whose id is its
`pgid`, and of one of `sid_hash` whose id is its `sid`, on no other list of either table and on
that one once; the lists hold processes of `proc_hash` only; and the nodes of `sid_hash` have
distinct ids. -/
theorem groups_consistent (hk : Reachable P ncpu ok k) (hb : k.procs.nextRec ≤ 2 ^ 32) :
    MemberInv k.procs.pgroups k.procs.pgid k.procs.procHash ∧
      MemberInv k.procs.sessions k.procs.sid k.procs.procHash ∧ IdsUnique k.procs.sessions :=
  let h := groupsInv_of_reachable hk hb
  ⟨h.pgroups, h.sessions, h.sid_unique⟩

theorem groups_consistent_new_proc :
    ∃ k, run Priorities.sample 1 (init Priorities.sample 1)
        [.createProc 0 false false 0, .wakeUp 1, .resched 0 .ready (fun _ => 0x3001) 0] = some k ∧ k.procs.nextRec ≤ 2 ^ 32 ∧
      MemberInv k.procs.pgroups k.procs.pgid k.procs.procHash ∧
      MemberInv k.procs.sessions k.procs.sid k.procs.procHash ∧ IdsUnique k.procs.sessions := by
  have hrun : run Priorities.sample 1 (init Priorities.sample 1)
      [.createProc 0 false false 0, .wakeUp 1, .resched 0 .ready (fun _ => 0x3001) 0] = some _ := rfl
  have hb : 2 ≤ 2 ^ 32 := by decide
  exact ⟨_, hrun, hb, groups_consistent (Reachable.init.run (fun _ _ => trivial) hrun) hb⟩

/-- On one CPU, `setpgid(0, 2)` from the kernel process (id 1) creates a group node with id 2,
the id `next_proc_id` holds. The next `proc_create_proc` with `PROC_FLAG_NEW_PGROUP` gives the
new process id 2 and inserts a second node with id 2. The lookup of group 2 then finds the newer
node, whose list misses the kernel process although its `pgid` is 2. -/
theorem pgid_node_duplicated :
    ∃ k, run Priorities.sample 1 (init Priorities.sample 1)
        [.setpgid 0 0 2, .createProc 0 false true 0] = some k ∧
      (k.procs.pgroups.hash.filter fun n => k.procs.pgroups.id n = 2).length = 2 ∧
      k.procs.pgid k.procs.kernelProc = 2 ∧
      ∃ n, k.procs.pgroups.lookup 2 = some n ∧ k.procs.kernelProc ∉ k.procs.pgroups.list n := by
  have hrun : run Priorities.sample 1 (init Priorities.sample 1)
      [.setpgid 0 0 2, .createProc 0 false true 0] = some _ := rfl
  exact ⟨_, hrun, by decide, by decide, _, rfl, by decide⟩

/-- On one CPU, the kernel process creates process 2 (record 1) with `PROC_FLAG_NEW_SESSION`,
so in session 2 and group 2, and then calls `setpgid(2, 1)`: process 2 joins group 1, the kernel
process's, and stays in session 2, while the kernel process is in session 1. -/
theorem pgroup_split_across_sessions :
    ∃ k, run Priorities.sample 1 (init Priorities.sample 1)
        [.createProc 0 true false 0, .setpgid 0 2 1] = some k ∧
      1 ∈ k.procs.procHash ∧ k.procs.kernelProc ∈ k.procs.procHash ∧
      k.procs.pgid 1 = k.procs.pgid k.procs.kernelProc ∧
      k.procs.sid 1 ≠ k.procs.sid k.procs.kernelProc := by
  have hrun : run Priorities.sample 1 (init Priorities.sample 1)
      [.createProc 0 true false 0, .setpgid 0 2 1] = some _ := rfl
  exact ⟨_, hrun, by decide, by decide, by decide, by decide⟩

end Kernel

namespace Procs

/-! ## What `setpgid`, `getpgid` and `setsid` leave -/

variable {ps ps' : Procs} {cur pid pgid : Int}

/-- A successful `setpgid`: the target, found by the id `pid` names (the caller for `0`), takes
the group id `pgid` names (the target's id for `0`); nothing else of the process records
changes. -/
theorem setpgid_ok (h : ps.setpgid cur pid pgid = some (ps', .ok ())) :
    ∃ p, 0 ≤ pid ∧ ps.procGetProcStructLocked (if pid = 0 then cur else pid) = some p ∧
      ps'.procHash = ps.procHash ∧ ps'.pid = ps.pid ∧ ps'.sid = ps.sid ∧
      ps'.pgid = update ps.pgid p (if pgid = 0 then (if pid = 0 then cur else pid) else pgid) := by
  unfold setpgid at h
  by_cases hneg : pid < 0 ∨ pgid < 0
  · rw [if_pos hneg] at h; cases h
  rw [if_neg hneg] at h
  dsimp only at h
  generalize (if pid = 0 then cur else pid) = q at h ⊢
  generalize (if pgid = 0 then q else pgid) = g at h ⊢
  split at h
  · cases h
  rename_i p hp
  refine ⟨p, by omega, hp, ?_⟩
  split_ifs at h with hg
  · cases h; exact ⟨rfl, rfl, rfl, by rw [← hg, update_eq_self]⟩
  · obtain ⟨_, hm, he⟩ := Option.map_eq_some'.1 h
    cases he
    obtain ⟨r, hr, rfl⟩ := Option.map_eq_some'.1 hm
    exact ⟨rfl, rfl, rfl, Groups.move_snd hr⟩

theorem getpgid_of_setpgid (h : ps.setpgid cur pid pgid = some (ps', .ok ())) :
    ∃ p, ps.procGetProcStructLocked (if pid = 0 then cur else pid) = some p ∧
      ps'.getpgid cur pid = .ok (if pgid = 0 then (if pid = 0 then cur else pid) else pgid) ∧
      (∀ q, ps'.sid q = ps.sid q) ∧ ∀ q, q ≠ p → ps'.pgid q = ps.pgid q := by
  obtain ⟨p, hpid, hp, hh, hi, hs, hg⟩ := setpgid_ok h
  refine ⟨p, hp, ?_, fun q => by rw [hs], fun q hq => by rw [hg, update_noteq hq]⟩
  have hlk : ps'.procGetProcStructLocked (if pid = 0 then cur else pid) = some p := by
    rw [← hp]; simp only [procGetProcStructLocked, hh, hi]
  simp only [getpgid, if_neg (show ¬ pid < 0 by omega), hlk, hg, update_same]

/-- The kernel process (id 1) creates process 2; process 2 calls `setpgid(0, 7)`: no node has
id 7, one is published, and `getpgid(0)` returns 7. -/
theorem getpgid_of_setpgid_new_proc :
    ∃ k ps', Kernel.run Priorities.sample 1 (Kernel.init Priorities.sample 1)
        [.createProc 0 false false 0] = some k ∧ k.procs.setpgid 2 0 7 = some (ps', .ok ()) ∧
      ps'.getpgid 2 0 = .ok 7 := by
  obtain ⟨k, hrun, ps', h⟩ : ∃ k, Kernel.run Priorities.sample 1 (Kernel.init Priorities.sample 1)
      [.createProc 0 false false 0] = some k ∧ ∃ ps', k.procs.setpgid 2 0 7 = some (ps', .ok ()) :=
    ⟨_, rfl, _, rfl⟩
  obtain ⟨-, -, hg, -⟩ := getpgid_of_setpgid h
  exact ⟨k, ps', hrun, h, hg⟩

/-- `setsid()` by a thread of the process `p` found for the caller's id `cur`, linked on a
session list: it returns `NO_ERROR`, and `p` is in session `cur`. -/
theorem setsid_of_lookup {p : Nat} (hp : ps.procGetProcStructLocked cur = some p)
    (hl : ps.sessions.Linked p) : ∃ ps', ps.setsid cur = some (ps', .ok ()) ∧ ps'.sid p = cur := by
  unfold setsid
  rw [hp]
  dsimp only
  split_ifs with he
  · exact ⟨ps, rfl, he⟩
  · obtain ⟨r, hr⟩ := Groups.move_of_linked ps.sid cur hl
    refine ⟨_, by simp only [moveSession, hr]; rfl, ?_⟩
    show r.2 p = cur
    rw [Groups.move_snd hr, update_same]

/-- A successful `setsid()`: the process found for the caller's id `cur` has id `cur` and takes
session id `cur`, and nothing else of the process records changes. A second call finds it in
that session: it changes nothing and returns `NO_ERROR` again. -/
theorem setsid_twice (h : ps.setsid cur = some (ps', .ok ())) :
    ∃ p, ps.procGetProcStructLocked cur = some p ∧ ps.pid p = cur ∧ ps'.sid p = cur ∧
      (∀ q, q ≠ p → ps'.sid q = ps.sid q) ∧ (∀ q, ps'.pgid q = ps.pgid q) ∧
      ps'.setsid cur = some (ps', .ok ()) := by
  cases hp : ps.procGetProcStructLocked cur with
  | none => simp [setsid, hp] at h
  | some p =>
    have hid : ps.pid p = cur := by simpa using List.find?_some hp
    have hfr : ps'.procHash = ps.procHash ∧ ps'.pid = ps.pid ∧ ps'.pgid = ps.pgid ∧
        ps'.sid = update ps.sid p cur := by
      simp only [setsid, hp] at h
      split_ifs at h with he
      · cases h; exact ⟨rfl, rfl, rfl, by rw [← he, update_eq_self]⟩
      · obtain ⟨_, hm, he⟩ := Option.map_eq_some'.1 h
        cases he
        obtain ⟨r, hr, rfl⟩ := Option.map_eq_some'.1 hm
        exact ⟨rfl, rfl, rfl, Groups.move_snd hr⟩
    have hsid : ps'.sid p = cur := by rw [hfr.2.2.2, update_same]
    have hlk : ps'.procGetProcStructLocked cur = some p := by
      rw [← hp]; simp only [procGetProcStructLocked, hfr.1, hfr.2.1]
    refine ⟨p, rfl, hid, hsid, fun q hq => by rw [hfr.2.2.2, update_noteq hq],
      fun q => by rw [hfr.2.2.1], ?_⟩
    simp only [setsid, hlk, if_pos hsid]

/-- The kernel process (id 1) creates process 2, in its session, which calls `setsid()` twice. -/
theorem setsid_twice_new_proc :
    ∃ k ps', Kernel.run Priorities.sample 1 (Kernel.init Priorities.sample 1)
        [.createProc 0 false false 0] = some k ∧ k.procs.setsid 2 = some (ps', .ok ()) ∧
      ∃ p, ps'.sid p = 2 ∧ ps'.setsid 2 = some (ps', .ok ()) := by
  obtain ⟨k, hrun, ps', h⟩ : ∃ k, Kernel.run Priorities.sample 1 (Kernel.init Priorities.sample 1)
      [.createProc 0 false false 0] = some k ∧ ∃ ps', k.procs.setsid 2 = some (ps', .ok ()) :=
    ⟨_, rfl, _, rfl⟩
  obtain ⟨p, -, -, hs, -, -, h2⟩ := setsid_twice h
  exact ⟨k, ps', hrun, h, p, hs, h2⟩

/-- `setsid()` returns `err`, `NO_ERROR` on every success, not the session id: in every state,
callers in two processes with different ids, each linked on a session list, both get `NO_ERROR`
back, while the sessions the calls put their processes in differ. -/
theorem setsid_result_ignores_sid {c₁ c₂ : Int} {p₁ p₂ : Nat}
    (h₁ : ps.procGetProcStructLocked c₁ = some p₁) (h₂ : ps.procGetProcStructLocked c₂ = some p₂)
    (hl₁ : ps.sessions.Linked p₁) (hl₂ : ps.sessions.Linked p₂) (hne : c₁ ≠ c₂) :
    ∃ ps₁ ps₂, ps.setsid c₁ = some (ps₁, .ok ()) ∧ ps.setsid c₂ = some (ps₂, .ok ()) ∧
      ps₁.sid p₁ ≠ ps₂.sid p₂ := by
  obtain ⟨ps₁, hr₁, hs₁⟩ := setsid_of_lookup h₁ hl₁
  obtain ⟨ps₂, hr₂, hs₂⟩ := setsid_of_lookup h₂ hl₂
  exact ⟨ps₁, ps₂, hr₁, hr₂, by rw [hs₁, hs₂]; exact hne⟩

/-- The kernel process (id 1) creates process 2; each then calls `setsid()`: both calls return
`NO_ERROR`, and process 2 is in session 2 while the kernel process stays in session 1. -/
theorem setsid_result_ignores_sid_two_procs :
    ∃ k, Kernel.run Priorities.sample 1 (Kernel.init Priorities.sample 1)
        [.createProc 0 false false 0] = some k ∧
      ∃ ps₁ ps₂, k.procs.setsid 1 = some (ps₁, .ok ()) ∧ k.procs.setsid 2 = some (ps₂, .ok ()) ∧
        ps₁.sid 0 ≠ ps₂.sid 1 := by
  have hrun : Kernel.run Priorities.sample 1 (Kernel.init Priorities.sample 1)
      [.createProc 0 false false 0] = some _ := rfl
  exact ⟨_, hrun, setsid_result_ignores_sid (by decide) (by decide) (by decide) (by decide)
    (by decide)⟩

end Procs
end NewOS
