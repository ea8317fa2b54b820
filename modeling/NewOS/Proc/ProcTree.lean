import NewOS.Proc.Steps
import NewOS.Proc.Tree

/-! # The process tree of the running system

The process state projects to a `Tree`. The locked section of `proc_create_proc` adds a leaf
under the process the creator lookup finds, and the teardown in `thread_exit` removes a node
and moves its children to its parent; every other operation keeps the tree. The creator lookup
finds the creator only while the new process's id is no other record's id: the ids come from a
32-bit counter, so the tree stays well formed while fewer than `2^32` records have been
allocated. -/
namespace NewOS
namespace Procs
open Function

/-- The process tree of the process state, rooted at the kernel process. -/
def tree (ps : Procs) : Tree := ⟨ps.procHash, ps.parent, ps.children, ps.kernelProc⟩

variable {ps ps' : Procs} {p : Nat}

@[simp] theorem tree_hash : ps.tree.hash = ps.procHash := rfl
@[simp] theorem tree_parent : ps.tree.parent = ps.parent := rfl
@[simp] theorem tree_children : ps.tree.children = ps.children := rfl
@[simp] theorem tree_root : ps.tree.root = ps.kernelProc := rfl

theorem TreeFrame.tree_eq (h : TreeFrame ps ps') : ps'.tree = ps.tree := by
  simp only [tree, h.procHash, h.parent, h.children, h.kernelProc]

theorem procCreateProcLocked_nextRec {cur : Int} {ns np : Bool}
    (h : ps.procCreateProcLocked cur ns np = some (ps', p)) : p = ps.nextRec ∧ ps'.nextRec = p + 1 := by
  obtain ⟨rfl, _, _, _, _, _, _, rfl⟩ := procCreateProcLocked_eq h
  exact ⟨rfl, rfl⟩

/-- The locked section of `proc_create_proc` adds the fresh record as a leaf under the process
`c` that the lookup of the creator's id finds in `proc_hash`, the new record included. -/
theorem procCreateProcLocked_tree {cur : Int} {ns np : Bool}
    (h : ps.procCreateProcLocked cur ns np = some (ps', p)) :
    ∃ c, (p :: ps.procHash).find? (fun q => decide (update ps.pid p ps.nextProcId q = cur)) = some c ∧
      ps'.tree = ps.tree.addLeaf p c := by
  obtain ⟨-, c, _, _, _, _, hc, rfl⟩ := procCreateProcLocked_eq h
  exact ⟨c, hc, by simp [tree, Tree.addLeaf]⟩

/-- The teardown of a process of a well-formed tree removes it, its children moving to its
parent. -/
theorem teardown_removed (h : TreeInv ps.tree) (ht : ps.teardown p = some ps')
    (hp : p ∈ ps.procHash) (hk : p ≠ ps.kernelProc) :
    ∃ q, ps.parent p = some q ∧ ps.tree.Removed p q ps'.tree := by
  have e := teardown_frame ht
  obtain ⟨q, hq, mem, nd, par⟩ :=
    teardown_some ht h.children_nodup fun q hq => h.parent_not_mem_children hp hk hq
  exact ⟨q, hq, congrArg Procs.procHash e, by rw [e]; rfl, mem, nd, par⟩

/-- The allocation of process records: records below `nextRec` are allocated, record `r` with
id `r + 1` wrapped to 32 bits (the kernel process, record 0, has id 1 and `next_proc_id` is
bumped once per record); `proc_hash` and the process of every thread lie below `nextRec`; and
the kernel process is in `proc_hash`. -/
structure RecInv (ps : Procs) : Prop where
  nextProcId_eq : ps.nextProcId = wrap32 (ps.nextRec + 1)
  pid_eq : ∀ r < ps.nextRec, ps.pid r = wrap32 (r + 1)
  hash_lt : ∀ p ∈ ps.procHash, p < ps.nextRec
  kernel_mem : ps.kernelProc ∈ ps.procHash
  threadProc_lt : ∀ t q, ps.threadProc t = some q → q < ps.nextRec

namespace RecInv

theorem treeFrame (h : RecInv ps) (fr : TreeFrame ps ps')
    (ht : ∀ t q, ps'.threadProc t = some q →
      ps.threadProc t = some q ∨ q ∈ ps.procHash ∨ q = ps.kernelProc) : RecInv ps' := by
  refine ⟨?_, fun r hr => ?_, fun p hp => ?_, ?_, fun t q hq => ?_⟩
  · rw [fr.nextProcId, fr.nextRec]; exact h.nextProcId_eq
  · rw [fr.nextRec] at hr; rw [fr.pid]; exact h.pid_eq r hr
  · rw [fr.procHash] at hp; rw [fr.nextRec]; exact h.hash_lt p hp
  · rw [fr.kernelProc, fr.procHash]; exact h.kernel_mem
  · rw [fr.nextRec]
    rcases ht t q hq with hq | hq | rfl
    · exact h.threadProc_lt t q hq
    · exact h.hash_lt q hq
    · exact h.hash_lt _ h.kernel_mem

theorem teardown (h : RecInv ps) (ht : ps.teardown p = some ps') (hk : p ≠ ps.kernelProc) :
    RecInv ps' := by
  rw [teardown_frame ht]
  exact ⟨h.nextProcId_eq, h.pid_eq, fun q hq => h.hash_lt q (List.mem_of_mem_erase hq),
    (List.mem_erase_of_ne hk.symm).2 h.kernel_mem, h.threadProc_lt⟩

theorem procCreateProcLocked (h : RecInv ps) {cur : Int} {ns np : Bool}
    (hc : ps.procCreateProcLocked cur ns np = some (ps', p)) : RecInv ps' := by
  obtain ⟨rfl, c, _, _, _, _, -, rfl⟩ := procCreateProcLocked_eq hc
  refine ⟨?_, fun r hr => ?_, fun q hq => ?_, List.mem_cons_of_mem _ h.kernel_mem,
    fun t q hq => Nat.lt_succ_of_lt (h.threadProc_lt t q hq)⟩
  · simp [atomicAdd, h.nextProcId_eq, wrap32_add_one]
  · dsimp only at hr ⊢
    rcases Nat.lt_succ_iff_lt_or_eq.1 hr with hr | rfl
    · rw [update_noteq hr.ne]; exact h.pid_eq r hr
    · rw [update_same]; exact h.nextProcId_eq
  · dsimp only at hq ⊢
    rcases List.mem_cons.1 hq with rfl | hq
    · exact Nat.lt_succ_self _
    · exact Nat.lt_succ_of_lt (h.hash_lt q hq)

/-- Below `2^32` records, the lookup of a creator's id in `proc_hash` with the new record at its
head finds a process of `proc_hash`: the new record's id is no other record's. -/
theorem creator_mem (h : RecInv ps) {cp c : Nat} (hcp : cp < ps.nextRec) (hb : ps.nextRec < 2 ^ 32)
    (hf : (ps.nextRec :: ps.procHash).find?
      (fun q => decide (update ps.pid ps.nextRec ps.nextProcId q = ps.pid cp)) = some c) :
    c ∈ ps.procHash := by
  rcases List.mem_cons.1 (List.mem_of_find?_eq_some hf) with rfl | hm
  · have hid := List.find?_some hf
    simp only [update_same, h.nextProcId_eq, h.pid_eq cp hcp, decide_eq_true_eq] at hid
    unfold wrap32 at hid
    omega
  · exact hm

end RecInv
end Procs

namespace Kernel
open Function Procs

variable {P : Priorities} {ncpu : Nat} {ok : Op → Prop} {k k' : Kernel} {op : Op}

/-- Records are never given back: `nextRec` only grows. -/
theorem nextRec_le_step (hs : step P ncpu k op = some k') : k.procs.nextRec ≤ k'.procs.nextRec := by
  rcases step_procs hs with ⟨fr, -⟩ | ⟨p, -, -, ht⟩ | ⟨c, cp, ns, np, ps, p, -, hc, fr, -⟩
  · exact fr.nextRec.ge
  · exact (congrArg Procs.nextRec (teardown_frame ht)).ge
  · obtain ⟨rfl, hn⟩ := procCreateProcLocked_nextRec hc
    rw [fr.nextRec, hn]; exact Nat.le_succ _

theorem recInv_step (h : RecInv k.procs) (hs : step P ncpu k op = some k') : RecInv k'.procs := by
  rcases step_procs hs with ⟨fr, ht⟩ | ⟨p, -, hk, ht⟩ | ⟨c, cp, ns, np, ps, p, -, hc, fr, ht⟩
  · exact h.treeFrame fr ht
  · exact h.teardown ht hk
  · exact (h.procCreateProcLocked hc).treeFrame fr fun t q hq => (ht t q hq).imp_right .inl

theorem recInv_of_reachable (hk : Reachable P ncpu ok k) : RecInv k.procs := by
  induction hk with
  | init =>
    refine ⟨show (2 : Int) = wrap32 ((1 : Nat) + 1) by unfold wrap32; omega, fun r hr => ?_,
      fun p hp => ?_, List.mem_singleton_self _, fun t q hq => ?_⟩
    · obtain rfl := Nat.lt_one_iff.1 hr
      show (1 : Int) = wrap32 ((0 : Nat) + 1); unfold wrap32; omega
    · obtain rfl := List.mem_singleton.1 hp; exact Nat.one_pos
    · change (if t < ncpu then some 0 else none) = some q at hq
      split_ifs at hq; cases hq; exact Nat.one_pos
  | step _ _ hs ih => exact recInv_step ih hs

/-- Every step keeps the process tree well formed, provided the record it may create lies below
`2^32`: then the id the new process takes from `next_proc_id` is no other record's id, and the
lookup of the creator's id finds the creator, not the new process. -/
theorem treeInv_step (hr : RecInv k.procs) (ht : TreeInv k.procs.tree)
    (hs : step P ncpu k op = some k') (hb : k'.procs.nextRec ≤ 2 ^ 32) : TreeInv k'.procs.tree := by
  rcases step_procs hs with ⟨fr, -⟩ | ⟨p, hp, hk, htd⟩ | ⟨c, cp, ns, np, ps, p, hcp, hc, fr, -⟩
  · rw [fr.tree_eq]; exact ht
  · obtain ⟨q, hq, hR⟩ := teardown_removed ht htd hp hk
    exact ht.removed hp hk hq hR
  · obtain ⟨rfl, hn⟩ := procCreateProcLocked_nextRec hc
    obtain ⟨c', hf, he⟩ := procCreateProcLocked_tree hc
    rw [fr.tree_eq, he]
    have hlt : k.procs.nextRec < 2 ^ 32 := by rw [fr.nextRec, hn] at hb; omega
    exact ht.addLeaf (fun hm => lt_irrefl _ (hr.hash_lt _ hm))
      (hr.creator_mem (hr.threadProc_lt _ _ hcp) hlt hf)

theorem treeInv_of_reachable (hk : Reachable P ncpu ok k) (hb : k.procs.nextRec ≤ 2 ^ 32) :
    TreeInv k.procs.tree := by
  induction hk with
  | init =>
    refine ⟨List.mem_singleton_self _, rfl, List.nodup_singleton _,
      fun p hp => ⟨0, rfl, List.mem_singleton_self _⟩,
      fun p hp hpr => absurd (List.mem_singleton.1 hp) hpr, fun _ => List.not_mem_nil _,
      fun _ _ h => absurd h (List.not_mem_nil _), fun _ => List.nodup_nil,
      ⟨fun _ => 0, fun p hp hpr => absurd (List.mem_singleton.1 hp) hpr⟩⟩
  | step reach _ hs ih =>
    exact treeInv_step (recInv_of_reachable reach) (ih ((nextRec_le_step hs).trans hb)) hs hb

/-- The shape of the process tree: every process of `proc_hash` has a parent in `proc_hash`;
the kernel process, and no other, is its own parent; any other process is on the children list
of its parent and on no other, a list that holds it once; the kernel process is on no children
list, and the lists hold processes of `proc_hash` only; parent links lead from every process to
the kernel process, and from no other process back to itself. -/
def ProcTreeConsistent (ps : Procs) : Prop :=
  (∀ p ∈ ps.procHash, ∃ q, ps.parent p = some q ∧ q ∈ ps.procHash) ∧
  (∀ p ∈ ps.procHash, ps.parent p = some p ↔ p = ps.kernelProc) ∧
  (∀ p ∈ ps.procHash, p ≠ ps.kernelProc → ∀ q, p ∈ ps.children q ↔ ps.parent p = some q) ∧
  (∀ q, ps.kernelProc ∉ ps.children q ∧ (ps.children q).Nodup) ∧
  (∀ q, ∀ x ∈ ps.children q, x ∈ ps.procHash) ∧
  (∀ p ∈ ps.procHash, ∃ n, ps.tree.ancestor n p = some ps.kernelProc) ∧
  (∀ p ∈ ps.procHash, p ≠ ps.kernelProc → ∀ n, ps.tree.ancestor (n + 1) p ≠ some p)

theorem procTreeConsistent_of_treeInv {ps : Procs} (h : TreeInv ps.tree) : ProcTreeConsistent ps :=
  ⟨h.parent_mem, fun p hp => ⟨fun e => by_contra fun hpr => h.parent_ne_self hp hpr e rfl,
    fun e => by rw [e]; exact h.root_parent⟩, h.children_iff,
    fun q => ⟨h.root_not_child q, h.children_nodup q⟩, h.children_mem,
    fun _ hp => h.exists_ancestor_root hp, fun _ hp hpr n => h.ancestor_ne_self hp hpr n⟩

/-- While fewer than `2^32` process records have been allocated, every reachable state has a
well-formed process tree, and the teardown of a process moves each of its children onto the
children list of its parent, with that parent as their parent. The steps are the successful
`proc_create_proc` calls: a failed call, also one whose `create_proc_struct` fails after taking an
id, is no step. -/
theorem procTree_consistent (hk : Reachable P ncpu ok k) (hb : k.procs.nextRec ≤ 2 ^ 32) :
    ProcTreeConsistent k.procs ∧
    ∀ p k', step P ncpu k (.teardown p) = some k' →
      ∃ q, k.procs.parent p = some q ∧
        ∀ x ∈ k.procs.children p, k'.procs.parent x = some q ∧ x ∈ k'.procs.children q := by
  have h := treeInv_of_reachable hk hb
  refine ⟨procTreeConsistent_of_treeInv h, fun p k' hs => ?_⟩
  simp only [step] at hs
  split_ifs at hs with hg
  obtain ⟨ps, hp, rfl⟩ := Option.map_eq_some'.1 hs
  obtain ⟨q, hq, hR⟩ := teardown_removed h hp hg.1 hg.2.1
  refine ⟨q, hq, fun x hx => ?_⟩
  have hxp : x ≠ p := by
    rintro rfl; exact h.parent_ne_self hg.1 hg.2.1 (h.parent_of_mem_children hx) rfl
  exact ⟨(hR.parent x).trans (by simp [hxp, hx]), (hR.children x q).2 ⟨hxp, .inl ⟨rfl, hx⟩⟩⟩

theorem procTree_consistent_exit_begun :
    ∃ k, run Priorities.sample 1 (init Priorities.sample 1)
        [.createProc 0 false false 0, .wakeUp 1, .resched 0 .ready (fun _ => 0x3001) 0,
        .exitBegin 0] = some k ∧ k.procs.nextRec ≤ 2 ^ 32 ∧
      ProcTreeConsistent k.procs ∧
      ∀ p k', step Priorities.sample 1 k (.teardown p) = some k' →
        ∃ q, k.procs.parent p = some q ∧
          ∀ x ∈ k.procs.children p, k'.procs.parent x = some q ∧ x ∈ k'.procs.children q := by
  have hrun : run Priorities.sample 1 (init Priorities.sample 1)
      [.createProc 0 false false 0, .wakeUp 1, .resched 0 .ready (fun _ => 0x3001) 0,
        .exitBegin 0] = some _ := rfl
  have hb : 2 ≤ 2 ^ 32 := by decide
  exact ⟨_, hrun, hb, procTree_consistent (Reachable.init.run (fun _ _ => trivial) hrun) hb⟩

end Kernel
end NewOS
