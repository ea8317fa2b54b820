import NewOS.Basic
import Mathlib.Data.List.Nodup

/-! # The process tree

The tree that `proc_hash` and the `parent` and `children` links of `struct proc` form, with the
kernel process at its root, as an abstract structure: the invariant the links are meant to
keep, the two ways the code reshapes the tree (a new leaf from `proc_create_proc`, and the
removal of a node by the teardown in `thread_exit`, whose children move to its parent), and why
under the invariant every process reaches the root. -/
namespace NewOS
open Function

/-- A process tree: the member records, each record's parent link and children list, and the
root. -/
structure Tree where
  hash : List Nat
  parent : Nat → Option Nat
  children : Nat → List Nat
  root : Nat

namespace Tree

/-- The `n`-th ancestor of `p`, following parent links; `none` past a missing parent. -/
def ancestor (t : Tree) : Nat → Nat → Option Nat
  | 0, p => some p
  | n + 1, p => (t.parent p).bind (t.ancestor n)

/-- A fresh member `p` with an empty children list, linked at the head of the list of `c`. -/
def addLeaf (t : Tree) (p c : Nat) : Tree :=
  let children := update t.children p []
  { t with hash := p :: t.hash, parent := update t.parent p (some c),
           children := update children c (p :: children c) }

/-- `t'` is `t` with member `p`, a child of `q`, removed: `p` leaves the members and every
children list, and its children move onto the list of `q`, in some order. -/
structure Removed (t : Tree) (p q : Nat) (t' : Tree) : Prop where
  hash : t'.hash = t.hash.erase p
  root : t'.root = t.root
  children : ∀ x r, x ∈ t'.children r ↔
    x ≠ p ∧ ((r = q ∧ x ∈ t.children p) ∨ (x ∈ t.children r ∧ x ∉ t.children p))
  children_nodup : ∀ r, (t'.children r).Nodup
  parent : ∀ x, t'.parent x = if x = p then none else if x ∈ t.children p then some q else t.parent x

@[simp] theorem addLeaf_hash (t : Tree) (p c : Nat) : (t.addLeaf p c).hash = p :: t.hash := rfl
@[simp] theorem addLeaf_parent (t : Tree) (p c : Nat) :
    (t.addLeaf p c).parent = update t.parent p (some c) := rfl
@[simp] theorem addLeaf_root (t : Tree) (p c : Nat) : (t.addLeaf p c).root = t.root := rfl

end Tree

/-- A well-formed process tree: the root is a member and its own parent; every member has a
member as parent; a member other than the root is on exactly the children list of its parent,
and once; children lists hold members only, never the root; and a ghost rank grows strictly
from parent to child. -/
structure TreeInv (t : Tree) : Prop where
  root_mem : t.root ∈ t.hash
  root_parent : t.parent t.root = some t.root
  hash_nodup : t.hash.Nodup
  parent_mem : ∀ p ∈ t.hash, ∃ q, t.parent p = some q ∧ q ∈ t.hash
  children_iff : ∀ p ∈ t.hash, p ≠ t.root → ∀ q, p ∈ t.children q ↔ t.parent p = some q
  root_not_child : ∀ q, t.root ∉ t.children q
  children_mem : ∀ q, ∀ x ∈ t.children q, x ∈ t.hash
  children_nodup : ∀ q, (t.children q).Nodup
  rank : ∃ r : Nat → Nat, ∀ p ∈ t.hash, p ≠ t.root → ∀ q, t.parent p = some q → r q < r p

namespace TreeInv

variable {t t' : Tree} {p q c x : Nat}

theorem mem_of_parent (h : TreeInv t) (hx : x ∈ t.hash) (hq : t.parent x = some q) : q ∈ t.hash := by
  obtain ⟨q', h₁, h₂⟩ := h.parent_mem x hx
  rw [hq, Option.some.injEq] at h₁
  exact h₁ ▸ h₂

theorem parent_of_mem_children (h : TreeInv t) (hx : x ∈ t.children q) : t.parent x = some q :=
  (h.children_iff x (h.children_mem q x hx) (fun e => h.root_not_child q (e ▸ hx)) q).1 hx

/-- A record outside the tree has no children. -/
theorem children_eq_nil (h : TreeInv t) (hp : p ∉ t.hash) : t.children p = [] :=
  List.eq_nil_iff_forall_not_mem.2 fun x hx =>
    hp (h.mem_of_parent (h.children_mem p x hx) (h.parent_of_mem_children hx))

theorem parent_ne_self (h : TreeInv t) (hp : p ∈ t.hash) (hr : p ≠ t.root)
    (hq : t.parent p = some q) : q ≠ p := by
  obtain ⟨rk, hrk⟩ := h.rank
  rintro rfl; exact lt_irrefl _ (hrk q hp hr q hq)

/-- The parent of a member is not among its children. -/
theorem parent_not_mem_children (h : TreeInv t) (hp : p ∈ t.hash) (hr : p ≠ t.root)
    (hq : t.parent p = some q) : q ∉ t.children p := fun hm => by
  obtain ⟨rk, hrk⟩ := h.rank
  have h₁ := hrk q (h.children_mem p q hm) (fun e => h.root_not_child p (e ▸ hm)) p
    (h.parent_of_mem_children hm)
  have h₂ := hrk p hp hr q hq
  omega

/-- A new leaf under a member keeps the tree well formed. -/
theorem addLeaf (h : TreeInv t) (hp : p ∉ t.hash) (hc : c ∈ t.hash) : TreeInv (t.addLeaf p c) := by
  have hcp : c ≠ p := fun e => hp (e ▸ hc)
  have hrp : t.root ≠ p := fun e => hp (e ▸ h.root_mem)
  have hpc : ∀ r, p ∉ t.children r := fun r hm => hp (h.children_mem r p hm)
  have hch : ∀ r, (t.addLeaf p c).children r = if r = c then p :: t.children c else t.children r := by
    intro r
    by_cases hr : r = c
    · subst hr; simp [Tree.addLeaf, update_noteq hcp]
    · by_cases hrp' : r = p
      · subst hrp'; simp [Tree.addLeaf, hr, h.children_eq_nil hp]
      · simp [Tree.addLeaf, hr, hrp']
  have hpar : ∀ x, x ≠ p → (t.addLeaf p c).parent x = t.parent x := fun x hx => update_noteq hx _ _
  have hne : ∀ x ∈ t.hash, x ≠ p := fun x hx e => hp (e ▸ hx)
  obtain ⟨rk, hrk⟩ := h.rank
  refine ⟨List.mem_cons_of_mem _ h.root_mem, (hpar _ hrp).trans h.root_parent,
    List.nodup_cons.2 ⟨hp, h.hash_nodup⟩, fun x hx => ?_, fun x hx hxr r => ?_, fun r => ?_,
    fun r x hx => ?_, fun r => ?_, ⟨update rk p (rk c + 1), fun x hx hxr y hy => ?_⟩⟩
  · rcases List.mem_cons.1 hx with rfl | hx
    · exact ⟨c, update_same _ _ _, List.mem_cons_of_mem _ hc⟩
    · obtain ⟨q, h₁, h₂⟩ := h.parent_mem x hx
      exact ⟨q, (hpar x (hne x hx)).trans h₁, List.mem_cons_of_mem _ h₂⟩
  · rw [hch]
    rcases List.mem_cons.1 hx with rfl | hxm
    · by_cases hr : r = c
      · subst hr; simp [Tree.addLeaf]
      · simp [Tree.addLeaf, hr, hpc, Ne.symm hr]
    · rw [hpar x (hne x hxm), ← h.children_iff x hxm hxr r]
      split_ifs with hr
      · subst hr; simp [hne x hxm]
      · rfl
  · rw [hch]; split_ifs
    · simpa [hrp] using h.root_not_child c
    · exact h.root_not_child r
  · rw [hch] at hx; split_ifs at hx
    · rcases List.mem_cons.1 hx with rfl | hx
      · exact List.mem_cons_self _ _
      · exact List.mem_cons_of_mem _ (h.children_mem c x hx)
    · exact List.mem_cons_of_mem _ (h.children_mem r x hx)
  · rw [hch]; split_ifs
    · exact List.nodup_cons.2 ⟨hpc c, h.children_nodup c⟩
    · exact h.children_nodup r
  · rcases List.mem_cons.1 hx with rfl | hx
    · have : y = c := by simpa [Tree.addLeaf] using hy.symm
      subst this; simp [hcp]
    · rw [hpar x (hne x hx)] at hy
      have hy' := h.mem_of_parent hx hy
      simp only [update_noteq (hne x hx), update_noteq (hne y hy')]
      exact hrk x hx hxr y hy

/-- Removing a member other than the root, its children moved to its parent, keeps the tree
well formed. -/
theorem removed (h : TreeInv t) (hp : p ∈ t.hash) (hpr : p ≠ t.root) (hq : t.parent p = some q)
    (hR : t.Removed p q t') : TreeInv t' := by
  have hqm := h.mem_of_parent hp hq
  have hqp := h.parent_ne_self hp hpr hq
  have hqc := h.parent_not_mem_children hp hpr hq
  have hmem : ∀ x, x ∈ t'.hash ↔ x ≠ p ∧ x ∈ t.hash := fun x => by
    rw [hR.hash, h.hash_nodup.mem_erase_iff]
  have hrc : t.root ∉ t.children p := h.root_not_child p
  obtain ⟨rk, hrk⟩ := h.rank
  refine ⟨(hmem _).2 ⟨hR.root ▸ hpr.symm, hR.root ▸ h.root_mem⟩, ?_, hR.hash ▸ h.hash_nodup.erase p,
    fun x hx => ?_, fun x hx hxr r => ?_, fun r hm => ?_, fun r x hx => ?_, hR.children_nodup,
    ⟨rk, fun x hx hxr y hy => ?_⟩⟩
  · rw [hR.root, hR.parent, if_neg hpr.symm, if_neg hrc]; exact h.root_parent
  · obtain ⟨hxp, hx⟩ := (hmem x).1 hx
    rw [hR.parent, if_neg hxp]
    split_ifs with hxc
    · exact ⟨q, rfl, (hmem q).2 ⟨hqp, hqm⟩⟩
    · obtain ⟨y, h₁, h₂⟩ := h.parent_mem x hx
      refine ⟨y, h₁, (hmem y).2 ⟨fun e => hxc ?_, h₂⟩⟩
      rw [e] at h₁
      have hxr : x ≠ t.root := by
        rintro rfl
        rw [h.root_parent, Option.some.injEq] at h₁
        exact hpr h₁.symm
      exact (h.children_iff x hx hxr p).2 h₁
  · obtain ⟨hxp, hx⟩ := (hmem x).1 hx
    rw [hR.root] at hxr
    rw [hR.children, hR.parent, if_neg hxp]
    split_ifs with hxc
    · simp [hxp, hxc, eq_comm]
    · simp [hxp, hxc, h.children_iff x hx hxr r]
  · rw [hR.root] at hm
    obtain ⟨-, ⟨-, hm⟩ | ⟨hm, -⟩⟩ := (hR.children _ r).1 hm
    · exact hrc hm
    · exact h.root_not_child r hm
  · obtain ⟨hxp, ⟨-, hx⟩ | ⟨hx, -⟩⟩ := (hR.children x r).1 hx
    · exact (hmem x).2 ⟨hxp, h.children_mem p x hx⟩
    · exact (hmem x).2 ⟨hxp, h.children_mem r x hx⟩
  · obtain ⟨hxp, hx⟩ := (hmem x).1 hx
    rw [hR.root] at hxr
    rw [hR.parent, if_neg hxp] at hy
    split_ifs at hy with hxc
    · cases hy
      have h₁ := hrk x hx hxr p (h.parent_of_mem_children hxc)
      have h₂ := hrk p hp hpr q hq
      omega
    · exact hrk x hx hxr y hy

/-- Past the root, following parent links stays at the root. -/
theorem ancestor_root (h : TreeInv t) : ∀ n, t.ancestor n t.root = some t.root
  | 0 => rfl
  | n + 1 => by simp [Tree.ancestor, h.root_parent, ancestor_root h n]

/-- Following parent links from a member stays among the members, and either is at the root or
has climbed `n` ranks. -/
theorem ancestor_rank (h : TreeInv t) {rk : Nat → Nat}
    (hrk : ∀ p ∈ t.hash, p ≠ t.root → ∀ q, t.parent p = some q → rk q < rk p) :
    ∀ n p y, p ∈ t.hash → t.ancestor n p = some y → y ∈ t.hash ∧ (y = t.root ∨ rk y + n ≤ rk p)
  | 0, p, y, hp, hy => by cases hy; exact ⟨hp, .inr (Nat.le_refl _)⟩
  | n + 1, p, y, hp, hy => by
    obtain ⟨z, hz, hzm⟩ := h.parent_mem p hp
    simp only [Tree.ancestor, hz, Option.some_bind] at hy
    by_cases hpr : p = t.root
    · subst hpr
      rw [h.root_parent, Option.some.injEq] at hz
      subst hz
      rw [h.ancestor_root] at hy
      cases hy; exact ⟨h.root_mem, .inl rfl⟩
    · obtain ⟨hy, hr⟩ := ancestor_rank h hrk n z y hzm hy
      have := hrk p hp hpr z hz
      exact ⟨hy, hr.imp_right fun _ => by omega⟩

/-- Following parent links from any member reaches the root. -/
theorem exists_ancestor_root (h : TreeInv t) (hp : p ∈ t.hash) : ∃ n, t.ancestor n p = some t.root := by
  obtain ⟨rk, hrk⟩ := h.rank
  suffices ∀ n, ∀ p ∈ t.hash, rk p < n → ∃ m, t.ancestor m p = some t.root from
    this _ p hp (Nat.lt_succ_self _)
  intro n
  induction n with
  | zero => intro p _ hlt; omega
  | succ n ih =>
    intro p hp hlt
    by_cases hpr : p = t.root
    · exact ⟨0, by rw [hpr]; rfl⟩
    · obtain ⟨q, hq, hqm⟩ := h.parent_mem p hp
      obtain ⟨m, hm⟩ := ih q hqm (by have := hrk p hp hpr q hq; omega)
      exact ⟨m + 1, by simp [Tree.ancestor, hq, hm]⟩

/-- The root is the only member on a cycle of parent links. -/
theorem ancestor_ne_self (h : TreeInv t) (hp : p ∈ t.hash) (hpr : p ≠ t.root) (n : Nat) :
    t.ancestor (n + 1) p ≠ some p := fun hc => by
  obtain ⟨rk, hrk⟩ := h.rank
  rcases (h.ancestor_rank hrk (n + 1) p p hp hc).2 with e | hle
  · exact hpr e
  · omega

end TreeInv
end NewOS
