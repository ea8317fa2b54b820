import NewOS.Proc.Groups

/-! # Orphaned process groups at process exit

The hang-ups of the teardown in `thread_exit` and of `proc_reparent_children`, which ask
`check_for_pgrp_connection` about one group only, against the definition of an orphaned group. -/
namespace NewOS
namespace Procs
open Function

/-- The orphaned process group `g`, as the POSIX definition reads: no member of `g` in
`proc_hash` has a parent outside `g` but in the member's session. -/
def pgrpOrphaned (ps : Procs) (g : Int) : Bool :=
  ps.procHash.all fun m => decide (ps.pgid m ≠ g) ||
    (ps.parent m).all fun r => decide (ps.pgid r = g ∨ ps.sid r ≠ ps.sid m)

variable {ps ps' ps₀ : Procs} {p q m r : Nat} {g : Int} {sig : Signal}

/-- A member whose parent is in another group of its session keeps the group from being
orphaned. -/
theorem pgrpOrphaned_eq_false (hm : m ∈ ps.procHash) (hr : ps.parent m = some r)
    (hg : ps.pgid r ≠ ps.pgid m) (hs : ps.sid r = ps.sid m) :
    ps.pgrpOrphaned (ps.pgid m) = false := by
  simp only [pgrpOrphaned, List.all_eq_false]
  exact ⟨m, hm, by simp [hr, hg, hs]⟩

/-! ## The signal log -/

/-- `ps'` extends the signal log of `ps` with signals to processes satisfying `S` only. -/
def SignalsTo (S : Nat → Prop) (ps ps' : Procs) : Prop :=
  ∃ sent, ps'.pgSignals = ps.pgSignals ++ sent ∧ ∀ x ∈ sent, S x.1

namespace SignalsTo
variable {S S' : Nat → Prop} {ps₁ ps₂ : Procs}

theorem of_eq (h : ps'.pgSignals = ps.pgSignals) : SignalsTo S ps ps' := ⟨[], by simp [h], by simp⟩

theorem trans (h₁ : SignalsTo S ps ps₁) (h₂ : SignalsTo S ps₁ ps₂) : SignalsTo S ps ps₂ := by
  obtain ⟨s₁, e₁, h₁⟩ := h₁
  obtain ⟨s₂, e₂, h₂⟩ := h₂
  exact ⟨s₁ ++ s₂, by rw [e₂, e₁, List.append_assoc], fun x hx =>
    (List.mem_append.1 hx).elim (h₁ x) (h₂ x)⟩

theorem mono (h : SignalsTo S ps ps') (hS : ∀ m, S m → S' m) : SignalsTo S' ps ps' :=
  let ⟨sent, e, h⟩ := h; ⟨sent, e, fun x hx => hS _ (h x hx)⟩

end SignalsTo

theorem mem_of_mapM_signal {f : Nat → Option Nat} :
    ∀ {l : List Nat} {sent : List (Nat × Signal)},
      l.mapM (fun q => (f q).map fun _ => (q, sig)) = some sent → ∀ x ∈ sent, x.1 ∈ l
  | [], sent, h => by cases h; simp
  | a :: l, sent, h => by
    simp only [List.mapM_cons, Option.bind_eq_bind, Option.bind_eq_some, Option.map_eq_some',
      Option.pure_def, Option.some.injEq] at h
    obtain ⟨-, ⟨-, -, rfl⟩, rest, hrest, rfl⟩ := h
    intro x hx
    rcases List.mem_cons.1 hx with rfl | hx
    · exact List.mem_cons_self _ _
    · exact List.mem_cons_of_mem _ (mem_of_mapM_signal hrest x hx)

/-- `send_pgrp_signal_etc_locked` signals members of the node that the lookup of `g` finds. -/
theorem sendPgrpSignalEtcLocked_signals (h : ps.sendPgrpSignalEtcLocked g sig = some ps') :
    SignalsTo (fun m => ∃ n, ps.pgroups.lookup g = some n ∧ m ∈ ps.pgroups.list n) ps ps' := by
  unfold sendPgrpSignalEtcLocked at h
  split at h
  · cases h; exact .of_eq rfl
  · rename_i n hn
    obtain ⟨sent, hs, rfl⟩ := Option.map_eq_some'.1 h
    exact ⟨sent, rfl, fun x hx => ⟨n, hn, mem_of_mapM_signal hs x hx⟩⟩

/-- A process on the list of the node that the lookup of `g` finds is a process of the hash
with group `g`. -/
theorem mem_of_pgroups_lookup {hash : List Nat} {n : Nat}
    (h : MemberInv ps.pgroups ps.pgid hash) (hl : ps.pgroups.lookup g = some n)
    (hm : m ∈ ps.pgroups.list n) : m ∈ hash ∧ ps.pgid m = g := by
  have hh := h.list_mem n m hm
  obtain ⟨n', -, hid, hm'⟩ := h.member m hh
  rw [← h.unique m n n' hm hm', (Groups.lookup_some hl).2] at hid
  exact ⟨hh, hid.symm⟩

/-- A process of `ps₀` whose group was not orphaned in `ps₀`. -/
def Connected (ps₀ : Procs) (m : Nat) : Prop :=
  m ∈ ps₀.procHash ∧ ps₀.pgrpOrphaned (ps₀.pgid m) = false

/-- A hang-up, on the tables of `ps₀`, of a group that was connected in `ps₀` signals only
processes connected in `ps₀`. -/
theorem hangUpIfOrphaned_signals {b : Bool} (hm : MemberInv ps₀.pgroups ps₀.pgid ps₀.procHash)
    (hpg : ps.pgroups = ps₀.pgroups) (hb : b = true → ps₀.pgrpOrphaned g = false)
    (h : ps.hangUpIfOrphaned b g = some ps') : SignalsTo (Connected ps₀) ps ps' := by
  unfold hangUpIfOrphaned at h
  split_ifs at h with hb'
  · obtain ⟨ps₁, h₁, h₂⟩ := Option.bind_eq_some.1 h
    have hpg₁ : ps₁.pgroups = ps₀.pgroups := by rw [sendPgrpSignalEtcLocked_frame h₁]; exact hpg
    have hS : ∀ ps : Procs, ps.pgroups = ps₀.pgroups →
        ∀ m, (∃ n, ps.pgroups.lookup g = some n ∧ m ∈ ps.pgroups.list n) → Connected ps₀ m := by
      rintro ps e m ⟨n, hl, hmn⟩
      rw [e] at hl hmn
      obtain ⟨hh, hg⟩ := mem_of_pgroups_lookup hm hl hmn
      exact ⟨hh, hg ▸ hb hb'⟩
    exact ((sendPgrpSignalEtcLocked_signals h₁).mono (hS ps hpg)).trans
      ((sendPgrpSignalEtcLocked_signals h₂).mono (hS ps₁ hpg₁))
  · cases h; exact .of_eq rfl

/-- The walk of `proc_reparent_children(p)` over children of `p` in `ps₀` hangs up only groups
that were connected in `ps₀`: each child it checks had `p` as parent there. -/
theorem foldlM_reparentChild_signals (ht : TreeInv ps₀.tree)
    (hm : MemberInv ps₀.pgroups ps₀.pgid ps₀.procHash) :
    ∀ (L : List Nat) {ps ps' : Procs}, (∀ c ∈ L, c ∈ ps₀.children p) →
      ps.pgroups = ps₀.pgroups → ps.pgid = ps₀.pgid → ps.sid = ps₀.sid →
      L.foldlM (reparentChild p q) ps = some ps' → SignalsTo (Connected ps₀) ps ps'
  | [], _, _, _, _, _, _, h => by cases h; exact .of_eq rfl
  | c :: L, ps, ps', hL, hpg, hpid, hsid, h => by
    obtain ⟨ps₁, h₁, h₂⟩ := Option.bind_eq_some.1 h
    have e₁ := reparentChild_frame h₁
    unfold reparentChild at h₁
    have hc := hL c (List.mem_cons_self _ _)
    have hsig : SignalsTo (Connected ps₀) ((ps.removeProcFromParent c).insertProcIntoParent q c)
        ps₁ := by
      refine hangUpIfOrphaned_signals hm hpg ?_ h₁
      simp only [insertProcIntoParent, removeProcFromParent, hpid, hsid, decide_eq_true_eq]
      rintro ⟨hs, hg, -⟩
      exact pgrpOrphaned_eq_false (ht.children_mem p c hc) (ht.parent_of_mem_children hc) hg hs
    refine (SignalsTo.of_eq rfl).trans <| hsig.trans (foldlM_reparentChild_signals ht hm L (fun c hc => hL c
      (List.mem_cons_of_mem _ hc)) ?_ ?_ ?_ h₂) <;> rw [e₁] <;> assumption

/-- Every process the teardown of `p` signals was, before the exit, in `proc_hash` and in a
group that was not orphaned. -/
theorem teardown_signals (hg : GroupsInv ps) (ht : TreeInv ps.tree) (hp : p ∈ ps.procHash)
    (h : ps.teardown p = some ps') : SignalsTo (Connected ps) ps ps' := by
  obtain ⟨q, ps₁, ps₂, ps₃, ps₄, hq, h₁, h₂, h₃, h₄, rfl⟩ := teardown_eq h
  have e₁ := hangUpIfOrphaned_frame h₁
  unfold procReparentChildren at h₂
  refine (hangUpIfOrphaned_signals hg.pgroups rfl ?_ h₁).trans <| (SignalsTo.of_eq rfl).trans <|
    (foldlM_reparentChild_signals ht hg.pgroups _ ?_ ?_ ?_ ?_ h₂).trans (.of_eq ?sig)
  case sig =>
    show ps₄.pgSignals = ps₂.pgSignals
    rw [(removeProcFromSession_eq h₄).2, (removeProcFromPgroup_eq h₃).2]
  · simp only [decide_eq_true_eq]
    rintro ⟨hs, hgp, -⟩
    exact pgrpOrphaned_eq_false hp hq (Ne.symm hgp) hs.symm
  all_goals rw [e₁]
  exact fun _ => id

end Procs

namespace Kernel
open Procs
variable {P : Priorities} {ncpu : Nat} {ok : Op → Prop} {k k' : Kernel} {p : Nat}

/-- The teardown hangs up only groups of `proc_hash` that were not orphaned before the exit. -/
theorem teardown_hangs_up_connected (hk : Reachable P ncpu ok k) (hb : k.procs.nextRec ≤ 2 ^ 32)
    (hs : step P ncpu k (.teardown p) = some k') :
    ∃ sent, k'.procs.pgSignals = k.procs.pgSignals ++ sent ∧
      ∀ x ∈ sent, x.1 ∈ k.procs.procHash ∧ k.procs.pgrpOrphaned (k.procs.pgid x.1) = false := by
  simp only [step] at hs
  split_ifs at hs with hc
  obtain ⟨ps', ht, rfl⟩ := Option.map_eq_some'.1 hs
  exact teardown_signals (groupsInv_of_reachable hk hb) (treeInv_of_reachable hk hb) hc.1 ht

/-- Processes 2 (a new session), 3 (a new group) and 4 are created, then process 3 exits. -/
theorem exit_run :
    ∃ k, run Priorities.sample 1 (init Priorities.sample 1)
      [.createProc 0 true true 0, .wakeUp 1, .resched 0 .ready (fun _ => 0x3001) 0,
        .createProc 0 false true 0, .wakeUp 2, .resched 0 .ready (fun _ => 0x3001) 0,
        .createProc 0 false false 0, .exitBegin 0] = some k ∧
      ∃ k', step Priorities.sample 1 k (.teardown 2) = some k' ∧
        k'.procs.pgSignals = k.procs.pgSignals ++ [(3, .hup), (2, .hup), (3, .cont), (2, .cont)] ∧
        k.procs.pgrpOrphaned (k.procs.pgid 3) = false ∧
        k'.procs.pgrpOrphaned (k'.procs.pgid 3) = false :=
  ⟨_, rfl, _, rfl, rfl, by decide, by decide⟩

theorem exit_run_reachable {k : Kernel} (h : run Priorities.sample 1 (init Priorities.sample 1)
      [.createProc 0 true true 0, .wakeUp 1, .resched 0 .ready (fun _ => 0x3001) 0,
        .createProc 0 false true 0, .wakeUp 2, .resched 0 .ready (fun _ => 0x3001) 0,
        .createProc 0 false false 0, .exitBegin 0] = some k) :
    Reachable Priorities.sample 1 (fun _ => True) k :=
  Reachable.init.run (fun _ _ => trivial) h

theorem teardown_hangs_up_connected_exit_run :
    ∃ k k', Reachable Priorities.sample 1 (fun _ => True) k ∧ k.procs.nextRec ≤ 2 ^ 32 ∧
      step Priorities.sample 1 k (.teardown 2) = some k' ∧
      ∃ sent, k'.procs.pgSignals = k.procs.pgSignals ++ sent ∧
        ∀ x ∈ sent, x.1 ∈ k.procs.procHash ∧ k.procs.pgrpOrphaned (k.procs.pgid x.1) = false := by
  obtain ⟨k, hrun, k', hs, -⟩ := exit_run
  have hk := exit_run_reachable hrun
  have hb : k.procs.nextRec ≤ 2 ^ 32 := by
    rw [Option.some.inj (hrun.symm.trans rfl)]; decide
  exact ⟨k, k', hk, hb, hs, teardown_hangs_up_connected hk hb hs⟩

/-- The hang-up of `thread_exit` reaches group 3, which the exit of process 3 leaves connected:
process 4, moved to process 2, has its parent in group 2 of the same session. -/
theorem exit_hangs_up_connected_group :
    ∃ k, Reachable Priorities.sample 1 (fun _ => True) k ∧ ∃ p q k', q ≠ p ∧
      step Priorities.sample 1 k (.teardown p) = some k' ∧
      k'.procs.pgSignals = k.procs.pgSignals ++ [(q, .hup), (p, .hup), (q, .cont), (p, .cont)] ∧
      k.procs.pgrpOrphaned (k.procs.pgid q) = false ∧
      k'.procs.pgrpOrphaned (k'.procs.pgid q) = false := by
  obtain ⟨k, hrun, k', hs, hsig, h₁, h₂⟩ := exit_run
  exact ⟨k, exit_run_reachable hrun, 2, 3, k', by decide, hs, hsig, h₁, h₂⟩

end Kernel
end NewOS
