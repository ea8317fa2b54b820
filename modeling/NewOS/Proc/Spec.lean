import NewOS.Proc.Procs

/-! What each function on the process state changes: the group operations as record updates,
the signal fan-out as a change of the signal log alone, and the two operations that reshape the
process tree, `proc_create_proc`'s locked section and the teardown in `thread_exit`, field by
field. -/
namespace NewOS
namespace Procs
open Function

variable {ps ps' : Procs} {p : Nat} {g : Int}

/-- The locked part of `proc_create_proc` takes the fresh record `p`, gives it the next id,
publishes it at the head of `proc_hash` and links it under the process `c` that the lookup of
the creator's id finds (in `proc_hash` with `p` already in it); only the group fields are left
open. -/
theorem procCreateProcLocked_eq {cur : Int} {newSession newPgroup : Bool}
    (h : ps.procCreateProcLocked cur newSession newPgroup = some (ps', p)) :
    p = ps.nextRec ∧ ∃ c pgid sid pgroups sessions,
      (p :: ps.procHash).find? (fun q => decide (update ps.pid p (atomicAdd ps.nextProcId 1).1 q = cur)) = some c ∧
      ps' = { ps with
        pid := update ps.pid p (atomicAdd ps.nextProcId 1).1,
        parent := update (update ps.parent p none) p (some c),
        children := update (update ps.children p []) c (p :: update ps.children p [] c),
        pgid := pgid, sid := sid, pgroups := pgroups, sessions := sessions,
        threadList := update ps.threadList p [], numThreads := update ps.numThreads p 0,
        mainThread := update ps.mainThread p none, state := update ps.state p .birth,
        aspaceId := update ps.aspaceId p (-1), procHash := p :: ps.procHash,
        nextProcId := (atomicAdd ps.nextProcId 1).2, nextRec := p + 1,
        inserted := update ps.inserted p [] } := by
  simp only [procCreateProcLocked, createProcStruct] at h
  split at h
  · cases h
  rename_i c hc
  simp only [Option.some.injEq, Prod.mk.injEq] at h
  obtain ⟨rfl, rfl⟩ := h
  refine ⟨rfl, c, ?_⟩
  cases newSession <;> cases newPgroup <;>
    simp only [Bool.false_eq_true, if_false, if_true, Bool.or_false, Bool.or_true, addProcToSession,
      addProcToPgroup, insertProcIntoParent] <;>
    exact ⟨_, _, _, _, hc, rfl⟩

theorem sendPgrpSignalEtcLocked_frame {sig : Signal} (h : ps.sendPgrpSignalEtcLocked g sig = some ps') :
    ps' = { ps with pgSignals := ps'.pgSignals } := by
  unfold sendPgrpSignalEtcLocked at h
  split at h
  · cases h; rfl
  · obtain ⟨_, -, rfl⟩ := Option.map_eq_some'.1 h; rfl

theorem hangUpIfOrphaned_frame {b : Bool} (h : ps.hangUpIfOrphaned b g = some ps') :
    ps' = { ps with pgSignals := ps'.pgSignals } := by
  unfold hangUpIfOrphaned at h
  split_ifs at h
  · obtain ⟨ps₁, h₁, h₂⟩ := Option.bind_eq_some.1 h
    rw [sendPgrpSignalEtcLocked_frame h₂, sendPgrpSignalEtcLocked_frame h₁]
  · cases h; rfl

theorem reparentChild_frame {q c : Nat} (h : reparentChild p q ps c = some ps') :
    ps' = { (ps.removeProcFromParent c).insertProcIntoParent q c with pgSignals := ps'.pgSignals } :=
  hangUpIfOrphaned_frame h

/-- The walk of `proc_reparent_children` changes only the tree links and the signal log. -/
theorem foldlM_reparentChild_frame {q : Nat} : ∀ (L : List Nat) {ps ps' : Procs},
    L.foldlM (reparentChild p q) ps = some ps' →
    ps' = { ps with children := ps'.children, parent := ps'.parent, pgSignals := ps'.pgSignals }
  | [], ps, ps', h => by cases h; rfl
  | c :: L, ps, ps', h => by
    obtain ⟨ps₁, h₁, h₂⟩ := Option.bind_eq_some.1 h
    rw [foldlM_reparentChild_frame L h₂, reparentChild_frame h₁]; rfl

/-- The walk of `proc_reparent_children` over the snapshot `L` of `p`'s children moves each of
them onto the list of `q` and makes `q` its parent. -/
theorem foldlM_reparentChild {q : Nat} : ∀ (L : List Nat) {ps ps' : Procs},
    L.foldlM (reparentChild p q) ps = some ps' → L.Nodup → q ∉ L → (∀ r, (ps.children r).Nodup) →
    (∀ x r, x ∈ ps'.children r ↔ (r = q ∧ x ∈ L) ∨ (x ∈ ps.children r ∧ x ∉ L)) ∧
    (∀ r, (ps'.children r).Nodup) ∧ (∀ x, ps'.parent x = if x ∈ L then some q else ps.parent x)
  | [], ps, ps', h, _, _, hn => by
    cases h; exact ⟨by simp, hn, by simp⟩
  | c :: L, ps, ps', h, hL, hq, hn => by
    obtain ⟨ps₁, h₁, h₂⟩ := Option.bind_eq_some.1 h
    have e₁ := reparentChild_frame h₁
    obtain ⟨hc, hL⟩ := List.nodup_cons.1 hL
    have hqc : q ≠ c := fun e => hq (e ▸ List.mem_cons_self _ _)
    have mem₁ : ∀ x r, x ∈ ps₁.children r ↔ (r = q ∧ x = c) ∨ (x ∈ ps.children r ∧ x ≠ c) :=
      fun x r => by
        rw [e₁]
        by_cases hr : r = q
        · subst hr; simp [insertProcIntoParent, removeProcFromParent, (hn _).mem_erase_iff]; tauto
        · simp [insertProcIntoParent, removeProcFromParent, hr, (hn _).mem_erase_iff]; tauto
    have nd₁ : ∀ r, (ps₁.children r).Nodup := fun r => by
      rw [e₁]
      by_cases hr : r = q
      · subst hr; simp [insertProcIntoParent, removeProcFromParent, (hn _).not_mem_erase, (hn _).erase]
      · simp [insertProcIntoParent, removeProcFromParent, hr, (hn _).erase]
    obtain ⟨mem, nd, par⟩ :=
      foldlM_reparentChild L h₂ hL (fun h => hq (List.mem_cons_of_mem _ h)) nd₁
    refine ⟨fun x r => ?_, nd, fun x => ?_⟩
    · rw [mem, mem₁]
      by_cases hx : x = c
      · subst hx; simp [hc]
      · simp [hx]
    · rw [par, e₁]
      by_cases hx : x = c
      · subst hx; simp [hc, insertProcIntoParent]
      · by_cases hxL : x ∈ L <;> simp [hx, hxL, insertProcIntoParent, removeProcFromParent]

theorem removeProcFromPgroup_eq (h : ps.removeProcFromPgroup p g = some ps') :
    ps.pgroups.removeProc p g = some ps'.pgroups ∧ ps' = { ps with pgroups := ps'.pgroups } := by
  obtain ⟨_, e, rfl⟩ := Option.map_eq_some'.1 h
  exact ⟨e, rfl⟩

theorem removeProcFromSession_eq (h : ps.removeProcFromSession p g = some ps') :
    ps.sessions.removeProc p g = some ps'.sessions ∧ ps' = { ps with sessions := ps'.sessions } := by
  obtain ⟨_, e, rfl⟩ := Option.map_eq_some'.1 h
  exact ⟨e, rfl⟩

/-- The teardown of `p`, unfolded: the parent `q` it finds, the signal fan-out, the walk of
`proc_reparent_children` and the two removals from the tables. -/
theorem teardown_eq (h : ps.teardown p = some ps') :
    ∃ q ps₁ ps₂ ps₃ ps₄, ps.parent p = some q ∧ ps.hangUpIfOrphaned (ps.sid p = ps.sid q ∧
        ps.pgid p ≠ ps.pgid q ∧ ps.checkForPgrpConnection (ps.pgid p) (ps.pgid q) (some p) = false)
        (ps.pgid p) = some ps₁ ∧
      { ps₁ with procHash := ps₁.procHash.erase p }.procReparentChildren p q = some ps₂ ∧
      ps₂.removeProcFromPgroup p (ps₂.pgid p) = some ps₃ ∧
      ps₃.removeProcFromSession p (ps₃.sid p) = some ps₄ ∧ ps' = ps₄.removeProcFromParent p := by
  unfold teardown at h
  obtain ⟨q, hq, h⟩ := Option.bind_eq_some.1 h
  obtain ⟨ps₁, h₁, h⟩ := Option.bind_eq_some.1 h
  obtain ⟨ps₂, h₂, h⟩ := Option.bind_eq_some.1 h
  obtain ⟨ps₃, h₃, h⟩ := Option.bind_eq_some.1 h
  obtain ⟨ps₄, h₄, h⟩ := Option.bind_eq_some.1 h
  exact ⟨q, ps₁, ps₂, ps₃, ps₄, hq, h₁, h₂, h₃, h₄, (Option.some.inj h).symm⟩

/-- The teardown of `p` takes it out of `proc_hash`, and besides changes only the tree links, the
tables and the signal log. -/
theorem teardown_frame (h : ps.teardown p = some ps') :
    ps' = { ps with procHash := ps.procHash.erase p, children := ps'.children, parent := ps'.parent,
                    pgroups := ps'.pgroups, sessions := ps'.sessions, pgSignals := ps'.pgSignals } := by
  obtain ⟨q, ps₁, ps₂, ps₃, ps₄, -, h₁, h₂, h₃, h₄, rfl⟩ := teardown_eq h
  rw [hangUpIfOrphaned_frame h₁] at h₂
  rw [(removeProcFromSession_eq h₄).2, (removeProcFromPgroup_eq h₃).2,
    foldlM_reparentChild_frame _ h₂]
  rfl

/-- The teardown of `p` takes it out of its group and its session: `remove_proc_from_pgroup` and
`remove_proc_from_session` on the tables as they were. -/
theorem teardown_groups (h : ps.teardown p = some ps') :
    ps.pgroups.removeProc p (ps.pgid p) = some ps'.pgroups ∧
      ps.sessions.removeProc p (ps.sid p) = some ps'.sessions := by
  obtain ⟨q, ps₁, ps₂, ps₃, ps₄, -, h₁, h₂, h₃, h₄, rfl⟩ := teardown_eq h
  rw [hangUpIfOrphaned_frame h₁] at h₂
  have e₂ := foldlM_reparentChild_frame _ h₂
  obtain ⟨h₃, e₃⟩ := removeProcFromPgroup_eq h₃
  obtain ⟨h₄, e₄⟩ := removeProcFromSession_eq h₄
  have g₂ : ps₂.pgroups = ps.pgroups ∧ ps₂.pgid = ps.pgid ∧ ps₂.sessions = ps.sessions ∧
      ps₂.sid = ps.sid := by rw [e₂]; exact ⟨rfl, rfl, rfl, rfl⟩
  have g₃ : ps₃.sessions = ps₂.sessions ∧ ps₃.sid = ps₂.sid := by rw [e₃]; exact ⟨rfl, rfl⟩
  have g₄ : ps₄.pgroups = ps₃.pgroups := by rw [e₄]
  rw [g₂.1, g₂.2.1] at h₃
  rw [g₃.1, g₃.2, g₂.2.2.1, g₂.2.2.2] at h₄
  exact ⟨g₄ ▸ h₃, h₄⟩

/-- The teardown of `p`, whose parent is `q`: `p` leaves every children list, and its children
move onto `q`'s list with `q` as parent. -/
theorem teardown_some (h : ps.teardown p = some ps') (hn : ∀ r, (ps.children r).Nodup)
    (hpc : ∀ q, ps.parent p = some q → q ∉ ps.children p) :
    ∃ q, ps.parent p = some q ∧
      (∀ x r, x ∈ ps'.children r ↔
        x ≠ p ∧ ((r = q ∧ x ∈ ps.children p) ∨ (x ∈ ps.children r ∧ x ∉ ps.children p))) ∧
      (∀ r, (ps'.children r).Nodup) ∧
      (∀ x, ps'.parent x = if x = p then none else if x ∈ ps.children p then some q else ps.parent x) := by
  obtain ⟨q, ps₁, ps₂, ps₃, ps₄, hq, h₁, h₂, h₃, h₄, rfl⟩ := teardown_eq h
  rw [hangUpIfOrphaned_frame h₁] at h₂
  obtain ⟨mem, nd, par⟩ := foldlM_reparentChild _ h₂ (hn p) (hpc q hq) hn
  rw [(removeProcFromSession_eq h₄).2, (removeProcFromPgroup_eq h₃).2]
  simp only [removeProcFromParent]
  refine ⟨q, hq, fun x r => ?_, fun r => (nd r).erase p, fun x => ?_⟩
  · rw [(nd r).mem_erase_iff, mem]
  · by_cases hx : x = p
    · subst hx; simp
    · rw [update_noteq hx, par]; simp [hx]

end Procs
end NewOS
