import NewOS.Kernel
import NewOS.Proc.Spec

/-! What each operation of the system does to the process state. Most leave the process tree
alone: a `TreeFrame` says which fields they keep. -/
namespace NewOS
namespace Procs
open Function

variable {ps ps' : Procs} {p : Nat} {g : Int}

/-- `setpgid` leaves the state alone or moves a process of `proc_hash` into a group. -/
theorem setpgid_cases {cur pid : Int} {r : Except KernErr Unit}
    (h : ps.setpgid cur pid g = some (ps', r)) :
    ps' = ps ∨ ∃ p ∈ ps.procHash, ∃ g', ps.movePgroup p g' = some ps' := by
  unfold setpgid at h
  by_cases hn : pid < 0 ∨ g < 0
  · rw [if_pos hn] at h; cases h; exact .inl rfl
  rw [if_neg hn] at h
  dsimp only at h
  generalize (if pid = 0 then cur else pid) = q at h
  generalize (if g = 0 then q else g) = g at h
  split at h
  · cases h; exact .inl rfl
  · rename_i p hp
    split at h
    · cases h; exact .inl rfl
    · obtain ⟨_, hm, he⟩ := Option.map_eq_some'.1 h
      cases he
      exact .inr ⟨p, List.mem_of_find?_eq_some hp, g, hm⟩

/-- `setsid` leaves the state alone or moves a process of `proc_hash` into a session. -/
theorem setsid_cases {cur : Int} {r : Except KernErr Unit} (h : ps.setsid cur = some (ps', r)) :
    ps' = ps ∨ ∃ p ∈ ps.procHash, ps.moveSession p cur = some ps' := by
  unfold setsid at h
  split at h
  · cases h; exact .inl rfl
  · rename_i p hp
    split at h
    · cases h; exact .inl rfl
    · obtain ⟨_, hm, he⟩ := Option.map_eq_some'.1 h
      cases he
      exact .inr ⟨p, List.mem_of_find?_eq_some hp, hm⟩

theorem movePgroup_frame (h : ps.movePgroup p g = some ps') :
    ps' = { ps with pgid := ps'.pgid, pgroups := ps'.pgroups } := by
  obtain ⟨_, -, rfl⟩ := Option.map_eq_some'.1 h; rfl

theorem moveSession_frame (h : ps.moveSession p g = some ps') :
    ps' = { ps with sid := ps'.sid, sessions := ps'.sessions } := by
  obtain ⟨_, -, rfl⟩ := Option.map_eq_some'.1 h; rfl

theorem setpgid_frame {cur pid : Int} {r : Except KernErr Unit}
    (h : ps.setpgid cur pid g = some (ps', r)) :
    ps' = { ps with pgid := ps'.pgid, pgroups := ps'.pgroups } := by
  rcases setpgid_cases h with rfl | ⟨p, -, g', e⟩
  · rfl
  · exact movePgroup_frame e

theorem setsid_frame {cur : Int} {r : Except KernErr Unit} (h : ps.setsid cur = some (ps', r)) :
    ps' = { ps with sid := ps'.sid, sessions := ps'.sessions } := by
  rcases setsid_cases h with rfl | ⟨p, -, e⟩
  · rfl
  · exact moveSession_frame e

/-- The fields of the process state that only process creation and teardown change: the tree
(`proc_hash`, parent and children links, the kernel process) and the allocation of records and
ids. -/
structure TreeFrame (ps ps' : Procs) : Prop where
  procHash : ps'.procHash = ps.procHash
  parent : ps'.parent = ps.parent
  children : ps'.children = ps.children
  kernelProc : ps'.kernelProc = ps.kernelProc
  nextRec : ps'.nextRec = ps.nextRec
  pid : ps'.pid = ps.pid
  nextProcId : ps'.nextProcId = ps.nextProcId

theorem TreeFrame.refl (ps : Procs) : TreeFrame ps ps := ⟨rfl, rfl, rfl, rfl, rfl, rfl, rfl⟩

theorem TreeFrame.trans {ps'' : Procs} (h₁ : TreeFrame ps ps') (h₂ : TreeFrame ps' ps'') :
    TreeFrame ps ps'' :=
  ⟨h₂.procHash.trans h₁.procHash, h₂.parent.trans h₁.parent, h₂.children.trans h₁.children,
    h₂.kernelProc.trans h₁.kernelProc, h₂.nextRec.trans h₁.nextRec, h₂.pid.trans h₁.pid,
    h₂.nextProcId.trans h₁.nextProcId⟩

theorem treeFrame_setpgid {cur pid : Int} {r : Except KernErr Unit}
    (h : ps.setpgid cur pid g = some (ps', r)) : TreeFrame ps ps' := by
  rw [setpgid_frame h]; exact ⟨rfl, rfl, rfl, rfl, rfl, rfl, rfl⟩

theorem treeFrame_setsid {cur : Int} {r : Except KernErr Unit} (h : ps.setsid cur = some (ps', r)) :
    TreeFrame ps ps' := by
  rw [setsid_frame h]; exact ⟨rfl, rfl, rfl, rfl, rfl, rfl, rfl⟩

end Procs

namespace Kernel
open Function Procs

variable {P : Priorities} {k k' : Kernel} {c : Nat}

theorem threadResched_procs {rand : Nat → Nat} {now : Int}
    (h : k.threadResched P c rand now = some k') : k'.procs = k.procs := by
  unfold Kernel.threadResched at h
  split at h
  · cases h
  · dsimp only at h
    split_ifs at h
    · cases h; rfl
    · split at h
      · cases h; rfl
      · cases h

/-- `_create_thread` keeps the process tree, and links a thread only to a process of
`proc_hash`. -/
theorem createThread_procs (pid : Int) :
    TreeFrame k.procs (k.createThread P pid).1.procs ∧
      ∀ t q, (k.createThread P pid).1.procs.threadProc t = some q →
        k.procs.threadProc t = some q ∨ q ∈ k.procs.procHash := by
  simp only [createThread, createThreadPublish, createThreadAttach]
  split
  · rename_i p hp
    have hmem : p ∈ k.procs.procHash := List.mem_of_find?_eq_some hp
    split_ifs
    · refine ⟨⟨rfl, rfl, rfl, rfl, rfl, rfl, rfl⟩, fun t q h => ?_⟩
      simp only [insertThreadIntoProc] at h
      by_cases ht : t = (k.sched.createThreadLocked P).2
      · subst ht; simp at h; exact .inr (h ▸ hmem)
      · simp [update_noteq ht] at h; exact .inl h
    · refine ⟨⟨rfl, rfl, rfl, rfl, rfl, rfl, rfl⟩, fun t q h => .inl ?_⟩
      by_cases ht : t = (k.sched.createThreadLocked P).2
      · subst ht; simp at h
      · simpa [update_noteq ht] using h
  · refine ⟨⟨rfl, rfl, rfl, rfl, rfl, rfl, rfl⟩, fun t q h => .inl ?_⟩
    by_cases ht : t = (k.sched.createThreadLocked P).2
    · subst ht; simp at h
    · simpa [update_noteq ht] using h

/-- The first part of `thread_exit` keeps the process tree, and moves the thread only into the
kernel process. -/
theorem exitBegin_procs :
    TreeFrame k.procs (k.exitBegin P c).procs ∧
      ∀ t q, (k.exitBegin P c).procs.threadProc t = some q →
        k.procs.threadProc t = some q ∨ q = k.procs.kernelProc := by
  have hmove : ∀ t q, (update k.procs.threadProc (k.sched.current c) (some k.procs.kernelProc)) t =
      some q → k.procs.threadProc t = some q ∨ q = k.procs.kernelProc := fun t q h => by
    by_cases ht : t = k.sched.current c
    · subst ht; simp at h; exact .inr h.symm
    · simp [update_noteq ht] at h; exact .inl h
  simp only [exitBegin]
  split
  · split_ifs
    · exact ⟨⟨rfl, rfl, rfl, rfl, rfl, rfl, rfl⟩, hmove⟩
    · exact ⟨⟨rfl, rfl, rfl, rfl, rfl, rfl, rfl⟩, hmove⟩
    · exact ⟨⟨rfl, rfl, rfl, rfl, rfl, rfl, rfl⟩, fun t q h => .inl h⟩
  · exact ⟨⟨rfl, rfl, rfl, rfl, rfl, rfl, rfl⟩, fun t q h => .inl h⟩

/-- `_create_thread` changes only the thread fields of the process state. -/
theorem createThread_procs_eq (pid : Int) : ∃ tl nt mt tp ins, (k.createThread P pid).1.procs =
    { k.procs with threadList := tl, numThreads := nt, mainThread := mt, threadProc := tp,
                   inserted := ins } := by
  simp only [createThread, createThreadPublish, createThreadAttach]
  split
  · split_ifs <;> exact ⟨_, _, _, _, _, rfl⟩
  · exact ⟨_, _, _, _, _, rfl⟩

/-- The first part of `thread_exit` changes only the thread fields and the states of processes. -/
theorem exitBegin_procs_eq : ∃ tl nt mt st tp ins, (k.exitBegin P c).procs =
    { k.procs with threadList := tl, numThreads := nt, mainThread := mt, state := st,
                   threadProc := tp, inserted := ins } := by
  simp only [exitBegin]
  split
  · split_ifs <;> exact ⟨_, _, _, _, _, _, rfl⟩
  · exact ⟨_, _, _, _, _, _, rfl⟩

/-- What a step does to the process state, operation by operation, with the guards it passed:
nothing; a thread creation; the first or the last part of a thread exit; a teardown; a process
creation (its locked section, the new address space and the first thread); or a `setpgid` or
`setsid` from the process of the current thread of some CPU. -/
theorem step_procs_cases {ncpu : Nat} {op : Op} (hs : step P ncpu k op = some k') :
    k'.procs = k.procs ∨
    (∃ pid, k' = (k.createThread P pid).1) ∨
    (∃ c, c < ncpu ∧ (∀ d < ncpu, k.sched.current c ≠ k.sched.idle d) ∧ k' = k.exitBegin P c) ∨
    (∃ c, c < ncpu ∧ k.curProc c = some k.procs.kernelProc ∧
      k'.procs = k.procs.removeThreadFromProc k.procs.kernelProc (k.sched.current c)) ∨
    (∃ p ps, p ∈ k.procs.procHash ∧ p ≠ k.procs.kernelProc ∧ k.procs.state p = .death ∧
      k.procs.numThreads p = 0 ∧ k.procs.teardown p = some ps ∧ k' = { k with procs := ps }) ∨
    (∃ c ns np aspace k₁ p tid, c < ncpu ∧ 0 ≤ aspace ∧ k.createProcPublish c ns np = some (k₁, p) ∧
      Kernel.createThread P
        { k₁ with procs := { k₁.procs with aspaceId := update k₁.procs.aspaceId p aspace } }
        (k₁.procs.pid p) = (k', .ok tid)) ∨
    (∃ c cp pid pgid ps r, k.curProc c = some cp ∧
      k.procs.setpgid (k.procs.pid cp) pid pgid = some (ps, r) ∧ k' = { k with procs := ps }) ∨
    (∃ c cp ps r, k.curProc c = some cp ∧ k.procs.setsid (k.procs.pid cp) = some (ps, r) ∧
      k' = { k with procs := ps }) := by
  cases op with
  | resched c ns rand now =>
    simp only [step] at hs
    split_ifs at hs
    have e := threadResched_procs hs
    exact .inl e
  | wakeUp t =>
    simp only [step] at hs
    split_ifs at hs
    cases hs; exact .inl rfl
  | setPriority c id priority =>
    simp only [step] at hs
    split_ifs at hs
    cases hs; exact .inl rfl
  | createThread pid =>
    simp only [step] at hs
    cases hs; exact .inr (.inl ⟨pid, rfl⟩)
  | exitBegin c =>
    simp only [step] at hs
    split_ifs at hs with hg
    cases hs; exact .inr (.inr (.inl ⟨c, hg.1, hg.2, rfl⟩))
  | teardown p =>
    simp only [step] at hs
    split_ifs at hs with hg
    obtain ⟨ps, hp, rfl⟩ := Option.map_eq_some'.1 hs
    exact .inr (.inr (.inr (.inr (.inl ⟨p, ps, hg.1, hg.2.1, hg.2.2.1, hg.2.2.2, hp, rfl⟩))))
  | exitFinish c rand now =>
    simp only [step] at hs
    split_ifs at hs with hg
    have e := threadResched_procs hs
    exact .inr (.inr (.inr (.inl ⟨c, hg.1, hg.2.2, e⟩)))
  | createProc c ns np aspace =>
    simp only [step] at hs
    split_ifs at hs with hg
    obtain ⟨k₁, p, tid, hp, hct⟩ := createProc_some hs
    exact .inr (.inr (.inr (.inr (.inr (.inl ⟨c, ns, np, aspace, k₁, p, tid, hg.1, hg.2, hp, hct⟩)))))
  | setpgid c pid pgid =>
    simp only [step] at hs
    split_ifs at hs
    obtain ⟨cp, hcp, hs⟩ := Option.bind_eq_some.1 hs
    obtain ⟨⟨ps, r⟩, hr, rfl⟩ := Option.map_eq_some'.1 hs
    exact .inr (.inr (.inr (.inr (.inr (.inr (.inl ⟨c, cp, pid, pgid, ps, r, hcp, hr, rfl⟩))))))
  | setsid c =>
    simp only [step] at hs
    split_ifs at hs
    obtain ⟨cp, hcp, hs⟩ := Option.bind_eq_some.1 hs
    obtain ⟨⟨ps, r⟩, hr, rfl⟩ := Option.map_eq_some'.1 hs
    exact .inr (.inr (.inr (.inr (.inr (.inr (.inr ⟨c, cp, ps, r, hcp, hr, rfl⟩))))))

/-- What a step can do to the process state: keep the tree and link threads only to processes
of `proc_hash` or to the kernel process; tear down a process of `proc_hash` other than the
kernel process; or run the locked section of `proc_create_proc` for the process `cp` of the
current thread of some CPU, and then keep the tree and link threads only to processes of
`proc_hash`. -/
theorem step_procs {ncpu : Nat} {op : Op} (hs : step P ncpu k op = some k') :
    (TreeFrame k.procs k'.procs ∧ ∀ t q, k'.procs.threadProc t = some q →
        k.procs.threadProc t = some q ∨ q ∈ k.procs.procHash ∨ q = k.procs.kernelProc) ∨
    (∃ p, p ∈ k.procs.procHash ∧ p ≠ k.procs.kernelProc ∧ k.procs.teardown p = some k'.procs) ∨
    (∃ c cp ns np ps p, k.curProc c = some cp ∧
        k.procs.procCreateProcLocked (k.procs.pid cp) ns np = some (ps, p) ∧ TreeFrame ps k'.procs ∧
        ∀ t q, k'.procs.threadProc t = some q → ps.threadProc t = some q ∨ q ∈ ps.procHash) := by
  rcases step_procs_cases hs with e | ⟨pid, rfl⟩ | ⟨c, -, -, rfl⟩ | ⟨c, -, -, e⟩ |
    ⟨p, ps, hp, hk, -, -, ht, rfl⟩ | ⟨c, ns, np, aspace, k₁, p, tid, -, -, hpub, hct⟩ |
    ⟨c, cp, pid, pgid, ps, r, -, hr, rfl⟩ | ⟨c, cp, ps, r, -, hr, rfl⟩
  · rw [e]; exact .inl ⟨TreeFrame.refl _, fun t q h => .inl h⟩
  · obtain ⟨fr, ht⟩ := createThread_procs (P := P) (k := k) pid
    exact .inl ⟨fr, fun t q h => (ht t q h).imp_right .inl⟩
  · obtain ⟨fr, ht⟩ := exitBegin_procs (P := P) (k := k) (c := c)
    exact .inl ⟨fr, fun t q h => (ht t q h).imp_right .inr⟩
  · rw [e]; exact .inl ⟨⟨rfl, rfl, rfl, rfl, rfl, rfl, rfl⟩, fun t q h => .inl h⟩
  · exact .inr (.inl ⟨p, hp, hk, ht⟩)
  · obtain ⟨-, -, cp, hcp, hl⟩ := createProcPublish_some hpub
    obtain ⟨fr, ht⟩ := createThread_procs (P := P)
      (k := { k₁ with procs := { k₁.procs with aspaceId := update k₁.procs.aspaceId p aspace } })
      (k₁.procs.pid p)
    rw [hct] at fr ht
    exact .inr (.inr ⟨c, cp, ns, np, k₁.procs, p, hcp, hl,
      (⟨rfl, rfl, rfl, rfl, rfl, rfl, rfl⟩ : TreeFrame k₁.procs
        { k₁.procs with aspaceId := update k₁.procs.aspaceId p aspace }).trans fr, ht⟩)
  · exact .inl ⟨treeFrame_setpgid hr, fun t q h => .inl (by rw [setpgid_frame hr] at h; exact h)⟩
  · exact .inl ⟨treeFrame_setsid hr, fun t q h => .inl (by rw [setsid_frame hr] at h; exact h)⟩

end Kernel
end NewOS
