import NewOS.Proc.IdWrap

/-! # The active translation map of each CPU

`thread_context_switch` passes `arch_thread_context_switch` the map to install: `NULL` when the
outgoing and incoming threads' processes have the same map, the incoming process's map
otherwise. `thread_exit` installs the kernel's map with `vm_aspace_swap` when it moves the
exiting thread into the kernel process. So in every reachable state, every CPU runs on the map of
its current thread's process. The kernel process has no user address space, and a process's
`aspace_id` is set once, at its creation, before any of its threads runs.
-/
namespace NewOS
open Function

/-- The four-way case analysis of `thread_context_switch` passes `NULL` exactly when the two
processes' maps coincide, and otherwise the incoming process's map. -/
theorem newTMap_eq (a b : Int) :
    newTMap a b = if procTMap a = procTMap b then none else some (procTMap b) := by
  unfold newTMap procTMap
  by_cases ha : 0 ≤ a <;> by_cases hb : 0 ≤ b <;> simp [ha, hb]

namespace Sched

variable {P : Priorities} {s s' : Sched} {c : Nat}

/-- A reschedule on CPU `c` changes the current thread of `c` alone. -/
theorem threadResched_current {rand : Nat → Nat} {now : Int}
    (h : s.threadResched P c rand now = some s') : s'.current = update s.current c (s'.current c) := by
  dsimp only [threadResched] at h
  split at h
  · cases h
  · split_ifs at h with he <;> cases h
    · simp [runNext_current, putOld_current, he]
    · simp

theorem threadSetPriority_current {id p : Int} :
    (s.threadSetPriority P c id p).1.current = s.current := by
  dsimp only [threadSetPriority]
  split_ifs
  · rfl
  · split
    · rfl
    · split_ifs <;> rfl

end Sched

namespace Kernel
open Procs Sched

variable {P : Priorities} {ncpu : Nat} {ok : Op → Prop} {k k' : Kernel} {c : Nat}

/-- Every CPU runs on the map of its current thread's process, and the kernel process has no user
address space. -/
structure MapsInv (ncpu : Nat) (k : Kernel) : Prop where
  current : ∀ c < ncpu, ∃ p, k.curProc c = some p ∧ k.activeMap c = procTMap (k.procs.aspaceId p)
  kernel_aspace : k.procs.aspaceId k.procs.kernelProc < 0

namespace MapsInv

/-- The invariant reads only the current threads, their processes' `aspace_id`s and the maps. -/
theorem congr (h : MapsInv ncpu k) (hc : ∀ c < ncpu, k'.curProc c = k.curProc c)
    (ha : k'.procs.aspaceId = k.procs.aspaceId) (hk : k'.procs.kernelProc = k.procs.kernelProc)
    (hm : k'.activeMap = k.activeMap) : MapsInv ncpu k' :=
  ⟨fun c hc' => by rw [hc c hc', ha, hm]; exact h.current c hc', by rw [ha, hk]; exact h.kernel_aspace⟩

/-- `thread_resched`: on a switch, the map `thread_context_switch` passes, if any, is the
incoming thread's process's. -/
theorem threadResched (h : MapsInv ncpu k) (hc : c < ncpu) {rand : Nat → Nat} {now : Int}
    (he : k.threadResched P c rand now = some k') : MapsInv ncpu k' := by
  have hs := threadResched_sched he
  have hcur := Sched.threadResched_current hs
  have hp := threadResched_procs he
  have hd : ∀ d < ncpu, d ≠ c → k'.curProc d = k.curProc d := fun d _ e => by
    simp only [curProc, hp]; rw [hcur, update_noteq e]
  unfold Kernel.threadResched at he
  rw [hs] at he
  dsimp only at he
  split_ifs at he with hn
  · have hmap := (congrArg Kernel.activeMap (Option.some.inj he)).symm
    refine h.congr (fun d hd' => ?_) (by rw [hp]) (by rw [hp]) hmap
    by_cases e : d = c
    · subst e; simp only [curProc, hn, hp]
    · exact hd d hd' e
  · split at he
    · rename_i po pn hpo hpn
      have hmap := (congrArg Kernel.activeMap (Option.some.inj he)).symm
      refine ⟨fun d hd' => ?_, by rw [hp]; exact h.kernel_aspace⟩
      obtain ⟨q, hq, hm⟩ := h.current d hd'
      by_cases e : d = c
      · subst e
        obtain rfl : q = po := Option.some.inj (hq.symm.trans hpo)
        refine ⟨pn, by simp only [curProc, hp]; exact hpn, ?_⟩
        rw [hmap, hp, newTMap_eq]
        split_ifs with heq
        · exact hm.trans heq
        · exact update_same _ _ _
      · refine ⟨q, (hd d hd' e).trans hq, ?_⟩
        rw [hmap, hp]
        split
        · exact hm
        · exact (update_noteq e _ _).trans hm
    · cases he

/-- A change of `aspace_id` at a record that is neither the kernel process nor the process of a
current thread. -/
theorem of_aspace (h : MapsInv ncpu k) {p : Nat} (hc : ∀ c < ncpu, k'.curProc c = k.curProc c)
    (ha : ∀ q, q ≠ p → k'.procs.aspaceId q = k.procs.aspaceId q)
    (hp : ∀ c < ncpu, k.curProc c ≠ some p) (hk : k'.procs.kernelProc = k.procs.kernelProc)
    (hkp : k.procs.kernelProc ≠ p) (hm : k'.activeMap = k.activeMap) : MapsInv ncpu k' := by
  refine ⟨fun c hc' => ?_, by rw [hk, ha _ hkp]; exact h.kernel_aspace⟩
  obtain ⟨q, hq, hmq⟩ := h.current c hc'
  have hqp : q ≠ p := by rintro rfl; exact hp c hc' hq
  exact ⟨q, (hc c hc').trans hq, by rw [hm, ha q hqp]; exact hmq⟩

theorem createThread (hs : SchedInv P ncpu k.sched) (h : MapsInv ncpu k) (pid : Int) :
    MapsInv ncpu (k.createThread P pid).1 := by
  have hm : (k.createThread P pid).1.activeMap = k.activeMap := by
    simp only [Kernel.createThread, createThreadPublish, createThreadAttach]
    split
    · split_ifs <;> rfl
    · rfl
  obtain ⟨_, _, _, _, _, e⟩ := createThread_procs_eq (P := P) (k := k) pid
  exact h.congr (fun c hc => createThread_curProc hs hc pid) (by rw [e]) (by rw [e]) hm

/-- `thread_exit` outside the kernel process moves the thread into the kernel process and
installs the kernel's map with `vm_aspace_swap`. -/
theorem exitBegin (hs : SchedInv P ncpu k.sched) (hc : c < ncpu) (h : MapsInv ncpu k) :
    MapsInv ncpu (k.exitBegin P c) := by
  have hne : ∀ d < ncpu, d ≠ c → k.sched.current d ≠ k.sched.current c := fun d hd e he => by
    have h₁ := hs.current_cpu d hd
    rw [he, hs.current_cpu c hc] at h₁
    exact e (Option.some.inj h₁).symm
  dsimp only [Kernel.exitBegin]
  split
  · rename_i p hp
    split_ifs
    all_goals first
      | exact h.congr (fun d _ => by simp only [curProc, threadSetPriority_current]) rfl rfl rfl
      | refine ⟨fun d hd => ?_, h.kernel_aspace⟩
        simp only [curProc, threadSetPriority_current, insertThreadIntoProc, removeThreadFromProc]
        by_cases e : d = c
        · subst e
          refine ⟨_, update_same _ _ _, ?_⟩
          simp [procTMap, not_le.2 h.kernel_aspace]
        · obtain ⟨q, hq, hm⟩ := h.current d hd
          exact ⟨q, (update_noteq (hne d hd e) _ _).trans hq, (update_noteq e _ _).trans hm⟩
  · exact h.congr (fun d _ => by simp only [curProc, threadSetPriority_current]) rfl rfl rfl

/-- A successful `proc_create_proc`: the new record, the only one whose `aspace_id` changes, is
no current thread's process, and its first thread is no CPU's current thread. -/
theorem createProc (hs : SchedInv P ncpu k.sched) (hr : RecInv k.procs) (h : MapsInv ncpu k)
    {ns np : Bool} {aspace : Int} (he : k.createProc P c ns np aspace = some k') :
    MapsInv ncpu k' := by
  obtain ⟨k₁, p, tid, hpub, hct⟩ := createProc_some he
  obtain ⟨hsc, ham, cp, -, hl⟩ := createProcPublish_some hpub
  obtain ⟨rfl, _, _, _, _, _, -, e⟩ := procCreateProcLocked_eq hl
  have hfresh : ∀ d < ncpu, k.curProc d ≠ some k.procs.nextRec := fun d _ hd =>
    lt_irrefl _ (hr.threadProc_lt _ _ hd)
  have hkp : k.procs.kernelProc ≠ k.procs.nextRec := (hr.hash_lt _ hr.kernel_mem).ne
  have hcur₁ : ∀ d < ncpu, k₁.curProc d = k.curProc d := fun d _ => by
    simp only [curProc, hsc, e]
  have h₁ : MapsInv ncpu k₁ := h.of_aspace hcur₁ (fun q hq => by rw [e]; exact update_noteq hq _ _)
    hfresh (by rw [e]) hkp ham
  have h₂ : MapsInv ncpu
      { k₁ with procs := { k₁.procs with aspaceId := update k₁.procs.aspaceId k.procs.nextRec aspace } } :=
    h₁.of_aspace (fun _ _ => rfl) (fun q hq => update_noteq hq _ _)
      (fun d hd => (hcur₁ d hd).symm ▸ hfresh d hd) rfl (by rw [e]; exact hkp) rfl
  have h₃ := h₂.createThread (P := P) (hsc ▸ hs) (k₁.procs.pid k.procs.nextRec)
  rw [hct] at h₃
  exact h₃

/-- Every step keeps every CPU on the map of its current thread's process. -/
theorem step (hs : SchedInv P ncpu k.sched) (hr : RecInv k.procs) (h : MapsInv ncpu k) {op : Op}
    (hst : Kernel.step P ncpu k op = some k') : MapsInv ncpu k' := by
  cases op with
  | resched c ns rand now =>
    simp only [Kernel.step] at hst
    split_ifs at hst with hc
    refine MapsInv.threadResched ?_ hc.1 hst
    exact h.congr (fun d _ => rfl) rfl rfl rfl
  | wakeUp t =>
    simp only [Kernel.step] at hst
    split_ifs at hst
    cases hst
    exact h.congr (fun d _ => rfl) rfl rfl rfl
  | setPriority c id pr =>
    simp only [Kernel.step] at hst
    split_ifs at hst
    cases hst
    exact h.congr (fun d _ => by simp only [curProc, threadSetPriority_current]) rfl rfl rfl
  | createThread pid =>
    cases hst
    exact h.createThread hs pid
  | exitBegin c =>
    simp only [Kernel.step] at hst
    split_ifs at hst with hc
    cases hst
    exact h.exitBegin hs hc.1
  | teardown p =>
    simp only [Kernel.step] at hst
    split_ifs at hst
    obtain ⟨ps, hps, rfl⟩ := Option.map_eq_some'.1 hst
    have e := teardown_frame hps
    exact h.congr (fun d _ => by simp only [curProc]; rw [e]) (by rw [e]) (by rw [e]) rfl
  | exitFinish c rand now =>
    simp only [Kernel.step] at hst
    split_ifs at hst with hc
    unfold Kernel.exitFinish at hst
    refine MapsInv.threadResched ?_ hc.1 hst
    exact h.congr (fun d _ => rfl) rfl rfl rfl
  | createProc c ns np aspace =>
    simp only [Kernel.step] at hst
    split_ifs at hst
    exact h.createProc hs hr hst
  | setpgid c pid pgid =>
    simp only [Kernel.step] at hst
    split_ifs at hst
    obtain ⟨cp, -, hst⟩ := Option.bind_eq_some.1 hst
    obtain ⟨⟨ps, r⟩, hps, rfl⟩ := Option.map_eq_some'.1 hst
    have e := setpgid_frame hps
    exact h.congr (fun d _ => by simp only [curProc]; rw [e]) (by rw [e]) (by rw [e]) rfl
  | setsid c =>
    simp only [Kernel.step] at hst
    split_ifs at hst
    obtain ⟨cp, -, hst⟩ := Option.bind_eq_some.1 hst
    obtain ⟨⟨ps, r⟩, hps, rfl⟩ := Option.map_eq_some'.1 hst
    have e := setsid_frame hps
    exact h.congr (fun d _ => by simp only [curProc]; rw [e]) (by rw [e]) (by rw [e]) rfl

end MapsInv

theorem mapsInv_of_reachable (hk : Reachable P ncpu ok k) : MapsInv ncpu k := by
  induction hk with
  | init =>
    refine ⟨fun c hc => ⟨0, by simp [curProc, init, hc], by simp [init, procTMap]⟩, by simp [init]⟩
  | step reach _ hs ih => exact ih.step (schedInv_of_reachable reach) (recInv_of_reachable reach) hs

/-- In every reachable state, every CPU's active translation map is the map of its current
thread's process; and the case analysis of `thread_context_switch` passes `NULL` exactly when
the outgoing and incoming processes' maps coincide, and the incoming process's map otherwise. -/
theorem activeMap_consistent (hk : Reachable P ncpu ok k) :
    (∀ c < ncpu, ∃ p, k.curProc c = some p ∧ k.activeMap c = procTMap (k.procs.aspaceId p)) ∧
    ∀ a b, newTMap a b = if procTMap a = procTMap b then none else some (procTMap b) :=
  ⟨(mapsInv_of_reachable hk).current, newTMap_eq⟩

theorem activeMap_consistent_new_proc :
    ∃ k, run Priorities.sample 2 (init Priorities.sample 2)
        [.createProc 0 false false 0, .wakeUp 2, .resched 0 .ready (fun _ => 0x3001) 0] = some k ∧
      (∀ c < 2, ∃ p, k.curProc c = some p ∧ k.activeMap c = procTMap (k.procs.aspaceId p)) ∧
      ∀ a b, newTMap a b = if procTMap a = procTMap b then none else some (procTMap b) := by
  have hrun : run Priorities.sample 2 (init Priorities.sample 2)
      [.createProc 0 false false 0, .wakeUp 2, .resched 0 .ready (fun _ => 0x3001) 0] = some _ := rfl
  exact ⟨_, hrun, activeMap_consistent (Reachable.init.run (fun _ _ => trivial) hrun)⟩

end Kernel
end NewOS
