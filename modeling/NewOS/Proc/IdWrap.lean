import NewOS.Proc.ProcTree
import NewOS.Thread.Consistency

/-! # Process creation, and the wrap of process ids

`proc_create_proc` from a CPU whose current thread belongs to a process of `proc_hash` always
succeeds: the creator lookup finds a process, at the latest the creator, and the first thread's
lookup finds the new process at the head of `proc_hash`. Process ids come from the 32-bit
counter `next_proc_id`; after `2^32` creations the id of a new process is 1 again, the kernel
process's, and the creator lookup, which sees the new process first, finds the new process
itself. -/
namespace NewOS
namespace Procs
open Function

variable {ps : Procs}

/-- The locked section of `proc_create_proc` succeeds whenever the creator lookup does. -/
theorem procCreateProcLocked_isSome {cur : Int} (ns np : Bool) {c : Nat}
    (hf : (ps.nextRec :: ps.procHash).find?
      (fun q => decide (update ps.pid ps.nextRec ps.nextProcId q = cur)) = some c) :
    ∃ ps', ps.procCreateProcLocked cur ns np = some (ps', ps.nextRec) := by
  simp only [procCreateProcLocked, createProcStruct]
  split
  · rename_i hn
    exact absurd (hn.symm.trans hf) (Option.noConfusion)
  · exact ⟨_, rfl⟩

end Procs

namespace Kernel
open Function Procs Sched

variable {P : Priorities} {ncpu : Nat} {ok : Op → Prop} {k : Kernel} {c cp : Nat}

/-- `_create_thread` leaves the process of every CPU's current thread alone: the new record is
no CPU's current thread. -/
theorem createThread_curProc (h : SchedInv P ncpu k.sched) (hc : c < ncpu) (pid : Int) :
    (k.createThread P pid).1.curProc c = k.curProc c := by
  have hne := (h.createThreadLocked_fresh (P := P)).2.2.2.1 c hc
  simp only [createThreadLocked_current] at hne
  simp only [curProc, createThread, createThreadPublish, createThreadAttach]
  split
  · split_ifs <;> simp [insertThreadIntoProc, update_noteq hne]
  · simp [update_noteq hne]

/-- `_create_thread` into a live process of `proc_hash` returns a thread id. -/
theorem createThread_ok {pid : Int} {p : Nat} (hl : k.procs.procGetProcStructLocked pid = some p)
    (hs : k.procs.state p ≠ .death) : ∃ tid, (k.createThread P pid).2 = .ok tid := by
  simp only [createThread, createThreadPublish, createThreadAttach]
  split
  · rename_i p' hp'
    obtain rfl : p' = p := Option.some.inj (hp'.symm.trans hl)
    rw [if_pos hs]; exact ⟨_, rfl⟩
  · rename_i hn; exact absurd (hn.symm.trans hl) Option.noConfusion

/-- `_create_thread` returns the id `create_thread_struct` took from `next_thread_id`. -/
theorem createThread_tid {pid tid : Int} (h : (k.createThread P pid).2 = .ok tid) :
    tid = k.sched.nextThreadId := by
  simp only [createThread, createThreadPublish, createThreadAttach] at h
  split at h
  · split_ifs at h
    cases h
    simp [createThreadLocked, createThreadStruct, atomicAdd]
  · cases h

/-- Every `_create_thread` advances `next_thread_id` by one, with the 32-bit wrap. -/
theorem createThread_nextThreadId (pid : Int) :
    (k.createThread P pid).1.sched.nextThreadId = wrap32 (k.sched.nextThreadId + 1) := by
  rcases createThread_sched (k := k) (P := P) pid with h | h <;> rw [h] <;> rfl

/-- When `next_thread_id` is negative, the first thread of a new process gets a negative id,
which `proc_create_proc` takes for an error: the call fails. -/
theorem createProc_eq_none {ns np : Bool} {aspace : Int} (hn : k.sched.nextThreadId < 0) :
    k.createProc P c ns np aspace = none := by
  unfold createProc
  split
  · rfl
  · rename_i k₁ p hp
    obtain ⟨hs, -⟩ := createProcPublish_some hp
    dsimp only
    split
    · rename_i tid h
      have ht := createThread_tid (congrArg Prod.snd h)
      rw [if_pos (by rw [ht]; exact hs ▸ hn)]
    · rfl

/-- `proc_create_proc` from CPU `c`, whose current thread belongs to the process `cp` of
`proc_hash`, succeeds when `next_thread_id` is not negative. The new process is record
`nextRec`, at the head of `proc_hash`, and its parent is what the lookup of the creator's id in
`proc_hash`, the new process included, finds. -/
theorem step_createProc_ok (hk : Reachable P ncpu ok k) (hc : c < ncpu)
    (hcp : k.curProc c = some cp) (hm : cp ∈ k.procs.procHash) (ns np : Bool) {aspace : Int}
    (ha : 0 ≤ aspace) (htid : 0 ≤ k.sched.nextThreadId) :
    ∃ k', step P ncpu k (.createProc c ns np aspace) = some k' ∧
      k'.procs.nextRec = k.procs.nextRec + 1 ∧ k'.procs.kernelProc = k.procs.kernelProc ∧
      k'.curProc c = some cp ∧ k'.procs.procHash = k.procs.nextRec :: k.procs.procHash ∧
      k'.procs.parent k.procs.nextRec = (k.procs.nextRec :: k.procs.procHash).find?
        (fun q => decide (update k.procs.pid k.procs.nextRec k.procs.nextProcId q = k.procs.pid cp)) ∧
      k'.sched.nextThreadId = wrap32 (k.sched.nextThreadId + 1) := by
  have hr := recInv_of_reachable hk
  have hsi := schedInv_of_reachable hk
  have hcp' : cp ≠ k.procs.nextRec := (hr.hash_lt cp hm).ne
  obtain ⟨c', hf⟩ : ∃ c', (k.procs.nextRec :: k.procs.procHash).find?
      (fun q => decide (update k.procs.pid k.procs.nextRec k.procs.nextProcId q = k.procs.pid cp)) =
        some c' := by
    cases hx : (k.procs.nextRec :: k.procs.procHash).find? _ with
    | none =>
      have := List.find?_eq_none.1 hx cp (List.mem_cons_of_mem _ hm)
      simp [update_noteq hcp'] at this
    | some c' => exact ⟨c', rfl⟩
  obtain ⟨ps, hps⟩ := procCreateProcLocked_isSome ns np hf
  have hpub : k.createProcPublish c ns np = some ({ k with procs := ps }, k.procs.nextRec) := by
    simp [createProcPublish, hcp, hps]
  obtain ⟨-, c'', _, _, _, _, hc'', hpe⟩ := procCreateProcLocked_eq hps
  obtain rfl : c' = c'' := Option.some.inj (hf.symm.trans hc'')
  have hpsh : ps.procHash = k.procs.nextRec :: k.procs.procHash := by rw [hpe]
  have hl : ({ ps with aspaceId := update ps.aspaceId k.procs.nextRec aspace } : Procs).procGetProcStructLocked
      (ps.pid k.procs.nextRec) = some k.procs.nextRec := by
    simp [procGetProcStructLocked, hpsh]
  obtain ⟨tid, htid'⟩ := createThread_ok (P := P)
    (k := { k with procs := { ps with aspaceId := update ps.aspaceId k.procs.nextRec aspace } }) hl
    (by rw [hpe]; simp)
  obtain ⟨fr, -⟩ := createThread_procs (P := P)
    (k := { k with procs := { ps with aspaceId := update ps.aspaceId k.procs.nextRec aspace } })
    (ps.pid k.procs.nextRec)
  refine ⟨_, by
      simp only [step, if_pos (And.intro hc ha)]
      exact createProc_eq hpub htid' (by rw [createThread_tid htid']; exact htid),
    ?_, ?_, ?_, fr.procHash.trans hpsh, ?_, createThread_nextThreadId _⟩
  · rw [fr.nextRec]; show ps.nextRec = _; rw [hpe]
  · rw [fr.kernelProc]; show ps.kernelProc = _; rw [hpe]
  · rw [createThread_curProc
      (k := { k with procs := { ps with aspaceId := update ps.aspaceId k.procs.nextRec aspace } }) hsi hc]
    show ps.threadProc _ = _; rw [hpe]; exact hcp
  · rw [fr.parent, hf]; show ps.parent _ = _; rw [hpe]; simp

theorem run_append (k : Kernel) (l₁ l₂ : List Op) :
    run P ncpu k (l₁ ++ l₂) = (run P ncpu k l₁).bind fun k' => run P ncpu k' l₂ := by
  induction l₁ generalizing k with
  | nil => rfl
  | cons op ops ih =>
    show (step P ncpu k op).bind (fun k' => run P ncpu k' (ops ++ l₂)) = _
    simp only [ih, run, Option.bind_assoc]

/-- `n + 1` thread creations in a row always run; each advances `next_thread_id` by one, and
together they leave the process tree, the process states and the process of every CPU's current
thread alone. -/
theorem run_createThread (pid : Int) (hok : ok (.createThread pid)) :
    ∀ n k, Reachable P ncpu ok k →
      ∃ k', run P ncpu k (List.replicate (n + 1) (.createThread pid)) = some k' ∧
        Reachable P ncpu ok k' ∧
        k'.sched.nextThreadId = wrap32 (k.sched.nextThreadId + (n + 1 : Nat)) ∧
        TreeFrame k.procs k'.procs ∧ k'.procs.state = k.procs.state ∧
        ∀ c < ncpu, k'.curProc c = k.curProc c
  | 0, k, hk => by
    obtain ⟨_, _, _, _, _, hps⟩ := createThread_procs_eq (P := P) (k := k) pid
    exact ⟨_, rfl, hk.step hok rfl, createThread_nextThreadId pid, (createThread_procs pid).1,
      by rw [hps], fun _ hc => createThread_curProc (schedInv_of_reachable hk) hc pid⟩
  | n + 1, k, hk => by
    obtain ⟨_, _, _, _, _, hps⟩ := createThread_procs_eq (P := P) (k := k) pid
    obtain ⟨k', hr, hk', hnt, hfr, hst, hcur⟩ := run_createThread pid hok n _ (hk.step hok rfl)
    refine ⟨k', hr, hk', ?_, (createThread_procs pid).1.trans hfr, by rw [hst, hps],
      fun c hc => (hcur c hc).trans (createThread_curProc (schedInv_of_reachable hk) hc pid)⟩
    rw [hnt, createThread_nextThreadId, wrap32_add_wrap32]
    congr 1
    push_cast
    omega

/-- One round of the run that wraps `next_proc_id`, on CPU `c`: a process creation, then
`2^32 - 1` thread creations in the kernel process, which bring `next_thread_id` back where it
was. -/
def wrapRound (c : Nat) : List Op :=
  .createProc c false false 0 :: List.replicate (2 ^ 32 - 1) (.createThread 1)

/-- A round runs from any reachable state in which CPU `c` runs a thread of the kernel process
and `next_thread_id` is a non-negative `int`; it adds one process record. -/
theorem run_wrapRound (hk : Reachable P ncpu (fun _ => True) k) (hc : c < ncpu)
    (hcp : k.curProc c = some k.procs.kernelProc) (h0 : 0 ≤ k.sched.nextThreadId)
    (h1 : k.sched.nextThreadId < 2 ^ 31) :
    ∃ k', run P ncpu k (wrapRound c) = some k' ∧ Reachable P ncpu (fun _ => True) k' ∧
      k'.procs.nextRec = k.procs.nextRec + 1 ∧ k'.procs.kernelProc = k.procs.kernelProc ∧
      k'.curProc c = some k'.procs.kernelProc ∧ k'.sched.nextThreadId = k.sched.nextThreadId := by
  obtain ⟨k₁, hs, hn, hkp, hcp₁, -, -, hnt⟩ :=
    step_createProc_ok hk hc hcp (recInv_of_reachable hk).kernel_mem false false le_rfl h0
  obtain ⟨k', hr, hk', hnt', hfr, -, hcur⟩ :=
    run_createThread 1 trivial (2 ^ 32 - 2) k₁ (hk.step trivial hs)
  refine ⟨k', by rw [wrapRound, run, hs, Option.some_bind]; exact hr, hk', by rw [hfr.nextRec, hn],
    hfr.kernelProc.trans hkp, by rw [hcur c hc, hcp₁, hfr.kernelProc, hkp], ?_⟩
  rw [hnt', hnt, wrap32_add_wrap32]
  unfold wrap32; omega

/-- `n` rounds in a row. -/
theorem run_wrapRounds (hc : c < ncpu) :
    ∀ n k, Reachable P ncpu (fun _ => True) k → k.curProc c = some k.procs.kernelProc →
      0 ≤ k.sched.nextThreadId → k.sched.nextThreadId < 2 ^ 31 →
      ∃ k', run P ncpu k (List.replicate n (wrapRound c)).flatten = some k' ∧
        Reachable P ncpu (fun _ => True) k' ∧ k'.procs.nextRec = k.procs.nextRec + n ∧
        k'.procs.kernelProc = k.procs.kernelProc ∧ k'.curProc c = some k'.procs.kernelProc ∧
        k'.sched.nextThreadId = k.sched.nextThreadId
  | 0, k, hk, hcp, _, _ => ⟨k, rfl, hk, rfl, rfl, hcp, rfl⟩
  | n + 1, k, hk, hcp, h0, h1 => by
    obtain ⟨k₁, hr₁, hk₁, hn₁, hkp₁, hcp₁, hnt₁⟩ := run_wrapRound hk hc hcp h0 h1
    obtain ⟨k', hr, hk', hn, hkp, hcp', hnt⟩ :=
      run_wrapRounds hc n k₁ hk₁ hcp₁ (hnt₁ ▸ h0) (hnt₁ ▸ h1)
    refine ⟨k', ?_, hk', by omega, hkp.trans hkp₁, hcp', hnt.trans hnt₁⟩
    rw [List.replicate_succ, List.flatten_cons, run_append, hr₁, Option.some_bind, hr]

/-- Process ids come from the 32-bit counter `next_proc_id`. On one CPU, run `2^32 - 1` rounds
of a process creation followed by `2^32 - 1` thread creations (so that the first thread of each
new process gets a non-negative id): `next_proc_id` has wrapped round to 1, the kernel process's
id. The next creation gives the new process id 1, and the lookup of the creator's id, which sees
the new process first in `proc_hash`, finds the new process: it becomes its own parent, though
it is not the kernel process. -/
theorem procTree_id_wrap :
    ∃ k, Reachable Priorities.sample 1 (fun _ => True) k ∧ k.procs.nextRec = 2 ^ 32 + 1 ∧
      ∃ p ∈ k.procs.procHash, p ≠ k.procs.kernelProc ∧ k.procs.parent p = some p := by
  obtain ⟨k, -, hk, hn, hk0, hcp, hnt⟩ := run_wrapRounds (c := 0) (by decide) (2 ^ 32 - 1) _
    (Reachable.init : Reachable Priorities.sample 1 (fun _ => True) _) rfl (by decide) (by decide)
  have hrec : k.procs.nextRec = 2 ^ 32 := hn.trans (by decide)
  have hk0 : k.procs.kernelProc = 0 := hk0
  have hr := recInv_of_reachable hk
  obtain ⟨k', hs, hn', hkp', -, hmem, hpar, -⟩ :=
    step_createProc_ok hk (by decide) hcp hr.kernel_mem false false le_rfl (by rw [hnt]; decide)
  have hid : k.procs.nextProcId = k.procs.pid k.procs.kernelProc := by
    rw [hr.nextProcId_eq, hk0, hr.pid_eq 0 (by rw [hrec]; decide), hrec]
    unfold wrap32; omega
  refine ⟨k', hk.step trivial hs, by rw [hn', hrec], k.procs.nextRec,
    by rw [hmem]; exact List.mem_cons_self _ _, by rw [hkp', hk0, hrec]; decide, ?_⟩
  rw [hpar, List.find?_cons_of_pos _ (by simp [hid])]

/-- Thread ids come from the 32-bit counter `next_thread_id`, which `create_thread_struct`
bumps with `atomic_add`. On one CPU, after `2^31 - 2` thread creations in the kernel process the
counter holds `-2^31`: the next `_create_thread` succeeds and returns the negative id `-2^31`,
and a `proc_create_proc` made then takes the id of its first thread for an error and fails. -/
theorem thread_id_negative :
    ∃ k, Reachable Priorities.sample 1 (· = .createThread 1) k ∧
      ∃ tid, (k.createThread Priorities.sample 1).2 = .ok tid ∧ tid < 0 ∧
        step Priorities.sample 1 k (.createProc 0 false false 0) = none := by
  obtain ⟨k, -, hk, hnt, hfr, hst, -⟩ := run_createThread 1 (by exact rfl) (2 ^ 31 - 3) _
    (Reachable.init : Reachable Priorities.sample 1 (· = .createThread 1) _)
  have hneg : k.sched.nextThreadId = -2 ^ 31 := by rw [hnt]; decide
  have hl : k.procs.procGetProcStructLocked 1 = some 0 := by
    simp only [procGetProcStructLocked, hfr.procHash, hfr.pid]; rfl
  obtain ⟨tid, ht⟩ := createThread_ok (P := Priorities.sample) hl (by rw [hst]; decide)
  refine ⟨k, hk, tid, ht, by rw [createThread_tid ht, hneg]; decide, ?_⟩
  simp only [step, if_pos (And.intro (by decide : 0 < 1) le_rfl)]
  exact createProc_eq_none (by rw [hneg]; decide)

end Kernel
end NewOS
