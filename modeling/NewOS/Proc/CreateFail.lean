import NewOS.Proc.ProcTree

/-! # The failure paths of `proc_create_proc`

`proc_create_proc` publishes the new process under the process lock (in `proc_hash`, under its
creator, in a group and a session, with the group and session nodes it preallocated) before it
allocates the arguments, the I/O context, the address space and the first thread. When one of
those fails, the unwinding at `err1` only takes the record out of `proc_hash` and frees it: the
record stays on its creator's children list and on the member lists, and the nodes it published
stay in `pgid_hash` and `sid_hash`. A preallocation that fails is not checked: the `NULL` node
goes into its table. -/
namespace NewOS

/-- The allocations and collaborators of `proc_create_proc` that can fail, in the order the call
meets them; the collaborators' own error codes are carried. -/
inductive CreateFailure
  /-- `create_proc_struct` returns `NULL` -/
  | procStruct
  /-- `create_session_struct` returns `NULL` -/
  | sessionNode
  /-- `create_pgroup_struct` returns `NULL` -/
  | pgroupNode
  /-- the `kmalloc` of the `proc_arg` -/
  | procArg
  /-- the `kstrdup` of the path -/
  | path
  /-- `vfs_new_ioctx` -/
  | ioctx
  /-- `vm_create_aspace`, with its error code -/
  | aspace (e : KernErr)
  /-- `thread_create_kernel_thread_etc`, with its error code -/
  | thread (e : KernErr)
  deriving DecidableEq, Repr

/-- The failure points after the locked section, which all unwind through `err1`. -/
def CreateFailure.IsLate : CreateFailure → Prop
  | procArg | path | ioctx | aspace _ | thread _ => True
  | procStruct | sessionNode | pgroupNode => False

namespace Kernel
open Function Procs
variable (P : Priorities)

/-- The unwinding at `err1` of `proc_create_proc`: `hash_remove(proc_hash, p)`, then the record
is freed. -/
def err1 (k : Kernel) (p : Nat) : Kernel :=
  { k with procs := { k.procs with procHash := k.procs.procHash.erase p } }

/-- Models `proc_create_proc` from CPU `c` when the failure point `f` fails (`none`: none does).
A `none` result is a `NULL` dereference: of a preallocated node that was not checked, inserted
into its table, or of a missing creator. A negative id from a successful thread creation (the
wrap of `next_thread_id`) is left out here as in `createProc`. -/
def procCreateProc (k : Kernel) (c : Nat) (newSession newPgroup : Bool) (aspace : Int)
    (f : Option CreateFailure) : Option (Kernel × Except KernErr Int) :=
  if f = some .procStruct then some (k, .error .noMemory)
  else if f = some .sessionNode ∧ newSession ∨ f = some .pgroupNode ∧ (newPgroup || newSession)
  then none
  else
    match k.createProcPublish c newSession newPgroup with
    | none => none
    | some (k₁, p) =>
      match f with
      | some .procArg | some .path | some .ioctx => some (k₁.err1 p, .error .noMemory)
      | some (.aspace e) | some (.thread e) => some (k₁.err1 p, .error e)
      | _ =>
        let k₁ := { k₁ with procs := { k₁.procs with aspaceId := update k₁.procs.aspaceId p aspace } }
        match k₁.createThread P (k₁.procs.pid p) with
        | (k₂, .ok tid) => if tid < 0 then none else some (k₂, .ok (k₁.procs.pid p))
        | (k₂, .error e) => some (k₂.err1 p, .error e)

variable {P} {k k₁ : Kernel} {c p : Nat} {ns np : Bool} {aspace : Int}

/-- With no failure, the call succeeds exactly when the `proc_create_proc` of the kernel model
does, with the same state. -/
theorem createProc_eq_some_iff {k' : Kernel} :
    k.createProc P c ns np aspace = some k' ↔
      ∃ pid, procCreateProc P k c ns np aspace none = some (k', .ok pid) := by
  simp only [procCreateProc, reduceCtorEq, if_false, false_and, or_self, createProc]
  cases k.createProcPublish c ns np with
  | none => simp
  | some r =>
    obtain ⟨k₁, p⟩ := r
    dsimp only
    generalize createThread P { k₁ with procs := { k₁.procs with
      aspaceId := update k₁.procs.aspaceId p aspace } } (k₁.procs.pid p) = x
    obtain ⟨k₂, e | tid⟩ := x
    · simp
    · dsimp only; split_ifs <;> simp [eq_comm]

/-- A failure after the locked section returns an error and leaves the published state with the
record taken out of `proc_hash`, and nothing else undone. -/
theorem procCreateProc_late {f : CreateFailure} (hf : f.IsLate)
    (hp : k.createProcPublish c ns np = some (k₁, p)) :
    ∃ e, procCreateProc P k c ns np aspace (some f) = some (k₁.err1 p, .error e) := by
  cases f <;> simp only [CreateFailure.IsLate] at hf <;>
    simp [procCreateProc, hp]

/-- In every reachable state, a `proc_create_proc` whose locked section succeeds and whose
argument, path, I/O context, address space or first thread allocation then fails returns an
error with `proc_hash` as it was, but the new record keeps its parent link and stays on the
creator's children list: the process tree is no longer well formed. -/
theorem create_failure_breaks_tree {ncpu : Nat} {ok : Op → Prop} {f : CreateFailure}
    (hk : Reachable P ncpu ok k) (hp : k.createProcPublish c ns np = some (k₁, p))
    (hf : f.IsLate) :
    ∃ k' e cp, procCreateProc P k c ns np aspace (some f) = some (k', .error e) ∧
      k'.procs.procHash = k.procs.procHash ∧ k'.procs.parent p = some cp ∧
      p ∈ k'.procs.children cp ∧ ¬ TreeInv k'.procs.tree := by
  obtain ⟨e, he⟩ : ∃ e, procCreateProc P k c ns np aspace (some f) = some (k₁.err1 p, .error e) :=
    procCreateProc_late hf hp
  obtain ⟨-, -, cp', -, hl⟩ := createProcPublish_some hp
  obtain ⟨rfl, cp, _, _, _, _, -, e₁⟩ := procCreateProcLocked_eq hl
  have hfresh : k.procs.nextRec ∉ k.procs.procHash := fun hm =>
    lt_irrefl _ ((recInv_of_reachable hk).hash_lt _ hm)
  have hhash : (k₁.err1 k.procs.nextRec).procs.procHash = k.procs.procHash := by
    simp only [err1, e₁, List.erase_cons_head]
  have hmem : k.procs.nextRec ∈ (k₁.err1 k.procs.nextRec).procs.children cp := by
    simp only [err1, e₁, update_same, List.mem_cons_self]
  refine ⟨_, e, cp, he, hhash, by simp only [err1, e₁, update_same], hmem, fun ht => ?_⟩
  exact hfresh (hhash ▸ ht.children_mem cp _ hmem)

theorem create_failure_breaks_tree_new_proc :
    ∃ k, run Priorities.sample 1 (init Priorities.sample 1)
        [.createProc 0 false false 0, .wakeUp 1, .resched 0 .ready (fun _ => 0x3001) 0] = some k ∧
      ∃ k' e cp, procCreateProc Priorities.sample k 0 true false 0 (some .procArg) = some (k', .error e) ∧
        k'.procs.procHash = k.procs.procHash ∧ k'.procs.parent 2 = some cp ∧
        2 ∈ k'.procs.children cp ∧ ¬ TreeInv k'.procs.tree := by
  have hrun : run Priorities.sample 1 (init Priorities.sample 1)
      [.createProc 0 false false 0, .wakeUp 1, .resched 0 .ready (fun _ => 0x3001) 0] = some _ := rfl
  exact ⟨_, hrun, create_failure_breaks_tree (Reachable.init.run (fun _ _ => trivial) hrun) rfl trivial⟩

/-- The unwinding of `proc_create_proc` undoes only the `proc_hash` insertion, and a failed
preallocation is not checked. From `thread_init`'s state, the kernel process calls
`proc_create_proc` with `PROC_FLAG_NEW_SESSION`. When the `proc_arg` allocation fails the call
returns `ERR_NO_MEMORY` and `proc_hash` is as it was, but the kernel process's children list
holds the freed record, `sid_hash` and `pgid_hash` keep the new nodes, and their member lists
hold the freed record. When `create_session_struct` returns `NULL`, the call inserts the `NULL`
node into `sid_hash` and returns no error. -/
theorem create_failure_leaves_links :
    (∃ k', procCreateProc Priorities.sample (init Priorities.sample 1) 0 true false 0
        (some .procArg) = some (k', .error .noMemory) ∧
      k'.procs.procHash = (init Priorities.sample 1).procs.procHash ∧
      (init Priorities.sample 1).procs.children 0 = [] ∧ k'.procs.children 0 = [1] ∧
      (init Priorities.sample 1).procs.sessions.hash = [0] ∧ k'.procs.sessions.hash = [1, 0] ∧
      (init Priorities.sample 1).procs.pgroups.hash = [0] ∧ k'.procs.pgroups.hash = [1, 0] ∧
      k'.procs.sessions.list 1 = [1] ∧ k'.procs.pgroups.list 1 = [1]) ∧
    procCreateProc Priorities.sample (init Priorities.sample 1) 0 true false 0
      (some .sessionNode) = none :=
  ⟨⟨_, rfl, rfl, rfl, rfl, rfl, rfl, rfl, rfl, rfl, rfl⟩, rfl⟩

end Kernel
end NewOS
