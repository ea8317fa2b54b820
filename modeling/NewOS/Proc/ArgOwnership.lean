import NewOS.Proc.ArgCopy
import NewOS.Proc.CreateFail

/-! # Who gives back the blocks of a new process's arguments

The blocks `user_copy_arg_list` and `proc_create_proc` allocate, followed along every path to the
`kfree`s of `proc_create_proc2`. The heap is the list of blocks handed out and not taken back; a
bad `kfree` or a write outside `largs` stops the model (`none`). -/
namespace NewOS
namespace ArgCopy
open Function

/-- The blocks handed out and not taken back, newest first, and the number of `kmalloc` calls;
the blocks are distinct and each came from one of those calls. -/
structure KHeap where
  live : List Nat
  calls : Nat
  nodup : live.Nodup
  fresh : ∀ b ∈ live, b ≤ calls

namespace KHeap

/-- The heap before any `kmalloc`. -/
def empty : KHeap := ⟨[], 0, List.nodup_nil, fun _ h => absurd h (List.not_mem_nil _)⟩

/-- A `kmalloc` that succeeds: the `n`-th call hands out the block `n + 1`, which the heap does
not hold. -/
def alloc (h : KHeap) : Nat × KHeap :=
  (h.calls + 1, ⟨(h.calls + 1) :: h.live, h.calls + 1,
    List.nodup_cons.2 ⟨fun hm => Nat.not_succ_le_self _ (h.fresh _ hm), h.nodup⟩,
    fun b hb => (List.mem_cons.1 hb).elim Nat.le_of_eq fun hb => Nat.le_succ_of_le (h.fresh b hb)⟩)

/-- A `kmalloc` that returns `NULL`. -/
def tick (h : KHeap) : KHeap :=
  ⟨h.live, h.calls + 1, h.nodup, fun b hb => Nat.le_succ_of_le (h.fresh b hb)⟩

/-- `kmalloc(size)` as the heap's `calls`-th call, which succeeds when `ok calls size`. -/
def kmalloc (ok : Nat → Nat → Bool) (h : KHeap) (size : Nat) : Option Nat × KHeap :=
  if ok h.calls size then (some h.alloc.1, h.alloc.2) else (none, h.tick)

/-- `kfree(b)`; `none` when the heap does not hold `b`: a second `kfree` of a block, or of one
it never handed out. -/
def kfree (h : KHeap) (b : Nat) : Option KHeap :=
  if b ∈ h.live then
    some ⟨h.live.erase b, h.calls, h.nodup.erase b, fun x hx => h.fresh x (List.mem_of_mem_erase hx)⟩
  else none

/-- `kfree` of each block of the list, in order. -/
def kfreeAll : KHeap → List Nat → Option KHeap
  | h, [] => some h
  | h, b :: bs => (h.kfree b).bind (kfreeAll · bs)

@[simp] theorem alloc_live (h : KHeap) : h.alloc.2.live = h.alloc.1 :: h.live := rfl
@[simp] theorem tick_live (h : KHeap) : h.tick.live = h.live := rfl

theorem kmalloc_eq (ok : Nat → Nat → Bool) (h : KHeap) (size : Nat) :
    h.kmalloc ok size = (some h.alloc.1, h.alloc.2) ∨ h.kmalloc ok size = (none, h.tick) := by
  unfold kmalloc; split_ifs <;> simp

/-- A block the heap holds, whatever the others, is given back once. -/
theorem kfree_of_perm {h : KHeap} {b : Nat} {rest : List Nat} (hp : h.live.Perm (b :: rest)) :
    ∃ h', h.kfree b = some h' ∧ h'.live.Perm rest :=
  ⟨_, if_pos (hp.mem_iff.2 (List.mem_cons_self _ _)), by simpa using hp.erase b⟩

theorem kfreeAll_of_perm : ∀ {h : KHeap} {l rest : List Nat}, h.live.Perm (l ++ rest) →
    ∃ h', h.kfreeAll l = some h' ∧ h'.live.Perm rest
  | h, [], _, hp => ⟨h, rfl, hp⟩
  | _, _ :: _, _, hp => by
    obtain ⟨h₁, e₁, p₁⟩ := kfree_of_perm hp
    obtain ⟨h', e', p'⟩ := kfreeAll_of_perm p₁
    exact ⟨h', by simp [kfreeAll, e₁, e'], p'⟩

end KHeap

/-! ## `free_arg_list` and `user_copy_arg_list` -/

/-- A `char **` argument list: the `largs` block and the pointer each of its slots holds. -/
structure ArgVec where
  block : Nat
  slots : Int → Nat

/-- The strings `args[0..n-1]`. -/
def ArgVec.strs (a : ArgVec) (n : Int) : List Nat := (List.range n.toNat).map fun i : Nat => a.slots i

/-- The blocks `free_arg_list(args, argc)` gives back, in order. -/
def ArgVec.blocks (a : ArgVec) (argc : Int) : List Nat := a.strs argc ++ [a.block]

/-- Models `free_arg_list(args, argc)`: nothing for `NULL`; otherwise `kfree(args[cnt])` for
`0 ≤ cnt < argc`, then `kfree(args)`. -/
def freeArgList (h : KHeap) : Option ArgVec → Int → Option KHeap
  | none, _ => some h
  | some a, argc => (h.kfreeAll (a.strs argc)).bind (·.kfree a.block)

/-- `largs[i]` lies in an array of `size` bytes of 4-byte pointers. -/
def InArray (size : Nat) (i : Int) : Prop := 0 ≤ i ∧ (i + 1) * 4 ≤ size

instance (size : Nat) (i : Int) : Decidable (InArray size i) :=
  inferInstanceAs (Decidable (0 ≤ i ∧ _))

/-- The copy loop of `user_copy_arg_list` from index `cnt`, `n` iterations left; `argAt cnt` is
what `user_strncpy` copies from `args[cnt]`, `none` on a fault. Returns the error and the last
`cnt`. -/
def copyLoop (ok : Nat → Nat → Bool) (argAt : Nat → Option (List UInt8)) (size : Nat) :
    Nat → Nat → KHeap → (Int → Nat) → Option (KHeap × (Int → Nat) × Option (KernErr × Nat))
  | _, 0, h, s => some (h, s, none)
  | cnt, n + 1, h, s =>
    match argAt cnt with
    | none => some (h, s, some (.vmBadUserMemory, cnt))
    | some str =>
      match h.kmalloc ok (str.length + 1) with
      | (b, h) =>
        if InArray size cnt then
          match b with
          | none => some (h, update s cnt 0, some (.noMemory, cnt))
          | some b => copyLoop ok argAt size (cnt + 1) n h (update s cnt b)
        else none

/-- Models `user_copy_arg_list(args, argc, &kargs)` on the heap; its error label gives back the
strings copied and the array. -/
def userCopyArgListHeap (ok : Nat → Nat → Bool) (argAt : Nat → Option (List UInt8))
    (argsKernel : Bool) (argc : Int) (g : Int → Nat) (h : KHeap) :
    Option (KHeap × Except KernErr ArgVec) :=
  if argsKernel then some (h, .error .vmBadUserMemory)
  else
    match h.kmalloc ok (argListSize argc) with
    | (none, h) => some (h, .error .noMemory)
    | (some largs, h) =>
      match copyLoop ok argAt (argListSize argc) 0 argc.toNat h g with
      | none => none
      | some (h, s, none) =>
        if InArray (argListSize argc) argc then some (h, .ok ⟨largs, update s argc 0⟩) else none
      | some (h, s, some (e, cnt)) => (freeArgList h (some ⟨largs, s⟩) cnt).map (·, .error e)

theorem freeArgList_of_perm {h : KHeap} {a : ArgVec} {argc : Int} {rest : List Nat}
    (hp : h.live.Perm (a.blocks argc ++ rest)) :
    ∃ h', freeArgList h (some a) argc = some h' ∧ h'.live.Perm rest := by
  obtain ⟨h₁, e₁, p₁⟩ := KHeap.kfreeAll_of_perm
    (show h.live.Perm (a.strs argc ++ a.block :: rest) by simpa [ArgVec.blocks] using hp)
  obtain ⟨h', e', p'⟩ := KHeap.kfree_of_perm p₁
  exact ⟨h', by simp [freeArgList, e₁, e'], p'⟩

theorem argListSize_eq_of_bounds {argc : Int} (h0 : 0 ≤ argc) (hw : (argc + 1) * 4 < 2 ^ 32) :
    (argListSize argc : Int) = (argc + 1) * 4 := by
  rw [argListSize, Int.emod_eq_of_lt (by omega) hw, Int.toNat_of_nonneg (by omega)]

/-- Within the array the loop runs `m` iterations and leaves the heap holding the strings it
wrote, at their slots, besides what it held. -/
theorem copyLoop_spec (ok : Nat → Nat → Bool) (argAt : Nat → Option (List UInt8)) (size : Nat) :
    ∀ (cnt n : Nat) (h : KHeap) (s : Int → Nat),
      match copyLoop ok argAt size cnt n h s with
      | none => size < (cnt + n) * 4
      | some (h', s', r) => (∀ i : Int, i < cnt → s' i = s i) ∧ ∃ m ≤ n,
          h'.live.Perm ((List.range' cnt m).map (fun i : Nat => s' i) ++ h.live) ∧
          (r = none → m = n) ∧ ∀ e c, r = some (e, c) → c = cnt + m
  | _, 0, h, s => ⟨fun _ _ => rfl, 0, le_rfl, by simp, fun _ => rfl, by simp⟩
  | cnt, n + 1, h, s => by
    simp only [copyLoop]
    cases argAt cnt with
    | none => exact ⟨fun _ _ => rfl, 0, by simp, by simp, by simp⟩
    | some str =>
      rcases KHeap.kmalloc_eq ok h (str.length + 1) with hk | hk <;> simp only [hk] <;>
        split_ifs with hin
      · have ih := copyLoop_spec ok argAt size (cnt + 1) n h.alloc.2 (update s cnt h.alloc.1)
        generalize copyLoop ok argAt size (cnt + 1) n h.alloc.2 (update s cnt h.alloc.1) = x at ih ⊢
        rcases x with _ | ⟨h', s', r⟩
        · dsimp only at ih ⊢; omega
        obtain ⟨hs', m, hm, hp, hn, hc⟩ := ih
        have hcnt : s' cnt = h.alloc.1 := by rw [hs' _ (by omega), update_same]
        refine ⟨fun i hi => ?_, m + 1, by omega, ?_, fun h0 => by have := hn h0; omega,
          fun e c h0 => by have := hc e c h0; omega⟩
        · rw [hs' i (by omega), update_noteq (by omega)]
        · rw [List.range'_succ, List.map_cons, hcnt]
          exact hp.trans (by simp)
      · dsimp only [InArray] at hin ⊢; omega
      · exact ⟨fun i hi => update_noteq (by omega) _ _, 0, by simp, by simp, by simp⟩
      · dsimp only [InArray] at hin ⊢; omega

/-- `user_copy_arg_list` writes outside its array only when `argc` is negative or its byte size
wraps; otherwise it frees nothing twice and allocates exactly what `free_arg_list` frees. -/
theorem userCopyArgListHeap_spec (ok : Nat → Nat → Bool) (argAt : Nat → Option (List UInt8))
    (argsKernel : Bool) (argc : Int) (g : Int → Nat) (h : KHeap) :
    match userCopyArgListHeap ok argAt argsKernel argc g h with
    | none => ¬(0 ≤ argc ∧ (argc + 1) * 4 < 2 ^ 32)
    | some (h', .error _) => h'.live.Perm h.live
    | some (h', .ok a) => h'.live.Perm (a.blocks argc ++ h.live) := by
  unfold userCopyArgListHeap
  cases argsKernel
  · simp only [Bool.false_eq_true, if_false]
    rcases KHeap.kmalloc_eq ok h (argListSize argc) with hk | hk <;> simp only [hk]
    · have hl := copyLoop_spec ok argAt (argListSize argc) 0 argc.toNat h.alloc.2 g
      generalize copyLoop ok argAt (argListSize argc) 0 argc.toNat h.alloc.2 g = x at hl ⊢
      rcases x with _ | ⟨h₁, s', _ | ⟨err, c⟩⟩
      · rintro ⟨h0, hw⟩
        have := argListSize_eq_of_bounds h0 hw
        dsimp only at hl; omega
      · obtain ⟨-, m, hm, hp, hn, -⟩ := hl
        obtain rfl := hn rfl
        split_ifs with hin
        · have hstrs : (⟨h.alloc.1, update s' argc 0⟩ : ArgVec).strs argc =
              (List.range' 0 argc.toNat).map fun i : Nat => s' i := by
            simp only [ArgVec.strs, List.range_eq_range']
            exact List.map_congr_left fun i hi => update_noteq (by simp at hi; omega) _ _
          simp only [ArgVec.blocks, hstrs]
          exact hp.trans (by simp)
        · rintro ⟨h0, hw⟩
          have := argListSize_eq_of_bounds h0 hw
          exact hin ⟨h0, by omega⟩
      · obtain ⟨-, m, -, hp, -, hc⟩ := hl
        obtain rfl : c = m := by simpa using hc err c rfl
        have hp' : h₁.live.Perm ((⟨h.alloc.1, s'⟩ : ArgVec).blocks c ++ h.live) :=
          hp.trans (by simp [ArgVec.blocks, ArgVec.strs, List.range_eq_range'])
        obtain ⟨h₂, e₂, p₂⟩ := freeArgList_of_perm hp'
        simpa [e₂] using p₂
    · exact List.Perm.refl _
  · exact List.Perm.refl _

/-- With the outcome of `kmalloc` fixed by the size, the loop stops with the error of the loop
`copyArgs` of the model of the writes, or runs to the end where that one succeeds. -/
theorem copyLoop_error (alloc : Nat → Bool) (argAt : Nat → Option (List UInt8)) (size : Nat) :
    ∀ {cnt n : Nat} {h h' : KHeap} {s s' : Int → Nat} {r : Option (KernErr × Nat)},
      copyLoop (fun _ => alloc) argAt size cnt n h s = some (h', s', r) →
      ((copyArgs alloc argAt (List.range' cnt n)).2.map fun _ => ()) =
        r.elim (.ok ()) fun p => .error p.1
  | _, 0, _, _, _, _, _, e => by cases e; rfl
  | cnt, n + 1, h, h', s, s', r, e => by
    unfold copyLoop KHeap.kmalloc at e
    simp only [List.range'_succ, copyArgs]
    cases ha : argAt cnt with
    | none => rw [ha] at e; cases e; rfl
    | some str =>
      rw [ha] at e
      cases hk : alloc (str.length + 1) <;>
        simp only [hk, if_true, if_false, Bool.false_eq_true] at e ⊢ <;> split_ifs at e
      · cases e; rfl
      · rw [← copyLoop_error alloc argAt size e]
        cases (copyArgs alloc argAt (List.range' (cnt + 1) n)).2 <;> rfl

/-- The heap model of `user_copy_arg_list` takes the branch `userCopyArgList` takes. -/
theorem userCopyArgListHeap_error (alloc : Nat → Bool) (argAt : Nat → Option (List UInt8))
    (argc : Int) (g : Int → Nat) {h h' : KHeap} {r : Except KernErr ArgVec}
    (e : userCopyArgListHeap (fun _ => alloc) argAt false argc g h = some (h', r)) :
    (r.map fun _ => ()) = ((userCopyArgList alloc argAt argc).2.map fun _ => ()) := by
  unfold userCopyArgListHeap KHeap.kmalloc at e
  unfold userCopyArgList
  cases ha : alloc (argListSize argc) <;> simp only [ha, if_false, if_true, Bool.false_eq_true] at e ⊢
  · cases e; rfl
  generalize hl : copyLoop (fun _ => alloc) argAt (argListSize argc) 0 argc.toNat _ g = x at e
  rcases x with _ | ⟨h₁, s', r'⟩
  · cases e
  have hr : (r.map fun _ => ()) = r'.elim (.ok ()) fun p => .error p.1 := by
    rcases r' with _ | ⟨err, c⟩
    · split_ifs at e; cases e; rfl
    · obtain ⟨h₂, -, he⟩ := Option.map_eq_some'.1 e; cases he; rfl
  rw [hr, ← copyLoop_error alloc argAt _ hl, List.range_eq_range']
  rcases copyArgs alloc argAt (List.range' 0 argc.toNat) with ⟨_, _ | _⟩ <;> rfl

/-! ## `user_proc_create_proc`, `proc_create_proc` and `proc_create_proc2` -/

/-- The `proc_arg` record `proc_create_proc` hands the first thread of the new process: its
block, the `kstrdup` of the path, and the argument list and count it was given. -/
structure ProcArg where
  block : Nat
  path : Nat
  args : Option ArgVec
  argc : Int

/-- Where the creation of a process from user space ends. -/
inductive Exit
  /-- `user_proc_create_proc` returns the error before it calls `proc_create_proc` -/
  | user (e : KernErr)
  /-- `proc_create_proc` returns the error -/
  | create (e : KernErr)
  /-- `elf_load_uspace` fails and `proc_create_proc2` returns -/
  | load
  /-- `proc_create_proc2` enters user space -/
  | enter
  deriving DecidableEq, Repr

/-- The heap side of `proc_create_proc` when the failure point `f` fails (`none`: none does):
`err3` gives back the path, `err2` the `proc_arg`, and no label gives back `args`. -/
def procCreateProcHeap (h : KHeap) (newSession newPgroup : Bool) (f : Option CreateFailure)
    (args : Option ArgVec) (argc : Int) : Option (KHeap × Except KernErr ProcArg) :=
  if f = some .procStruct then some (h, .error .noMemory)
  else if f = some .sessionNode ∧ newSession ∨ f = some .pgroupNode ∧ (newPgroup || newSession)
  then none
  else if f = some .procArg then some (h, .error .noMemory)
  else
    let (pargs, h) := h.alloc
    if f = some .path then (h.kfree pargs).map (·, .error .noMemory)
    else
      let (path, h) := h.alloc
      let undo := (h.kfree path).bind (·.kfree pargs)
      match f with
      | some .ioctx => undo.map (·, .error .noMemory)
      | some (.aspace e) | some (.thread e) => undo.map (·, .error e)
      | _ => some (h, .ok ⟨pargs, path, args, argc⟩)

/-- The blocks `proc_create_proc2` gives back: the argument list, then, once `elf_load_uspace`
succeeds, the path and the `proc_arg`. -/
def procCreateProc2Heap (h : KHeap) (pa : ProcArg) (elfOk : Bool) : Option (KHeap × Exit) :=
  (freeArgList h pa.args pa.argc).bind fun h =>
    if elfOk then ((h.kfree pa.path).bind (·.kfree pa.block)).map (·, .enter) else some (h, .load)

/-- What `user_proc_create_proc` finds in user space besides the argument strings. -/
structure UserCall where
  upathKernel : Bool
  unameKernel : Bool
  argsKernel : Bool
  pathOk : Bool
  nameOk : Bool

/-- Models `user_proc_create_proc(upath, uname, args, argc, priority, flags)` on the heap. The
error says which function returned it; the `proc_arg` goes to the new process's first thread. -/
def userProcCreateProcHeap (ok : Nat → Nat → Bool) (argAt : Nat → Option (List UInt8))
    (u : UserCall) (argc : Int) (g : Int → Nat) (newSession newPgroup : Bool)
    (f : Option CreateFailure) (h : KHeap) : Option (KHeap × Except Exit ProcArg) :=
  if u.upathKernel || u.unameKernel then some (h, .error (.user .vmBadUserMemory))
  else
    match userCopyArgListHeap ok argAt u.argsKernel argc g h with
    | none => none
    | some (h, .error e) => (freeArgList h none argc).map (·, .error (.user e))
    | some (h, .ok a) =>
      if u.pathOk && u.nameOk then
        (procCreateProcHeap h newSession newPgroup f (some a) argc).map
          fun r => (r.1, r.2.mapError .create)
      else (freeArgList h (some a) argc).map (·, .error (.user .vmBadUserMemory))

/-- `user_proc_create_proc`, then, once the process is created, its first thread's
`proc_create_proc2`: the heap when the last of them returns, and where it ended. -/
def userProcCreateProcRun (ok : Nat → Nat → Bool) (argAt : Nat → Option (List UInt8))
    (u : UserCall) (argc : Int) (g : Int → Nat) (newSession newPgroup : Bool)
    (f : Option CreateFailure) (elfOk : Bool) (h : KHeap) : Option (KHeap × Exit) :=
  match userProcCreateProcHeap ok argAt u argc g newSession newPgroup f h with
  | none => none
  | some (h, .error x) => some (h, x)
  | some (h, .ok pa) => procCreateProc2Heap h pa elfOk

section create
variable {h : KHeap} {ns np : Bool} {f : Option CreateFailure}

/-- `proc_create_proc` gives back what it allocated on every error, and otherwise hands the new
thread the two blocks it allocated. -/
theorem procCreateProcHeap_spec (args : Option ArgVec) (argc : Int) :
    match procCreateProcHeap h ns np f args argc with
    | none => f = some .sessionNode ∧ ns ∨ f = some .pgroupNode ∧ (np || ns)
    | some (h', .error _) => h'.live.Perm h.live
    | some (h', .ok pa) => pa.args = args ∧ pa.argc = argc ∧
        h'.live = pa.path :: pa.block :: h.live := by
  obtain ⟨h₁, e₁, p₁⟩ := KHeap.kfree_of_perm (b := h.alloc.1) (List.Perm.refl h.alloc.2.live)
  obtain ⟨h₂, e₂, p₂⟩ := KHeap.kfree_of_perm (b := h.alloc.2.alloc.1)
    (List.Perm.refl h.alloc.2.alloc.2.live)
  obtain ⟨h₃, e₃, p₃⟩ := KHeap.kfree_of_perm (b := h.alloc.1) p₂
  unfold procCreateProcHeap
  split_ifs with h1 h2 h3 h4
  · exact List.Perm.refl _
  · exact h2
  · exact List.Perm.refl _
  · simpa [e₁] using p₁
  · rcases f with _ | (_ | _ | _ | _ | _ | _ | e | e) <;> simp_all

/-- The first thread gives back the argument list it was handed; once the program is loaded it
gives back the path and the `proc_arg` too, and otherwise those two stay allocated. -/
theorem procCreateProc2Heap_spec {pa : ProcArg} {a : ArgVec} {rest : List Nat}
    (ha : pa.args = some a) (hp : h.live.Perm (pa.path :: pa.block :: (a.blocks pa.argc ++ rest)))
    (elfOk : Bool) :
    ∃ h', procCreateProc2Heap h pa elfOk = some (h', if elfOk then .enter else .load) ∧
      h'.live.Perm ((if elfOk then [] else [pa.path, pa.block]) ++ rest) := by
  obtain ⟨h₁, e₁, p₁⟩ := freeArgList_of_perm (a := a) (h := h)
    (show h.live.Perm (a.blocks pa.argc ++ pa.path :: pa.block :: rest) from
      hp.trans (List.perm_middle.trans (.cons _ List.perm_middle)).symm)
  cases elfOk
  · exact ⟨h₁, by simp [procCreateProc2Heap, ha, e₁], by simpa using p₁⟩
  · obtain ⟨h₂, e₂, p₂⟩ := KHeap.kfree_of_perm p₁
    obtain ⟨h₃, e₃, p₃⟩ := KHeap.kfree_of_perm p₂
    exact ⟨h₃, by simp [procCreateProc2Heap, ha, e₁, e₂, e₃], p₃⟩

/-- `user_proc_create_proc` gives back every block on its own errors, keeps the argument list
when `proc_create_proc` fails, and otherwise hands all of them to the new thread. -/
theorem userProcCreateProcHeap_spec (ok : Nat → Nat → Bool) (argAt : Nat → Option (List UInt8))
    (u : UserCall) (argc : Int) (g : Int → Nat) :
    match userProcCreateProcHeap ok argAt u argc g ns np f h with
    | none => (f = some .sessionNode ∧ ns ∨ f = some .pgroupNode ∧ (np || ns)) ∨
        ¬(0 ≤ argc ∧ (argc + 1) * 4 < 2 ^ 32)
    | some (h', .error (.user _)) => h'.live.Perm h.live
    | some (h', .error (.create _)) => ∃ a : ArgVec, h'.live.Perm (a.blocks argc ++ h.live)
    | some (_, .error _) => False
    | some (h', .ok pa) => ∃ a, pa.args = some a ∧ pa.argc = argc ∧
        h'.live.Perm (pa.path :: pa.block :: (a.blocks argc ++ h.live)) := by
  unfold userProcCreateProcHeap
  by_cases hk : (u.upathKernel || u.unameKernel) = true
  · rw [if_pos hk]
  rw [if_neg hk]
  have hc := userCopyArgListHeap_spec ok argAt u.argsKernel argc g h
  generalize userCopyArgListHeap ok argAt u.argsKernel argc g h = x at hc ⊢
  rcases x with _ | ⟨h₁, e | a⟩
  · exact .inr hc
  · exact hc
  dsimp only
  split_ifs
  · have hp := @procCreateProcHeap_spec h₁ ns np f (some a) argc
    generalize procCreateProcHeap h₁ ns np f (some a) argc = y at hp ⊢
    rcases y with _ | ⟨h₂, e | pa⟩
    · exact .inl hp
    · exact ⟨a, hp.trans hc⟩
    · obtain ⟨ha, hargc, hl⟩ := hp
      exact ⟨a, ha, hargc, hl ▸ (hc.cons _).cons _⟩
  · obtain ⟨h₂, e₂, p₂⟩ := freeArgList_of_perm hc
    simpa [e₂] using p₂

/-- Along every path of `user_proc_create_proc` and `proc_create_proc2` no block is freed twice;
an error of `proc_create_proc` leaks the argument list, a failed `elf_load_uspace` the path and
the `proc_arg`. -/
theorem userProcCreateProcRun_blocks (ok : Nat → Nat → Bool) (argAt : Nat → Option (List UInt8))
    (u : UserCall) (argc : Int) (g : Int → Nat) (elfOk : Bool) :
    match userProcCreateProcRun ok argAt u argc g ns np f elfOk h with
    | none => (f = some .sessionNode ∧ ns ∨ f = some .pgroupNode ∧ (np || ns)) ∨
        ¬(0 ≤ argc ∧ (argc + 1) * 4 < 2 ^ 32)
    | some (h', .user _) => h'.live.Perm h.live
    | some (h', .create _) => ∃ l : List Nat, l.length = argc.toNat + 1 ∧ h'.live.Perm (l ++ h.live)
    | some (h', .load) => ∃ l : List Nat, l.length = 2 ∧ h'.live.Perm (l ++ h.live)
    | some (h', .enter) => h'.live.Perm h.live := by
  unfold userProcCreateProcRun
  have hs := @userProcCreateProcHeap_spec h ns np f ok argAt u argc g
  generalize userProcCreateProcHeap ok argAt u argc g ns np f h = x at hs ⊢
  rcases x with _ | ⟨h₁, (e | e | _ | _) | pa⟩
  · exact hs
  · exact hs
  · obtain ⟨a, ha⟩ := hs
    exact ⟨a.blocks argc, by simp [ArgVec.blocks, ArgVec.strs], ha⟩
  · exact hs.elim
  · exact hs.elim
  · obtain ⟨a, ha, hargc, hp⟩ := hs
    obtain ⟨h₂, e₂, p₂⟩ := procCreateProc2Heap_spec ha (hargc ▸ hp) elfOk
    dsimp only
    rw [e₂]
    cases elfOk
    · exact ⟨[pa.path, pa.block], rfl, p₂⟩
    · exact p₂

/-- A new process from two arguments whose I/O context cannot be created: the array and the two
strings stay allocated. -/
example : (userProcCreateProcRun (fun _ _ => true) (fun _ => some [0x61])
    ⟨false, false, false, true, true⟩ 2 (fun _ => 0) false false (some .ioctx) true
    KHeap.empty).map (fun r => (r.1.live, r.2)) = some ([3, 2, 1], .create .noMemory) := by
  decide

end create

end ArgCopy
end NewOS
