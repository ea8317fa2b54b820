import NewOS.Basic
import Mathlib.Algebra.BigOperators.Group.List
import Mathlib.Algebra.Ring.Int.Defs

/-! # The argument list of a new process

`user_proc_create_proc` copies `argc` argument strings from user space with
`user_copy_arg_list`, into a `kmalloc`ed array of `argc + 1` pointers whose byte size is a
32-bit `size_t`. The first thread of the new process, in `proc_create_proc2`, lays the
arguments out above its user stack: the `uspace_prog_args_t` record, the `argv` array and the
strings, in the `tot_top_size` bytes that `get_arguments_data_size` sizes. `argc` is whatever
`int` user space passes, and a string is its bytes without the terminating zero. -/
namespace NewOS
namespace ArgCopy

/-! ## `user_copy_arg_list` -/

/-- The byte size `(argc + 1) * sizeof(char *)` passed to `kmalloc`, as a 32-bit `size_t`. -/
def argListSize (argc : Int) : Nat := ((argc + 1) * 4 % 2 ^ 32).toNat

/-- The copy loop of `user_copy_arg_list` over the indices in `l`: the indices of `largs`
written, in order, and the copied strings or the error. `argAt cnt` is what `user_strncpy`
copies from `args[cnt]`, `none` when the pointer or the string faults or the pointer is a
kernel address; `alloc n` is whether `kmalloc` of `n` bytes succeeds. `largs[cnt]` is written
with the result of `kstrdup` before that result is checked. -/
def copyArgs (alloc : Nat → Bool) (argAt : Nat → Option (List UInt8)) :
    List Nat → List Int × Except KernErr (List (List UInt8))
  | [] => ([], .ok [])
  | cnt :: rest =>
    match argAt cnt with
    | none => ([], .error .vmBadUserMemory)
    | some s =>
      if alloc (s.length + 1) then
        let r := copyArgs alloc argAt rest
        ((cnt : Int) :: r.1, r.2.map (s :: ·))
      else ([(cnt : Int)], .error .noMemory)

/-- Models `user_copy_arg_list(args, argc, &kargs)`: the indices of `largs` written, in order,
and the copied strings or the error. The loop runs for `0 ≤ cnt < argc`, then `largs[argc]` is
set to `NULL`. -/
def userCopyArgList (alloc : Nat → Bool) (argAt : Nat → Option (List UInt8)) (argc : Int) :
    List Int × Except KernErr (List (List UInt8)) :=
  if alloc (argListSize argc) then
    match copyArgs alloc argAt (List.range argc.toNat) with
    | (st, .ok l) => (st ++ [argc], .ok l)
    | r => r
  else ([], .error .noMemory)

section copy
variable {alloc : Nat → Bool} {argAt : Nat → Option (List UInt8)}

/-- The loop writes only at the indices it runs over. -/
theorem mem_copyArgs_stores :
    ∀ {l : List Nat} {i : Int}, i ∈ (copyArgs alloc argAt l).1 → ∃ cnt ∈ l, i = cnt
  | [], _, h => by simp [copyArgs] at h
  | cnt :: rest, i, h => by
    simp only [copyArgs] at h
    split at h
    · simp at h
    · split_ifs at h
      · rcases List.mem_cons.1 h with rfl | h
        · exact ⟨cnt, List.mem_cons_self _ _, rfl⟩
        · obtain ⟨c, hc, rfl⟩ := mem_copyArgs_stores h
          exact ⟨c, List.mem_cons_of_mem _ hc, rfl⟩
      · exact ⟨cnt, List.mem_cons_self _ _, List.mem_singleton.1 h⟩

/-- When every argument is readable and every `kstrdup` succeeds, the loop writes each index
once, in order, and succeeds. -/
theorem copyArgs_ok :
    ∀ {l : List Nat}, (∀ cnt ∈ l, ∃ s, argAt cnt = some s ∧ alloc (s.length + 1) = true) →
      (copyArgs alloc argAt l).1 = l.map (↑) ∧ ∃ ss, (copyArgs alloc argAt l).2 = .ok ss
  | [], _ => by simp [copyArgs]
  | cnt :: rest, h => by
    obtain ⟨s, hs, ha⟩ := h cnt (List.mem_cons_self _ _)
    obtain ⟨e, ss, hss⟩ := copyArgs_ok fun c hc => h c (List.mem_cons_of_mem _ hc)
    refine ⟨?_, s :: ss, ?_⟩ <;> simp [copyArgs, hs, ha, e, hss, Except.map]

/-- Every index `user_copy_arg_list` writes is a loop index `0 ≤ i < argc`, or `argc` itself. -/
theorem userCopyArgList_stores (argc : Int) :
    ∀ i ∈ (userCopyArgList alloc argAt argc).1, (0 ≤ i ∧ i < argc) ∨ i = argc := by
  have hloop : ∀ i ∈ (copyArgs alloc argAt (List.range argc.toNat)).1, 0 ≤ i ∧ i < argc :=
    fun i hi => by
      obtain ⟨c, hc, rfl⟩ := mem_copyArgs_stores hi
      have := List.mem_range.1 hc
      omega
  unfold userCopyArgList
  split_ifs
  · split
    · rename_i st l he
      intro i hi
      rcases List.mem_append.1 hi with hi | hi
      · exact .inl (hloop i (by rw [he]; exact hi))
      · exact .inr (List.mem_singleton.1 hi)
    · exact fun i hi => .inl (hloop i hi)
  · simp

/-- For `0 ≤ argc` with a size that does not wrap, every pointer `user_copy_arg_list` writes
lies in the array it allocated. -/
theorem userCopyArgList_in_bounds {argc : Int} (h0 : 0 ≤ argc) (hw : (argc + 1) * 4 < 2 ^ 32) :
    ∀ i ∈ (userCopyArgList alloc argAt argc).1, 0 ≤ i ∧ (i + 1) * 4 ≤ argListSize argc := by
  have hs : (argListSize argc : Int) = (argc + 1) * 4 := by
    rw [argListSize, Int.emod_eq_of_lt (by omega) hw, Int.toNat_of_nonneg (by omega)]
  intro i hi
  have := userCopyArgList_stores argc i hi
  omega

/-- When the array and every argument are allocated and readable, `user_copy_arg_list` writes
`largs[0..argc-1]`, then `largs[argc]`, and succeeds. -/
theorem userCopyArgList_ok {argc : Int} (ha : alloc (argListSize argc) = true)
    (h : ∀ cnt < argc.toNat, ∃ s, argAt cnt = some s ∧ alloc (s.length + 1) = true) :
    ∃ ss, userCopyArgList alloc argAt argc =
      ((List.range argc.toNat).map (↑) ++ [argc], .ok ss) := by
  obtain ⟨e, ss, hss⟩ := copyArgs_ok fun cnt hc => h cnt (List.mem_range.1 hc)
  refine ⟨ss, ?_⟩
  rw [userCopyArgList, if_pos ha]
  generalize copyArgs alloc argAt (List.range argc.toNat) = r at e hss
  obtain ⟨st, res⟩ := r
  cases e; cases hss; rfl

end copy

theorem userCopyArgList_in_bounds_two :
    0 ≤ (2 : Int) ∧ ((2 : Int) + 1) * 4 < 2 ^ 32 ∧
      ∀ i ∈ (userCopyArgList (fun _ => true) (fun _ => some [0x61]) 2).1,
        0 ≤ i ∧ (i + 1) * 4 ≤ argListSize 2 :=
  ⟨by decide, by decide, userCopyArgList_in_bounds (by decide) (by decide)⟩

/-! ## The layout of `proc_create_proc2` -/

/-- The sizes `proc_create_proc2` depends on, from headers outside this file: `STACK_SIZE`,
`PAGE_SIZE`, `sizeof(struct uspace_prog_args_t)` and of its `prog_path` field. -/
structure ArgLayout where
  stackSize : Nat
  pageSize : Nat
  uspaSize : Nat
  progPathLen : Nat
  pageSize_pos : 0 < pageSize

/-- One admissible layout: 4 KiB pages, a 16 KiB stack, a 560-byte record with a 512-byte
`prog_path`. -/
def ArgLayout.sample : ArgLayout := ⟨16384, 4096, 560, 512, by decide⟩

variable (L : ArgLayout)

/-- `PAGE_ALIGN(x)`: `x` rounded up to a multiple of the page size. -/
def pageAlign (x : Int) : Int := (x + L.pageSize - 1) / L.pageSize * L.pageSize

/-- The bytes of the first `n` argument strings with their terminators. -/
def strSizes (args : Nat → List UInt8) (n : Nat) : Int :=
  ((List.range n).map fun j => ((args j).length + 1 : Int)).sum

/-- Models `get_arguments_data_size(args, argc)`: the strings, the `argc + 1` pointers and the
record, summed in 32-bit arithmetic. -/
def getArgumentsDataSize (args : Nat → List UInt8) (argc : Int) : Int :=
  wrap32 (strSizes args argc.toNat + (argc + 1) * 4 + L.uspaSize)

/-- `tot_top_size`: the stack and the page-aligned argument block. -/
def totTopSize (args : Nat → List UInt8) (argc : Int) : Int :=
  wrap32 (L.stackSize + pageAlign L (getArgumentsDataSize L args argc))

/-- The offset of `uargs` from `user_stack_base`: the record `uspa` starts at `STACK_SIZE`. -/
def uargsOff : Int := L.stackSize + L.uspaSize

/-- The number of iterations of `for(cnt = 0; cnt < pargs->argc; cnt++)` with `unsigned int
cnt`: `argc` is compared as an unsigned 32-bit value. -/
def loopCount (argc : Int) : Nat := (argc % 2 ^ 32).toNat

/-- The offset of `udest` at iteration `cnt`: it starts past the `argc + 1` pointers of `uargs`
and moves past each string copied. -/
def udestOff (args : Nat → List UInt8) (argc : Int) (cnt : Nat) : Int :=
  uargsOff L + (argc + 1) * 4 + strSizes args cnt

/-- The bytes above `user_stack_base` that `proc_create_proc2` writes: the record, the `argv`
slots `uargs[cnt]` of the loop and the final `NULL`, and each string `user_strcpy` copies,
with its terminator. `args cnt` is the string `pargs->args[cnt]` points to. -/
def Writes (args : Nat → List UInt8) (argc : Int) (a : Int) : Prop :=
  (L.stackSize ≤ a ∧ a < uargsOff L) ∨
  (∃ cnt ≤ loopCount argc, uargsOff L + 4 * cnt ≤ a ∧ a < uargsOff L + 4 * cnt + 4) ∨
  (∃ cnt < loopCount argc, udestOff L args argc cnt ≤ a ∧
    a < udestOff L args argc cnt + (args cnt).length + 1)

/-- The copy of `sizeof(uspa->prog_path)` bytes from `pargs->path`, a `kstrdup` of the path,
stays within that buffer. -/
def PathReadWithin (path : List UInt8) : Prop := L.progPathLen ≤ path.length + 1

section layout
variable {L} {args : Nat → List UInt8} {argc : Int}

theorem strSizes_succ (n : Nat) : strSizes args (n + 1) = strSizes args n + ((args n).length + 1) := by
  simp [strSizes, List.range_succ]

theorem strSizes_nonneg (n : Nat) : 0 ≤ strSizes args n := by
  induction n with
  | zero => simp [strSizes]
  | succ n ih => rw [strSizes_succ]; omega

theorem strSizes_mono {m n : Nat} (h : m ≤ n) : strSizes args m ≤ strSizes args n := by
  induction h with
  | refl => exact le_rfl
  | step _ ih => rw [strSizes_succ]; omega

theorem le_pageAlign (x : Int) : x ≤ pageAlign L x ∧ pageAlign L x < x + L.pageSize := by
  have hp : (0 : Int) < L.pageSize := by exact_mod_cast L.pageSize_pos
  have h₁ := Int.ediv_mul_le (x + L.pageSize - 1) hp.ne'
  have h₂ := Int.lt_ediv_add_one_mul_self (x + L.pageSize - 1) hp
  rw [Int.add_mul, Int.one_mul] at h₂
  unfold pageAlign
  generalize (x + L.pageSize - 1) / L.pageSize * L.pageSize = y at h₁ h₂ ⊢
  omega

/-- For `0 ≤ argc` with sums that do not wrap, every byte `proc_create_proc2` writes lies in
`[STACK_SIZE, tot_top_size)` above the user stack base. -/
theorem writes_within (h0 : 0 ≤ argc)
    (hsz : L.stackSize + strSizes args argc.toNat + (argc + 1) * 4 + L.uspaSize + L.pageSize < 2 ^ 31) :
    ∀ a, Writes L args argc a → L.stackSize ≤ a ∧ a < totTopSize L args argc := by
  have hs0 : 0 ≤ strSizes args argc.toNat := strSizes_nonneg _
  have hn : (loopCount argc : Int) = argc := by
    rw [loopCount, Int.emod_eq_of_lt h0 (by omega), Int.toNat_of_nonneg h0]
  have hd : getArgumentsDataSize L args argc = strSizes args argc.toNat + (argc + 1) * 4 + L.uspaSize :=
    wrap32_of_mem (by omega) (by omega)
  obtain ⟨hlo, hhi⟩ := le_pageAlign (L := L) (getArgumentsDataSize L args argc)
  have ht : totTopSize L args argc = L.stackSize + pageAlign L (getArgumentsDataSize L args argc) :=
    wrap32_of_mem (by omega) (by omega)
  rw [ht]
  rintro a (⟨h₁, h₂⟩ | ⟨cnt, hc, h₁, h₂⟩ | ⟨cnt, hc, h₁, h₂⟩) <;> simp only [uargsOff] at *
  · omega
  · omega
  · have hm : strSizes args (cnt + 1) ≤ strSizes args argc.toNat := strSizes_mono (by omega)
    rw [strSizes_succ] at hm
    have : 0 ≤ strSizes args cnt := strSizes_nonneg _
    simp only [udestOff, uargsOff] at h₁ h₂
    omega

end layout

theorem writes_within_sample :
    0 ≤ (2 : Int) ∧
      ArgLayout.sample.stackSize + strSizes (fun _ => [0x61]) 2 + ((2 : Int) + 1) * 4 +
        ArgLayout.sample.uspaSize + ArgLayout.sample.pageSize < 2 ^ 31 ∧
      ∀ a, Writes ArgLayout.sample (fun _ => [0x61]) 2 a →
        ArgLayout.sample.stackSize ≤ a ∧ a < totTopSize ArgLayout.sample (fun _ => [0x61]) 2 :=
  ⟨by decide, by decide, writes_within (by decide) (by decide)⟩

/-- `argc` is not checked. With `argc = -1` and `kmalloc(0)` succeeding, `user_copy_arg_list`
writes `largs[-1]`, outside the zero-byte array, and returns `NO_ERROR`. With
`2^30 ≤ argc < 2^31 - 1`, `(argc + 1) * sizeof(char *)` wraps below the array's real size: when the
arguments are readable the call writes `largs[argc]` past the bytes allocated and returns
`NO_ERROR`. The `argc = -1` that passes reaches `proc_create_proc2`, whose loop compares it
unsigned and so writes `uargs` slots past `tot_top_size`; and `prog_path` is filled with
`sizeof(uspa->prog_path)` bytes read from the `kstrdup` of the path, whatever its length. -/
theorem arg_list_unchecked :
    (userCopyArgList (fun _ => true) (fun _ => none) (-1) = ([-1], .ok []) ∧
      argListSize (-1) = 0) ∧
    (∀ argc : Int, 2 ^ 30 ≤ argc → argc < 2 ^ 31 - 1 → argListSize argc < (argc + 1) * 4 ∧
      ∃ st ss, userCopyArgList (fun _ => true) (fun _ => some []) argc = (st, .ok ss) ∧
        ∃ i ∈ st, (argListSize argc : Int) < (i + 1) * 4) ∧
    (∀ (L : ArgLayout) (args : Nat → List UInt8), L.stackSize + L.uspaSize + L.pageSize < 2 ^ 31 →
      ∃ a, Writes L args (-1) a ∧ totTopSize L args (-1) ≤ a) ∧
    ∀ L : ArgLayout, 1 < L.progPathLen → ¬ PathReadWithin L [] := by
  refine ⟨⟨rfl, rfl⟩, fun argc h₁ h₂ => ?_, fun L args hL => ?_, fun L h hr => ?_⟩
  · have hs : (argListSize argc : Int) = (argc + 1) * 4 - 2 ^ 32 := by
      rw [argListSize, Int.toNat_of_nonneg (Int.emod_nonneg _ (by decide))]; omega
    obtain ⟨ss, he⟩ : ∃ ss, userCopyArgList (fun _ => true) (fun _ => some []) argc =
        ((List.range argc.toNat).map (↑) ++ [argc], .ok ss) :=
      userCopyArgList_ok rfl fun _ _ => ⟨[], rfl, rfl⟩
    refine ⟨by omega, _, ss, he, argc, List.mem_append_right _ (List.mem_singleton_self _), by omega⟩
  · have hd : getArgumentsDataSize L args (-1) = L.uspaSize := by
      have h0 : strSizes args (-1 : Int).toNat = 0 := rfl
      rw [getArgumentsDataSize, h0, show (0 : Int) + (-1 + 1) * 4 + L.uspaSize = L.uspaSize by omega]
      exact wrap32_of_mem (by omega) (by omega)
    obtain ⟨hlo, hhi⟩ := le_pageAlign (L := L) L.uspaSize
    have ht : totTopSize L args (-1) = L.stackSize + pageAlign L L.uspaSize := by
      rw [totTopSize, hd]; exact wrap32_of_mem (by omega) (by omega)
    refine ⟨uargsOff L + 4 * L.pageSize, .inr (.inl ⟨L.pageSize, ?_, le_rfl, by omega⟩), ?_⟩
    · simp only [loopCount]; omega
    · rw [ht, uargsOff]; omega
  · unfold PathReadWithin at hr; simp at hr; omega

end ArgCopy
end NewOS
