import NewOS.Basic
import Mathlib.Data.Nat.Find

/-! The death-stack pool of `kernel/thread.c`. An exiting thread cannot free the kernel stack it
runs on, so it borrows one of `num_death_stacks` spare stacks: `sem_acquire` on
`death_stack_sem` reserves one, `get_death_stack` claims the lowest clear bit of
`death_stack_bitmap` under the thread lock, the thread runs `thread_exit2` on that stack, and
`put_death_stack_and_reschedule` clears the bit and releases the semaphore. Any number of
exiting threads interleave these four steps. -/
namespace NewOS
namespace DeathStack

/-- The value `thread_init` gives `num_death_stacks`: one stack per CPU, clamped to the 32 bits
of the `unsigned int` bitmap. -/
def numDeathStacks (ncpus : Nat) : Nat := if ncpus > 32 then 32 else ncpus

/-- The bit-to-number loop of `get_death_stack`: `i` starts at `-1` and counts the right shifts
until the bit is zero. An `unsigned int` is zero after 32 shifts, so `fuel` 32 runs the loop to
its end. -/
def bitToNumber : Nat → BitVec 32 → Int → Int
  | 0, _, i => i
  | fuel + 1, bit, i => if bit = 0 then i else bitToNumber fuel (bit >>> 1) (i + 1)

/-- Models `get_death_stack` after its `sem_acquire`: under the thread lock the lowest clear bit
of the bitmap is computed and set; the sanity checks and the bit-to-number loop follow. -/
def getDeathStack (bitmap : BitVec 32) : Except String (BitVec 32 × Int) :=
  let bit := ~~~bitmap &&& ~~~(~~~bitmap - 1)
  if bit = 0 then .error "get_death_stack: couldn't find free stack!\n"
  else if bit &&& (bit - 1) ≠ 0 then .error "get_death_stack: impossible bitmap result!\n"
  else .ok (bitmap ||| bit, bitToNumber 32 bit (-1))

/-- Models `put_death_stack_and_reschedule(index)` up to its `thread_resched`: the two index
checks, then the bit is cleared under the thread lock (the second check reads the bitmap before
the lock, but only the holder of the index changes its bit). -/
def putDeathStack (N : Nat) (bitmap index : BitVec 32) : Except String (BitVec 32) :=
  if index.toNat ≥ N then .error "put_death_stack: passed invalid stack index %d\n"
  else if bitmap &&& ((1 : BitVec 32) <<< index.toNat) = 0 then
    .error "put_death_stack: passed invalid stack index %d\n"
  else .ok (bitmap &&& ~~~((1 : BitVec 32) <<< index.toNat))

/-- Where an exiting thread stands in its use of the pool. -/
inductive Phase
  /-- before `sem_acquire(death_stack_sem, 1)` -/
  | exiting
  /-- past the semaphore, before the bitmap grab -/
  | acquired
  /-- holding the index `i` that `get_death_stack` returned -/
  | grabbed (i : Int)
  /-- running `thread_exit2` on the stack `args.death_stack`, an `unsigned int` -/
  | running (index : BitVec 32)
  /-- with the stack given back and the thread rescheduled away for good -/
  | gone
  deriving DecidableEq, Repr

namespace Phase

/-- The thread is between its `sem_acquire` and its grab. -/
def isAcquired : Phase → Bool
  | .acquired => true
  | _ => false

/-- The thread holds stack `k`, from the grab to the release. -/
def holds : Phase → Nat → Bool
  | .grabbed i, k => decide (i = k)
  | .running index, k => decide (index.toNat = k)
  | _, _ => false

@[simp] theorem holds_exiting (k : Nat) : exiting.holds k = false := rfl
@[simp] theorem holds_acquired (k : Nat) : acquired.holds k = false := rfl
@[simp] theorem holds_grabbed (i : Int) (k : Nat) : (grabbed i).holds k = decide (i = k) := rfl
@[simp] theorem holds_running (index : BitVec 32) (k : Nat) :
    (running index).holds k = decide (index.toNat = k) := rfl
@[simp] theorem holds_gone (k : Nat) : gone.holds k = false := rfl

end Phase

/-- The pool: the semaphore's count, the bitmap, and the exiting threads. -/
structure Pool where
  sem : Nat
  bitmap : BitVec 32
  threads : List Phase

/-- One step of exiting thread `j` in a pool of `N` stacks. `none`: the thread has no step to
take (it is gone, or blocks in `sem_acquire` on a zero count); an error is a panic. -/
def step (N : Nat) (p : Pool) (j : Nat) : Option (Except String Pool) :=
  match p.threads[j]? with
  | some .exiting =>
    if p.sem = 0 then none
    else some (.ok { p with sem := p.sem - 1, threads := p.threads.set j .acquired })
  | some .acquired =>
    some <| (getDeathStack p.bitmap).map fun r =>
      { p with bitmap := r.1, threads := p.threads.set j (.grabbed r.2) }
  | some (.grabbed i) =>
    some (.ok { p with threads := p.threads.set j (.running (BitVec.ofInt 32 i)) })
  | some (.running index) =>
    some <| (putDeathStack N p.bitmap index).map fun b =>
      { p with bitmap := b, sem := p.sem + 1, threads := p.threads.set j .gone }
  | some .gone | none => none

/-- The pool `thread_init` leaves, with `n` threads that will exit. -/
def init (N n : Nat) : Pool := ⟨N, 0, List.replicate n .exiting⟩

/-- The pools reachable from `thread_init`'s by any interleaving of the threads' steps. -/
inductive Reachable (N : Nat) : Pool → Prop
  | init (n : Nat) : Reachable N (init N n)
  | step {p p' : Pool} {j : Nat} (reach : Reachable N p) (hstep : step N p j = some (.ok p')) :
      Reachable N p'

/-! ## Counting set bits -/

/-- The number of set bits among the lowest `n` of `w`. -/
def popcountBelow (w : BitVec 32) : Nat → Nat
  | 0 => 0
  | n + 1 => popcountBelow w n + (w.getLsbD n).toNat

/-- The number of set bits of `w`. -/
def popcount (w : BitVec 32) : Nat := popcountBelow w 32

section popcount
variable {w w' : BitVec 32} {n k : Nat}

theorem popcountBelow_zero (n : Nat) : popcountBelow 0 n = 0 := by
  induction n with
  | zero => rfl
  | succ n ih => rw [popcountBelow, ih]; simp

theorem popcountBelow_congr (h : ∀ j < n, w'.getLsbD j = w.getLsbD j) :
    popcountBelow w' n = popcountBelow w n := by
  induction n with
  | zero => rfl
  | succ n ih => simp only [popcountBelow, ih fun j hj => h j (by omega), h n (by omega)]

/-- With its lowest `m` bits set, `w` has at least `m` set bits below any `n ≥ m`. -/
theorem le_popcountBelow {m : Nat} (h : ∀ j < m, w.getLsbD j = true) (hmn : m ≤ n) :
    m ≤ popcountBelow w n := by
  induction n generalizing m with
  | zero => omega
  | succ n ih =>
    simp only [popcountBelow]
    by_cases hm : m ≤ n
    · have := ih h hm; omega
    · have := ih (m := n) (fun j hj => h j (by omega)) (Nat.le_refl n)
      rw [h n (by omega)]; simp only [Bool.toNat_true]; omega

/-- Setting one clear bit below `n` adds one set bit below `n`. -/
theorem popcountBelow_flip (hk : k < n) (h0 : w.getLsbD k = false) (h1 : w'.getLsbD k = true)
    (h : ∀ j, j ≠ k → w'.getLsbD j = w.getLsbD j) : popcountBelow w' n = popcountBelow w n + 1 := by
  induction n with
  | zero => omega
  | succ n ih =>
    simp only [popcountBelow]
    by_cases hkn : k = n
    · subst hkn
      rw [popcountBelow_congr fun j hj => h j (by omega), h0, h1]; rfl
    · rw [ih (by omega), h n (Ne.symm hkn)]; omega

end popcount

/-! ## The bit trick -/

section bits
variable {w : BitVec 32} {k : Nat}

/-- Subtracting one from a number whose lowest set bit is `k` flips exactly its bits `0..k`, so
the number and the complement of its predecessor share bit `k` alone. -/
theorem testBit_and_not_pred (q k j : Nat) :
    ((2 ^ (k + 1) * q + 2 ^ k).testBit j && !(2 ^ (k + 1) * q + 2 ^ k - 1).testBit j) =
      decide (j = k) := by
  have hk : 2 ^ k < 2 ^ (k + 1) := Nat.pow_lt_pow_succ (by decide)
  have h1 : 1 ≤ 2 ^ k := Nat.one_le_two_pow
  rw [show 2 ^ (k + 1) * q + 2 ^ k - 1 = 2 ^ (k + 1) * q + (2 ^ k - 1) by omega,
    Nat.testBit_mul_pow_two_add _ hk, Nat.testBit_mul_pow_two_add _ (by omega)]
  split_ifs with hj
  · rcases Nat.lt_or_ge j k with hjk | hjk
    · simp [Nat.testBit_two_pow, hjk]; omega
    · simp [Nat.testBit_two_pow, show j = k by omega]
  · simp; omega

/-- The bit trick of `get_death_stack`: `(~w) & ~((~w) - 1)` is the lowest clear bit of `w`. -/
theorem lowestClear_eq (hk : k < 32) (h0 : w.getLsbD k = false)
    (hlow : ∀ j < k, w.getLsbD j = true) : ~~~w &&& ~~~(~~~w - 1) = BitVec.twoPow 32 k := by
  have hx : (~~~w).toNat % 2 ^ (k + 1) = 2 ^ k := by
    apply Nat.eq_of_testBit_eq; intro j
    rw [Nat.testBit_mod_two_pow, BitVec.testBit_toNat, BitVec.getLsbD_not, Nat.testBit_two_pow]
    rcases Nat.lt_trichotomy j k with hj | rfl | hj
    · simp [hlow j hj]; omega
    · simp [h0, hk]
    · simp [show ¬ j < k + 1 by omega, show k ≠ j by omega]
  obtain ⟨q, hq⟩ : ∃ q, (~~~w).toNat = 2 ^ (k + 1) * q + 2 ^ k :=
    ⟨_, by rw [← hx]; exact (Nat.div_add_mod _ _).symm⟩
  have hsub : (~~~w - 1).toNat = (~~~w).toNat - 1 := by
    have := Nat.mod_le (~~~w).toNat (2 ^ (k + 1))
    have := (~~~w).isLt
    have := Nat.one_le_two_pow (n := k)
    rw [BitVec.toNat_sub, show (1 : BitVec 32).toNat = 1 from rfl]; omega
  ext i
  rw [BitVec.getLsbD_and, BitVec.getLsbD_not (x := ~~~w - 1), ← BitVec.testBit_toNat,
    ← BitVec.testBit_toNat, hsub, hq, BitVec.getLsbD_twoPow]
  have := testBit_and_not_pred q k i
  simp only [i.isLt, decide_True, Bool.true_and, hk] at this ⊢
  rw [this]; simp [eq_comm]

theorem twoPow_ne_zero (hk : k < 32) : BitVec.twoPow 32 k ≠ 0 := by
  intro h
  have := congrArg (BitVec.getLsbD · k) h
  simp [BitVec.getLsbD_twoPow, hk] at this

theorem twoPow_and_pred (hk : k < 32) : BitVec.twoPow 32 k &&& (BitVec.twoPow 32 k - 1) = 0 := by
  have hlt : 2 ^ k < 2 ^ 32 := Nat.pow_lt_pow_of_lt (by decide) hk
  have := Nat.one_le_two_pow (n := k)
  apply BitVec.eq_of_toNat_eq
  rw [BitVec.toNat_and, BitVec.toNat_sub, BitVec.toNat_twoPow, Nat.mod_eq_of_lt hlt,
    show (1 : BitVec 32).toNat = 1 from rfl,
    show (2 ^ 32 - 1 + 2 ^ k) % 2 ^ 32 = 2 ^ k - 1 by omega,
    Nat.and_pow_two_sub_one_eq_mod, Nat.mod_self]; rfl

theorem twoPow_ushiftRight_one (hk : k + 1 < 32) :
    BitVec.twoPow 32 (k + 1) >>> 1 = BitVec.twoPow 32 k := by
  ext i
  simp only [BitVec.getLsbD_ushiftRight, BitVec.getLsbD_twoPow]
  simp [hk, show k < 32 by omega]; omega

/-- The bit-to-number loop maps bit `k` to `k`, given `k + 1` rounds. -/
theorem bitToNumber_twoPow {fuel : Nat} (hk : k < 32) (hf : k < fuel) (i : Int) :
    bitToNumber fuel (BitVec.twoPow 32 k) i = i + k + 1 := by
  induction k generalizing fuel i with
  | zero =>
    obtain ⟨f, rfl⟩ : ∃ f, fuel = f + 1 := ⟨fuel - 1, by omega⟩
    rw [bitToNumber, if_neg (twoPow_ne_zero hk), show BitVec.twoPow 32 0 >>> 1 = 0 by decide]
    cases f <;> simp [bitToNumber]
  | succ k ih =>
    obtain ⟨f, rfl⟩ : ∃ f, fuel = f + 1 := ⟨fuel - 1, by omega⟩
    rw [bitToNumber, if_neg (twoPow_ne_zero hk), twoPow_ushiftRight_one hk,
      ih (by omega) (by omega)]
    omega

/-- With bit `k` the lowest clear bit, `get_death_stack` sets it and returns `k`. -/
theorem getDeathStack_eq (hk : k < 32) (h0 : w.getLsbD k = false)
    (hlow : ∀ j < k, w.getLsbD j = true) :
    getDeathStack w = .ok (w ||| BitVec.twoPow 32 k, k) := by
  simp only [getDeathStack, lowestClear_eq hk h0 hlow, if_neg (twoPow_ne_zero hk),
    twoPow_and_pred hk, ne_eq, not_true_eq_false, if_false, bitToNumber_twoPow hk hk]
  congr 2; omega

/-- A bitmap with a clear bit has a lowest one. -/
theorem exists_lowestClear (h : w ≠ BitVec.allOnes 32) :
    ∃ k < 32, w.getLsbD k = false ∧ ∀ j < k, w.getLsbD j = true := by
  have hex : ∃ k, k < 32 ∧ w.getLsbD k = false := by
    by_contra hall
    refine h (BitVec.eq_of_getLsbD_eq fun i => ?_)
    rw [BitVec.getLsbD_allOnes]
    simpa [i.isLt] using not_and.1 (not_exists.1 hall i) i.isLt
  obtain ⟨hk, h0⟩ := Nat.find_spec hex
  exact ⟨_, hk, h0, fun j hj => by simpa [show j < 32 by omega] using Nat.find_min hex hj⟩

/-- The bit isolation and the bit-to-number loop of `get_death_stack`, for every bitmap: the
isolated bit is zero exactly for a full bitmap; otherwise it is bit `k`, the lowest clear bit of
the bitmap, and the loop stops after `k + 1` shifts with `i = k`, whatever bound is put on its
rounds beyond that. With fewer than `N` bits set, `k < N`. -/
theorem lowestClear_bit (w : BitVec 32) :
    (~~~w &&& ~~~(~~~w - 1) = 0 ↔ w = BitVec.allOnes 32) ∧
    (w ≠ BitVec.allOnes 32 → ∃ k < 32, w.getLsbD k = false ∧ ∀ j < k, w.getLsbD j = true) ∧
    ∀ k < 32, w.getLsbD k = false → (∀ j < k, w.getLsbD j = true) →
      ~~~w &&& ~~~(~~~w - 1) = BitVec.twoPow 32 k ∧
      (∀ fuel, k < fuel → bitToNumber fuel (~~~w &&& ~~~(~~~w - 1)) (-1) = k) ∧
      ∀ N, popcount w < N → k < N := by
  refine ⟨⟨fun hb => ?_, fun hw => by subst hw; decide⟩, exists_lowestClear, fun k hk h0 hlow => ?_⟩
  · by_contra hw
    obtain ⟨k, hk, h0, hlow⟩ := exists_lowestClear hw
    exact twoPow_ne_zero hk (lowestClear_eq hk h0 hlow ▸ hb)
  · refine ⟨lowestClear_eq hk h0 hlow, fun fuel hf => ?_, fun N hN => ?_⟩
    · rw [lowestClear_eq hk h0 hlow, bitToNumber_twoPow hk hf]; omega
    · by_contra hkN
      have := le_popcountBelow (n := 32) (m := N) (fun j hj => hlow j (by omega)) (by omega)
      unfold popcount at hN; omega

end bits

/-! ## The pool's invariant -/

section inv
variable {N : Nat} {p : Pool} {j k : Nat}

/-- A step of thread `j` changes the count of a predicate over the threads by what it changes for
that thread. -/
theorem countP_set_add {l : List Phase} {old : Phase} (hj : l[j]? = some old) (new : Phase)
    (f : Phase → Bool) : (l.set j new).countP f + (f old).toNat = l.countP f + (f new).toNat := by
  obtain ⟨hlt, rfl⟩ := List.getElem?_eq_some_iff.1 hj
  have := List.boole_getElem_le_countP f l j hlt
  rw [List.countP_set f l j new hlt]
  generalize f l[j] = b at this ⊢
  cases b <;> cases f new <;>
    simp only [Bool.false_eq_true, if_false, if_true, Bool.toNat_true, Bool.toNat_false] at this ⊢ <;>
    omega

theorem countP_set_eq {l : List Phase} {old : Phase} (hj : l[j]? = some old) (new : Phase)
    {f : Phase → Bool} (hf : f new = f old) : (l.set j new).countP f = l.countP f := by
  have := countP_set_add hj new f; rw [hf] at this; omega

/-- The invariant of a pool of `N` stacks: the count, the bits each held by one thread, and the
indices the threads hold below `N`. -/
structure Inv (N : Nat) (p : Pool) : Prop where
  count : p.sem + popcount p.bitmap + p.threads.countP Phase.isAcquired = N
  bit : ∀ k, p.bitmap.getLsbD k = true ↔ p.threads.countP (·.holds k) = 1
  atMostOne : ∀ k, p.threads.countP (·.holds k) ≤ 1
  grabbed_lt : ∀ i, Phase.grabbed i ∈ p.threads → 0 ≤ i ∧ i < N
  running_lt : ∀ index, Phase.running index ∈ p.threads → index.toNat < N

theorem inv_init (N n : Nat) : Inv N (init N n) where
  count := by simp only [init, popcount, popcountBelow_zero]; simp [Phase.isAcquired]
  bit k := by simp [init, List.countP_replicate]
  atMostOne k := by simp [init, List.countP_replicate]
  grabbed_lt i hi := by simp [init] at hi
  running_lt _ hi := by simp [init] at hi

namespace Inv

/-- A thread past the semaphore finds a clear bit below `N`: the set bits are at most the
stacks the semaphore has not handed out. -/
theorem exists_clear (h : Inv N p) (hN : N ≤ 32) (hj : p.threads[j]? = some .acquired) :
    ∃ k, k < N ∧ p.bitmap.getLsbD k = false := by
  by_contra hall
  have h1 : N ≤ popcount p.bitmap :=
    le_popcountBelow (fun k hk => by simpa using not_and.1 (not_exists.1 hall k) hk) hN
  have h2 : 0 < p.threads.countP Phase.isAcquired :=
    List.countP_pos_iff.2 ⟨_, List.getElem?_mem hj, rfl⟩
  have := h.count; omega

/-- `get_death_stack` claims the lowest clear bit, which lies below `N`. -/
theorem getDeathStack_ok (h : Inv N p) (hN : N ≤ 32) (hj : p.threads[j]? = some .acquired) :
    ∃ k < N, p.bitmap.getLsbD k = false ∧
      getDeathStack p.bitmap = .ok (p.bitmap ||| BitVec.twoPow 32 k, k) := by
  have hex := h.exists_clear hN hj
  obtain ⟨hk, h0⟩ := Nat.find_spec hex
  have hlow : ∀ i < Nat.find hex, p.bitmap.getLsbD i = true := fun i hi => by
    simpa [show i < N by omega] using Nat.find_min hex hi
  exact ⟨_, hk, h0, getDeathStack_eq (by omega) h0 hlow⟩

/-- `put_death_stack_and_reschedule` passes both checks for the stack its thread holds. -/
theorem putDeathStack_ok {index : BitVec 32} (h : Inv N p) (hN : N ≤ 32)
    (hj : p.threads[j]? = some (.running index)) :
    putDeathStack N p.bitmap index = .ok (p.bitmap &&& ~~~(BitVec.twoPow 32 index.toNat)) := by
  have hlt := h.running_lt index (List.getElem?_mem hj)
  have hpos : p.threads.countP (·.holds index.toNat) ≠ 0 :=
    Nat.pos_iff_ne_zero.1 (List.countP_pos_iff.2 ⟨_, List.getElem?_mem hj, by simp [Phase.holds]⟩)
  have hb : p.bitmap.getLsbD index.toNat = true :=
    (h.bit _).2 (by have := h.atMostOne index.toNat; omega)
  have hne : p.bitmap &&& BitVec.twoPow 32 index.toNat ≠ 0 := fun h0 => by
    have := congrArg (BitVec.getLsbD · index.toNat) h0
    simp [BitVec.getLsbD_twoPow, hb] at this; omega
  simp only [putDeathStack, if_neg (Nat.not_le.2 hlt)]
  exact if_neg hne

theorem acquire (h : Inv N p) (hj : p.threads[j]? = some .exiting) (hs : p.sem ≠ 0) :
    Inv N { p with sem := p.sem - 1, threads := p.threads.set j .acquired } where
  count := by
    have := countP_set_add hj .acquired Phase.isAcquired
    have := h.count
    simp only [Phase.isAcquired, Bool.toNat_false, Bool.toNat_true] at *
    omega
  bit k := by dsimp only; rw [countP_set_eq hj .acquired (f := (·.holds k)) rfl]; exact h.bit k
  atMostOne k := by
    dsimp only; rw [countP_set_eq hj .acquired (f := (·.holds k)) rfl]; exact h.atMostOne k
  grabbed_lt i hi := (List.mem_or_eq_of_mem_set hi).elim (h.grabbed_lt i) (by simp)
  running_lt i hi := (List.mem_or_eq_of_mem_set hi).elim (h.running_lt i) (by simp)

theorem grab (h : Inv N p) (hj : p.threads[j]? = some .acquired) (hkN : k < N) (hN : N ≤ 32)
    (h0 : p.bitmap.getLsbD k = false) :
    Inv N { p with bitmap := p.bitmap ||| BitVec.twoPow 32 k,
                   threads := p.threads.set j (.grabbed k) } := by
  have hc : ∀ i, (p.threads.set j (.grabbed k)).countP (·.holds i) =
      p.threads.countP (·.holds i) + (decide (i = k)).toNat := fun i => by
    have := countP_set_add hj (.grabbed k) (·.holds i)
    simp only [Phase.holds_acquired, Phase.holds_grabbed, Bool.toNat_false, Nat.add_zero] at this
    rw [this]; congr 2; exact decide_eq_decide.2 (by omega)
  have hbit : ∀ i, (p.bitmap ||| BitVec.twoPow 32 k).getLsbD i =
      (p.bitmap.getLsbD i || decide (i = k)) := fun i => by
    simp only [BitVec.getLsbD_or, BitVec.getLsbD_twoPow, show k < 32 by omega, decide_True,
      Bool.true_and]
    congr 1; exact decide_eq_decide.2 eq_comm
  have hk0 : p.threads.countP (·.holds k) = 0 := by
    have := h.atMostOne k; have := h.bit k; rw [h0] at this; simp at this; omega
  refine ⟨?_, fun i => ?_, fun i => ?_, fun i hi => ?_, fun i hi => ?_⟩
  · have h1 := countP_set_add hj (.grabbed k) Phase.isAcquired
    have h2 : popcount (p.bitmap ||| BitVec.twoPow 32 k) = popcount p.bitmap + 1 :=
      popcountBelow_flip (by omega) h0 (by simp [hbit]) fun i hi => by simp [hbit, hi]
    have := h.count
    simp only [Phase.isAcquired, Bool.toNat_false, Bool.toNat_true] at h1
    dsimp only; omega
  · dsimp only; rw [hc, hbit]
    by_cases hik : i = k
    · subst hik; simp [hk0]
    · simp [hik, h.bit i]
  · dsimp only; rw [hc]
    by_cases hik : i = k
    · subst hik; simp [hk0]
    · simpa [hik] using h.atMostOne i
  · exact (List.mem_or_eq_of_mem_set hi).elim (h.grabbed_lt i) (by rintro ⟨⟩; omega)
  · exact (List.mem_or_eq_of_mem_set hi).elim (h.running_lt i) (by simp)

theorem run {i : Int} (h : Inv N p) (hj : p.threads[j]? = some (.grabbed i)) (hN : N ≤ 32) :
    Inv N { p with threads := p.threads.set j (.running (BitVec.ofInt 32 i)) } := by
  have hi := h.grabbed_lt i (List.getElem?_mem hj)
  have hholds : ∀ k, (Phase.running (BitVec.ofInt 32 i)).holds k = (Phase.grabbed i).holds k :=
    fun k => by simp only [Phase.holds, BitVec.toNat_ofInt]; congr 1; apply propext; omega
  exact {
    count := by
      dsimp only
      rw [countP_set_eq hj (.running (BitVec.ofInt 32 i)) (f := Phase.isAcquired) rfl]
      exact h.count
    bit := fun k => by rw [countP_set_eq hj _ (hholds k)]; exact h.bit k
    atMostOne := fun k => by rw [countP_set_eq hj _ (hholds k)]; exact h.atMostOne k
    grabbed_lt := fun i' hi' => (List.mem_or_eq_of_mem_set hi').elim (h.grabbed_lt i') (by simp)
    running_lt := fun i' hi' => (List.mem_or_eq_of_mem_set hi').elim (h.running_lt i')
      (by rintro ⟨⟩; simp only [BitVec.toNat_ofInt]; omega) }

theorem release {index : BitVec 32} (h : Inv N p) (hN : N ≤ 32)
    (hj : p.threads[j]? = some (.running index)) :
    Inv N { p with bitmap := p.bitmap &&& ~~~(BitVec.twoPow 32 index.toNat), sem := p.sem + 1,
                   threads := p.threads.set j .gone } := by
  have hkN : index.toNat < N := h.running_lt index (List.getElem?_mem hj)
  generalize hk : index.toNat = k at hkN ⊢
  have hc : ∀ i, (p.threads.set j .gone).countP (·.holds i) + (decide (i = k)).toNat =
      p.threads.countP (·.holds i) := fun i => by
    have := countP_set_add hj .gone (·.holds i)
    simp only [Phase.holds_gone, Phase.holds_running, Bool.toNat_false, Nat.add_zero, hk] at this
    rw [← this]; congr 2; exact decide_eq_decide.2 eq_comm
  have hbit : ∀ i, (p.bitmap &&& ~~~(BitVec.twoPow 32 k)).getLsbD i =
      (p.bitmap.getLsbD i && !decide (i = k)) := fun i => by
    by_cases hi : i < 32
    · simp [BitVec.getLsbD_twoPow, hi, show k < 32 by omega, eq_comm]
    · rw [BitVec.getLsbD_ge _ i (by omega : 32 ≤ i), BitVec.getLsbD_ge p.bitmap i (by omega)]; rfl
  have hk1 : p.threads.countP (·.holds k) = 1 := by
    have h1 := hc k
    simp only [decide_True, Bool.toNat_true] at h1
    have := h.atMostOne k; omega
  refine ⟨?_, fun i => ?_, fun i => ?_, fun i hi => ?_, fun i hi => ?_⟩
  · have h1 := countP_set_eq hj .gone (f := Phase.isAcquired) rfl
    have h2 : popcount p.bitmap = popcount (p.bitmap &&& ~~~(BitVec.twoPow 32 k)) + 1 :=
      popcountBelow_flip (by omega) (by simp [hbit]) ((h.bit k).2 hk1)
        fun i hi => by simp [hbit, hi]
    have := h.count
    dsimp only; omega
  · have h1 := hc i
    dsimp only; rw [hbit]
    by_cases hik : i = k
    · subst hik
      simp only [decide_True, Bool.toNat_true, Bool.not_true, Bool.and_false] at h1 ⊢
      have := h.atMostOne i; simp only [Bool.false_eq_true, false_iff]; omega
    · simp only [hik, decide_False, Bool.toNat_false, Nat.add_zero, Bool.not_false,
        Bool.and_true] at h1 ⊢
      rw [h1]; exact h.bit i
  · have := hc i; have := h.atMostOne i; dsimp only; omega
  · exact (List.mem_or_eq_of_mem_set hi).elim (h.grabbed_lt i) (by simp)
  · exact (List.mem_or_eq_of_mem_set hi).elim (h.running_lt i) (by simp)

/-- Every step from a pool that keeps the invariant succeeds, and keeps it. -/
theorem step_ok (h : Inv N p) (hN : N ≤ 32) {r : Except String Pool} (hs : step N p j = some r) :
    ∃ p', r = .ok p' ∧ Inv N p' := by
  unfold step at hs
  split at hs
  · rename_i hj
    split_ifs at hs with h0
    cases hs; exact ⟨_, rfl, h.acquire hj h0⟩
  · rename_i hj
    obtain ⟨k, hk, h0, hg⟩ := h.getDeathStack_ok hN hj
    rw [hg] at hs; cases hs; exact ⟨_, rfl, h.grab hj hk hN h0⟩
  · rename_i hj
    cases hs; exact ⟨_, rfl, h.run hj hN⟩
  · rename_i hj
    rw [h.putDeathStack_ok hN hj] at hs; cases hs; exact ⟨_, rfl, h.release hN hj⟩
  all_goals cases hs

end Inv

theorem inv_of_reachable (hN : N ≤ 32) (hp : Reachable N p) : Inv N p := by
  induction hp with
  | init n => exact inv_init N n
  | step _ hs ih =>
    obtain ⟨_, he, h'⟩ := ih.step_ok hN hs
    cases he; exact h'

end inv

/-- What holds of a pool of `N` stacks: the semaphore's count, the set bits and the threads
between the semaphore and the grab add up to `N`; a bit is set exactly when one thread holds its
index; `get_death_stack` hands a thread past the semaphore an index below `N`; no two threads
hold one index; and no step panics. -/
def PoolSafe (N : Nat) (p : Pool) : Prop :=
  p.sem + popcount p.bitmap + p.threads.countP Phase.isAcquired = N ∧
  (∀ k, p.bitmap.getLsbD k = true ↔ p.threads.countP (·.holds k) = 1) ∧
  (∀ j : Nat, p.threads[j]? = some .acquired →
    ∃ bitmap i, getDeathStack p.bitmap = .ok (bitmap, i) ∧ 0 ≤ i ∧ i < N) ∧
  (∀ k, p.threads.countP (·.holds k) ≤ 1) ∧
  ∀ (j : Nat) (e : String), step N p j ≠ some (.error e)

theorem deathStack_pool_safe {N : Nat} {p : Pool} (hN : N ≤ 32) (hp : Reachable N p) :
    PoolSafe N p := by
  have h := inv_of_reachable hN hp
  refine ⟨h.count, h.bit, fun j hj => ?_, h.atMostOne, fun j e hs => ?_⟩
  · obtain ⟨k, hk, -, hg⟩ := h.getDeathStack_ok hN hj
    exact ⟨_, _, hg, by omega, by omega⟩
  · obtain ⟨_, he, -⟩ := h.step_ok hN hs
    cases he

theorem deathStack_pool_safe_two_grabbed :
    Reachable (numDeathStacks 2) ⟨0, 3, [.running 0, .grabbed 1, .exiting]⟩ ∧
      PoolSafe (numDeathStacks 2) ⟨0, 3, [.running 0, .grabbed 1, .exiting]⟩ := by
  have hp : Reachable (numDeathStacks 2) ⟨0, 3, [.running 0, .grabbed 1, .exiting]⟩ :=
    (((((Reachable.init (N := numDeathStacks 2) 3).step (j := 0) rfl).step (j := 1) rfl).step
      (j := 0) rfl).step (j := 1) rfl).step (j := 0) rfl
  exact ⟨hp, deathStack_pool_safe (by decide) hp⟩

end DeathStack
end NewOS
