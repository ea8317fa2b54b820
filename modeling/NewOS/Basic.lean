import Mathlib.Logic.Function.Basic
import Mathlib.Order.Basic
import Mathlib.Tactic.Common
import Mathlib.Algebra.Group.Int
import Mathlib.Algebra.Group.Nat.Basic

/-! Enumerations, error sentinels and constants shared by the thread and process subsystem of
`kernel/thread.c`. The priority constants live in `kernel/thread.h`, which is not in the
source tree: they are parameters here, with the band layout that `thread_resched`'s two scan
loops and the clamps of `thread_set_priority` presuppose. -/
namespace NewOS

/-- The values of `THREAD_STATE_*`. -/
inductive ThreadState
  | birth | ready | running | waiting | suspended | freeOnResched
  deriving DecidableEq, Repr

/-- The values of `PROC_STATE_*`. -/
inductive ProcState
  | birth | normal | death
  deriving DecidableEq, Repr

/-- The values `KERNEL_TIME` and `USER_TIME`: the bucket a thread's running time is credited to. -/
inductive TimeType
  | kernel | user
  deriving DecidableEq, Repr

/-- The error sentinels of `newos/errors.h` that the modelled code returns. -/
inductive KernErr
  | noMemory | invalidArgs | invalidHandle | notFound | taskProcDeleted
  | netNoRoute | netBadPacket | semDeleted | vmBadUserMemory | noMoreHandles
  deriving DecidableEq, Repr

/-- The priority constants of `kernel/thread.h`: `THREAD_IDLE_PRIORITY`, the regular band
`THREAD_MIN_PRIORITY..THREAD_MAX_PRIORITY`, the real-time band
`THREAD_MIN_RT_PRIORITY..THREAD_MAX_RT_PRIORITY` above it, `THREAD_NUM_PRIORITY_LEVELS` run
queues, and the two named priorities the file uses. -/
structure Priorities where
  idle : Int
  min : Int
  max : Int
  minRT : Int
  maxRT : Int
  levels : Nat
  medium : Int
  high : Int
  idle_nonneg : 0 ≤ idle
  idle_lt_min : idle < min
  min_le_max : min ≤ max
  max_lt_minRT : max < minRT
  minRT_le_maxRT : minRT ≤ maxRT
  maxRT_lt_levels : maxRT < levels
  medium_mem : min ≤ medium ∧ medium ≤ max
  high_mem : min ≤ high ∧ high ≤ max

/-- One admissible assignment: 64 levels, the top 16 real-time, idle at 0. -/
def Priorities.sample : Priorities where
  idle := 0
  min := 1
  max := 47
  minRT := 48
  maxRT := 63
  levels := 64
  medium := 24
  high := 36
  idle_nonneg := by decide
  idle_lt_min := by decide
  min_le_max := by decide
  max_lt_minRT := by decide
  minRT_le_maxRT := by decide
  maxRT_lt_levels := by decide
  medium_mem := by decide
  high_mem := by decide

/-- A C `int` after an addition that may overflow: the 32-bit two's-complement wrap. -/
def wrap32 (x : Int) : Int := (x + 2 ^ 31) % 2 ^ 32 - 2 ^ 31

/-- Models `atomic_add(&v, d)`: the value before the addition, and the stored sum. -/
def atomicAdd (v d : Int) : Int × Int := (v, wrap32 (v + d))

theorem wrap32_of_mem {x : Int} (lo : -2 ^ 31 ≤ x) (hi : x < 2 ^ 31) : wrap32 x = x := by
  unfold wrap32; omega

/-- Adding after a wrap is wrapping after the addition: a counter bumped by `atomic_add` holds
its start plus the number of bumps, wrapped. -/
theorem wrap32_add_one (x : Int) : wrap32 (wrap32 x + 1) = wrap32 (x + 1) := by
  unfold wrap32; omega

theorem wrap32_add_wrap32 (x n : Int) : wrap32 (wrap32 x + n) = wrap32 (x + n) := by
  unfold wrap32; omega

end NewOS
