import NewOS.Thread.Consistency

/-! # Time accounting

`thread_context_switch` credits the outgoing thread's current bucket (`kernel_time` or
`user_time`, as `last_time_type` names it) with `now - last_time` and starts the incoming
thread's clock; `thread_atkernel_entry` and `thread_atkernel_exit` move a thread's clock from one
bucket to the other; a new thread's first code, its kentry trampoline, restarts its clock with
`t->last_time = system_time()` after it has restored interrupts. The system is modelled with these
events as steps beside the kernel's, over a clock that never goes back, and with ghost fields that
add up each thread's time as the current thread of a CPU. -/
namespace NewOS
open Function

/-- The time-accounting fields of the thread records and the current thread of each CPU. -/
structure Clocks where
  userTime : Nat → Int
  kernelTime : Nat → Int
  lastTime : Nat → Int
  lastTimeType : Nat → TimeType
  current : Nat → Nat

namespace Clocks
variable (x : Clocks) (t : Nat) (now : Int)

/-- The time thread `t` has been credited with, in both buckets. -/
def used : Int := x.userTime t + x.kernelTime t

/-- The credit `thread_context_switch` makes: `now - last_time` to the bucket `last_time_type`
names. -/
def credit : Clocks :=
  match x.lastTimeType t with
  | .kernel => { x with kernelTime := update x.kernelTime t (x.kernelTime t + (now - x.lastTime t)) }
  | .user => { x with userTime := update x.userTime t (x.userTime t + (now - x.lastTime t)) }

/-- The bookkeeping of `thread_context_switch` on CPU `c`: `old` is credited, `new` starts its
clock and runs. -/
def switch (c old new : Nat) (now : Int) : Clocks :=
  let y := x.credit old now
  { y with lastTime := update y.lastTime new now, current := update y.current c new }

/-- The clearing of record `r`'s clocks by `create_thread_struct`. -/
def reset (r : Nat) : Clocks :=
  { x with userTime := update x.userTime r 0, kernelTime := update x.kernelTime r 0,
           lastTime := update x.lastTime r 0, lastTimeType := update x.lastTimeType r .kernel }

/-- Thread `t`'s clock restarted at `v`, for the bucket `ty`. -/
def stamp (v : Int) (ty : TimeType) : Clocks :=
  { x with lastTime := update x.lastTime t v, lastTimeType := update x.lastTimeType t ty }

/-- Thread `t`'s buckets went from `x` to `x'` by a credit of `d` to the bucket that its
`last_time_type` names in `x`. -/
def Credits (x x' : Clocks) (t : Nat) (d : Int) : Prop :=
  x'.userTime t = x.userTime t + (if x.lastTimeType t = .user then d else 0) ∧
    x'.kernelTime t = x.kernelTime t + (if x.lastTimeType t = .kernel then d else 0)

variable {x t now} {u : Nat}

@[simp] theorem credit_lastTime : (x.credit t now).lastTime = x.lastTime := by
  unfold credit; cases x.lastTimeType t <;> rfl
@[simp] theorem credit_lastTimeType : (x.credit t now).lastTimeType = x.lastTimeType := by
  unfold credit; cases x.lastTimeType t <;> rfl
@[simp] theorem credit_current : (x.credit t now).current = x.current := by
  unfold credit; cases x.lastTimeType t <;> rfl

theorem credits_credit :
    Credits x (x.credit t now) u (if u = t then now - x.lastTime t else 0) := by
  unfold Credits credit
  by_cases hu : u = t
  · subst hu; cases h : x.lastTimeType u <;> simp [h]
  · cases x.lastTimeType t <;> simp [update_noteq hu, hu]

theorem credits_of_eq {x' : Clocks} (hu : x'.userTime t = x.userTime t)
    (hk : x'.kernelTime t = x.kernelTime t) : Credits x x' t 0 := by
  simp [Credits, hu, hk]

theorem credits_of_clocks_eq {x' : Clocks} (h : x' = x) : Credits x x' t 0 :=
  h ▸ credits_of_eq rfl rfl

theorem Credits.used_eq {x' : Clocks} {d : Int} (h : Credits x x' t d) : x'.used t = x.used t + d := by
  unfold used; rw [h.1, h.2]
  cases x.lastTimeType t <;> simp <;> omega

theorem used_credit : (x.credit t now).used u = x.used u + if u = t then now - x.lastTime t else 0 :=
  credits_credit.used_eq

@[simp] theorem switch_lastTime {c old new : Nat} :
    (x.switch c old new now).lastTime = update x.lastTime new now := by simp [switch]
@[simp] theorem switch_lastTimeType {c old new : Nat} :
    (x.switch c old new now).lastTimeType = x.lastTimeType := by simp [switch]
@[simp] theorem switch_current {c old new : Nat} :
    (x.switch c old new now).current = update x.current c new := by simp [switch]
theorem used_switch {c old new : Nat} :
    (x.switch c old new now).used u = x.used u + if u = old then now - x.lastTime old else 0 :=
  used_credit

@[simp] theorem reset_lastTime {r : Nat} : (x.reset r).lastTime = update x.lastTime r 0 := rfl
@[simp] theorem reset_lastTimeType {r : Nat} :
    (x.reset r).lastTimeType = update x.lastTimeType r .kernel := rfl
@[simp] theorem reset_current {r : Nat} : (x.reset r).current = x.current := rfl
theorem used_reset {r : Nat} : (x.reset r).used u = if u = r then 0 else x.used u := by
  by_cases hu : u = r <;> simp [reset, used, hu]

theorem credits_switch {c old new : Nat} :
    Credits x (x.switch c old new now) u (if u = old then now - x.lastTime old else 0) :=
  credits_credit

@[simp] theorem stamp_current {v : Int} {ty : TimeType} : (x.stamp t v ty).current = x.current := rfl
@[simp] theorem stamp_lastTime {v : Int} {ty : TimeType} :
    (x.stamp t v ty).lastTime = update x.lastTime t v := rfl
theorem used_stamp {v : Int} {ty : TimeType} : (x.stamp t v ty).used = x.used := rfl

/-- A credit of `now - last_time` to thread `t` alone, from a `last_time` no later than `now`:
every thread is credited `0` or `now - last_time ≥ 0`. -/
theorem Credits.nonneg {x' : Clocks} (hle : x.lastTime t ≤ now)
    (h : Credits x x' u (if u = t then now - x.lastTime t else 0)) :
    ∃ d, 0 ≤ d ∧ (d = 0 ∨ d = now - x.lastTime u) ∧ Credits x x' u d := by
  refine ⟨_, ?_, ?_, h⟩ <;> split_ifs with hu
  · subst hu; omega
  · exact le_rfl
  · subst hu; exact .inr rfl
  · exact .inl rfl

/-! ### The time on a CPU -/

/-- The time credited to each thread is at most its time as the current thread of one of the
`ncpu` CPUs: for a thread current nowhere, its finished intervals (`onCpu`); for the current
thread of a CPU, also its running interval, which started at `since`, up to `last_time`. -/
structure OnCpuBound (ncpu : Nat) (x : Clocks) (onCpu since : Nat → Int) : Prop where
  notCurrent : ∀ t, (∀ c < ncpu, x.current c ≠ t) → x.used t ≤ onCpu t
  current : ∀ c < ncpu,
    x.used (x.current c) ≤ onCpu (x.current c) + (x.lastTime (x.current c) - since (x.current c))

namespace OnCpuBound
variable {ncpu c : Nat} {onCpu since : Nat → Int} {x' : Clocks}

/-- An event of the current thread of CPU `c` that adds to its buckets no more than it moves its
`last_time` forward. -/
theorem touch (h : OnCpuBound ncpu x onCpu since) (hc : c < ncpu) (hcur : x'.current = x.current)
    (hsame : ∀ u ≠ x.current c, x'.used u = x.used u ∧ x'.lastTime u = x.lastTime u)
    (ht : x'.used (x.current c) - x.used (x.current c) ≤
      x'.lastTime (x.current c) - x.lastTime (x.current c)) :
    OnCpuBound ncpu x' onCpu since := by
  refine ⟨fun u hu => ?_, fun d hd => ?_⟩
  · have hne : u ≠ x.current c := fun he => hu c hc (by rw [hcur, he])
    rw [(hsame u hne).1]; exact h.notCurrent u (by rwa [hcur] at hu)
  · rw [hcur]
    by_cases hdc : x.current d = x.current c
    · have := h.current d hd; rw [hdc] at this ⊢; omega
    · rw [(hsame _ hdc).1, (hsame _ hdc).2]; exact h.current d hd

/-- An event of the current thread of CPU `c` that credits it up to `now` and restarts its clock
then. -/
theorem creditStamp (h : OnCpuBound ncpu x onCpu since) (hc : c < ncpu) {ty : TimeType} :
    OnCpuBound ncpu ((x.credit (x.current c) now).stamp (x.current c) now ty) onCpu since := by
  refine h.touch hc (by simp) (fun u hu => ?_) ?_ <;>
    simp only [used_stamp, used_credit, stamp_lastTime, credit_lastTime]
  · simp [hu, update_noteq hu]
  · rw [if_pos trivial, update_same]; omega

/-- A restart of the clock of the current thread of CPU `c` at a time no earlier than its
`last_time`. -/
theorem stamp (h : OnCpuBound ncpu x onCpu since) (hc : c < ncpu) {v : Int} {ty : TimeType}
    (hle : x.lastTime (x.current c) ≤ v) : OnCpuBound ncpu (x.stamp (x.current c) v ty) onCpu since :=
  h.touch hc rfl (fun _ hu => ⟨rfl, update_noteq hu _ _⟩) (by simp only [used_stamp, stamp_lastTime, update_same]; omega)

/-- A switch on CPU `c` to a thread current nowhere closes the outgoing thread's interval and
opens the incoming one's. -/
theorem switch (h : OnCpuBound ncpu x onCpu since) (hc : c < ncpu)
    (hinj : ∀ d < ncpu, x.current d = x.current c → d = c) {new : Nat}
    (hnew : ∀ d < ncpu, x.current d ≠ new) :
    OnCpuBound ncpu (x.switch c (x.current c) new now)
      (update onCpu (x.current c) (onCpu (x.current c) + (now - since (x.current c))))
      (update since new now) := by
  have hne : new ≠ x.current c := fun he => hnew c hc he.symm
  refine ⟨fun u hu => ?_, fun d hd => ?_⟩
  · simp only [switch_current] at hu
    rw [used_switch]
    by_cases huo : u = x.current c
    · subst huo; have := h.current c hc; rw [if_pos rfl, update_same]; omega
    · have hnc : ∀ d < ncpu, x.current d ≠ u := fun d hd he => by
        by_cases hdc : d = c
        · exact huo (hdc ▸ he.symm)
        · exact hu d hd (by rw [update_noteq hdc, he])
      simpa [huo] using h.notCurrent u hnc
  · rw [switch_current, switch_lastTime, used_switch]
    by_cases hdc : d = c
    · subst hdc; rw [update_same]; simpa [hne] using h.notCurrent new hnew
    · have ho : x.current d ≠ x.current c := fun he => hdc (hinj d hd he)
      rw [update_noteq hdc]; simpa [ho, hnew d hd] using h.current d hd

/-- A thread creation clears a record that is current nowhere. -/
theorem reset (h : OnCpuBound ncpu x onCpu since) {r : Nat} (hr : ∀ c < ncpu, x.current c ≠ r) :
    OnCpuBound ncpu (x.reset r) (update onCpu r 0) since := by
  refine ⟨fun u hu => ?_, fun d hd => ?_⟩
  · rw [used_reset]
    by_cases hur : u = r
    · subst hur; simp
    · simpa [hur] using h.notCurrent u hu
  · simpa [used_reset, hr d hd] using h.current d hd

end OnCpuBound

end Clocks

namespace Sched
variable (P : Priorities)

/-- The accounting fields of the scheduler state. -/
def clocks (s : Sched) : Clocks := ⟨s.userTime, s.kernelTime, s.lastTime, s.lastTimeType, s.current⟩

/-- The accounting of `thread_atkernel_entry` for thread `t` at `system_time()` `now`: the time
since `last_time` is credited to `user_time`, and the kernel clock starts. -/
def threadAtkernelEntry (s : Sched) (t : Nat) (now : Int) : Sched :=
  { s with userTime := update s.userTime t (s.userTime t + (now - s.lastTime t)),
           lastTime := update s.lastTime t now, lastTimeType := update s.lastTimeType t .kernel }

/-- The accounting at the end of `thread_atkernel_exit`, once any reschedule it made has
returned: the time since `last_time` is credited to `kernel_time`, and the user clock starts. -/
def threadAtkernelExit (s : Sched) (t : Nat) (now : Int) : Sched :=
  { s with kernelTime := update s.kernelTime t (s.kernelTime t + (now - s.lastTime t)),
           lastTime := update s.lastTime t now, lastTimeType := update s.lastTimeType t .user }

/-- The stores of `_create_user_thread_kentry` and `_create_kernel_thread_kentry`,
`t->last_time = v; t->last_time_type = KERNEL_TIME`, with `v` the value `system_time()` returned. -/
def createThreadKentry (s : Sched) (t : Nat) (v : Int) : Sched :=
  { s with lastTime := update s.lastTime t v, lastTimeType := update s.lastTimeType t .kernel }

variable {P} {s s' : Sched} {ncpu c : Nat} {t x : Nat} {i : Int} {now : Int}

@[simp] theorem clocks_userTime : s.clocks.userTime = s.userTime := rfl
@[simp] theorem clocks_kernelTime : s.clocks.kernelTime = s.kernelTime := rfl
@[simp] theorem clocks_lastTime : s.clocks.lastTime = s.lastTime := rfl
@[simp] theorem clocks_lastTimeType : s.clocks.lastTimeType = s.lastTimeType := rfl
@[simp] theorem clocks_current : s.clocks.current = s.current := rfl

theorem clocks_threadAtkernelEntry (h : s.lastTimeType t = .user) :
    (s.threadAtkernelEntry t now).clocks = (s.clocks.credit t now).stamp t now .kernel := by
  simp only [threadAtkernelEntry, clocks, Clocks.credit, Clocks.stamp, h, update_same]

theorem clocks_threadAtkernelExit (h : s.lastTimeType t = .kernel) :
    (s.threadAtkernelExit t now).clocks = (s.clocks.credit t now).stamp t now .user := by
  simp only [threadAtkernelExit, clocks, Clocks.credit, Clocks.stamp, h, update_same]

theorem clocks_createThreadKentry {v : Int} :
    (s.createThreadKentry t v).clocks = s.clocks.stamp t v .kernel := rfl

theorem clocks_putOld : (putOld P s t).clocks = s.clocks := by
  unfold putOld; cases s.nextState t <;> rfl

theorem clocks_switchTo {old new : Nat} :
    (s.switchTo c old new now).clocks = s.clocks.switch c old new now := by
  simp only [switchTo, Clocks.switch, Clocks.credit, clocks]
  cases s.lastTimeType old <;> rfl

theorem clocks_threadSetPriority {id p : Int} : (s.threadSetPriority P c id p).1.clocks = s.clocks := by
  simp only [threadSetPriority]
  split_ifs
  · rfl
  · split
    · rfl
    · split_ifs <;> rfl

theorem mem_putOld_runQ (h : t ∈ (putOld P s x).runQ i) : t ∈ s.runQ i ∨ t = x := by
  unfold putOld at h
  cases hn : s.nextState x <;> simp only [hn, mem_threadEnqueueRunQ] at h <;> tauto

/-- A `thread_resched` on CPU `c` either keeps the CPU's thread, with the accounting as it was,
or switches to a thread that was current on no CPU, crediting the outgoing one. -/
theorem clocks_threadResched {rand : Nat → Nat} (hs : s.threadResched P c rand now = some s')
    (h : SchedInv P ncpu s) :
    s'.current c = s.current c ∧ s'.clocks = s.clocks ∨
      s'.current c ≠ s.current c ∧ (∀ d < ncpu, s.current d ≠ s'.current c) ∧
        s'.clocks = s.clocks.switch c (s.current c) (s'.current c) now := by
  simp only [threadResched] at hs
  generalize reschedLevel P (putOld P s (s.current c)).runQ rand = i at hs
  split at hs
  · cases hs
  rename_i next rest hq
  have hmem : next ∈ s.runQ i ∨ next = s.current c :=
    mem_putOld_runQ (by rw [hq]; exact List.mem_cons_self _ _)
  split_ifs at hs with hn <;> cases hs
  · exact .inl ⟨by simp [hn], clocks_putOld⟩
  · refine .inr ⟨by simpa using hn, fun d hd => ?_, ?_⟩
    · simpa using h.not_running_of_queued (hmem.resolve_right hn) d hd
    · rw [clocks_switchTo]; simp only [switchTo_current, update_same]
      exact congrArg (fun x => Clocks.switch x c _ next now) clocks_putOld

end Sched

/-- The CPU and the `system_time()` value of a kernel operation that reads the clock: a
reschedule. -/
def Op.timeRead : Op → Option (Nat × Int)
  | .resched c _ _ now | .exitFinish c _ now => some (c, now)
  | _ => none

/-- The kernel operations that run `create_thread_struct`. -/
def Op.creates : Op → Bool
  | .createThread _ | .createProc .. => true
  | _ => false

/-- What a kernel operation does to the accounting: a reschedule on CPU `c` at `now` keeps the
CPU's thread or switches to a thread current nowhere; a thread creation clears the clocks of the
record it takes, which is current nowhere; any other operation leaves them. -/
def ClocksStep (ncpu : Nat) (s s' : Sched) (op : Op) : Prop :=
  match op.timeRead with
  | some (c, now) => c < ncpu ∧ (s'.current c = s.current c ∧ s'.clocks = s.clocks ∨
      s'.current c ≠ s.current c ∧ (∀ d < ncpu, s.current d ≠ s'.current c) ∧
        s'.clocks = s.clocks.switch c (s.current c) (s'.current c) now)
  | none =>
    if op.creates then (∀ c < ncpu, s.current c ≠ s.deadQ.headD s.nextRec) ∧
      s'.clocks = s.clocks.reset (s.deadQ.headD s.nextRec)
    else s'.clocks = s.clocks

namespace Kernel
open Sched
variable {P : Priorities} {ncpu : Nat} {k k' : Kernel} {c : Nat}

theorem exitBegin_sched :
    (k.exitBegin P c).sched = (k.sched.threadSetPriority P c (k.sched.tid (k.sched.current c)) P.high).1 := by
  unfold exitBegin; dsimp only; split
  · split_ifs <;> rfl
  · rfl

theorem createThread_clocks {k₀ : Kernel} (h : SchedInv P ncpu k.sched) (he : k₀.sched = k.sched)
    (pid : Int) :
    (∀ c < ncpu, k.sched.current c ≠ k.sched.deadQ.headD k.sched.nextRec) ∧
      (k₀.createThread P pid).1.sched.clocks = k.sched.clocks.reset (k.sched.deadQ.headD k.sched.nextRec) := by
  rw [← he] at h ⊢
  obtain ⟨-, -, -, hnc, -⟩ := h.createThreadLocked_fresh (P := P)
  exact ⟨fun c hc => hnc c hc, by rcases createThread_sched (k := k₀) pid with he | he <;> rw [he] <;> rfl⟩

/-- Every kernel operation from a consistent scheduler acts on the accounting as `ClocksStep`
says. -/
theorem step_clocksStep (h : SchedInv P ncpu k.sched) {op : Op} (hs : step P ncpu k op = some k') :
    ClocksStep ncpu k.sched k'.sched op := by
  cases op with
  | resched c ns rand now =>
    simp only [step] at hs
    split_ifs at hs with hc
    have := clocks_threadResched (threadResched_sched hs) (h.congr rfl rfl rfl rfl rfl rfl rfl)
    exact ⟨hc.1, this⟩
  | exitFinish c rand now =>
    simp only [step] at hs
    split_ifs at hs with hc
    unfold Kernel.exitFinish at hs
    have := clocks_threadResched (threadResched_sched hs) (h.congr rfl rfl rfl rfl rfl rfl rfl)
    exact ⟨hc.1, this⟩
  | createThread pid =>
    simp only [step] at hs
    cases hs; exact createThread_clocks h rfl pid
  | createProc c newSession newPgroup aspace =>
    simp only [step] at hs
    split_ifs at hs
    obtain ⟨k₁, p, tid, hp, hct⟩ := createProc_some hs
    rw [show k' = _ from (congrArg Prod.fst hct).symm]
    refine createThread_clocks h ?_ _
    exact (createProcPublish_some hp).1
  | wakeUp t =>
    simp only [step] at hs
    split_ifs at hs
    cases hs; rfl
  | setPriority c id priority =>
    simp only [step] at hs
    split_ifs at hs
    cases hs; exact clocks_threadSetPriority
  | exitBegin c =>
    simp only [step] at hs
    split_ifs at hs
    cases hs; show (k.exitBegin P c).sched.clocks = _
    rw [exitBegin_sched]; exact clocks_threadSetPriority
  | teardown p => rw [step_procs_only hs (.inl ⟨p, rfl⟩)]; rfl
  | setpgid c pid pgid => rw [step_procs_only hs (.inr (.inl ⟨c, pid, pgid, rfl⟩))]; rfl
  | setsid c => rw [step_procs_only hs (.inr (.inr ⟨c, rfl⟩))]; rfl

end Kernel

/-! ## The accounting events -/

/-- How far a thread's kentry trampoline has got: not started, `system_time()` read (it returned
`v`) but not yet stored, or done (also for the threads of `thread_init`). -/
inductive Kentry
  | start
  | read (v : Int)
  | done
  deriving DecidableEq, Repr

/-- The system with its time accounting: the kernel; the last value `system_time()` returned;
each record's `in_kernel` flag and the progress of its kentry trampoline; and two ghost fields,
each thread's total time in the finished intervals during which it was the current thread of a
CPU, and the start of the running one. -/
structure Acct where
  k : Kernel
  clock : Int
  inKernel : Nat → Bool
  kentry : Nat → Kentry
  onCpu : Nat → Int
  since : Nat → Int

/-- The steps of the system, each accounting event by the current thread of CPU `c`. -/
inductive AcctOp
  /-- an operation of the kernel model -/
  | kernel (op : Op)
  /-- a call of `thread_atkernel_entry`, with `system_time()` returning `now` -/
  | atkernelEntry (c : Nat) (now : Int)
  /-- the end of `thread_atkernel_exit`, with `system_time()` returning `now` -/
  | atkernelExit (c : Nat) (now : Int)
  /-- a trampoline's read of `system_time()` and its stores with no step between them -/
  | kentry (c : Nat) (now : Int)
  /-- a trampoline's read of `system_time()`, returning `now` -/
  | kentryRead (c : Nat) (now : Int)
  /-- a trampoline's stores of the value it read -/
  | kentryStore (c : Nat)

/-- The runs in which no trampoline is interrupted between its read and its stores. -/
def AcctOp.Atomic : AcctOp → Prop
  | .kentryRead .. | .kentryStore _ => False
  | _ => True

namespace Acct
open Sched
variable (P : Priorities) (ncpu : Nat)

/-- The accounting fields. -/
def clocks (a : Acct) : Clocks := a.k.sched.clocks

def withSched (a : Acct) (s : Sched) : Acct := { a with k := { a.k with sched := s } }

/-- The state after `thread_init`, with the clock at `0`: every thread of `thread_init` is in the
kernel, with its trampoline done. -/
def init : Acct := ⟨Kernel.init P ncpu, 0, fun _ => true, fun _ => .done, fun _ => 0, fun _ => 0⟩

/-- The ghost bookkeeping of a switch at `now` from `old` to `new`: the interval of `old` on the
CPU ends and that of `new` starts. -/
def switchGhost (a : Acct) (old new : Nat) (now : Int) : Acct :=
  { a with onCpu := update a.onCpu old (a.onCpu old + (now - a.since old)), since := update a.since new now }

section
variable {a : Acct} {old new : Nat} {now : Int}
@[simp] theorem switchGhost_inKernel : (a.switchGhost old new now).inKernel = a.inKernel := rfl
@[simp] theorem switchGhost_kentry : (a.switchGhost old new now).kentry = a.kentry := rfl
end

/-- A reschedule on CPU `c` at `now` that leads to `k'`. -/
def rescheduled (a : Acct) (c : Nat) (now : Int) (k' : Kernel) : Acct :=
  let old := a.k.sched.current c
  let new := k'.sched.current c
  if new = old then { a with k := k', clock := now }
  else { a.switchGhost old new now with k := k', clock := now }

variable {P ncpu} {a : Acct} {c : Nat} {now : Int} {k' : Kernel}

@[simp] theorem rescheduled_k : (a.rescheduled c now k').k = k' := by
  unfold rescheduled; dsimp only; split_ifs <;> rfl
@[simp] theorem rescheduled_clock : (a.rescheduled c now k').clock = now := by
  unfold rescheduled; dsimp only; split_ifs <;> rfl

variable (P ncpu)

/-- A thread creation that leads to `k'`: the record `create_thread_struct` takes is in the kernel
(`in_kernel` set), its trampoline not started, with no time on a CPU. -/
def created (a : Acct) (k' : Kernel) : Acct :=
  let r := a.k.sched.deadQ.headD a.k.sched.nextRec
  { a with k := k', inKernel := update a.inKernel r true, kentry := update a.kentry r .start,
           onCpu := update a.onCpu r 0 }

/-- One step. A kernel operation that reads `system_time()` reads a value no smaller than the
last one, as does each accounting event. -/
def step (a : Acct) : AcctOp → Option Acct
  | .kernel op =>
    match op.timeRead with
    | some (c, now) =>
      if a.clock ≤ now then (Kernel.step P ncpu a.k op).map (a.rescheduled c now) else none
    | none => (Kernel.step P ncpu a.k op).map fun k' =>
      if op.creates then a.created k' else { a with k := k' }
  | .atkernelEntry c now =>
    let t := a.k.sched.current c
    if c < ncpu ∧ a.clock ≤ now ∧ a.inKernel t = false then
      some { a.withSched (a.k.sched.threadAtkernelEntry t now) with
        clock := now, inKernel := update a.inKernel t true }
    else none
  | .atkernelExit c now =>
    let t := a.k.sched.current c
    if c < ncpu ∧ a.clock ≤ now ∧ a.inKernel t = true ∧ a.kentry t = .done then
      some { a.withSched (a.k.sched.threadAtkernelExit t now) with
        clock := now, inKernel := update a.inKernel t false }
    else none
  | .kentry c now =>
    let t := a.k.sched.current c
    if c < ncpu ∧ a.clock ≤ now ∧ a.kentry t = .start then
      some { a.withSched (a.k.sched.createThreadKentry t now) with
        clock := now, kentry := update a.kentry t .done }
    else none
  | .kentryRead c now =>
    let t := a.k.sched.current c
    if c < ncpu ∧ a.clock ≤ now ∧ a.kentry t = .start then
      some { a with clock := now, kentry := update a.kentry t (.read now) }
    else none
  | .kentryStore c =>
    let t := a.k.sched.current c
    match a.kentry t with
    | .read v =>
      if c < ncpu then
        some { a.withSched (a.k.sched.createThreadKentry t v) with kentry := update a.kentry t .done }
      else none
    | _ => none

/-- The states reachable from `init` by the steps `ok` allows. -/
inductive Reachable (ok : AcctOp → Prop) : Acct → Prop
  | init : Reachable ok (init P ncpu)
  | step {a a' : Acct} {op : AcctOp} (reach : Reachable ok a) (allowed : ok op)
      (hstep : a.step P ncpu op = some a') : Reachable ok a'

/-- The state after a sequence of steps, when each is enabled. -/
def run : Acct → List AcctOp → Option Acct
  | a, [] => some a
  | a, op :: ops => (a.step P ncpu op).bind fun a' => run a' ops

variable {P ncpu}

theorem Reachable.run {ok : AcctOp → Prop} {a a' : Acct} {ops : List AcctOp}
    (ha : Reachable P ncpu ok a) (hops : ∀ op ∈ ops, ok op) (h : Acct.run P ncpu a ops = some a') :
    Reachable P ncpu ok a' := by
  induction ops generalizing a with
  | nil => cases h; exact ha
  | cons op ops ih =>
    simp only [Acct.run, Option.bind_eq_some] at h
    obtain ⟨a₁, h₁, h₂⟩ := h
    exact ih (ha.step (hops op (by simp)) h₁) (fun o ho => hops o (by simp [ho])) h₂

/-! ## The invariant -/

variable {a a' : Acct} {t : Nat}

@[simp] theorem clocks_eq : a.clocks = a.k.sched.clocks := rfl

/-- What a kernel operation does to the accounting state: it keeps the accounting fields, with a
clock no earlier than before; or it is a reschedule on CPU `c` at `now` that switches to a thread
current nowhere; or it is a thread creation, which clears the clocks of a record current
nowhere. -/
theorem step_kernel {o : Op} (h : SchedInv P ncpu a.k.sched) (hs : a.step P ncpu (.kernel o) = some a') :
    ∃ k', Kernel.step P ncpu a.k o = some k' ∧
      ((∃ now, a.clock ≤ now ∧ k'.sched.clocks = a.k.sched.clocks ∧ a' = { a with k := k', clock := now }) ∨
        (∃ c now, c < ncpu ∧ a.clock ≤ now ∧ k'.sched.current c ≠ a.k.sched.current c ∧
          (∀ d < ncpu, a.k.sched.current d ≠ k'.sched.current c) ∧
          k'.sched.clocks = a.k.sched.clocks.switch c (a.k.sched.current c) (k'.sched.current c) now ∧
          a' = { a.switchGhost (a.k.sched.current c) (k'.sched.current c) now with k := k', clock := now }) ∨
        (o.creates ∧ (∀ c < ncpu, a.k.sched.current c ≠ a.k.sched.deadQ.headD a.k.sched.nextRec) ∧
          k'.sched.clocks = a.k.sched.clocks.reset (a.k.sched.deadQ.headD a.k.sched.nextRec) ∧
          a' = a.created k')) := by
  simp only [step] at hs
  cases hop : o.timeRead with
  | some r =>
    obtain ⟨c, now⟩ := r
    simp only [hop] at hs
    split_ifs at hs with hle
    obtain ⟨k', hk, rfl⟩ := Option.map_eq_some'.1 hs
    have hcs := Kernel.step_clocksStep h hk
    simp only [ClocksStep, hop] at hcs
    refine ⟨k', hk, ?_⟩
    unfold rescheduled; dsimp only
    rcases hcs with ⟨hc, ⟨hcur, hcl⟩ | ⟨hne, hnew, hcl⟩⟩
    · exact .inl ⟨now, hle, hcl, by rw [if_pos hcur]⟩
    · exact .inr (.inl ⟨c, now, hc, hle, hne, hnew, hcl, by rw [if_neg hne]⟩)
  | none =>
    simp only [hop] at hs
    obtain ⟨k', hk, rfl⟩ := Option.map_eq_some'.1 hs
    have hcs := Kernel.step_clocksStep h hk
    simp only [ClocksStep, hop] at hcs
    refine ⟨k', hk, ?_⟩
    split_ifs at hcs ⊢ with hcr
    · exact .inr (.inr ⟨hcr, hcs.1, hcs.2, rfl⟩)
    · exact .inl ⟨a.clock, le_rfl, hcs, rfl⟩

/-- The part of the invariant about thread `t`: its `last_time` and a pending trampoline read are
no later than the clock, `last_time_type` names the kernel bucket exactly when `in_kernel` is
set, and `in_kernel` is set while the trampoline is pending. -/
structure ThreadInv (a : Acct) (t : Nat) : Prop where
  lastTime_le : a.k.sched.lastTime t ≤ a.clock
  read_le : ∀ v, a.kentry t = .read v → v ≤ a.clock
  lastTimeType_eq : a.k.sched.lastTimeType t = if a.inKernel t then .kernel else .user
  pending_inKernel : a.kentry t ≠ .done → a.inKernel t = true

/-- The invariant of the accounting: the scheduler is consistent, the clock is not negative, and
every thread's part holds. -/
structure Inv (P : Priorities) (ncpu : Nat) (a : Acct) : Prop where
  sched : SchedInv P ncpu a.k.sched
  clock_nonneg : 0 ≤ a.clock
  thread : ∀ t, ThreadInv a t

theorem ThreadInv.mono (h : ThreadInv a t) (hc : a.clock ≤ a'.clock)
    (he : a'.k.sched.lastTime t = a.k.sched.lastTime t ∧
      a'.k.sched.lastTimeType t = a.k.sched.lastTimeType t ∧ a'.inKernel t = a.inKernel t ∧
      a'.kentry t = a.kentry t) : ThreadInv a' t := by
  obtain ⟨h1, h2, h3, h4⟩ := he
  exact ⟨h1 ▸ h.lastTime_le.trans hc, fun v hv => (h.read_le v (h4 ▸ hv)).trans hc,
    by rw [h2, h3, h.lastTimeType_eq], by rw [h3, h4]; exact h.pending_inKernel⟩

theorem ThreadInv.lastTimeType_user (h : ThreadInv a t) (hk : a.inKernel t = false) :
    a.k.sched.lastTimeType t = .user := by
  rw [h.lastTimeType_eq, hk]; rfl

theorem ThreadInv.lastTimeType_kernel (h : ThreadInv a t) (hk : a.inKernel t = true) :
    a.k.sched.lastTimeType t = .kernel := by
  rw [h.lastTimeType_eq, hk]; rfl

/-- A kernel step that keeps the accounting fields keeps the invariant. -/
theorem Inv.frame (h : Inv P ncpu a) {k' : Kernel} (hs : SchedInv P ncpu k'.sched) {now : Int}
    (hc : a.clock ≤ now) (hcl : k'.sched.clocks = a.k.sched.clocks) :
    Inv P ncpu { a with k := k', clock := now } :=
  ⟨hs, h.clock_nonneg.trans hc, fun u => (h.thread u).mono hc
    ⟨congrFun (congrArg Clocks.lastTime hcl) u, congrFun (congrArg Clocks.lastTimeType hcl) u, rfl, rfl⟩⟩

/-- A step that moves the clock forward and changes only thread `t`'s accounting keeps the
invariant when it keeps the scheduler consistent and `t`'s part holds after it. -/
theorem Inv.touch (h : Inv P ncpu a) (hs : SchedInv P ncpu a'.k.sched) (hc : a.clock ≤ a'.clock)
    (hsame : ∀ u ≠ t, a'.k.sched.lastTime u = a.k.sched.lastTime u ∧
      a'.k.sched.lastTimeType u = a.k.sched.lastTimeType u ∧ a'.inKernel u = a.inKernel u ∧
      a'.kentry u = a.kentry u)
    (ht : ThreadInv a' t) : Inv P ncpu a' :=
  ⟨hs, h.clock_nonneg.trans hc, fun u => if hu : u = t then hu ▸ ht else (h.thread u).mono hc (hsame u hu)⟩

theorem inv_init : Inv P ncpu (init P ncpu) :=
  ⟨Kernel.schedInv_init, le_rfl, fun _ => ⟨le_rfl, fun _ h => (by cases h), rfl, fun _ => rfl⟩⟩

variable {op : AcctOp}

/-- Every step keeps the invariant. -/
theorem Inv.step (h : Inv P ncpu a) (hs : a.step P ncpu op = some a') : Inv P ncpu a' := by
  cases op with
  | kernel o =>
    obtain ⟨k', hk, ⟨now, hle, hcl, rfl⟩ | ⟨c, now, -, hle, -, -, hcl, rfl⟩ | ⟨-, -, hcl, rfl⟩⟩ :=
      step_kernel h.sched hs
    · exact h.frame (Kernel.schedInv_step h.sched hk) hle hcl
    · -- the incoming thread's clock starts at `now`
      have hl := congrArg Clocks.lastTime hcl
      have hty := congrArg Clocks.lastTimeType hcl
      simp only [Sched.clocks_lastTime, Sched.clocks_lastTimeType, Clocks.switch_lastTime,
        Clocks.switch_lastTimeType] at hl hty
      have hn := h.thread (k'.sched.current c)
      exact h.touch (Kernel.schedInv_step h.sched hk) hle (fun u hu => by simp [hl, hty, update_noteq hu])
        ⟨by simp [hl], fun v hv => (hn.read_le v hv).trans hle, by simp [hty, hn.lastTimeType_eq],
          hn.pending_inKernel⟩
    · -- the new thread is in the kernel, before its trampoline
      unfold created; dsimp only
      generalize a.k.sched.deadQ.headD a.k.sched.nextRec = r at hcl ⊢
      have hl := congrArg Clocks.lastTime hcl
      have hty := congrArg Clocks.lastTimeType hcl
      simp only [Sched.clocks_lastTime, Sched.clocks_lastTimeType, Clocks.reset_lastTime,
        Clocks.reset_lastTimeType] at hl hty
      exact h.touch (t := r) (Kernel.schedInv_step h.sched hk) le_rfl
        (fun u hu => by simp [hl, hty, update_noteq hu])
        ⟨by simpa [hl] using h.clock_nonneg, fun v hv => by simp at hv, by simp [hty], fun _ => by simp⟩
  | atkernelEntry c now =>
    simp only [step] at hs
    split_ifs at hs with hg
    cases hs
    refine h.touch (t := a.k.sched.current c) (h.sched.congr rfl rfl rfl rfl rfl rfl rfl) hg.2.1
      (fun u hu => by simp [withSched, Sched.threadAtkernelEntry, update_noteq hu])
      ⟨by simp [withSched, Sched.threadAtkernelEntry], fun v hv => ?_,
        by simp [withSched, Sched.threadAtkernelEntry], fun _ => by simp⟩
    exact ((h.thread _).read_le v hv).trans hg.2.1
  | atkernelExit c now =>
    simp only [step] at hs
    split_ifs at hs with hg
    cases hs
    refine h.touch (t := a.k.sched.current c) (h.sched.congr rfl rfl rfl rfl rfl rfl rfl) hg.2.1
      (fun u hu => by simp [withSched, Sched.threadAtkernelExit, update_noteq hu])
      ⟨by simp [withSched, Sched.threadAtkernelExit], fun v hv => ?_,
        by simp [withSched, Sched.threadAtkernelExit], fun hp => absurd hg.2.2.2 hp⟩
    exact ((h.thread _).read_le v hv).trans hg.2.1
  | kentry c now =>
    simp only [step] at hs
    split_ifs at hs with hg
    cases hs
    have hk := (h.thread (a.k.sched.current c)).pending_inKernel (by simp [hg.2.2])
    exact h.touch (t := a.k.sched.current c) (h.sched.congr rfl rfl rfl rfl rfl rfl rfl) hg.2.1
      (fun u hu => by simp [withSched, Sched.createThreadKentry, update_noteq hu])
      ⟨by simp [withSched, Sched.createThreadKentry], fun v hv => by simp at hv,
        by simp [withSched, Sched.createThreadKentry, hk], fun hp => by simp at hp⟩
  | kentryRead c now =>
    simp only [step] at hs
    split_ifs at hs with hg
    cases hs
    have hk := (h.thread (a.k.sched.current c)).pending_inKernel (by simp [hg.2.2])
    exact h.touch (t := a.k.sched.current c) h.sched hg.2.1 (fun u hu => by simp [update_noteq hu])
      ⟨((h.thread _).lastTime_le).trans hg.2.1, fun v hv => by simp at hv; subst hv; exact le_rfl,
        by simp [hk, (h.thread _).lastTimeType_eq], fun _ => hk⟩
  | kentryStore c =>
    simp only [step] at hs
    split at hs
    · rename_i v hv
      split_ifs at hs with hc
      cases hs
      have hk := (h.thread (a.k.sched.current c)).pending_inKernel (by simp [hv])
      exact h.touch (t := a.k.sched.current c) (h.sched.congr rfl rfl rfl rfl rfl rfl rfl) le_rfl
        (fun u hu => by simp [withSched, Sched.createThreadKentry, update_noteq hu])
        ⟨by simpa [withSched, Sched.createThreadKentry] using (h.thread _).read_le v hv,
          fun w hw => by simp at hw, by simp [withSched, Sched.createThreadKentry, hk],
          fun hp => by simp at hp⟩
    · cases hs

theorem inv_of_reachable {ok : AcctOp → Prop} (ha : Reachable P ncpu ok a) : Inv P ncpu a := by
  induction ha with
  | init => exact inv_init
  | step _ _ hs ih => exact ih.step hs

/-! ## The credits -/

/-- Every step either clears thread `t`'s buckets, as a thread creation in its record, or credits
the bucket its `last_time_type` names with `d ≥ 0`, where `d` is `0` or `now - last_time` for the
`system_time()` value `now` the step read. -/
theorem Inv.credits_of_step (h : Inv P ncpu a) (hs : a.step P ncpu op = some a') (t : Nat) :
    (∃ o, op = .kernel o ∧ o.creates ∧ t = a.k.sched.deadQ.headD a.k.sched.nextRec ∧
        a'.clocks.used t = 0) ∨
      ∃ d, 0 ≤ d ∧ (d = 0 ∨ d = a'.clock - a.clocks.lastTime t) ∧ Clocks.Credits a.clocks a'.clocks t d := by
  cases op with
  | kernel o =>
    obtain ⟨k', -, ⟨now, -, hcl, rfl⟩ | ⟨c, now, -, hle, -, -, hcl, rfl⟩ | ⟨hcr, -, hcl, rfl⟩⟩ :=
      step_kernel h.sched hs
    · exact .inr ⟨0, le_rfl, .inl rfl, Clocks.credits_of_clocks_eq hcl⟩
    · -- the outgoing thread is credited `now - last_time`
      exact .inr (Clocks.Credits.nonneg ((h.thread _).lastTime_le.trans hle)
        (show Clocks.Credits a.k.sched.clocks k'.sched.clocks t _ from hcl ▸ Clocks.credits_switch))
    · by_cases htr : t = a.k.sched.deadQ.headD a.k.sched.nextRec
      · refine .inl ⟨o, rfl, hcr, htr, ?_⟩
        show k'.sched.clocks.used t = 0
        rw [hcl, Clocks.used_reset, if_pos htr]
      · exact .inr ⟨0, le_rfl, .inl rfl, show Clocks.Credits a.k.sched.clocks k'.sched.clocks t 0 from
          hcl ▸ Clocks.credits_of_eq (update_noteq htr _ _) (update_noteq htr _ _)⟩
  | atkernelEntry c now =>
    simp only [Acct.step] at hs
    split_ifs at hs with hg
    cases hs
    have hc := h.thread (a.k.sched.current c)
    refine .inr ?_
    simp only [clocks_eq, withSched, Sched.clocks_threadAtkernelEntry (hc.lastTimeType_user hg.2.2)]
    exact Clocks.Credits.nonneg (hc.lastTime_le.trans hg.2.1) Clocks.credits_credit
  | atkernelExit c now =>
    simp only [Acct.step] at hs
    split_ifs at hs with hg
    cases hs
    have hc := h.thread (a.k.sched.current c)
    refine .inr ?_
    simp only [clocks_eq, withSched, Sched.clocks_threadAtkernelExit (hc.lastTimeType_kernel hg.2.2.1)]
    exact Clocks.Credits.nonneg (hc.lastTime_le.trans hg.2.1) Clocks.credits_credit
  | kentry c now =>
    simp only [Acct.step] at hs
    split_ifs at hs
    cases hs
    exact .inr ⟨0, le_rfl, .inl rfl, Clocks.credits_of_eq rfl rfl⟩
  | kentryRead c now =>
    simp only [Acct.step] at hs
    split_ifs at hs
    cases hs
    exact .inr ⟨0, le_rfl, .inl rfl, Clocks.credits_of_eq rfl rfl⟩
  | kentryStore c =>
    simp only [Acct.step] at hs
    split at hs
    · split_ifs at hs
      cases hs
      exact .inr ⟨0, le_rfl, .inl rfl, Clocks.credits_of_eq rfl rfl⟩
    · cases hs

/-! ## The time on a CPU -/

/-- Every step in which no trampoline is interrupted between its read and its stores keeps the
bound of the credited time by the time on a CPU. -/
theorem Inv.step_onCpuBound (h : Inv P ncpu a) (hb : a.clocks.OnCpuBound ncpu a.onCpu a.since)
    (hok : op.Atomic) (hs : a.step P ncpu op = some a') : a'.clocks.OnCpuBound ncpu a'.onCpu a'.since := by
  cases op with
  | kernel o =>
    obtain ⟨k', -, ⟨now, -, hcl, rfl⟩ | ⟨c, now, hc, -, -, hnew, hcl, rfl⟩ | ⟨-, hfresh, hcl, rfl⟩⟩ :=
      step_kernel h.sched hs
    · show k'.sched.clocks.OnCpuBound ncpu a.onCpu a.since
      rwa [hcl]
    · show k'.sched.clocks.OnCpuBound ncpu _ _
      rw [hcl]
      exact hb.switch hc (fun d hd he => h.sched.current_inj hd hc he) hnew
    · show k'.sched.clocks.OnCpuBound ncpu _ a.since
      rw [hcl]
      exact hb.reset hfresh
  | atkernelEntry c now =>
    simp only [Acct.step] at hs
    split_ifs at hs with hg
    cases hs
    simp only [clocks_eq, withSched,
      Sched.clocks_threadAtkernelEntry ((h.thread _).lastTimeType_user hg.2.2)]
    exact hb.creditStamp hg.1
  | atkernelExit c now =>
    simp only [Acct.step] at hs
    split_ifs at hs with hg
    cases hs
    simp only [clocks_eq, withSched,
      Sched.clocks_threadAtkernelExit ((h.thread _).lastTimeType_kernel hg.2.2.1)]
    exact hb.creditStamp hg.1
  | kentry c now =>
    simp only [Acct.step] at hs
    split_ifs at hs with hg
    cases hs
    simp only [clocks_eq, withSched, Sched.clocks_createThreadKentry]
    exact hb.stamp hg.1 ((h.thread _).lastTime_le.trans hg.2.1)
  | kentryRead => exact absurd hok id
  | kentryStore => exact absurd hok id

/-! ## The accounting over whole runs -/

/-- In every run, with the trampolines interrupted anywhere, each step either clears thread `t`'s
buckets, as the creation of a new thread in its record, or credits the bucket that its
`last_time_type` names with `d ≥ 0`, where `d` is `0` or `now - last_time` for the `system_time()`
value `now` the step read. So over a thread's life its `user_time` and `kernel_time` never
decrease, and every credit of `thread_context_switch`, `thread_atkernel_entry` and
`thread_atkernel_exit` goes where `last_time_type` says. -/
theorem step_credits {ok : AcctOp → Prop} (ha : Reachable P ncpu ok a)
    (hs : a.step P ncpu op = some a') (t : Nat) :
    (∃ o, op = .kernel o ∧ o.creates ∧ t = a.k.sched.deadQ.headD a.k.sched.nextRec ∧
        a'.clocks.used t = 0) ∨
      ∃ d, 0 ≤ d ∧ (d = 0 ∨ d = a'.clock - a.clocks.lastTime t) ∧ Clocks.Credits a.clocks a'.clocks t d :=
  (inv_of_reachable ha).credits_of_step hs t

theorem step_credits_kentry_run :
    ∃ a a', run Priorities.sample 1 (init Priorities.sample 1)
        [.kernel (.createThread 1), .kernel (.wakeUp 1),
          .kernel (.resched 0 .ready (fun _ => 0x3001) 10)] = some a ∧
      a.step Priorities.sample 1 (.kentry 0 15) = some a' ∧
      ((∃ o, AcctOp.kentry 0 15 = .kernel o ∧ o.creates ∧ 1 = a.k.sched.deadQ.headD a.k.sched.nextRec ∧
          a'.clocks.used 1 = 0) ∨
        ∃ d, 0 ≤ d ∧ (d = 0 ∨ d = a'.clock - a.clocks.lastTime 1) ∧ Clocks.Credits a.clocks a'.clocks 1 d) := by
  have hrun : run Priorities.sample 1 (init Priorities.sample 1)
      [.kernel (.createThread 1), .kernel (.wakeUp 1),
        .kernel (.resched 0 .ready (fun _ => 0x3001) 10)] = some _ := rfl
  exact ⟨_, _, hrun, rfl, step_credits (Reachable.init.run (fun _ _ => trivial) hrun)
    (show Acct.step Priorities.sample 1 _ (.kentry 0 15) = some _ from rfl) 1⟩

/-- When no kentry trampoline is interrupted between its read of `system_time()` and its stores,
in every run, each thread's `user_time + kernel_time` is at most its time as the current thread of
a CPU. -/
theorem onCpu_bound (ha : Reachable P ncpu AcctOp.Atomic a) : a.clocks.OnCpuBound ncpu a.onCpu a.since := by
  induction ha with
  | init => exact ⟨fun _ _ => le_rfl, fun _ _ => le_rfl⟩
  | step ha hok hs ih => exact (inv_of_reachable ha).step_onCpuBound ih hok hs

theorem onCpu_bound_kentry_run :
    ∃ a, run Priorities.sample 1 (init Priorities.sample 1)
        [.kernel (.createThread 1), .kernel (.wakeUp 1), .kernel (.resched 0 .ready (fun _ => 0x3001) 10),
          .kentry 0 15, .kernel (.resched 0 .waiting (fun _ => 0x3001) 20)] = some a ∧
      a.clocks.OnCpuBound 1 a.onCpu a.since := by
  obtain ⟨a, h⟩ : ∃ a, run Priorities.sample 1 (init Priorities.sample 1)
      [.kernel (.createThread 1), .kernel (.wakeUp 1), .kernel (.resched 0 .ready (fun _ => 0x3001) 10),
        .kentry 0 15, .kernel (.resched 0 .waiting (fun _ => 0x3001) 20)] = some a := ⟨_, rfl⟩
  exact ⟨a, h, onCpu_bound (Reachable.init.run (by simp [AcctOp.Atomic]) h)⟩

/-- The kentry trampolines store `t->last_time = system_time()` after `int_restore_interrupts()`,
so a reschedule can fall between the read of the clock and the store. On one CPU, threads 1
and 2 are created and woken; thread 1 is switched in at 10 and its trampoline reads 10; it is
preempted at 20 for thread 2, which is preempted at 100; thread 1 resumes, stores the stale 10,
and is preempted at 110. It was the current thread from 10 to 20 and from 100 to 110, 20 in all,
yet its `kernel_time` is 110: the time from 10 to 20 is counted twice, and the 80 during which
thread 2 ran is counted too. -/
theorem kentry_preemption_overcounts :
    ∃ a, run Priorities.sample 1 (init Priorities.sample 1)
        [.kernel (.createThread 1), .kernel (.createThread 1), .kernel (.wakeUp 1), .kernel (.wakeUp 2),
          .kernel (.resched 0 .ready (fun _ => 0x3001) 10), .kentryRead 0 10,
          .kernel (.resched 0 .ready (fun _ => 0x3001) 20), .kernel (.resched 0 .ready (fun _ => 0x3001) 100),
          .kentryStore 0, .kernel (.resched 0 .ready (fun _ => 0x3001) 110)] = some a ∧
      Reachable Priorities.sample 1 (fun _ => True) a ∧ a.clocks.current 0 = 2 ∧
      a.clocks.kernelTime 1 = 110 ∧ a.clocks.userTime 1 = 0 ∧ a.onCpu 1 = 20 ∧
      ¬ a.clocks.OnCpuBound 1 a.onCpu a.since := by
  obtain ⟨a, h, h0, h1, h2, h3⟩ : ∃ a, run Priorities.sample 1 (init Priorities.sample 1)
      [.kernel (.createThread 1), .kernel (.createThread 1), .kernel (.wakeUp 1), .kernel (.wakeUp 2),
        .kernel (.resched 0 .ready (fun _ => 0x3001) 10), .kentryRead 0 10,
        .kernel (.resched 0 .ready (fun _ => 0x3001) 20), .kernel (.resched 0 .ready (fun _ => 0x3001) 100),
        .kentryStore 0, .kernel (.resched 0 .ready (fun _ => 0x3001) 110)] = some a ∧
      a.clocks.current 0 = 2 ∧ a.clocks.kernelTime 1 = 110 ∧ a.clocks.userTime 1 = 0 ∧ a.onCpu 1 = 20 :=
    ⟨_, rfl, rfl, rfl, rfl, rfl⟩
  refine ⟨a, h, Reachable.init.run (fun _ _ => trivial) h, h0, h1, h2, h3, fun hb => ?_⟩
  have := hb.notCurrent 1 fun c hc => by rw [show c = 0 by omega, h0]; decide
  rw [Clocks.used, h1, h2, h3] at this
  omega

end Acct
end NewOS
