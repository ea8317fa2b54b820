import NewOS.Kernel
import NewOS.Proc.Spec

/-! The windows that `_create_thread` and `proc_create_proc` open between their critical
sections. `_create_thread` publishes the new thread in `thread_hash` under the thread lock and
inserts it into its process only later, under the process lock; `proc_create_proc` publishes the
new process under the process lock and creates its first thread only after releasing it. A
lookup by id inside either window finds a record whose `proc`, or `main_thread`, is still
`NULL`. -/
namespace NewOS
namespace Kernel
open Function Sched

variable {P : Priorities}

/-- The record `_create_thread` has just published heads `thread_hash`, so the lookup of its id
finds it. -/
theorem threadGetThreadStructLocked_createThreadLocked (s : Sched) :
    (s.createThreadLocked P).1.threadGetThreadStructLocked
      ((s.createThreadLocked P).1.tid (s.createThreadLocked P).2) = some (s.createThreadLocked P).2 := by
  simp [threadGetThreadStructLocked, createThreadLocked_threadHash]

/-- Inside `_create_thread`'s window, the lookup of the new id under the thread lock finds the
new record with `proc` still `NULL`, and `thread_get_thread_info` dereferences it. Inside
`proc_create_proc`'s window, the lookup of the new id under the process lock finds the new
process with `main_thread` still `NULL`, and `proc_get_main_thread` dereferences it. -/
theorem creation_window_null (k : Kernel) :
    ((k.createThreadPublish P).1.sched.threadGetThreadStructLocked
        ((k.createThreadPublish P).1.sched.tid (k.createThreadPublish P).2) =
          some (k.createThreadPublish P).2 ∧
      (k.createThreadPublish P).1.procs.threadProc (k.createThreadPublish P).2 = none ∧
      threadGetThreadInfo (k.createThreadPublish P).1
        ((k.createThreadPublish P).1.sched.tid (k.createThreadPublish P).2) = none) ∧
    ∀ c newSession newPgroup w p, k.createProcPublish c newSession newPgroup = some (w, p) →
      w.procs.procGetProcStructLocked (w.procs.pid p) = some p ∧ w.procs.mainThread p = none ∧
      procGetMainThread w (w.procs.pid p) = none := by
  have hl := threadGetThreadStructLocked_createThreadLocked (P := P) k.sched
  refine ⟨⟨hl, by simp [createThreadPublish], ?_⟩, fun c newSession newPgroup w p hw => ?_⟩
  · simp only [threadGetThreadInfo, createThreadPublish] at hl ⊢
    simp [hl]
  obtain ⟨-, -, cp, -, hps⟩ := createProcPublish_some hw
  obtain ⟨-, _, _, _, _, _, -, he⟩ := Procs.procCreateProcLocked_eq hps
  have hl : w.procs.procGetProcStructLocked (w.procs.pid p) = some p := by
    simp [Procs.procGetProcStructLocked, he]
  have hm : w.procs.mainThread p = none := by simp [he]
  exact ⟨hl, hm, by simp [procGetMainThread, hl, hm]⟩

theorem creation_window_null_new_proc :
    ∃ k, run Priorities.sample 1 (init Priorities.sample 1)
        [.createProc 0 false false 0, .wakeUp 1, .resched 0 .ready (fun _ => 0x3001) 0] = some k ∧
      (k.createProcPublish 0 false false).isSome ∧
      ∀ w p, k.createProcPublish 0 false false = some (w, p) →
        procGetMainThread w (w.procs.pid p) = none := by
  have hrun : run Priorities.sample 1 (init Priorities.sample 1)
      [.createProc 0 false false 0, .wakeUp 1, .resched 0 .ready (fun _ => 0x3001) 0] = some _ := rfl
  exact ⟨_, hrun, rfl, fun w p h =>
    ((creation_window_null (P := Priorities.sample) _).2 0 false false w p h).2.2⟩

end Kernel
end NewOS
