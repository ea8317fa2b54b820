import NewOS.Kernel

/-! # Walking a process's threads: `thread_get_next_thread_info`

A caller walks the threads of a process by calling `thread_get_next_thread_info` with cookie `0`
and then with each cookie the previous call wrote back, a thread id. The search for the thread
after the cookie's is a `list_for_every_entry` loop over the process's `thread_list`. The
macros come from `include/list.h`, outside the source tree: `list_for_every_entry` stops when
its cursor's node is the list head itself, so a loop that finds no match leaves the cursor at
the list head's container, `&p->thread_list` read as a `struct thread`, and not at `NULL`;
`list_next_type` gives the next entry, or `NULL` after the last one. -/
namespace NewOS
namespace Kernel

/-- Where the cursor `t` points once the search is over, when it is not `NULL`: a thread record,
or the container of process `p`'s list head. -/
inductive InfoSource
  | thread (t : Nat)
  | listHead (p : Nat)
  deriving DecidableEq, Repr

/-- The `list_for_every_entry` search of a `thread_list` for the thread with id `cookie`: at the
first match, `list_next_type` gives the entry after it, `NULL` after the last one; a loop that
runs to its end leaves the cursor at the container of `p`'s list head. -/
def findAfter (tid : Nat → Int) (cookie : Int) (p : Nat) : List Nat → Option InfoSource
  | [] => some (.listHead p)
  | t :: rest => if tid t = cookie then rest.head?.map .thread else findAfter tid cookie p rest

/-- The cursor of `thread_get_next_thread_info` in process `p`: the head of `thread_list` for
cookie `0` (`NULL` for an empty list), else the search for the entry after the cookie's. -/
def nextEntry (k : Kernel) (cookie : Int) (p : Nat) : Option InfoSource :=
  if cookie = 0 then (k.procs.threadList p).head?.map .thread
  else findAfter k.sched.tid cookie p (k.procs.threadList p)

/-- The fields `thread_get_next_thread_info` copies from thread `t` of process `q`. -/
def infoOf (k : Kernel) (t q : Nat) : ThreadInfo :=
  ⟨k.sched.tid t, k.procs.pid q, k.sched.state t, k.sched.priority t, k.sched.userTime t,
    k.sched.kernelTime t⟩

/-- The `info` read through the cursor. For a thread, its fields and `t->proc->id` (`none` is the
`NULL` dereference of `t->proc`); for the list head's container, the words of `struct proc` at
the offsets of `struct thread`'s fields, which the model leaves as `overlay p`, `none` where the
word read as `t->proc` is `NULL`. -/
def readInfo (k : Kernel) (overlay : Nat → Option ThreadInfo) : InfoSource → Option ThreadInfo
  | .thread t => (k.procs.threadProc t).map (infoOf k t)
  | .listHead p => overlay p

/-- Models `thread_get_next_thread_info(&cookie, pid, &info)` under the process lock. On
`NO_ERROR` it returns the `info` it copies out and the cookie it writes back, `t->id` read
through the same cursor; on an error it writes neither. -/
def threadGetNextThreadInfo (k : Kernel) (overlay : Nat → Option ThreadInfo) (cookie pid : Int) :
    Option (Except KernErr (ThreadInfo × Int)) :=
  match k.procs.procGetProcStructLocked pid with
  | none => some (.error .invalidHandle)
  | some p =>
    match k.nextEntry cookie p with
    | none => some (.error .notFound)
    | some src => (k.readInfo overlay src).map fun info => .ok (info, info.id)

variable {k : Kernel} {overlay : Nat → Option ThreadInfo} {tid : Nat → Int} {cookie pid : Int} {p : Nat}

/-! ## The search -/

theorem findAfter_of_not_mem {l : List Nat} (h : ∀ t ∈ l, tid t ≠ cookie) :
    findAfter tid cookie p l = some (.listHead p) := by
  induction l with
  | nil => rfl
  | cons t l ih =>
    rw [findAfter, if_neg (h t (List.mem_cons_self _ _))]
    exact ih fun u hu => h u (List.mem_cons_of_mem _ hu)

/-- The search stops at the first thread with the cookie's id. -/
theorem findAfter_of_first {pre post : List Nat} {x : Nat} (h : ∀ t ∈ pre, tid t ≠ tid x) :
    findAfter tid (tid x) p (pre ++ x :: post) = post.head?.map .thread := by
  induction pre with
  | nil => simp [findAfter]
  | cons t pre ih =>
    rw [List.cons_append, findAfter, if_neg (h t (List.mem_cons_self _ _))]
    exact ih fun u hu => h u (List.mem_cons_of_mem _ hu)

/-- A cookie other than `0` that is the id of no thread on the list never gives `NULL`: the
search finds no match and leaves the cursor at the list head's container. -/
theorem nextEntry_of_stale (h0 : cookie ≠ 0) (h : ∀ t ∈ k.procs.threadList p, k.sched.tid t ≠ cookie) :
    k.nextEntry cookie p = some (.listHead p) := by
  rw [nextEntry, if_neg h0, findAfter_of_not_mem h]

/-! ## One call -/

/-- `thread_get_next_thread_info` with a stale cookie, not `0` and the id of no thread on the
process's list (a thread that exited since the previous call, say): the search runs to the end
of the list and leaves its cursor at the list head's container, which is not `NULL`. The call
never returns `ERR_NOT_FOUND`: it faults in `t->proc->id` where the process record's word read as
`t->proc` is `NULL`, and otherwise returns `NO_ERROR` with the record's words as `info` and the
word at the offset of `id` as the cookie. -/
theorem stale_cookie_never_not_found (k : Kernel) (overlay : Nat → Option ThreadInfo)
    {cookie pid : Int} {p : Nat} (hp : k.procs.procGetProcStructLocked pid = some p)
    (h0 : cookie ≠ 0) (hstale : ∀ t ∈ k.procs.threadList p, k.sched.tid t ≠ cookie) :
    k.threadGetNextThreadInfo overlay cookie pid = (overlay p).map (fun info => .ok (info, info.id)) ∧
      k.threadGetNextThreadInfo overlay cookie pid ≠ some (.error .notFound) := by
  have h : k.threadGetNextThreadInfo overlay cookie pid =
      (overlay p).map (fun info => .ok (info, info.id)) := by
    simp only [threadGetNextThreadInfo, hp, nextEntry_of_stale h0 hstale, readInfo]
  refine ⟨h, fun he => ?_⟩
  rw [h] at he
  obtain ⟨_, -, he⟩ := Option.map_eq_some'.1 he
  cases he

/-- One CPU: the kernel process (id 1) creates a thread (id 2); its threads have ids 2 and 1, so
the cookie 5 is stale, and the call returns `NO_ERROR` and the process record's words. -/
theorem stale_cookie_never_not_found_createThread :
    ∃ k, run Priorities.sample 1 (init Priorities.sample 1) [.createThread 1] = some k ∧
      k.procs.procGetProcStructLocked 1 = some 0 ∧ (5 : Int) ≠ 0 ∧
      (∀ t ∈ k.procs.threadList 0, k.sched.tid t ≠ 5) ∧
      k.threadGetNextThreadInfo (fun _ => some ⟨0, 0, .birth, 0, 0, 0⟩) 5 1 =
        some (.ok (⟨0, 0, .birth, 0, 0, 0⟩, 0)) ∧
      k.threadGetNextThreadInfo (fun _ => some ⟨0, 0, .birth, 0, 0, 0⟩) 5 1 ≠
        some (.error .notFound) := by
  have hrun : run Priorities.sample 1 (init Priorities.sample 1) [.createThread 1] = some _ := rfl
  exact ⟨_, hrun, by decide, by decide, by decide,
    stale_cookie_never_not_found _ _ (p := 0) (by decide) (by decide) (by decide)⟩

/-- The cookie a walk holds after the threads `pre`: `0` before any, then the id of the last. -/
def cookieAfter (k : Kernel) (pre : List Nat) : Int := (pre.getLast?.map k.sched.tid).getD 0

section walk
variable (hnz : ∀ t ∈ k.procs.threadList p, k.sched.tid t ≠ 0)
  (hinj : ((k.procs.threadList p).map k.sched.tid).Nodup)

include hnz hinj in
/-- On a list whose thread ids are distinct and not `0`, the cookie of the threads `pre` leads
to the entry after them. -/
theorem nextEntry_cookieAfter {pre post : List Nat} (hl : k.procs.threadList p = pre ++ post) :
    k.nextEntry (k.cookieAfter pre) p = post.head?.map .thread := by
  rcases pre.eq_nil_or_concat with rfl | ⟨pre, x, rfl⟩
  · simp [nextEntry, cookieAfter, hl]
  rw [List.concat_eq_append] at hl ⊢
  have hx : x ∈ k.procs.threadList p := by simp [hl]
  have hfirst : ∀ t ∈ pre, k.sched.tid t ≠ k.sched.tid x := by
    rw [hl, List.map_append, List.map_append] at hinj
    intro t ht he
    exact List.disjoint_of_nodup_append (List.nodup_append.1 hinj).1 (List.mem_map_of_mem _ ht)
      (by rw [he]; simp)
  have hc : k.cookieAfter (pre ++ [x]) = k.sched.tid x := by simp [cookieAfter]
  rw [hc, nextEntry, if_neg (hnz x hx), hl, List.append_assoc, List.singleton_append,
    findAfter_of_first hfirst]

include hnz hinj in
/-- One call of a walk, on a process whose threads have distinct ids other than `0` and all link
back to it: with the cookie `0` the call returns the first thread of `thread_list`, with the id of
a thread of the list the thread after it, and after the last one `ERR_NOT_FOUND`. -/
theorem threadGetNextThreadInfo_cookieAfter (hp : k.procs.procGetProcStructLocked pid = some p)
    (hproc : ∀ t ∈ k.procs.threadList p, k.procs.threadProc t = some p) {pre post : List Nat}
    (hl : k.procs.threadList p = pre ++ post) :
    k.threadGetNextThreadInfo overlay (k.cookieAfter pre) pid =
      some (match post with
        | [] => .error .notFound
        | t :: _ => .ok (k.infoOf t p, k.sched.tid t)) := by
  simp only [threadGetNextThreadInfo, hp, nextEntry_cookieAfter hnz hinj hl]
  cases post with
  | nil => rfl
  | cons t post => simp [readInfo, hproc t (by simp [hl]), infoOf]

end walk

/-- One CPU: the kernel process creates a thread (record 1, id 2), which goes to the head of its
`thread_list`, before idle thread 0 (id 1). The cookie of idle thread 0 ends the walk. -/
theorem threadGetNextThreadInfo_cookieAfter_createThread :
    ∃ k, run Priorities.sample 1 (init Priorities.sample 1) [.createThread 1] = some k ∧
      k.procs.threadList 0 = [1, 0] ∧
      k.threadGetNextThreadInfo (fun _ => some ⟨0, 0, .birth, 0, 0, 0⟩) (k.cookieAfter [1, 0]) 1 =
        some (.error .notFound) := by
  have hrun : run Priorities.sample 1 (init Priorities.sample 1) [.createThread 1] = some _ := rfl
  exact ⟨_, hrun, by decide, @threadGetNextThreadInfo_cookieAfter _ _ _ 0 (by decide) (by decide)
    (by decide) (by decide) _ [] (by decide)⟩

/-! ## A whole walk -/

/-- The results of `n` calls of a walk from `cookie`, each call fed the cookie the one before it
wrote back; a failed call leaves the cookie as it was. -/
def walk (k : Kernel) (overlay : Nat → Option ThreadInfo) (pid : Int) :
    Nat → Int → List (Option (Except KernErr (ThreadInfo × Int)))
  | 0, _ => []
  | n + 1, cookie =>
    let r := k.threadGetNextThreadInfo overlay cookie pid
    r :: walk k overlay pid n (match r with | some (.ok (_, c)) => c | _ => cookie)

/-- A walk from cookie `0` over a process whose `thread_list` does not change, whose threads have
distinct ids other than `0` and all link back to it: every thread is returned once, in list
order, and the next call returns `ERR_NOT_FOUND`. -/
theorem walk_threads (hp : k.procs.procGetProcStructLocked pid = some p)
    (hnz : ∀ t ∈ k.procs.threadList p, k.sched.tid t ≠ 0)
    (hinj : ((k.procs.threadList p).map k.sched.tid).Nodup)
    (hproc : ∀ t ∈ k.procs.threadList p, k.procs.threadProc t = some p) :
    k.walk overlay pid ((k.procs.threadList p).length + 1) 0 =
      (k.procs.threadList p).map (fun t => some (.ok (k.infoOf t p, k.sched.tid t))) ++
        [some (.error .notFound)] := by
  suffices key : ∀ post pre, k.procs.threadList p = pre ++ post →
      k.walk overlay pid (post.length + 1) (k.cookieAfter pre) =
        post.map (fun t => some (.ok (k.infoOf t p, k.sched.tid t))) ++ [some (.error .notFound)] from
    key _ [] rfl
  intro post
  induction post with
  | nil =>
    intro pre hl
    simp only [walk, threadGetNextThreadInfo_cookieAfter hnz hinj hp hproc hl]; rfl
  | cons t post ih =>
    intro pre hl
    have hl' : k.procs.threadList p = (pre ++ [t]) ++ post := by simp [hl]
    have hc : k.cookieAfter (pre ++ [t]) = k.sched.tid t := by simp [cookieAfter]
    rw [List.length_cons, walk, threadGetNextThreadInfo_cookieAfter hnz hinj hp hproc hl]
    dsimp only
    rw [← hc, ih _ hl', hc]
    rfl

/-- The walk of the kernel process after it created a thread: record 1 (id 2), then idle thread
0 (id 1), then `ERR_NOT_FOUND`. -/
theorem walk_threads_createThread :
    ∃ k, run Priorities.sample 1 (init Priorities.sample 1) [.createThread 1] = some k ∧
      k.procs.threadList 0 = [1, 0] ∧
      k.walk (fun _ => some ⟨0, 0, .birth, 0, 0, 0⟩) 1 ((k.procs.threadList 0).length + 1) 0 =
        (k.procs.threadList 0).map (fun t => some (.ok (k.infoOf t 0, k.sched.tid t))) ++
          [some (.error .notFound)] := by
  have hrun : run Priorities.sample 1 (init Priorities.sample 1) [.createThread 1] = some _ := rfl
  exact ⟨_, hrun, by decide, walk_threads (p := 0) (by decide) (by decide) (by decide) (by decide)⟩

end Kernel
end NewOS
