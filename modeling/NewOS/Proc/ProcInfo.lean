import NewOS.Proc.Orphans

/-! # Listing the processes: `proc_get_proc_info` and `proc_get_next_proc_info`

`proc_get_proc_info` copies out the record of the process with a given id. A caller lists the
processes by calling `proc_get_next_proc_info` with cookie `0`, then with each cookie the call
wrote back, the `uint32` of the id of the process it returned. Each call walks `proc_hash` from
the start with `hash_open` and `hash_next`: it stops at the first record for cookie `0`, and
otherwise at the record after the first one whose id is the cookie read as a `proc_id`. The
order `hash_next` visits the records in is the table's own, from `hash.c` outside the tree: here
it is a parameter, the records of `proc_hash` in some order. -/
namespace NewOS
namespace Procs

/-- What `proc_get_proc_info` and `proc_get_next_proc_info` copy out; the name is not
modelled. -/
structure ProcInfo where
  pid : Int
  ppid : Int
  pgid : Int
  sid : Int
  state : ProcState
  numThreads : Int
  deriving DecidableEq, Repr

/-- The fields copied out of record `p` whose parent is `q`, under the id `id`. -/
def procInfo (ps : Procs) (id : Int) (p q : Nat) : ProcInfo :=
  ⟨id, ps.pid q, ps.pgid p, ps.sid p, ps.state p, ps.numThreads p⟩

/-- The fields copied out of record `p`: `ppid` is `p->parent->id`, and `none` the `NULL`
dereference of a missing parent. -/
def infoOf (ps : Procs) (id : Int) (p : Nat) : Option ProcInfo :=
  (ps.parent p).map (ps.procInfo id p)

/-- Models `proc_get_proc_info(id, &info)` under the process lock. -/
def procGetProcInfo (ps : Procs) (id : Int) : Option (Except KernErr ProcInfo) :=
  match ps.procGetProcStructLocked id with
  | none => some (.error .invalidHandle)
  | some p => (ps.infoOf id p).map .ok

/-- The `hash_next` loop of `proc_get_next_proc_info` over the records in visiting order: the
first record for id `0`; otherwise, at the first record whose id is `id`, the next one, `NULL`
after the last; `NULL` when no record has the id. -/
def nextProc (pid : Nat → Int) (id : Int) : List Nat → Option Nat
  | [] => none
  | p :: rest => if id = 0 then some p else if pid p = id then rest.head? else nextProc pid id rest

/-- `(uint32)id`, the cookie written back. -/
def toCookie (id : Int) : Nat := (id % 2 ^ 32).toNat

/-- Models `proc_get_next_proc_info(&cookie, &info)` under the process lock, `order` being the
records of `proc_hash` in the order `hash_next` visits them; `(proc_id)*cookie` reads the
cookie as a 32-bit `int`. On success it returns the `info` and the cookie it writes back. -/
def procGetNextProcInfo (ps : Procs) (order : List Nat) (cookie : Nat) :
    Option (Except KernErr (ProcInfo × Nat)) :=
  match nextProc ps.pid (wrap32 cookie) order with
  | none => some (.error .noMoreHandles)
  | some p => (ps.infoOf (ps.pid p) p).map fun info => .ok (info, toCookie (ps.pid p))

/-- The results of `n` calls of a listing from `cookie` on a state that does not change, each
call fed the cookie the one before it wrote back; a failed call leaves the cookie as it was. -/
def walkProcInfo (ps : Procs) (order : List Nat) :
    Nat → Nat → List (Option (Except KernErr (ProcInfo × Nat)))
  | 0, _ => []
  | n + 1, cookie =>
    let r := ps.procGetNextProcInfo order cookie
    r :: ps.walkProcInfo order n (match r with | some (.ok (_, c)) => c | _ => cookie)

/-- The cookie a listing holds after the records `pre`: `0` before any, then the id of the
last. -/
def cookieAfter (ps : Procs) (pre : List Nat) : Nat :=
  (pre.getLast?.map fun p => toCookie (ps.pid p)).getD 0

/-! ## Ids and cookies -/

theorem wrap32_toCookie {x : Int} (lo : -2 ^ 31 ≤ x) (hi : x < 2 ^ 31) :
    wrap32 (toCookie x) = x := by
  unfold wrap32 toCookie; omega

variable {ps : Procs}

theorem RecInv.pid_range (h : RecInv ps) {p : Nat} (hp : p ∈ ps.procHash) :
    -2 ^ 31 ≤ ps.pid p ∧ ps.pid p < 2 ^ 31 := by
  rw [h.pid_eq p (h.hash_lt p hp)]; unfold wrap32; omega

/-- Below `2^32` records, no record of `proc_hash` has the id `0`. -/
theorem RecInv.pid_ne_zero (h : RecInv ps) (hb : ps.nextRec < 2 ^ 32) {p : Nat}
    (hp : p ∈ ps.procHash) : ps.pid p ≠ 0 := by
  have hlt := h.hash_lt p hp
  rw [h.pid_eq p hlt]; unfold wrap32; omega

/-- Below `2^32` records, the records of `proc_hash` have distinct ids. -/
theorem RecInv.pid_inj (h : RecInv ps) (hb : ps.nextRec < 2 ^ 32) {p q : Nat}
    (hp : p ∈ ps.procHash) (hq : q ∈ ps.procHash) (he : ps.pid p = ps.pid q) : p = q := by
  have hp' := h.hash_lt p hp
  have hq' := h.hash_lt q hq
  rw [h.pid_eq p hp', h.pid_eq q hq'] at he; unfold wrap32 at he; omega

/-! ## One call -/

theorem nextProc_zero (pid : Nat → Int) (l : List Nat) : nextProc pid 0 l = l.head? := by
  cases l <;> rfl

theorem nextProc_of_not_mem {pid : Nat → Int} {id : Int} (h0 : id ≠ 0) :
    ∀ {l : List Nat}, (∀ p ∈ l, pid p ≠ id) → nextProc pid id l = none
  | [], _ => rfl
  | p :: l, h => by
    rw [nextProc, if_neg h0, if_neg (h p (List.mem_cons_self _ _))]
    exact nextProc_of_not_mem h0 fun q hq => h q (List.mem_cons_of_mem _ hq)

/-- The loop stops at the first record with the cookie's id and returns the one after it. -/
theorem nextProc_of_first {pid : Nat → Int} {x : Nat} {post : List Nat} (h0 : pid x ≠ 0) :
    ∀ {pre : List Nat}, (∀ p ∈ pre, pid p ≠ pid x) →
      nextProc pid (pid x) (pre ++ x :: post) = post.head?
  | [], _ => by simp [nextProc, h0]
  | p :: pre, h => by
    rw [List.cons_append, nextProc, if_neg h0, if_neg (h p (List.mem_cons_self _ _))]
    exact nextProc_of_first h0 fun q hq => h q (List.mem_cons_of_mem _ hq)

/-- A cookie other than `0` that is the id of no record ends the listing. -/
theorem procGetNextProcInfo_stale {order : List Nat} {cookie : Nat} (h0 : wrap32 cookie ≠ 0)
    (h : ∀ p ∈ order, ps.pid p ≠ wrap32 cookie) :
    ps.procGetNextProcInfo order cookie = some (.error .noMoreHandles) := by
  rw [procGetNextProcInfo, nextProc_of_not_mem h0 h]

section listing
variable {order : List Nat}
  (hid : ∀ p ∈ order, ps.pid p ≠ 0 ∧ -2 ^ 31 ≤ ps.pid p ∧ ps.pid p < 2 ^ 31)
  (hinj : (order.map ps.pid).Nodup)

include hid hinj in
/-- On records with distinct ids that are not `0` and fit an `int`, the cookie of the records
`pre` leads to the record after them. -/
theorem nextProc_cookieAfter {pre post : List Nat} (hl : order = pre ++ post) :
    nextProc ps.pid (wrap32 (ps.cookieAfter pre)) order = post.head? := by
  rcases pre.eq_nil_or_concat with rfl | ⟨pre, x, rfl⟩
  · simp [cookieAfter, wrap32, nextProc_zero, hl]
  rw [List.concat_eq_append] at hl ⊢
  obtain ⟨hx0, hlo, hhi⟩ := hid x (by simp [hl])
  have hfirst : ∀ p ∈ pre, ps.pid p ≠ ps.pid x := by
    rw [hl, List.map_append, List.map_append] at hinj
    intro p hp he
    exact List.disjoint_of_nodup_append (List.nodup_append.1 hinj).1 (List.mem_map_of_mem _ hp)
      (by rw [he]; simp)
  have hc : wrap32 (ps.cookieAfter (pre ++ [x])) = ps.pid x := by
    simp [cookieAfter, wrap32_toCookie hlo hhi]
  rw [hc, hl, List.append_assoc, List.singleton_append, nextProc_of_first hx0 hfirst]

include hid hinj in
/-- One call of a listing, with `par p` the parent of each record: with the cookie of the
records `pre`, the call returns the record after them, and `ERR_NO_MORE_HANDLES` after the
last. -/
theorem procGetNextProcInfo_cookieAfter {par : Nat → Nat}
    (hpar : ∀ p ∈ order, ps.parent p = some (par p)) {pre post : List Nat}
    (hl : order = pre ++ post) :
    ps.procGetNextProcInfo order (ps.cookieAfter pre) =
      match post with
      | [] => some (.error .noMoreHandles)
      | p :: _ => some (.ok (ps.procInfo (ps.pid p) p (par p), toCookie (ps.pid p))) := by
  rw [procGetNextProcInfo, nextProc_cookieAfter hid hinj hl]
  cases post with
  | nil => rfl
  | cons p post => simp [infoOf, hpar p (by simp [hl])]

include hid hinj in
/-- A listing over records with distinct ids that are not `0` and fit an `int`, on a state that
does not change, with `par p` the parent of each record: from the cookie of the records `pre`,
the calls return each record after them once, in visiting order, and then
`ERR_NO_MORE_HANDLES`. -/
theorem walkProcInfo_cookieAfter {par : Nat → Nat}
    (hpar : ∀ p ∈ order, ps.parent p = some (par p)) :
    ∀ {post pre : List Nat}, order = pre ++ post →
      ps.walkProcInfo order (post.length + 1) (ps.cookieAfter pre) =
        post.map (fun p => some (.ok (ps.procInfo (ps.pid p) p (par p), toCookie (ps.pid p)))) ++
          [some (.error .noMoreHandles)]
  | [], pre, hl => by
    rw [List.length_nil, walkProcInfo, procGetNextProcInfo_cookieAfter hid hinj hpar hl]; rfl
  | p :: post, pre, hl => by
    have hl' : order = (pre ++ [p]) ++ post := by simp [hl]
    have hc : ps.cookieAfter (pre ++ [p]) = toCookie (ps.pid p) := by simp [cookieAfter]
    rw [List.length_cons, walkProcInfo, procGetNextProcInfo_cookieAfter hid hinj hpar hl]
    dsimp only
    rw [← hc, walkProcInfo_cookieAfter hpar hl', hc]
    rfl

end listing

/-! ## A record with id `0` -/

/-- At an id other than `0` that a record of `pre` has, the loop stops within `pre`, or at the
record `z` after it. -/
theorem nextProc_of_mem_pre {pid : Nat → Int} {id : Int} {z : Nat} {post : List Nat}
    (h0 : id ≠ 0) : ∀ {pre : List Nat}, (∃ y ∈ pre, pid y = id) →
      ∃ x, nextProc pid id (pre ++ z :: post) = some x ∧ (x ∈ pre ∨ x = z)
  | [], ⟨_, hy, _⟩ => absurd hy (List.not_mem_nil _)
  | y :: pre, ⟨y', hy', he⟩ => by
    rw [List.cons_append, nextProc, if_neg h0]
    split_ifs with hy
    · cases pre with
      | nil => exact ⟨z, rfl, .inr rfl⟩
      | cons x _ => exact ⟨x, rfl, .inl (List.mem_cons_of_mem _ (List.mem_cons_self _ _))⟩
    · rcases List.mem_cons.1 hy' with rfl | hy'
      · exact absurd he hy
      · obtain ⟨x, hx, hm⟩ := nextProc_of_mem_pre h0 ⟨y', hy', he⟩
        exact ⟨x, hx, hm.imp_left (List.mem_cons_of_mem _)⟩

section restart
variable {order pre post : List Nat} {z : Nat}
  (hl : order = pre ++ z :: post) (hz : ps.pid z = 0) (hpre : ∀ y ∈ pre, ps.pid y ≠ 0)
  (hrange : ∀ p ∈ order, -2 ^ 31 ≤ ps.pid p ∧ ps.pid p < 2 ^ 31)
  (hpar : ∀ p ∈ order, ∃ q, ps.parent p = some q)

include hl hpre hrange hpar in
/-- With `z` the first record of the visiting order with id `0`, a call whose cookie is `0` or
the cookie of a record before `z` returns a record before `z`, or `z` itself. -/
theorem procGetNextProcInfo_before_zero {c : Nat}
    (hc : c = 0 ∨ ∃ y ∈ pre, c = toCookie (ps.pid y)) :
    ∃ x info, ps.procGetNextProcInfo order c = some (.ok (info, toCookie (ps.pid x))) ∧
      (x ∈ pre ∨ x = z) := by
  obtain ⟨x, hx, hm⟩ : ∃ x, nextProc ps.pid (wrap32 c) order = some x ∧ (x ∈ pre ∨ x = z) := by
    rcases hc with rfl | ⟨y, hy, rfl⟩
    · rw [show wrap32 ((0 : Nat) : Int) = 0 from rfl, nextProc_zero, hl]
      cases pre with
      | nil => exact ⟨z, rfl, .inr rfl⟩
      | cons x _ => exact ⟨x, rfl, .inl (List.mem_cons_self _ _)⟩
    · have hyo : y ∈ order := by simp [hl, hy]
      rw [wrap32_toCookie (hrange y hyo).1 (hrange y hyo).2, hl]
      exact nextProc_of_mem_pre (hpre y hy) ⟨y, hy, rfl⟩
  have hxo : x ∈ order := by
    rw [hl]; rcases hm with hm | rfl
    · exact List.mem_append_left _ hm
    · exact List.mem_append_right _ (List.mem_cons_self _ _)
  obtain ⟨q, hq⟩ := hpar x hxo
  exact ⟨x, ps.procInfo (ps.pid x) x q, by simp [procGetNextProcInfo, hx, infoOf, hq], hm⟩

include hl hz hpre hrange hpar in
/-- A listing over records of which `z` is the first with id `0`, on a state that does not
change: every call returns a record before `z` or `z` itself, whose cookie `0` starts the
listing over, so no call ever returns `ERR_NO_MORE_HANDLES`. -/
theorem walkProcInfo_restarts :
    ∀ (n : Nat) {c : Nat}, (c = 0 ∨ ∃ y ∈ pre, c = toCookie (ps.pid y)) →
      ∀ r ∈ ps.walkProcInfo order n c, ∃ info c', r = some (.ok (info, c'))
  | 0, _, _ => by simp [walkProcInfo]
  | n + 1, c, hc => by
    obtain ⟨x, info, he, hm⟩ := procGetNextProcInfo_before_zero hl hpre hrange hpar hc
    intro r hr
    rw [walkProcInfo, he] at hr
    rcases List.mem_cons.1 hr with rfl | hr
    · exact ⟨_, _, rfl⟩
    · refine walkProcInfo_restarts n ?_ r hr
      rcases hm with hm | rfl
      · exact .inr ⟨x, hm, rfl⟩
      · exact .inl (by rw [hz]; rfl)

end restart

end Procs

namespace Kernel
open Procs
variable {P : Priorities} {ncpu : Nat} {ok : Op → Prop} {k k' : Kernel}

/-- Every process of a reachable state below `2^32` records has a parent in `proc_hash`. -/
theorem parent_of_reachable (hk : Reachable P ncpu ok k) (hb : k.procs.nextRec < 2 ^ 32)
    {p : Nat} (hp : p ∈ k.procs.procHash) :
    ∃ q, k.procs.parent p = some q ∧ q ∈ k.procs.procHash :=
  (treeInv_of_reachable hk hb.le).parent_mem p hp

/-- In every reachable state below `2^32` process records, `proc_get_proc_info` never
dereferences a `NULL` parent: it returns `ERR_INVALID_HANDLE` exactly when no process has the
id, and otherwise the record of the one process with that id, with its parent's id as
`ppid`. -/
theorem procGetProcInfo_of_reachable (hk : Reachable P ncpu ok k)
    (hb : k.procs.nextRec < 2 ^ 32) (id : Int) :
    (k.procs.procGetProcInfo id = some (.error .invalidHandle) ↔
      ∀ p ∈ k.procs.procHash, k.procs.pid p ≠ id) ∧
    ∀ p ∈ k.procs.procHash, k.procs.pid p = id → ∃ q ∈ k.procs.procHash,
      k.procs.parent p = some q ∧ k.procs.procGetProcInfo id = some (.ok (k.procs.procInfo id p q)) := by
  have hr := recInv_of_reachable hk
  unfold procGetProcInfo procGetProcStructLocked
  cases hf : k.procs.procHash.find? fun p => decide (k.procs.pid p = id) with
  | none =>
    have hne : ∀ p ∈ k.procs.procHash, k.procs.pid p ≠ id := by
      simpa using List.find?_eq_none.1 hf
    exact ⟨iff_of_true rfl hne, fun p hp he => absurd he (hne p hp)⟩
  | some p =>
    have hp := List.mem_of_find?_eq_some hf
    have he : k.procs.pid p = id := by simpa using List.find?_some hf
    obtain ⟨q, hq, hqm⟩ := parent_of_reachable hk hb hp
    refine ⟨iff_of_false (by simp [infoOf, hq]) fun h => h p hp he, fun p' hp' he' => ?_⟩
    obtain rfl := hr.pid_inj hb hp' hp (he'.trans he.symm)
    exact ⟨q, hqm, hq, by simp [infoOf, hq]⟩

/-- In the state of `exit_run`, the lookup of id 3 finds record 2. -/
theorem procGetProcInfo_of_reachable_exit_run :
    ∃ k, Reachable Priorities.sample 1 (fun _ => True) k ∧ k.procs.nextRec < 2 ^ 32 ∧
      (k.procs.procGetProcInfo 3 = some (.error .invalidHandle) ↔
        ∀ p ∈ k.procs.procHash, k.procs.pid p ≠ 3) ∧
      ∀ p ∈ k.procs.procHash, k.procs.pid p = 3 → ∃ q ∈ k.procs.procHash,
        k.procs.parent p = some q ∧ k.procs.procGetProcInfo 3 = some (.ok (k.procs.procInfo 3 p q)) := by
  obtain ⟨k, hrun, -⟩ := exit_run
  have hk := exit_run_reachable hrun
  have hb : k.procs.nextRec < 2 ^ 32 := by rw [Option.some.inj (hrun.symm.trans rfl)]; decide
  exact ⟨k, hk, hb, procGetProcInfo_of_reachable hk hb 3⟩

/-- In every reachable state below `2^32` process records, and whatever order `hash_next` visits
`proc_hash` in, a listing on a state that does not change returns each process once, under
distinct ids and with its parent's id as `ppid` (a process of `proc_hash`, so the dereference of
`p->parent` never fails), and then `ERR_NO_MORE_HANDLES`. -/
theorem walkProcInfo_lists_all (hk : Reachable P ncpu ok k) (hb : k.procs.nextRec < 2 ^ 32)
    {order : List Nat} (ho : order.Perm k.procs.procHash) :
    (order.map k.procs.pid).Nodup ∧ ∃ par : Nat → Nat,
      (∀ p ∈ order, k.procs.parent p = some (par p) ∧ par p ∈ k.procs.procHash) ∧
      k.procs.walkProcInfo order (order.length + 1) 0 =
        order.map (fun p => some (.ok (k.procs.procInfo (k.procs.pid p) p (par p),
          toCookie (k.procs.pid p)))) ++ [some (.error .noMoreHandles)] := by
  have hr := recInv_of_reachable hk
  have hmem : ∀ p ∈ order, p ∈ k.procs.procHash := fun p hp => ho.subset hp
  have hinj : (order.map k.procs.pid).Nodup :=
    (ho.nodup_iff.2 (treeInv_of_reachable hk hb.le).hash_nodup).map_on
      fun p hp q hq => hr.pid_inj hb (hmem p hp) (hmem q hq)
  have hpar : ∀ p ∈ order, k.procs.parent p = some ((k.procs.parent p).getD p) ∧
      (k.procs.parent p).getD p ∈ k.procs.procHash := fun p hp => by
    obtain ⟨q, hq, hqm⟩ := parent_of_reachable hk hb (hmem p hp)
    simpa [hq] using hqm
  have hw := walkProcInfo_cookieAfter
    (fun p hp => ⟨hr.pid_ne_zero hb (hmem p hp), hr.pid_range (hmem p hp)⟩) hinj
    (fun p hp => (hpar p hp).1) (List.nil_append order).symm
  exact ⟨hinj, _, hpar, hw⟩

/-- On one CPU, the state of `exit_run` holds four processes; their listing returns each once
and then `ERR_NO_MORE_HANDLES`. -/
theorem walkProcInfo_lists_all_exit_run :
    ∃ k, Reachable Priorities.sample 1 (fun _ => True) k ∧ k.procs.nextRec < 2 ^ 32 ∧
      k.procs.procHash = [3, 2, 1, 0] ∧
      (k.procs.procHash.map k.procs.pid).Nodup ∧ ∃ par : Nat → Nat,
        (∀ p ∈ k.procs.procHash, k.procs.parent p = some (par p) ∧ par p ∈ k.procs.procHash) ∧
        k.procs.walkProcInfo k.procs.procHash (k.procs.procHash.length + 1) 0 =
          k.procs.procHash.map (fun p => some (.ok (k.procs.procInfo (k.procs.pid p) p (par p),
            toCookie (k.procs.pid p)))) ++ [some (.error .noMoreHandles)] := by
  obtain ⟨k, hrun, -⟩ := exit_run
  have hk := exit_run_reachable hrun
  have hb : k.procs.nextRec < 2 ^ 32 := by rw [Option.some.inj (hrun.symm.trans rfl)]; decide
  exact ⟨k, hk, hb, by rw [Option.some.inj (hrun.symm.trans rfl)]; decide,
    walkProcInfo_lists_all hk hb (List.Perm.refl _)⟩

/-- In every reachable state below `2^32` process records, when the process a listing returned
last is torn down before the next call, that call returns `ERR_NO_MORE_HANDLES` whatever order
`hash_next` visits the remaining processes in: no process has the cookie's id any more, so the
loop runs to the end of the table. The listing ends early, and the processes it had not reached
yet are never returned. -/
theorem teardown_ends_listing (hk : Reachable P ncpu ok k) (hb : k.procs.nextRec < 2 ^ 32)
    {p : Nat} (hs : step P ncpu k (.teardown p) = some k') {order : List Nat}
    (ho : order.Perm k'.procs.procHash) :
    k'.procs.procGetNextProcInfo order (toCookie (k.procs.pid p)) = some (.error .noMoreHandles) := by
  have hr := recInv_of_reachable hk
  simp only [step] at hs
  split_ifs at hs with hc
  obtain ⟨ps', htd, rfl⟩ := Option.map_eq_some'.1 hs
  have e := teardown_frame htd
  have hpid : ps'.pid = k.procs.pid := by rw [e]
  have hhash : ps'.procHash = k.procs.procHash.erase p := by rw [e]
  have hp0 := hr.pid_ne_zero hb hc.1
  obtain ⟨hlo, hhi⟩ := hr.pid_range hc.1
  refine procGetNextProcInfo_stale (by rwa [wrap32_toCookie hlo hhi]) fun q hq he => ?_
  rw [wrap32_toCookie hlo hhi, hpid] at he
  rw [ho.mem_iff, hhash] at hq
  have hq' := ((treeInv_of_reachable hk hb.le).hash_nodup.mem_erase_iff).1 hq
  exact hq'.1 (hr.pid_inj hb hq'.2 hc.1 he)

/-- In the run of `exit_run`, a listing in `proc_hash` order has returned process 4 (record 3)
and then process 3 (record 2), which is torn down before the next call: the next call returns
`ERR_NO_MORE_HANDLES`, and records 1 and 0, still in `proc_hash`, are never returned. -/
theorem teardown_ends_listing_exit_run :
    ∃ k k', Reachable Priorities.sample 1 (fun _ => True) k ∧ k.procs.nextRec < 2 ^ 32 ∧
      step Priorities.sample 1 k (.teardown 2) = some k' ∧ k.procs.procHash = [3, 2, 1, 0] ∧
      k'.procs.procHash = [3, 1, 0] ∧
      k'.procs.procGetNextProcInfo k'.procs.procHash (toCookie (k.procs.pid 2)) =
        some (.error .noMoreHandles) := by
  obtain ⟨k, hrun, k', hs, -⟩ := exit_run
  have hk := exit_run_reachable hrun
  have hb : k.procs.nextRec < 2 ^ 32 := by rw [Option.some.inj (hrun.symm.trans rfl)]; decide
  refine ⟨k, k', hk, hb, hs, ?_, ?_, teardown_ends_listing hk hb hs (List.Perm.refl _)⟩
  · rw [Option.some.inj (hrun.symm.trans rfl)]; decide
  · obtain rfl := Option.some.inj (hrun.symm.trans rfl)
    rw [Option.some.inj (hs.symm.trans rfl)]; decide

/-- In every reachable state below `2^32 + 1` process records in which some process has the id
`0`, which `proc_hash` holds once `2^32 - 1` processes have been created, a listing from cookie
`0` on a state that does not change never ends, whatever order `hash_next` visits `proc_hash`
in: every call returns a process, for the cookie `0` written back after the process with id `0`
starts the listing over. -/
theorem walkProcInfo_never_ends (hk : Reachable P ncpu ok k) (hb : k.procs.nextRec ≤ 2 ^ 32)
    {order : List Nat} (ho : order.Perm k.procs.procHash)
    (hz : ∃ p ∈ k.procs.procHash, k.procs.pid p = 0) (n : Nat) :
    ∀ r ∈ k.procs.walkProcInfo order n 0, ∃ info c, r = some (.ok (info, c)) := by
  have hr := recInv_of_reachable hk
  have ht := treeInv_of_reachable hk hb
  obtain ⟨z, hfz⟩ : ∃ z, order.find? (fun p => decide (k.procs.pid p = 0)) = some z := by
    obtain ⟨p, hp, hp0⟩ := hz
    exact Option.isSome_iff_exists.1 (List.find?_isSome.2 ⟨p, ho.mem_iff.2 hp, by simpa using hp0⟩)
  obtain ⟨hz0, pre, post, hl, hpre⟩ := List.find?_eq_some.1 hfz
  exact walkProcInfo_restarts hl (by simpa using hz0) (fun y hy => by simpa using hpre y hy)
    (fun p hp => hr.pid_range (ho.subset hp))
    (fun p hp => (ht.parent_mem p (ho.subset hp)).imp fun _ h => h.1) n (.inl rfl)

/-- On one CPU, `2^32 - 2` rounds of `wrapRound` and one more process creation leave record
`2^32 - 1`, whose id `2^32` wraps to `0`, in `proc_hash`: a listing in `proc_hash` order never
ends. -/
theorem walkProcInfo_never_ends_wrap :
    ∃ k, Reachable Priorities.sample 1 (fun _ => True) k ∧ k.procs.nextRec ≤ 2 ^ 32 ∧
      (∃ p ∈ k.procs.procHash, k.procs.pid p = 0) ∧
      ∀ n, ∀ r ∈ k.procs.walkProcInfo k.procs.procHash n 0, ∃ info c, r = some (.ok (info, c)) := by
  obtain ⟨k, -, hk, hn, -, hcp, hnt⟩ := run_wrapRounds (c := 0) (by decide) (2 ^ 32 - 2) _
    (Reachable.init : Reachable Priorities.sample 1 (fun _ => True) _) rfl (by decide) (by decide)
  have hrec : k.procs.nextRec = 2 ^ 32 - 1 := hn.trans (by decide)
  obtain ⟨k', hs, hn', -, -, hmem, -, -⟩ := step_createProc_ok hk (by decide) hcp
    (recInv_of_reachable hk).kernel_mem false false le_rfl (by rw [hnt]; decide)
  have hk' := hk.step trivial hs
  have hb : k'.procs.nextRec ≤ 2 ^ 32 := by rw [hn', hrec]; decide
  have hz : ∃ p ∈ k'.procs.procHash, k'.procs.pid p = 0 := by
    refine ⟨k.procs.nextRec, by rw [hmem]; exact List.mem_cons_self _ _, ?_⟩
    rw [(recInv_of_reachable hk').pid_eq _ (by rw [hn']; exact Nat.lt_succ_self _), hrec]
    decide
  exact ⟨k', hk', hb, hz, fun n => walkProcInfo_never_ends hk' hb (List.Perm.refl _) hz n⟩

end Kernel
end NewOS
