import NewOS.Thread.SchedInv
import NewOS.Kernel

/-! # The choice of `thread_resched`

What the search of `thread_resched` dequeues, for every content of the run queues as `putOld`
leaves them and every sequence of `_rand()` draws. Both bands are scanned from their top level
down: the real-time search is a `List.find?` over a strictly decreasing list, so its hit is the
highest non-empty level; the regular search is read through one lemma per outcome of
`regularScan`, each proved by the induction of `regularScan` itself. -/
namespace NewOS
namespace Sched
open Function

/-! ## Lists of levels counting down -/

section down
variable {top i : Int} {n : Nat}

theorem pairwise_down : ((List.range n).map fun k : Nat => top - k).Pairwise (· > ·) :=
  List.pairwise_map.2 ((List.pairwise_lt_range n).imp fun h => by omega)

end down

variable (P : Priorities) {q : Int → List Nat} {rand : Nat → Nat} {j : Int}

theorem regularLevels_eq :
    regularLevels P = (List.range (P.max - P.idle).toNat).map fun k : Nat => P.max - k :=
  (congrArg _ (List.flatMap_pure_eq_map _ _)).trans (List.map_map _ _ _)

/-- The levels of `ls` whose queue is non-empty, in scan order: the levels that take a draw. -/
def drawnLevels (q : Int → List Nat) (ls : List Int) : List Int :=
  ls.filter fun j => decide (q j ≠ [])

section scan
variable {ls : List Int} {i : Int}

@[simp] theorem drawnLevels_nil : drawnLevels q [] = [] := rfl

theorem drawnLevels_cons_of_empty (h : q i = []) : drawnLevels q (i :: ls) = drawnLevels q ls :=
  List.filter_cons_of_neg (by simpa using h)

theorem drawnLevels_cons (h : q i ≠ []) : drawnLevels q (i :: ls) = i :: drawnLevels q ls :=
  List.filter_cons_of_pos (by simpa using h)

theorem drawnLevels_eq_nil : drawnLevels q ls = [] ↔ ∀ j ∈ ls, q j = [] := by
  simp [drawnLevels]

@[simp] theorem drawnLevels_append {ls' : List Int} :
    drawnLevels q (ls ++ ls') = drawnLevels q ls ++ drawnLevels q ls' := List.filter_append ..

/-- A level the loop takes: every earlier non-empty level drew at most `0x3000`, and the level's
own draw is above it. -/
theorem regularScan_fst_some {k : Nat} {last : Option Int}
    (h : (regularScan q rand ls k last).1 = some i) :
    ∃ pre post, ls = pre ++ i :: post ∧ q i ≠ [] ∧
      (∀ m < (drawnLevels q pre).length, rand (k + m) ≤ 0x3000) ∧
      0x3000 < rand (k + (drawnLevels q pre).length) := by
  induction ls, k, last using regularScan.induct q rand with
  | case1 k last => simp [regularScan] at h
  | case2 l ls k last hl ih =>
    rw [regularScan, if_pos hl] at h
    obtain ⟨pre, post, rfl, hq, hle, hgt⟩ := ih h
    exact ⟨l :: pre, post, rfl, hq, by simpa [drawnLevels_cons_of_empty hl] using hle,
      by simpa [drawnLevels_cons_of_empty hl] using hgt⟩
  | case3 l ls k last hl hr =>
    rw [regularScan, if_neg hl, if_pos hr] at h
    cases h
    exact ⟨[], ls, rfl, hl, by simp, hr⟩
  | case4 l ls k last hl hr ih =>
    rw [regularScan, if_neg hl, if_neg hr] at h
    obtain ⟨pre, post, rfl, hq, hle, hgt⟩ := ih h
    refine ⟨l :: pre, post, rfl, hq, fun m hm => ?_, ?_⟩
    · rw [drawnLevels_cons hl, List.length_cons] at hm
      cases m with
      | zero => simpa using hr
      | succ m => simpa only [Nat.add_right_comm k 1 m, Nat.add_assoc] using hle m (by omega)
    · simpa only [drawnLevels_cons hl, List.length_cons, Nat.add_right_comm k 1,
        Nat.add_assoc] using hgt

/-- The loop takes no level: no draw was above `0x3000`, and the level it passed over last is
the last non-empty one, or `last` if there is none. -/
theorem regularScan_fst_none {k : Nat} {last : Option Int}
    (h : (regularScan q rand ls k last).1 = none) :
    (∀ m < (drawnLevels q ls).length, rand (k + m) ≤ 0x3000) ∧
      ((regularScan q rand ls k last).2 = last ∧ drawnLevels q ls = [] ∨
        ∃ pre j post, (regularScan q rand ls k last).2 = some j ∧ ls = pre ++ j :: post ∧
          q j ≠ [] ∧ drawnLevels q post = []) := by
  induction ls, k, last using regularScan.induct q rand with
  | case1 k last => simp [regularScan]
  | case2 l ls k last hl ih =>
    rw [regularScan, if_pos hl] at h ⊢
    rw [drawnLevels_cons_of_empty hl]
    obtain ⟨hle, hd | ⟨pre, j, post, hj, rfl, hq, hpost⟩⟩ := ih h
    · exact ⟨hle, .inl hd⟩
    · exact ⟨hle, .inr ⟨l :: pre, j, post, hj, rfl, hq, hpost⟩⟩
  | case3 l ls k last hl hr =>
    rw [regularScan, if_neg hl, if_pos hr] at h
    cases h
  | case4 l ls k last hl hr ih =>
    rw [regularScan, if_neg hl, if_neg hr] at h ⊢
    rw [drawnLevels_cons hl]
    obtain ⟨hle, hrest⟩ := ih h
    refine ⟨fun m hm => ?_, .inr ?_⟩
    · cases m with
      | zero => simpa using hr
      | succ m =>
        simpa only [Nat.add_right_comm k 1 m, Nat.add_assoc] using hle m (by simpa using hm)
    · rcases hrest with ⟨hj, hd⟩ | ⟨pre, j, post, hj, rfl, hq, hpost⟩
      · exact ⟨[], l, ls, hj, rfl, hl, hd⟩
      · exact ⟨l :: pre, j, post, hj, rfl, hq, hpost⟩

end scan

/-! ## The level `thread_resched` dequeues from -/

variable (rand)

theorem find?_rtLevels_of_empty (hrt : ∀ j ∈ rtLevels P, q j = []) :
    (rtLevels P).find? (fun i => decide (q i ≠ [])) = none :=
  List.find?_eq_none.2 fun j hj => by simpa using hrt j hj

/-- With the real-time band empty and a non-empty regular level, the search takes a non-empty
regular level: the first in scan order whose draw is above `0x3000`, or, when no draw is, the
last non-empty one. -/
theorem reschedLevel_of_regular (hrt : ∀ j ∈ rtLevels P, q j = [])
    (h : ∃ j ∈ regularLevels P, q j ≠ []) :
    ∃ pre post, regularLevels P = pre ++ reschedLevel P q rand :: post ∧
      q (reschedLevel P q rand) ≠ [] ∧
      (∀ m < (drawnLevels q pre).length, rand m ≤ 0x3000) ∧
      (0x3000 < rand (drawnLevels q pre).length ∨
        (∀ m < (drawnLevels q (regularLevels P)).length, rand m ≤ 0x3000) ∧
          drawnLevels q post = []) := by
  simp only [reschedLevel, find?_rtLevels_of_empty P hrt]
  rcases hs : regularScan q rand (regularLevels P) 0 none with ⟨_ | i, last⟩
  · have hn := regularScan_fst_none (by rw [hs])
    rw [hs] at hn
    obtain ⟨hle, ⟨-, hd⟩ | ⟨pre, j, post, rfl, hls, hq, hpost⟩⟩ := hn
    · obtain ⟨j, hj, hq⟩ := h
      exact absurd (drawnLevels_eq_nil.1 hd j hj) hq
    · have hlen : (drawnLevels q pre).length < (drawnLevels q (regularLevels P)).length := by
        simp [hls, drawnLevels_cons hq]
      have hle' : ∀ m < (drawnLevels q (regularLevels P)).length, rand m ≤ 0x3000 :=
        fun m hm => by simpa using hle m hm
      exact ⟨pre, post, hls, hq, fun m hm => hle' m (by omega), .inr ⟨hle', hpost⟩⟩
  · obtain ⟨pre, post, hls, hq, hle, hgt⟩ := regularScan_fst_some (by rw [hs])
    exact ⟨pre, post, hls, hq, fun m hm => by simpa using hle m hm, .inl (by simpa using hgt)⟩

/-- With the real-time band empty and every non-empty regular level skipped, the search falls back
to `last_thread_pri`, the last level the scan passed over: the lowest non-empty regular level. -/
theorem reschedLevel_of_skipped (hrt : ∀ j ∈ rtLevels P, q j = [])
    (hskip : ∀ m < (drawnLevels q (regularLevels P)).length, rand m ≤ 0x3000)
    (h : ∃ j ∈ regularLevels P, q j ≠ []) :
    reschedLevel P q rand ∈ regularLevels P ∧ q (reschedLevel P q rand) ≠ [] ∧
      ∀ j ∈ regularLevels P, q j ≠ [] → reschedLevel P q rand ≤ j := by
  obtain ⟨pre, post, hls, hne, -, hlast⟩ := reschedLevel_of_regular P rand hrt h
  have hpost : drawnLevels q post = [] := by
    refine hlast.elim (fun hgt => absurd (hskip (drawnLevels q pre).length ?_) (by omega)) (·.2)
    simp [hls, drawnLevels_cons hne]
  have hpw : (pre ++ reschedLevel P q rand :: post).Pairwise (· > ·) :=
    hls ▸ regularLevels_eq P ▸ pairwise_down
  refine ⟨by simp [hls], hne, fun j hj hq => ?_⟩
  rcases List.mem_append.1 (hls ▸ hj) with hj | hj
  · exact le_of_lt ((List.pairwise_append.1 hpw).2.2 j hj _ (List.mem_cons_self _ _))
  · rcases List.mem_cons.1 hj with rfl | hj
    · exact le_rfl
    · exact absurd (drawnLevels_eq_nil.1 hpost j hj) hq

/-! ## The dequeue -/

variable {rand} {s s' : Sched} {c : Nat} {now : Int}

theorem threadResched_eq_none :
    threadResched P s c rand now = none ↔
      (putOld P s (s.current c)).runQ
        (reschedLevel P (putOld P s (s.current c)).runQ rand) = [] := by
  simp only [threadResched]
  split
  · simpa
  · rename_i hq; simp only [hq, reduceCtorEq, iff_false]; split <;> simp

/-- A successful `thread_resched` removes the head of the chosen queue and nothing else, runs
it on the CPU, and gives it state `RUNNING` and `next_state` `READY`. -/
theorem threadResched_eq_some (h : threadResched P s c rand now = some s') :
    ∃ next rest, (putOld P s (s.current c)).runQ
        (reschedLevel P (putOld P s (s.current c)).runQ rand) = next :: rest ∧
      s'.runQ = update (putOld P s (s.current c)).runQ
        (reschedLevel P (putOld P s (s.current c)).runQ rand) rest ∧
      s'.current c = next ∧ s'.state next = .running ∧ s'.nextState next = .ready := by
  simp only [threadResched] at h
  split at h
  · cases h
  rename_i next rest hq
  refine ⟨next, rest, hq, ?_⟩
  split_ifs at h with hn <;> cases h
  · simp [hn]
  · simp

/-- The fallback of `thread_resched`, for every content of the run queues after the outgoing thread
is put back and every sequence of draws under which each non-empty regular level draws at most
`0x3000`: the loop overwrites `last_thread_pri` at every level it skips, so the head of the lowest
non-empty regular level is dequeued and runs, and any non-empty level above it, the highest
included, keeps its queue as it was. -/
theorem threadResched_fallback_lowest (s : Sched) (c : Nat) (rand : Nat → Nat) (now : Int)
    (q : Int → List Nat) (hq : (putOld P s (s.current c)).runQ = q) (lo hi : Int)
    (hrt : ∀ j ∈ rtLevels P, q j = [])
    (hskip : ∀ m < (drawnLevels q (regularLevels P)).length, rand m ≤ 0x3000)
    (hlo : lo ∈ regularLevels P) (hlh : lo < hi) (hqlo : q lo ≠ []) (hqhi : q hi ≠ []) :
    ∃ s' i next rest, threadResched P s c rand now = some s' ∧ q i = next :: rest ∧
      s'.current c = next ∧ i ∈ regularLevels P ∧ (∀ j ∈ regularLevels P, q j ≠ [] → i ≤ j) ∧
      i < hi ∧ s'.runQ hi = q hi := by
  subst hq
  obtain ⟨hmem, hne, hlow⟩ := reschedLevel_of_skipped P rand hrt hskip ⟨lo, hlo, hqlo⟩
  obtain ⟨s', hs'⟩ := Option.ne_none_iff_exists'.1 fun h => hne ((threadResched_eq_none P).1 h)
  obtain ⟨next, rest, hsel, hrunQ, hcur, -, -⟩ := threadResched_eq_some P hs'
  have hlt := (hlow lo hlo hqlo).trans_lt hlh
  exact ⟨s', _, next, rest, hs', hsel, hcur, hmem, hlow, hlt, by rw [hrunQ, update_noteq hlt.ne']⟩

/-- On one CPU, threads 1 and 2 are created, woken, and given priorities 10 and 5. With every draw
`0`, the reschedule dispatches thread 2 from level 5, and thread 1 stays queued at level 10. -/
theorem threadResched_fallback_lowest_run :
    ∃ k, Kernel.run Priorities.sample 1 (Kernel.init Priorities.sample 1)
        [.createThread 1, .createThread 1, .wakeUp 1, .wakeUp 2, .setPriority 0 2 10,
          .setPriority 0 3 5] = some k ∧
      (putOld Priorities.sample k.sched (k.sched.current 0)).runQ 10 = [1] ∧
      (putOld Priorities.sample k.sched (k.sched.current 0)).runQ 5 = [2] ∧
      ∃ s' i next rest, threadResched Priorities.sample k.sched 0 (fun _ => 0) 0 = some s' ∧
        (putOld Priorities.sample k.sched (k.sched.current 0)).runQ i = next :: rest ∧
        s'.current 0 = next ∧ i ∈ regularLevels Priorities.sample ∧
        (∀ j ∈ regularLevels Priorities.sample,
          (putOld Priorities.sample k.sched (k.sched.current 0)).runQ j ≠ [] → i ≤ j) ∧
        i < 10 ∧ s'.runQ 10 = (putOld Priorities.sample k.sched (k.sched.current 0)).runQ 10 := by
  have hrun : Kernel.run Priorities.sample 1 (Kernel.init Priorities.sample 1)
      [.createThread 1, .createThread 1, .wakeUp 1, .wakeUp 2, .setPriority 0 2 10,
        .setPriority 0 3 5] = some _ := rfl
  exact ⟨_, hrun, by decide, by decide, threadResched_fallback_lowest Priorities.sample _ 0 _ 0 _ rfl 5 10
    (by decide) (by decide) (by decide) (by decide) (by decide) (by decide)⟩

end Sched
end NewOS
