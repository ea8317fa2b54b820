import Mathlib.Data.List.Nodup
import NewOS.Net.Udp

/-! # The datagram queue of an endpoint: `udp_queue` as linked records

The endpoint model keeps its queue as the list of its element records. In `udp.c` the queue is a
circular doubly-linked list through the `udp_queue` header: the header's first two fields have the
type and the offsets of an element's `next` and `prev`, and the code casts `(udp_queue_elem *)q`
to link the header in as a node. This module models the links as the heap they are, translates
`udp_init_queue`, `udp_queue_push` and `udp_queue_pop` store by store, and proves that the ring
they keep implements the endpoint's list queue over every run of the three. -/
namespace NewOS
namespace Net
open Function

/-- The `next` and `prev` fields of the element records and of one queue header, by address,
`0` being `NULL`, and the header's `count`. -/
structure Links where
  next : Nat → Nat
  prev : Nat → Nat
  count : Int

/-- `udp_init_queue(q)`. -/
def udpInitQueue (h : Links) (q : Nat) : Links :=
  { h with count := 0, prev := update h.prev q q, next := update h.next q q }

/-- `udp_queue_pop(q)`: the links after the call, and the element returned, `0` for `NULL`. Each
`let` is one store of the source, and reads the fields as the stores before it left them. -/
def udpQueuePop (h : Links) (q : Nat) : Links × Nat :=
  if h.next q ≠ q then
    let e := h.next q
    let h := { h with next := update h.next q (h.next e) }
    let h := { h with prev := update h.prev (h.next e) q }
    let h := { h with count := h.count - 1 }
    let h := { h with prev := update h.prev e 0 }
    ({ h with next := update h.next e 0 }, e)
  else (h, 0)

/-- `udp_queue_push(q, e)`, one store a `let`. -/
def udpQueuePush (h : Links) (q e : Nat) : Links :=
  let h := { h with prev := update h.prev e (h.prev q) }
  let h := { h with next := update h.next e q }
  let h := { h with next := update h.next (h.prev q) e }
  let h := { h with prev := update h.prev q e }
  { h with count := h.count + 1 }

@[simp] theorem udpInitQueue_next (h : Links) (q : Nat) :
    (udpInitQueue h q).next = update h.next q q := rfl
@[simp] theorem udpInitQueue_prev (h : Links) (q : Nat) :
    (udpInitQueue h q).prev = update h.prev q q := rfl
@[simp] theorem udpInitQueue_count (h : Links) (q : Nat) : (udpInitQueue h q).count = 0 := rfl

/-- The links `udp_queue_push` leaves: the new element between the old tail `q->prev` and the
header. -/
theorem udpQueuePush_eq (h : Links) (q e : Nat) :
    udpQueuePush h q e =
      ⟨update (update h.next e q) (h.prev q) e, update (update h.prev e (h.prev q)) q e,
        h.count + 1⟩ := by
  have htail : update h.prev e (h.prev q) q = h.prev q := by
    by_cases hq : q = e
    · subst hq; exact update_same _ _ _
    · exact update_noteq hq _ _
  simp only [udpQueuePush, htail]

/-- The links `udp_queue_pop` leaves on a non-empty queue: the header linked to the second
element `e->next` and back, and the first element `e` unlinked. -/
theorem udpQueuePop_of_ne {h : Links} {q : Nat} (hne : h.next q ≠ q) :
    udpQueuePop h q =
      (⟨update (update h.next q (h.next (h.next q))) (h.next q) 0,
        update (update h.prev (h.next (h.next q)) q) (h.next q) 0, h.count - 1⟩, h.next q) := by
  simp only [udpQueuePop, if_pos hne, update_noteq hne]

/-- The header `q` and the elements `l`, head first, form a circular doubly-linked ring: around
the ring `q, l₁, …, lₙ, q` each node's `next` is the node after it and each node's `prev` the node
before it; the nodes are distinct and none is `NULL`; and `q->count` counts the elements. -/
structure Ring (h : Links) (q : Nat) (l : List Nat) : Prop where
  next_eq : (q :: l).map h.next = l ++ [q]
  prev_eq : (l ++ [q]).map h.prev = q :: l
  nodup : (q :: l).Nodup
  not_null : 0 ∉ q :: l
  count_eq : h.count = l.length

/-- `udp_init_queue` makes the empty ring, whatever the links were. -/
theorem ring_udpInitQueue (h : Links) {q : Nat} (hq : q ≠ 0) : Ring (udpInitQueue h q) q [] :=
  ⟨by simp, by simp, List.nodup_singleton q, by simpa [eq_comm] using hq, rfl⟩

namespace Ring

variable {h : Links} {q : Nat} {l : List Nat}

/-- `x->next->prev == x` at every node of the ring, the header included. -/
theorem prev_next (hr : Ring h q l) : ∀ x ∈ q :: l, h.prev (h.next x) = x := by
  have hround : (q :: l).map (h.prev ∘ h.next) = (q :: l).map id := by
    rw [← List.map_map, hr.next_eq, hr.prev_eq, List.map_id]
  exact List.map_eq_map_iff.1 hround

/-- The header's `next` is the first element, or the header itself on an empty queue. -/
theorem next_header (hr : Ring h q l) : h.next q = l.headD q := by
  have := congrArg List.head? hr.next_eq
  cases l <;> simp_all

/-- `udp_queue_push` of a record that is not on the ring, not the header and not `NULL` appends
it to the ring. -/
theorem push (hr : Ring h q l) {e : Nat} (he : e ≠ 0) (heq : e ≠ q) (hel : e ∉ l) :
    Ring (udpQueuePush h q e) q (l ++ [e]) := by
  have hnew : e ∉ q :: l := by simp [heq, hel]
  -- The old tail: the last node of `q :: l`, which the header's `prev` points at.
  obtain ⟨c, t, hct⟩ : ∃ c t, q :: l = c ++ [t] :=
    ⟨_, _, (List.dropLast_append_getLast (List.cons_ne_nil q l)).symm⟩
  have hnd : (c ++ [t]).Nodup := hct ▸ hr.nodup
  have htc : t ∉ c := by simpa using (List.nodup_append.1 hnd).2.2
  have hec : e ∉ c ++ [t] := hct ▸ hnew
  have het : e ≠ t := fun h' => hec (by simp [h'])
  have hn := hr.next_eq
  have hp := hr.prev_eq
  rw [hct, List.map_append, List.map_singleton] at hn
  rw [hct, List.map_append, List.map_singleton] at hp
  obtain ⟨hcl, -⟩ := List.append_inj' hn rfl
  obtain ⟨hlc, hqt⟩ := List.append_inj' hp rfl
  rw [udpQueuePush_eq, List.singleton_inj.1 hqt]
  refine ⟨?_, ?_, ?_, ?_, ?_⟩
  · -- next: `c` as before, then `t → e → q`
    have hc : c.map (update (update h.next e q) t e) = c.map h.next :=
      List.map_congr_left fun x hx => by
        rw [update_noteq (ne_of_mem_of_not_mem hx htc),
          update_noteq (ne_of_mem_of_not_mem hx fun h' => hec (List.mem_append_left _ h'))]
    rw [← List.cons_append, hct, List.map_append, List.map_append, hc, hcl]
    simp [update_noteq het]
  · -- prev: `l` as before, then `e ← t` and `q ← e`
    have hl : l.map (update (update h.prev e t) q e) = l.map h.prev :=
      List.map_congr_left fun x hx => by
        rw [update_noteq (ne_of_mem_of_not_mem hx (List.nodup_cons.1 hr.nodup).1),
          update_noteq (ne_of_mem_of_not_mem hx hel)]
    rw [List.map_append, List.map_append, hl, hlc, ← List.cons_append, hct]
    simp [update_noteq heq]
  · rw [← List.cons_append, List.nodup_append]
    exact ⟨hr.nodup, List.nodup_singleton e, List.disjoint_singleton.2 hnew⟩
  · simpa [eq_comm, he] using hr.not_null
  · simp [hr.count_eq]

/-- `udp_queue_pop` of a non-empty ring returns its first element `e`, leaves the ring of the
others, and sets `e->next` and `e->prev` to `NULL`. -/
theorem pop {e : Nat} (hr : Ring h q (e :: l)) :
    (udpQueuePop h q).2 = e ∧ Ring (udpQueuePop h q).1 q l ∧
      (udpQueuePop h q).1.next e = 0 ∧ (udpQueuePop h q).1.prev e = 0 := by
  obtain ⟨hqe, hnext⟩ : h.next q = e ∧ (e :: l).map h.next = l ++ [q] := by
    simpa using hr.next_eq
  obtain ⟨-, hprev⟩ : h.prev e = q ∧ (l ++ [q]).map h.prev = e :: l := by
    simpa using hr.prev_eq
  have hnd := hr.nodup
  simp only [List.nodup_cons, List.mem_cons, not_or] at hnd
  obtain ⟨⟨hqe', hql⟩, hel, hl⟩ := hnd
  rw [udpQueuePop_of_ne (hqe ▸ Ne.symm hqe'), hqe]
  dsimp only
  -- `f`, the second element (or the header), heads the rest of the ring.
  set f := h.next e
  have hrest : l ++ [q] = f :: l.map h.next := by simpa using hnext.symm
  have hnd' : (f :: l.map h.next).Nodup := by
    rw [← hrest, List.nodup_append_comm]; exact List.nodup_cons.2 ⟨hql, hl⟩
  have hef : e ∉ f :: l.map h.next := by rw [← hrest]; simp [hel, Ne.symm hqe']
  refine ⟨rfl, ⟨?_, ?_, List.nodup_cons.2 ⟨hql, hl⟩, ?_, ?_⟩, update_same _ _ _, update_same _ _ _⟩
  · -- next: `q → f`, the rest as before
    have hl' : l.map (update (update h.next q f) e 0) = l.map h.next :=
      List.map_congr_left fun x hx => by
        rw [update_noteq (ne_of_mem_of_not_mem hx hel), update_noteq (ne_of_mem_of_not_mem hx hql)]
    simp only [List.map_cons, update_noteq hqe', update_same, hl']
    exact hrest.symm
  · -- prev: `q ← f`, the rest as before
    have hl' : (l.map h.next).map (update (update h.prev f q) e 0) = (l.map h.next).map h.prev :=
      List.map_congr_left fun x hx => by
        rw [update_noteq (ne_of_mem_of_not_mem hx fun h' => hef (List.mem_cons_of_mem _ h')),
          update_noteq (ne_of_mem_of_not_mem hx (List.nodup_cons.1 hnd').1)]
    obtain ⟨-, hback⟩ : h.prev f = e ∧ l.map (h.prev ∘ h.next) = l := by simpa [hrest] using hprev
    dsimp only
    rw [hrest, List.map_cons, hl', List.map_map, hback,
      update_noteq (Ne.symm (List.ne_of_not_mem_cons hef)), update_same]
  · exact fun h0 => hr.not_null (((List.sublist_cons_self e l).cons₂ q).subset h0)
  · simp [hr.count_eq]

/-- `udp_queue_pop` of the empty ring returns `NULL` and changes nothing. -/
theorem pop_nil (hr : Ring h q []) : udpQueuePop h q = (h, 0) := by
  simp [udpQueuePop, hr.next_header]

end Ring

/-! ## Runs, and the endpoint's queue they implement -/

/-- The operations of `udp.c` on one queue. -/
inductive QueueOp
  | init
  | push (e : Nat)
  | pop
  deriving DecidableEq, Repr

/-- The record a push adds. -/
def QueueOp.pushed : QueueOp → Option Nat
  | .push e => some e
  | _ => none

/-- The links after the operations on the queue at `q`, and what each `udp_queue_pop` returned,
in order. -/
def queueRun (q : Nat) : Links → List QueueOp → Links × List Nat
  | h, [] => (h, [])
  | h, .init :: ops => queueRun q (udpInitQueue h q) ops
  | h, .push e :: ops => queueRun q (udpQueuePush h q e) ops
  | h, .pop :: ops =>
    let r := queueRun q (udpQueuePop h q).1 ops
    (r.1, (udpQueuePop h q).2 :: r.2)

namespace Endpoint

/-- `udp_init_queue` on the endpoint's queue. -/
def initQueue (x : Endpoint) : Endpoint := { x with q := [], count := 0 }

/-- The operations on the endpoint model's queue, and what each pop returned. -/
def queueRun : Endpoint → List QueueOp → Endpoint × List (Option Nat)
  | x, [] => (x, [])
  | x, .init :: ops => queueRun x.initQueue ops
  | x, .push e :: ops => queueRun (x.push e) ops
  | x, .pop :: ops =>
    let r := queueRun x.pop.1 ops
    (r.1, x.pop.2 :: r.2)

/-- Each record pushed is off the queue when it is pushed, and is neither the header nor `NULL`:
what `udp_input` pushes, a record it has just allocated. -/
def pushesFresh (q : Nat) : Endpoint → List QueueOp → Bool
  | _, [] => true
  | x, .init :: ops => pushesFresh q x.initQueue ops
  | x, .push e :: ops => decide (e ≠ 0 ∧ e ≠ q ∧ e ∉ x.q) && pushesFresh q (x.push e) ops
  | x, .pop :: ops => pushesFresh q x.pop.1 ops

end Endpoint

/-- The links at `q` implement the endpoint's queue: their ring holds the endpoint's elements,
head first, and `q->count` is the endpoint's count. -/
structure Implements (h : Links) (q : Nat) (x : Endpoint) : Prop where
  ring : Ring h q x.q
  count_eq : h.count = x.count

namespace Implements

variable {h : Links} {q : Nat} {x : Endpoint}

theorem init (h : Links) (hq : q ≠ 0) (x : Endpoint) :
    Implements (udpInitQueue h q) q x.initQueue :=
  ⟨ring_udpInitQueue h hq, rfl⟩

theorem push (hi : Implements h q x) {e : Nat} (he : e ≠ 0 ∧ e ≠ q ∧ e ∉ x.q) :
    Implements (udpQueuePush h q e) q (x.push e) :=
  ⟨hi.ring.push he.1 he.2.1 he.2.2, by rw [udpQueuePush_eq]; simp [hi.count_eq]⟩

/-- `udp_queue_pop` does to the links what the endpoint model's pop does to its queue, and returns
its element, or `NULL` where the model finds the queue empty. -/
theorem pop (hi : Implements h q x) :
    Implements (udpQueuePop h q).1 q x.pop.1 ∧ (udpQueuePop h q).2 = x.pop.2.getD 0 := by
  have hr := hi.ring
  rcases hx : x.q with _ | ⟨e, l⟩
  · rw [hx] at hr
    rw [hr.pop_nil, Endpoint.pop_of_nil hx]
    exact ⟨hi, rfl⟩
  · rw [hx] at hr
    obtain ⟨he, hr', -, -⟩ := hr.pop
    have hlen := hr.count_eq
    rw [Endpoint.pop_of_cons hx]
    refine ⟨⟨hr', ?_⟩, he⟩
    dsimp only
    rw [hr'.count_eq, ← hi.count_eq, hlen, List.length_cons]
    omega

/-- Every run from links that implement the endpoint's queue, pushing records that are off the
queue, keeps them implementing the model's queue, and pops what the model pops. -/
theorem run (hi : Implements h q x) (hq : q ≠ 0) (ops : List QueueOp)
    (hf : x.pushesFresh q ops = true) :
    Implements (queueRun q h ops).1 q (x.queueRun ops).1 ∧
      (queueRun q h ops).2 = (x.queueRun ops).2.map (·.getD 0) := by
  induction ops generalizing h x with
  | nil => exact ⟨hi, rfl⟩
  | cons op ops ih =>
    cases op with
    | init => exact ih (init h hq x) hf
    | push e =>
      simp only [Endpoint.pushesFresh, Bool.and_eq_true, decide_eq_true_eq] at hf
      exact ih (hi.push hf.1) hf.2
    | pop =>
      obtain ⟨hi', he⟩ := hi.pop
      obtain ⟨hrun, hout⟩ := ih hi' hf
      exact ⟨hrun, by simp only [queueRun, Endpoint.queueRun, hout, he, List.map_cons]⟩

/-- The queue is first in, first out: over operations with no `udp_init_queue`, the records the
pops returned, the `NULL`s left out, followed by those still on the ring, are the records queued
before and then those pushed, in push order. -/
theorem pops_fifo (hi : Implements h q x) (ops : List QueueOp)
    (hinit : QueueOp.init ∉ ops) (hf : x.pushesFresh q ops = true) :
    (queueRun q h ops).2.filter (· ≠ 0) ++ (x.queueRun ops).1.q =
      x.q ++ ops.filterMap QueueOp.pushed := by
  induction ops generalizing h x with
  | nil => simp [queueRun, Endpoint.queueRun]
  | cons op ops ih =>
    have hinit' : QueueOp.init ∉ ops := fun h' => hinit (List.mem_cons_of_mem _ h')
    cases op with
    | init => exact absurd (List.mem_cons_self _ _) hinit
    | push e =>
      simp only [Endpoint.pushesFresh, Bool.and_eq_true, decide_eq_true_eq] at hf
      simpa [queueRun, Endpoint.queueRun, QueueOp.pushed] using ih (hi.push hf.1) hinit' hf.2
    | pop =>
      obtain ⟨hi', he⟩ := hi.pop
      rcases hx : x.q with _ | ⟨n, rest⟩
      · simpa [queueRun, Endpoint.queueRun, QueueOp.pushed, he, Endpoint.pop_of_nil hx, hx]
          using ih hi' hinit' hf
      · have hn : n ≠ 0 := fun h0 => hi.ring.not_null (by simp [hx, h0])
        simpa [queueRun, Endpoint.queueRun, QueueOp.pushed, he, Endpoint.pop_of_cons hx, hx, hn]
          using ih hi' hinit' hf

/-- From memory of zeros, a queue at 100 implements an opened endpoint's queue after
`udp_init_queue`; pushing 1 and 2, popping three times (the last on the empty queue), then pushing
1 again and 3 pops 1 and 2 and leaves 1 and 3 on the ring. -/
theorem pops_fifo_refill :
    (QueueOp.init ∉ [.push 1, .push 2, .pop, .pop, .pop, .push 1, .push 3] ∧
      (Endpoint.opened 0).initQueue.pushesFresh 100
        [.push 1, .push 2, .pop, .pop, .pop, .push 1, .push 3] = true) ∧
    (queueRun 100 (udpInitQueue ⟨fun _ => 0, fun _ => 0, 0⟩ 100)
        [.push 1, .push 2, .pop, .pop, .pop, .push 1, .push 3]).2.filter (· ≠ 0) ++
      ((Endpoint.opened 0).initQueue.queueRun
        [.push 1, .push 2, .pop, .pop, .pop, .push 1, .push 3]).1.q =
      (Endpoint.opened 0).initQueue.q ++
        [QueueOp.push 1, .push 2, .pop, .pop, .pop, .push 1, .push 3].filterMap QueueOp.pushed :=
  ⟨⟨by decide, by decide⟩, pops_fifo (init _ (by decide) _) _ (by decide) (by decide)⟩

end Implements

/-- Every run of `udp_init_queue`, `udp_queue_push` and `udp_queue_pop` on a queue, from any
contents of memory, that starts with `udp_init_queue` and pushes records off the queue: the links
form a ring through the header that holds the endpoint model's queue, head first, with
`x->next->prev == x` at every node and `q->count` the number of elements; each pop returned what
the model's first-in first-out pop returns, `NULL` for an empty queue; and a pop now returns
`NULL` exactly on an empty queue, and otherwise the head, which it takes off the ring with
`next` and `prev` set to `NULL`. -/
theorem udpQueue_ring_run (h : Links) (x : Endpoint) {q : Nat} (hq : q ≠ 0) (ops : List QueueOp)
    (hfresh : x.pushesFresh q (.init :: ops) = true) :
    let r := queueRun q h (.init :: ops)
    let a := x.queueRun (.init :: ops)
    Ring r.1 q a.1.q ∧ (∀ y ∈ q :: a.1.q, r.1.prev (r.1.next y) = y) ∧
      r.1.count = a.1.q.length ∧ r.2 = a.2.map (·.getD 0) ∧
      ((udpQueuePop r.1 q).2 = 0 ↔ a.1.q = []) ∧
      ∀ e rest, a.1.q = e :: rest →
        (udpQueuePop r.1 q).2 = e ∧ Ring (udpQueuePop r.1 q).1 q rest ∧ e ∉ q :: rest ∧
          (udpQueuePop r.1 q).1.next e = 0 ∧ (udpQueuePop r.1 q).1.prev e = 0 := by
  intro r a
  obtain ⟨hi, hout⟩ := Implements.run (Implements.init h hq x) hq ops hfresh
  have hr : Ring r.1 q a.1.q := hi.ring
  have hpop : ∀ e rest, a.1.q = e :: rest →
      (udpQueuePop r.1 q).2 = e ∧ Ring (udpQueuePop r.1 q).1 q rest ∧ e ∉ q :: rest ∧
        (udpQueuePop r.1 q).1.next e = 0 ∧ (udpQueuePop r.1 q).1.prev e = 0 := by
    intro e rest hq'
    rw [hq'] at hr
    obtain ⟨he, hr', hn, hp⟩ := hr.pop
    have hnd := hr.nodup
    simp only [List.nodup_cons, List.mem_cons, not_or] at hnd
    exact ⟨he, hr', by simp [Ne.symm hnd.1.1, hnd.2.1], hn, hp⟩
  refine ⟨hr, hr.prev_next, hr.count_eq, hout, ?_, hpop⟩
  rcases hq' : a.1.q with _ | ⟨e, rest⟩
  · rw [hq'] at hr
    simp [hr.pop_nil]
  · obtain ⟨he, -⟩ := hpop e rest hq'
    have he0 : e ≠ 0 := fun h0 => hr.not_null (by simp [hq', h0])
    simp [he, he0]

/-- From memory of zeros, the queue at 100 of an opened endpoint: after `udp_init_queue`, pushes
of 1 and 2, three pops (the last on the empty queue) and pushes of 1, popped before, and 3, the
ring holds 1 then 3, and the pops returned 1, 2 and `NULL`. -/
theorem udpQueue_ring_run_refill :
    ((100 : Nat) ≠ 0 ∧ (Endpoint.opened 0).pushesFresh 100
        [.init, .push 1, .push 2, .pop, .pop, .pop, .push 1, .push 3] = true) ∧
      Ring (queueRun 100 ⟨fun _ => 0, fun _ => 0, 0⟩
          [.init, .push 1, .push 2, .pop, .pop, .pop, .push 1, .push 3]).1 100 [1, 3] ∧
      (queueRun 100 ⟨fun _ => 0, fun _ => 0, 0⟩
          [.init, .push 1, .push 2, .pop, .pop, .pop, .push 1, .push 3]).2 = [1, 2, 0] := by
  have hf : (Endpoint.opened 0).pushesFresh 100
      [.init, .push 1, .push 2, .pop, .pop, .pop, .push 1, .push 3] = true := by decide
  obtain ⟨hr, -, -, hout, -⟩ :=
    udpQueue_ring_run ⟨fun _ => 0, fun _ => 0, 0⟩ (.opened 0) (by decide) _ hf
  exact ⟨⟨by decide, hf⟩, hr, hout⟩

end Net
end NewOS
