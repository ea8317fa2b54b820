import NewOS.Net.UdpQueue

/-! # One UDP endpoint under concurrent calls

`udp_input`, `udp_recvfrom` and `udp_close` in any interleaving, a critical section or atomic
operation a step. `mutex_lock` on a destroyed mutex (`lock.c`, not in `src/`) is taken to return
at once, so after `mutex_destroy` the drain and a receiver pop without the lock, a load or store
a step. -/
namespace NewOS
namespace Net
open Function

/-- The address of `&e->q`; `kmalloc` returns the queue elements above it. -/
def qHdr : Nat := 1

/-- Where an unlocked `udp_queue_pop` is: past its test `q->next != q` and before the load of
`e = q->next`, or holding `e` before its store `i`. -/
inductive PopAt
  | load
  | store (i e : Nat)
  deriving DecidableEq, Repr

/-- Where a call is: the step it takes next; `rxUnlocked` and `drainPop` pop without the lock. -/
inductive Pc
  | inLookup | inAlloc | inPush (n : Nat) | inSignal | inRelease
  | rxAcquire | rxPop | rxUnlocked (p : PopAt) | rxCopy (n : Nat)
  | clRemove | clRelease
  | drain | drainPop (p : PopAt) | done
  deriving DecidableEq, Repr

namespace Pc

/-- The phases of `udp_input` that hold a reference: from the acquire to the release. -/
@[simp] def holds : Pc → Bool
  | inAlloc | inPush _ | inSignal | inRelease => true
  | inLookup | rxAcquire | rxPop | rxUnlocked _ | rxCopy _ | clRemove | clRelease | drain
  | drainPop _ | done => false

/-- The phases of `udp_input`. -/
@[simp] def isInput : Pc → Bool
  | inLookup | inAlloc | inPush _ | inSignal | inRelease => true
  | rxAcquire | rxPop | rxUnlocked _ | rxCopy _ | clRemove | clRelease | drain | drainPop _
  | done => false

/-- The phases that run without `e->lock`, after `mutex_destroy`. -/
@[simp] def unlocked : Pc → Bool
  | rxUnlocked _ | drain | drainPop _ => true
  | inLookup | inAlloc | inPush _ | inSignal | inRelease | rxAcquire | rxPop | rxCopy _ | clRemove
  | clRelease | done => false

/-- The element a `udp_input` call allocated and has not pushed yet. -/
@[simp] def pushId : Pc → Option Nat
  | inPush n => some n
  | inLookup | inAlloc | inSignal | inRelease | rxAcquire | rxPop | rxUnlocked _ | rxCopy _
  | clRemove | clRelease | drain | drainPop _ | done => none

/-- The element a `udp_recvfrom` call popped and has not freed yet. -/
@[simp] def heldId : Pc → Option Nat
  | rxCopy n => some n
  | inLookup | inAlloc | inPush _ | inSignal | inRelease | rxAcquire | rxPop | rxUnlocked _
  | clRemove | clRelease | drain | drainPop _ | done => none

end Pc

/-- The state the calls share, with ghost records from `closeCalls` on: the `udp_close` calls,
the reference of `udp_open`'s caller, the teardowns begun, and the elements pushed, popped, freed
and returned, in order. -/
structure Shared where
  ep : Endpoint
  mem : Links
  inHash : Bool
  nextElem : Nat
  closeCalls : Nat
  owner : Nat
  teardowns : Nat
  pushed : List Nat
  popped : List Nat
  freed : List Nat
  returned : List Nat

/-- The shared state and the calls in progress, one `Pc` each (their order is irrelevant). -/
structure EpState where
  sh : Shared
  threads : List Pc

/-- What the system can do next: a new call, or a step of a call in progress at `pc`.
`allocOk` is whether a `kmalloc` in the step succeeds. -/
inductive EpOp
  | input | recvfrom | close
  | run (pc : Pc) (allocOk : Bool)
  deriving DecidableEq, Repr

/-- Store `i` of `udp_queue_pop(q)` after its load of `e = q->next`: `q->next = e->next`,
`e->next->prev = q`, `q->count--`, `e->prev = NULL`, `e->next = NULL`; `none` where the store
goes through `NULL`. -/
def Links.unlinkStore (m : Links) (q e : Nat) : Nat → Option Links
  | 0 => if e = 0 then none else some { m with next := update m.next q (m.next e) }
  | 1 => if m.next e = 0 then none else some { m with prev := update m.prev (m.next e) q }
  | 2 => some { m with count := m.count - 1 }
  | 3 => some { m with prev := update m.prev e 0 }
  | _ => some { m with next := update m.next e 0 }

namespace Shared

/-- `udp_endpoint_release_ref`'s `atomic_add(&e->ref_count, -1)`; when it returned 1, the
teardown's `mutex_destroy` and `sem_delete`, and the caller goes on to the drain. -/
def release (sh : Shared) : Shared × Pc :=
  if sh.ep.refCount = 1 then
    ({ sh with ep := (sh.ep.addRef (-1)).destroy, teardowns := sh.teardowns + 1 }, .drain)
  else ({ sh with ep := sh.ep.addRef (-1) }, .done)

/-- The step of a call at `pc`: the shared state after it and the call's next `pc`; `none`
when the call has returned, blocks in `sem_acquire`, or stores through `NULL`. -/
def stepPc (sh : Shared) (allocOk : Bool) : Pc → Option (Shared × Pc)
  | .inLookup =>
    if sh.inHash then some ({ sh with ep := sh.ep.addRef 1 }, .inAlloc) else some (sh, .done)
  | .inAlloc =>
    if allocOk then some ({ sh with nextElem := sh.nextElem + 1 }, .inPush sh.nextElem)
    else some (sh, .inRelease)
  | .inPush n =>
    some ({ sh with ep := sh.ep.push n, mem := udpQueuePush sh.mem qHdr n,
                    pushed := sh.pushed ++ [n] }, .inSignal)
  | .inSignal => some ({ sh with ep := sh.ep.signal }, .inRelease)
  | .inRelease => some sh.release
  | .rxAcquire =>
    match sh.ep.sem with
    | none => some (sh, .done)
    | some v => if 0 < v then some ({ sh with ep := { sh.ep with sem := some (v - 1) } }, .rxPop)
      else none
  | .rxPop =>
    if sh.ep.lock then
      let r := udpQueuePop sh.mem qHdr
      if r.2 = 0 then some ({ sh with ep := sh.ep.pop.1, mem := r.1 }, .rxAcquire)
      else some ({ sh with ep := sh.ep.pop.1, mem := r.1, popped := sh.popped ++ [r.2] }, .rxCopy r.2)
    else if sh.mem.next qHdr ≠ qHdr then some (sh, .rxUnlocked .load) else some (sh, .rxAcquire)
  | .rxUnlocked .load => some (sh, .rxUnlocked (.store 0 (sh.mem.next qHdr)))
  | .rxUnlocked (.store i e) => (sh.mem.unlinkStore qHdr e i).map fun m =>
    if i < 4 then ({ sh with mem := m }, .rxUnlocked (.store (i + 1) e))
    else ({ sh with mem := m, popped := sh.popped ++ [e] }, .rxCopy e)
  | .rxCopy n => some ({ sh with freed := sh.freed ++ [n], returned := sh.returned ++ [n] }, .done)
  | .clRemove => some ({ sh with inHash := false }, .clRelease)
  | .clRelease => some ({ sh.release.1 with owner := 0 }, sh.release.2)
  | .drain => if sh.mem.next qHdr ≠ qHdr then some (sh, .drainPop .load) else some (sh, .done)
  | .drainPop .load => some (sh, .drainPop (.store 0 (sh.mem.next qHdr)))
  | .drainPop (.store i e) => (sh.mem.unlinkStore qHdr e i).map fun m =>
    if i < 4 then ({ sh with mem := m }, .drainPop (.store (i + 1) e))
    else ({ sh with mem := m, popped := sh.popped ++ [e], freed := sh.freed ++ [e] }, .drain)
  | .done => none

end Shared

namespace EpState

/-- The endpoint `udp_open(port)` leaves: in `endpoints`, its queue initialised by
`udp_init_queue`, with no call in progress. -/
def opened (port : UInt16) : EpState :=
  ⟨⟨.opened port, udpInitQueue ⟨fun _ => 0, fun _ => 0, 0⟩ qHdr, true, qHdr + 1, 0, 1, 0, [], [],
    [], []⟩, []⟩

/-- One step of the system. -/
def step (s : EpState) : EpOp → Option EpState
  | .input => some ⟨s.sh, .inLookup :: s.threads⟩
  | .recvfrom => some ⟨s.sh, .rxAcquire :: s.threads⟩
  | .close =>
    if s.sh.closeCalls = 0 then some ⟨{ s.sh with closeCalls := 1 }, .clRemove :: s.threads⟩
    else none
  | .run pc allocOk =>
    if pc ∈ s.threads then (s.sh.stepPc allocOk pc).map fun r => ⟨r.1, r.2 :: s.threads.erase pc⟩
    else none

/-- The steps `ops` in turn; `none` if one of them is not enabled. -/
def run (s : EpState) : List EpOp → Option EpState
  | [] => some s
  | op :: ops => (s.step op).bind (·.run ops)

end EpState

/-- The states reached from an opened endpoint by steps allowed by `ok`. -/
inductive EpReachable (ok : EpOp → Prop) : EpState → Prop
  | opened (port : UInt16) : EpReachable ok (.opened port)
  | step {s s' : EpState} {op : EpOp} :
      EpReachable ok s → ok op → s.step op = some s' → EpReachable ok s'

theorem EpReachable.run {ok : EpOp → Prop} {s s' : EpState} (h : EpReachable ok s)
    {ops : List EpOp} (hok : ∀ op ∈ ops, ok op) (hr : s.run ops = some s') : EpReachable ok s' := by
  induction ops generalizing s with
  | nil => cases hr; exact h
  | cons op ops ih =>
    obtain ⟨s₁, h₁, hr⟩ := Option.bind_eq_some.1 hr
    exact ih (h.step (hok op (List.mem_cons_self _ _)) h₁)
      (fun o ho => hok o (List.mem_cons_of_mem _ ho)) hr

/-! ## The calls in progress, counted -/

section Census

variable (ts : List Pc)

/-- The number of references the `udp_input` calls hold. -/
def holders : Nat := ts.countP Pc.holds
/-- The `udp_recvfrom` calls past `sem_acquire` and before the pop. -/
def acquired : Nat := ts.count .rxPop
/-- The `udp_input` calls past the push and before `sem_release`. -/
def signalling : Nat := ts.count .inSignal
/-- The `udp_close` call, before its release. -/
def closing : Nat := ts.count .clRemove + ts.count .clRelease
/-- The `udp_close` call, between `hash_remove` and its release. -/
def releasing : Nat := ts.count .clRelease
/-- The calls in a phase without the lock. -/
def unlocking : Nat := ts.countP Pc.unlocked
/-- The elements allocated by `udp_input` calls and not yet pushed. -/
def pending : List Nat := ts.filterMap Pc.pushId
/-- The elements popped by `udp_recvfrom` calls and not yet freed. -/
def held : List Nat := ts.filterMap Pc.heldId

variable {ts} {pc : Pc}

@[simp] theorem holders_cons : holders (pc :: ts) = holders ts + if pc.holds then 1 else 0 :=
  List.countP_cons _ _ _
@[simp] theorem acquired_cons : acquired (pc :: ts) = acquired ts + if pc = .rxPop then 1 else 0 := by
  simp [acquired, List.count_cons]
@[simp] theorem signalling_cons :
    signalling (pc :: ts) = signalling ts + if pc = .inSignal then 1 else 0 := by
  simp [signalling, List.count_cons]
@[simp] theorem closing_cons :
    closing (pc :: ts) = closing ts + if pc = .clRemove ∨ pc = .clRelease then 1 else 0 := by
  simp only [closing, List.count_cons, beq_iff_eq]
  by_cases h : pc = .clRemove <;> simp [h] <;> omega
@[simp] theorem releasing_cons :
    releasing (pc :: ts) = releasing ts + if pc = .clRelease then 1 else 0 := by
  simp [releasing, List.count_cons]
@[simp] theorem unlocking_cons :
    unlocking (pc :: ts) = unlocking ts + if pc.unlocked then 1 else 0 :=
  List.countP_cons _ _ _
@[simp] theorem pending_cons : pending (pc :: ts) = pc.pushId.toList ++ pending ts := by
  unfold pending; rw [List.filterMap_cons]; cases pc.pushId <;> rfl
@[simp] theorem held_cons : held (pc :: ts) = pc.heldId.toList ++ held ts := by
  unfold held; rw [List.filterMap_cons]; cases pc.heldId <;> rfl

variable {ts' : List Pc}

theorem holders_perm (h : ts.Perm ts') : holders ts = holders ts' := h.countP_eq _
theorem acquired_perm (h : ts.Perm ts') : acquired ts = acquired ts' := h.count_eq _
theorem signalling_perm (h : ts.Perm ts') : signalling ts = signalling ts' := h.count_eq _
theorem closing_perm (h : ts.Perm ts') : closing ts = closing ts' := by
  simp only [closing, h.count_eq]
theorem releasing_perm (h : ts.Perm ts') : releasing ts = releasing ts' := h.count_eq _
theorem unlocking_perm (h : ts.Perm ts') : unlocking ts = unlocking ts' := h.countP_eq _
theorem pending_perm (h : ts.Perm ts') : (pending ts).Perm (pending ts') := h.filterMap _
theorem held_perm (h : ts.Perm ts') : (held ts).Perm (held ts') := h.filterMap _

end Census

/-! ## The invariant -/

/-- The reference protocol: the owner's reference and one per `udp_input` call between acquire
and release; a teardown began exactly when none is left. -/
structure RefInv (sh : Shared) (ts : List Pc) : Prop where
  refCount_eq : sh.ep.refCount = sh.owner + holders ts
  close_once : sh.closeCalls + sh.owner = closing ts + 1 ∧ sh.closeCalls ≤ 1 ∧ sh.owner ≤ 1
  hashed : sh.inHash → sh.owner = 1 ∧ releasing ts = 0
  teardowns_eq : sh.teardowns ≤ 1 ∧ (sh.teardowns = 1 ↔ sh.owner + holders ts = 0)

/-- The teardown: the semaphore is deleted and the mutex destroyed exactly when one began, and
a call runs without the lock only after one. -/
structure TeardownInv (sh : Shared) (ts : List Pc) : Prop where
  sem_none : sh.ep.sem = none ↔ 0 < sh.teardowns
  lock_false : sh.ep.lock = false ↔ 0 < sh.teardowns
  unlocked_torn : 0 < unlocking ts → 0 < sh.teardowns

/-- The semaphore: `count` is the queue's length, and while the semaphore lives its count, with
the receivers past `sem_acquire` and the inputs before `sem_release`, is the queue's length. -/
structure SemInv (sh : Shared) (ts : List Pc) : Prop where
  count_eq : sh.ep.count = sh.ep.q.length
  sem_eq : ∀ v, sh.ep.sem = some v →
    0 ≤ v ∧ (sh.ep.q.length : Int) = v + acquired ts + signalling ts

/-- The queue elements: allocated once each; pushed ones popped in order; popped ones freed or
held by their receiver. -/
structure ElemInv (sh : Shared) (ts : List Pc) : Prop where
  hdr_lt : qHdr < sh.nextElem
  nodup : (pending ts ++ sh.pushed).Nodup
  bounds : ∀ n ∈ pending ts ++ sh.pushed, qHdr < n ∧ n < sh.nextElem
  pushed_eq : sh.pushed = sh.popped ++ sh.ep.q
  popped_perm : sh.popped.Perm (sh.freed ++ held ts)
  returned_sublist : sh.returned.Sublist sh.freed

/-- The queue while the mutex lives: its links implement the list queue, which the semaphore
counts and whose elements are pushed, popped and freed once each. -/
structure QueueInv (sh : Shared) (ts : List Pc) : Prop where
  links : Implements sh.mem qHdr sh.ep
  sem : SemInv sh ts
  elems : ElemInv sh ts

/-- The invariant of the endpoint under concurrent calls. -/
structure Inv (sh : Shared) (ts : List Pc) : Prop where
  ref : RefInv sh ts
  td : TeardownInv sh ts
  queue : sh.teardowns = 0 → QueueInv sh ts

section Step

variable {sh sh' : Shared} {ts : List Pc} {pc pc' : Pc} {b : Bool}

/-- What a step of a call can do, rule by rule: `Shared.stepPc` read as a relation. -/
inductive Trans : Shared → Bool → Pc → Shared → Pc → Prop
  | lookupHit {sh b} : sh.inHash = true → Trans sh b .inLookup { sh with ep := sh.ep.addRef 1 } .inAlloc
  | lookupMiss {sh b} : sh.inHash = false → Trans sh b .inLookup sh .done
  | allocOk {sh b} : b = true →
      Trans sh b .inAlloc { sh with nextElem := sh.nextElem + 1 } (.inPush sh.nextElem)
  | allocFail {sh b} : b = false → Trans sh b .inAlloc sh .inRelease
  | push {sh b n} :
      Trans sh b (.inPush n)
        { sh with ep := sh.ep.push n, mem := udpQueuePush sh.mem qHdr n,
                  pushed := sh.pushed ++ [n] } .inSignal
  | signal {sh b} : Trans sh b .inSignal { sh with ep := sh.ep.signal } .inRelease
  | inputLast {sh b} : sh.ep.refCount = 1 →
      Trans sh b .inRelease
        { sh with ep := (sh.ep.addRef (-1)).destroy, teardowns := sh.teardowns + 1 } .drain
  | inputRelease {sh b} : sh.ep.refCount ≠ 1 →
      Trans sh b .inRelease { sh with ep := sh.ep.addRef (-1) } .done
  | acquireDeleted {sh b} : sh.ep.sem = none → Trans sh b .rxAcquire sh .done
  | acquire {sh b v} : sh.ep.sem = some v → 0 < v →
      Trans sh b .rxAcquire { sh with ep := { sh.ep with sem := some (v - 1) } } .rxPop
  | popEmpty {sh b} : sh.ep.lock = true → (udpQueuePop sh.mem qHdr).2 = 0 →
      Trans sh b .rxPop { sh with ep := sh.ep.pop.1, mem := (udpQueuePop sh.mem qHdr).1 } .rxAcquire
  | pop {sh b} : sh.ep.lock = true → (udpQueuePop sh.mem qHdr).2 ≠ 0 →
      Trans sh b .rxPop
        { sh with ep := sh.ep.pop.1, mem := (udpQueuePop sh.mem qHdr).1,
                  popped := sh.popped ++ [(udpQueuePop sh.mem qHdr).2] }
        (.rxCopy (udpQueuePop sh.mem qHdr).2)
  | testEmpty {sh b} : sh.ep.lock = false → sh.mem.next qHdr = qHdr → Trans sh b .rxPop sh .rxAcquire
  | test {sh b} : sh.ep.lock = false → sh.mem.next qHdr ≠ qHdr →
      Trans sh b .rxPop sh (.rxUnlocked .load)
  | load {sh b} : Trans sh b (.rxUnlocked .load) sh (.rxUnlocked (.store 0 (sh.mem.next qHdr)))
  | store {sh b i e m} : sh.mem.unlinkStore qHdr e i = some m → i < 4 →
      Trans sh b (.rxUnlocked (.store i e)) { sh with mem := m } (.rxUnlocked (.store (i + 1) e))
  | storeLast {sh b i e m} : sh.mem.unlinkStore qHdr e i = some m → ¬i < 4 →
      Trans sh b (.rxUnlocked (.store i e)) { sh with mem := m, popped := sh.popped ++ [e] }
        (.rxCopy e)
  | copy {sh b n} :
      Trans sh b (.rxCopy n) { sh with freed := sh.freed ++ [n], returned := sh.returned ++ [n] } .done
  | remove {sh b} : Trans sh b .clRemove { sh with inHash := false } .clRelease
  | closeLast {sh b} : sh.ep.refCount = 1 →
      Trans sh b .clRelease
        { sh with ep := (sh.ep.addRef (-1)).destroy, teardowns := sh.teardowns + 1, owner := 0 } .drain
  | closeRelease {sh b} : sh.ep.refCount ≠ 1 →
      Trans sh b .clRelease { sh with ep := sh.ep.addRef (-1), owner := 0 } .done
  | drainEmpty {sh b} : sh.mem.next qHdr = qHdr → Trans sh b .drain sh .done
  | drainTest {sh b} : sh.mem.next qHdr ≠ qHdr → Trans sh b .drain sh (.drainPop .load)
  | drainLoad {sh b} : Trans sh b (.drainPop .load) sh (.drainPop (.store 0 (sh.mem.next qHdr)))
  | drainStore {sh b i e m} : sh.mem.unlinkStore qHdr e i = some m → i < 4 →
      Trans sh b (.drainPop (.store i e)) { sh with mem := m } (.drainPop (.store (i + 1) e))
  | drainStoreLast {sh b i e m} : sh.mem.unlinkStore qHdr e i = some m → ¬i < 4 →
      Trans sh b (.drainPop (.store i e))
        { sh with mem := m, popped := sh.popped ++ [e], freed := sh.freed ++ [e] } .drain

theorem Shared.stepPc_trans (h : sh.stepPc b pc = some (sh', pc')) : Trans sh b pc sh' pc' := by
  cases pc with
  | rxUnlocked p | drainPop p =>
    cases p with
    | load => cases h; constructor
    | store i e =>
      obtain ⟨m, hm, h⟩ := Option.map_eq_some'.1 h
      split_ifs at h with hi <;> cases h <;> constructor <;> assumption
  | _ =>
    simp only [Shared.stepPc, Shared.release] at h
    (repeat' split at h) <;> cases h <;> constructor <;> simp_all

theorem Trans.teardowns_le (h : Trans sh b pc sh' pc') : sh.teardowns ≤ sh'.teardowns := by
  cases h <;> simp

theorem RefInv.trans (hi : RefInv sh (pc :: ts)) (h : Trans sh b pc sh' pc') :
    RefInv sh' (pc' :: ts) := by
  obtain ⟨h1, h2, h3, h4⟩ := hi
  cases h
  case lookupHit hh =>
    have := h3 hh
    simp only [holders_cons, releasing_cons, closing_cons, Pc.holds, reduceCtorEq, or_self,
      if_false, if_true, Bool.false_eq_true] at *
    exact ⟨by simp; omega, h2, fun _ => this, by simp; omega⟩
  case inputLast | inputRelease | closeLast | closeRelease | remove =>
    refine ⟨?_, ⟨?_, ?_, ?_⟩, ?_, ?_, ?_⟩ <;>
      simp only [holders_cons, closing_cons, releasing_cons, Pc.holds, Endpoint.addRef_refCount,
        Endpoint.destroy_refCount, reduceCtorEq, or_false, false_or, or_true, if_false, if_true,
        Bool.false_eq_true, false_implies] at h1 h2 h3 h4 ⊢ <;>
      (try intro hh) <;> (try have := h3 ‹_›) <;> (try simp only [and_false] at this) <;> omega
  case popEmpty | pop => exact ⟨by simpa using h1, h2, h3, h4⟩
  all_goals exact ⟨h1, h2, h3, h4⟩

theorem TeardownInv.trans (hi : TeardownInv sh (pc :: ts)) (h : Trans sh b pc sh' pc') :
    TeardownInv sh' (pc' :: ts) := by
  obtain ⟨h1, h2, h3⟩ := hi
  cases h
  case inputLast | closeLast => exact ⟨by simp, by simp, fun _ => Nat.succ_pos _⟩
  case acquire hs _ => exact ⟨by simpa [hs] using h1, h2, fun hu => h3 (by simpa using hu)⟩
  case signal => exact ⟨by simpa using h1, h2, fun hu => h3 (by simpa using hu)⟩
  case popEmpty | pop => exact ⟨by simpa using h1, by simpa using h2, fun hu => h3 (by simpa using hu)⟩
  case test hl _ => exact ⟨h1, h2, fun _ => h2.1 hl⟩
  all_goals exact ⟨h1, h2, fun hu => h3 (by simp at hu ⊢ <;> omega)⟩

/-- Under the lock, `udp_queue_pop` returns `NULL` on the empty list queue and its head
otherwise. -/
theorem Implements.pop_cases {h : Links} {q : Nat} {x : Endpoint} (hi : Implements h q x) :
    (udpQueuePop h q).2 = 0 ∧ x.q = [] ∨
      ∃ rest, x.q = (udpQueuePop h q).2 :: rest ∧ (udpQueuePop h q).2 ≠ 0 := by
  rw [hi.pop.2]
  rcases hx : x.q with _ | ⟨n, rest⟩
  · exact .inl ⟨by rw [Endpoint.pop_of_nil hx]; rfl, rfl⟩
  · rw [Endpoint.pop_of_cons hx]
    exact .inr ⟨rest, rfl, fun h0 => hi.ring.not_null (by simp_all)⟩

theorem SemInv.trans (hl : Implements sh.mem qHdr sh.ep) (hlock : sh.ep.lock = true)
    (hi : SemInv sh (pc :: ts)) (h : Trans sh b pc sh' pc') : SemInv sh' (pc' :: ts) := by
  obtain ⟨h1, h2⟩ := hi
  simp only [acquired_cons, signalling_cons] at h2
  cases h with
  | push =>
    refine ⟨by simp [h1], fun v hv => ?_⟩
    have := h2 v hv
    simp at this ⊢
    omega
  | signal =>
    refine ⟨h1, fun v hv => ?_⟩
    obtain ⟨w, hw, rfl⟩ := Option.map_eq_some'.1 hv
    have := h2 w hw
    simp at this ⊢
    omega
  | acquire hs _ =>
    refine ⟨h1, fun v hv => ?_⟩
    cases hv
    have := h2 _ hs
    simp at this ⊢
    omega
  | popEmpty _ hz =>
    obtain ⟨-, hq⟩ | ⟨_, -, hn⟩ := hl.pop_cases
    · rw [Endpoint.pop_of_nil hq]
      refine ⟨h1, fun v hv => ?_⟩
      have := h2 v hv
      simp [hq] at this
      omega
    · exact absurd hz hn
  | pop _ hn =>
    obtain ⟨hz, -⟩ | ⟨rest, hq, -⟩ := hl.pop_cases
    · exact absurd hz hn
    · rw [Endpoint.pop_of_cons hq]
      refine ⟨by simp [h1, hq], fun v hv => ?_⟩
      have := h2 v hv
      simp [hq] at this ⊢
      omega
  | testEmpty hl' _ | test hl' _ => exact absurd (hlock.symm.trans hl') Bool.noConfusion
  | inputLast | closeLast => exact ⟨h1, fun v hv => by simp at hv⟩
  | _ => exact ⟨h1, fun v hv => by simpa using h2 v hv⟩

theorem ElemInv.trans (hl : Implements sh.mem qHdr sh.ep) (hu : pc.unlocked = false)
    (hi : ElemInv sh (pc :: ts)) (h : Trans sh b pc sh' pc') : ElemInv sh' (pc' :: ts) := by
  obtain ⟨h0, h1, h2, h3, h4, h5⟩ := hi
  cases h <;> simp only [pending_cons, held_cons, Pc.pushId, Pc.heldId, Option.toList,
    List.nil_append, List.singleton_append] at h1 h2 h4
  case allocOk =>
    refine ⟨Nat.lt_succ_of_lt h0, List.nodup_cons.2 ⟨fun hm => absurd (h2 _ hm).2 (Nat.lt_irrefl _), h1⟩,
      fun n hn => ?_, h3, h4, h5⟩
    rcases List.mem_cons.1 hn with rfl | hn
    · exact ⟨h0, Nat.lt_succ_self _⟩
    · exact ⟨(h2 n hn).1, Nat.lt_succ_of_lt (h2 n hn).2⟩
  case push n =>
    have hp : (pending ts ++ (sh.pushed ++ [n])).Perm (n :: (pending ts ++ sh.pushed)) := by
      rw [← List.append_assoc]; exact List.perm_append_singleton _ _
    exact ⟨h0, hp.nodup_iff.2 h1, fun m hm => h2 m (hp.mem_iff.1 hm), by simp [h3], h4, h5⟩
  case popEmpty _ hz =>
    obtain ⟨-, hq⟩ | ⟨_, -, hn⟩ := hl.pop_cases
    · rw [Endpoint.pop_of_nil hq]; exact ⟨h0, h1, h2, h3, h4, h5⟩
    · exact absurd hz hn
  case pop _ hn =>
    obtain ⟨hz, -⟩ | ⟨rest, hq, -⟩ := hl.pop_cases
    · exact absurd hz hn
    · rw [Endpoint.pop_of_cons hq]
      exact ⟨h0, h1, h2, by simp [h3, hq], (h4.append_right _).trans
        ((List.perm_append_singleton _ _).trans List.perm_middle.symm), h5⟩
  case copy =>
    exact ⟨h0, h1, h2, h3, by simpa using h4, h5.append (List.Sublist.refl _)⟩
  case storeLast | drainStoreLast => simp at hu
  all_goals exact ⟨h0, h1, h2, h3, h4, h5⟩

theorem Implements.trans (hl : Implements sh.mem qHdr sh.ep) (he : ElemInv sh (pc :: ts))
    (hu : pc.unlocked = false) (h : Trans sh b pc sh' pc') : Implements sh'.mem qHdr sh'.ep := by
  cases h
  case push n =>
    have hn := he.bounds n (by simp)
    have hnd := he.nodup
    simp only [pending_cons, Pc.pushId, Option.toList, List.singleton_append, List.cons_append,
      List.nodup_cons, List.mem_append, not_or] at hnd
    refine hl.push ⟨by unfold qHdr at hn; omega, by omega, fun hq => hnd.1.2 ?_⟩
    rw [he.pushed_eq]; exact List.mem_append_right _ hq
  case popEmpty | pop => exact hl.pop.1
  case store | storeLast | drainStore | drainStoreLast => simp at hu
  all_goals exact ⟨hl.ring, hl.count_eq⟩

/-- While no teardown began, the queue invariant is kept by every step. -/
theorem QueueInv.trans (ht : TeardownInv sh (pc :: ts)) (h0 : sh.teardowns = 0)
    (hi : QueueInv sh (pc :: ts)) (h : Trans sh b pc sh' pc') : QueueInv sh' (pc' :: ts) := by
  have hlock : sh.ep.lock = true := by simpa [h0] using ht.lock_false
  have hu : pc.unlocked = false := by
    cases hpc : pc.unlocked
    · rfl
    · have := ht.unlocked_torn (by simp only [unlocking_cons, hpc, if_true]; omega); omega
  exact ⟨hi.links.trans hi.elems hu h, hi.sem.trans hi.links hlock h, hi.elems.trans hi.links hu h⟩

theorem Inv.trans (hi : Inv sh (pc :: ts)) (h : Trans sh b pc sh' pc') : Inv sh' (pc' :: ts) :=
  ⟨hi.ref.trans h, hi.td.trans h, fun h0 =>
    have h0' : sh.teardowns = 0 := Nat.eq_zero_of_le_zero (h0 ▸ h.teardowns_le)
    (hi.queue h0').trans hi.td h0' h⟩

/-- The invariant looks at the calls in progress only through their numbers per phase. -/
theorem Inv.perm {ts' : List Pc} (h : ts.Perm ts') (hi : Inv sh ts) : Inv sh ts' := by
  obtain ⟨⟨r1, r2, r3, r4⟩, ⟨t1, t2, t3⟩, hq⟩ := hi
  simp only [holders_perm h, closing_perm h, releasing_perm h, unlocking_perm h] at r1 r2 r3 r4 t3
  refine ⟨⟨r1, r2, r3, r4⟩, ⟨t1, t2, t3⟩, fun h0 => ?_⟩
  obtain ⟨l, ⟨s1, s2⟩, ⟨e0, e1, e2, e3, e4, e5⟩⟩ := hq h0
  simp only [acquired_perm h, signalling_perm h] at s2
  have hp := (pending_perm h).append_right sh.pushed
  exact ⟨l, ⟨s1, s2⟩, ⟨e0, hp.nodup_iff.1 e1, fun n hn => e2 n (hp.mem_iff.2 hn), e3,
    e4.trans ((held_perm h).append_left _), e5⟩⟩

/-- A new call, before its first step, changes no count of the queue invariant. -/
theorem QueueInv.cons (hi : QueueInv sh ts) (hp : pc = .inLookup ∨ pc = .rxAcquire ∨ pc = .clRemove) :
    QueueInv sh (pc :: ts) := by
  obtain ⟨l, ⟨s1, s2⟩, ⟨e0, e1, e2, e3, e4, e5⟩⟩ := hi
  rcases hp with rfl | rfl | rfl <;>
  exact ⟨l, ⟨s1, by simpa using s2⟩,
    ⟨e0, by simpa using e1, by simpa using e2, e3, by simpa using e4, e5⟩⟩

end Step

/-- The state `udp_open` leaves satisfies the invariant. -/
theorem Inv.opened (port : UInt16) : Inv (EpState.opened port).sh (EpState.opened port).threads := by
  refine ⟨⟨?_, ?_, ?_, ?_⟩, ⟨?_, ?_, ?_⟩,
    fun _ => ⟨Implements.init _ (by decide) (Endpoint.opened port), ⟨?_, ?_⟩, ⟨?_, ?_, ?_, ?_, ?_, ?_⟩⟩⟩ <;>
    simp [EpState.opened, Endpoint.opened, holders, closing, releasing, unlocking, acquired,
      signalling, pending, held, qHdr]

theorem Inv.step {s s' : EpState} {op : EpOp} (hi : Inv s.sh s.threads) (h : s.step op = some s') :
    Inv s'.sh s'.threads := by
  obtain ⟨⟨r1, r2, r3, r4⟩, ⟨t1, t2, t3⟩, hq⟩ := hi
  cases op with
  | input | recvfrom =>
    cases h
    exact ⟨⟨by simpa using r1, by simpa using r2, by simpa using r3, by simpa using r4⟩,
      ⟨t1, t2, by simpa using t3⟩, fun h0 => (hq h0).cons (by simp)⟩
  | close =>
    simp only [EpState.step] at h
    split_ifs at h with hc
    cases h
    refine ⟨⟨by simpa using r1, ?_, by simpa using r3, by simpa using r4⟩, ⟨t1, t2, by simpa using t3⟩,
      fun h0 => ?_⟩
    · simp only [closing_cons, true_or, if_true]
      omega
    · obtain ⟨l, ⟨s1, s2⟩, e⟩ := (hq h0).cons (Or.inr (Or.inr (rfl : Pc.clRemove = _)))
      exact ⟨l, ⟨s1, s2⟩, ⟨e.1, e.2, e.3, e.4, e.5, e.6⟩⟩
  | run pc b =>
    simp only [EpState.step] at h
    split_ifs at h with hm
    obtain ⟨⟨sh', pc'⟩, hs, rfl⟩ := Option.map_eq_some'.1 h
    exact (Inv.perm (List.perm_cons_erase hm) ⟨⟨r1, r2, r3, r4⟩, ⟨t1, t2, t3⟩, hq⟩).trans
      (Shared.stepPc_trans hs)

theorem EpReachable.inv {ok : EpOp → Prop} {s : EpState} (h : EpReachable ok s) :
    Inv s.sh s.threads := by
  induction h with
  | opened port => exact Inv.opened port
  | step _ _ hs ih => exact ih.step hs

section Readout

variable {sh : Shared} {ts : List Pc}

theorem QueueInv.popped_nodup (hi : QueueInv sh ts) : sh.popped.Nodup := by
  have h := hi.elems.nodup.sublist (List.sublist_append_right _ _)
  rw [hi.elems.pushed_eq] at h
  exact h.sublist (List.sublist_append_left _ _)

theorem QueueInv.freed_nodup (hi : QueueInv sh ts) : sh.freed.Nodup :=
  (hi.elems.popped_perm.nodup_iff.1 hi.popped_nodup).sublist (List.sublist_append_left _ _)

/-- While no teardown began, the semaphore and the mutex live. -/
theorem Inv.live (hi : Inv sh ts) (ht : sh.teardowns = 0) :
    (∃ v, sh.ep.sem = some v) ∧ sh.ep.lock = true :=
  ⟨Option.ne_none_iff_exists'.1 fun h => by have := hi.td.sem_none.1 h; omega,
    by simpa [ht] using hi.td.lock_false⟩

end Readout

/-- The teardown runs once, after `udp_close`, destroying the mutex and the semaphore; no
`udp_input` step touches the endpoint after it, and before it nothing is freed twice. -/
theorem teardown_once_after_close {s : EpState} (h : EpReachable (fun _ => True) s) :
    s.sh.teardowns ≤ 1 ∧
      (s.sh.teardowns = 1 ↔ (s.sh.closeCalls = 1 ∧ closing s.threads = 0) ∧ holders s.threads = 0) ∧
      (0 < s.sh.teardowns ↔ s.sh.ep.lock = false ∧ s.sh.ep.sem = none) ∧
      (0 < s.sh.teardowns → ∀ pc ∈ s.threads, pc.isInput →
        ∀ b sh' pc', s.sh.stepPc b pc = some (sh', pc') → sh'.ep = s.sh.ep ∧ sh'.mem = s.sh.mem) ∧
      (s.sh.teardowns = 0 → s.sh.freed.Nodup ∧
        s.sh.pushed.Perm (s.sh.freed ++ held s.threads ++ s.sh.ep.q)) := by
  have hi := h.inv
  obtain ⟨h2, h2', h2''⟩ := hi.ref.close_once
  obtain ⟨h4, h4'⟩ := hi.ref.teardowns_eq
  refine ⟨h4, by rw [h4']; omega,
    ⟨fun ht => ⟨hi.td.lock_false.2 ht, hi.td.sem_none.2 ht⟩, fun hl => hi.td.lock_false.1 hl.1⟩,
    fun ht pc hm hpc b sh' pc' hs => ?_, fun h0 => ?_⟩
  · have hh : holders s.threads = 0 := by omega
    have hnot : pc.holds = false := by
      by_contra hc
      have : 0 < holders s.threads := List.countP_pos_iff.2 ⟨pc, hm, by simpa using hc⟩
      omega
    have hin : s.sh.inHash = false := by
      by_contra hc
      have := hi.ref.hashed (by simpa using hc)
      omega
    cases pc <;> simp_all [Shared.stepPc]
  · have hq := hi.queue h0
    refine ⟨hq.freed_nodup, ?_⟩
    rw [hq.elems.pushed_eq]
    exact hq.elems.popped_perm.append_right _

theorem teardown_once_after_close_closed :
    ∃ s, (EpState.opened 7).run
        [.input, .run .inLookup true, .run .inAlloc true, .run (.inPush 2) true,
          .run .inSignal true, .run .inRelease true, .recvfrom, .run .rxAcquire true,
          .close, .run .clRemove true, .run .clRelease true] = some s ∧
      s.sh.teardowns ≤ 1 ∧
      (s.sh.teardowns = 1 ↔ (s.sh.closeCalls = 1 ∧ closing s.threads = 0) ∧ holders s.threads = 0) ∧
      (0 < s.sh.teardowns ↔ s.sh.ep.lock = false ∧ s.sh.ep.sem = none) ∧
      (0 < s.sh.teardowns → ∀ pc ∈ s.threads, pc.isInput →
        ∀ b sh' pc', s.sh.stepPc b pc = some (sh', pc') → sh'.ep = s.sh.ep ∧ sh'.mem = s.sh.mem) ∧
      (s.sh.teardowns = 0 → s.sh.freed.Nodup ∧
        s.sh.pushed.Perm (s.sh.freed ++ held s.threads ++ s.sh.ep.q)) := by
  have hrun : (EpState.opened 7).run
      [.input, .run .inLookup true, .run .inAlloc true, .run (.inPush 2) true,
        .run .inSignal true, .run .inRelease true, .recvfrom, .run .rxAcquire true,
        .close, .run .clRemove true, .run .clRelease true] = some _ := rfl
  exact ⟨_, hrun, teardown_once_after_close ((EpReachable.opened 7).run (fun _ _ => trivial) hrun)⟩

/-- A receiver past `sem_acquire` at the teardown pops beside the drain: both load the one
element before either unlinks it, and it is freed twice. -/
theorem receiver_and_drain_free_twice :
    ∃ s, (EpState.opened 7).run
        [.input, .run .inLookup true, .run .inAlloc true, .run (.inPush 2) true,
          .run .inSignal true, .run .inRelease true, .recvfrom, .run .rxAcquire true,
          .close, .run .clRemove true, .run .clRelease true,
          .run .drain true, .run (.drainPop .load) true, .run .rxPop true,
          .run (.rxUnlocked .load) true,
          .run (.drainPop (.store 0 2)) true, .run (.rxUnlocked (.store 0 2)) true,
          .run (.drainPop (.store 1 2)) true, .run (.drainPop (.store 2 2)) true,
          .run (.drainPop (.store 3 2)) true, .run (.rxUnlocked (.store 1 2)) true,
          .run (.rxUnlocked (.store 2 2)) true, .run (.rxUnlocked (.store 3 2)) true,
          .run (.drainPop (.store 4 2)) true, .run (.rxUnlocked (.store 4 2)) true,
          .run (.rxCopy 2) true, .run .drain true] = some s ∧
      s.sh.pushed = [2] ∧ s.sh.freed = [2, 2] ∧ s.sh.returned = [2] :=
  ⟨_, rfl, rfl, rfl, rfl⟩

end Net
end NewOS
