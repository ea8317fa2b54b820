import NewOS.Net.Checksum

/-! # UDP: the datagram path

`udp_sendto`, `udp_input` and `udp_recvfrom` over explicit endpoints and queue element records;
a semaphore is its count. -/
namespace NewOS
namespace Net
open Function

/-- `IP_PROT_UDP`, the protocol number in the pseudo-header (from `kernel/net/ipv4.h`). -/
def ipProtUdp : UInt8 := 17

/-- `udp_pseudo_header` in network order: the two addresses, a zero byte, `IP_PROT_UDP` and the
two bytes of the UDP length field. -/
def pseudoHeader (src dst : UInt32) (udpLength : List UInt8) : List UInt8 :=
  htonl src.toNat ++ htonl dst.toNat ++ [0, ipProtUdp] ++ udpLength

/-- A queued datagram: `udp_queue_elem` without its list links. -/
structure QueueElem where
  srcAddress : UInt32
  targetAddress : UInt32
  srcPort : UInt16
  targetPort : UInt16
  len : Int
  buf : List UInt8
  deriving DecidableEq, Repr

/-- `udp_endpoint` with its queue as the list of its elements, head first; `sem` is `none` once
`sem_delete` ran, `lock` false once `mutex_destroy` ran. -/
structure Endpoint where
  port : UInt16
  q : List Nat
  count : Int
  sem : Option Int
  lock : Bool
  refCount : Int
  deriving DecidableEq, Repr

/-- The UDP layer: the endpoint records, the `endpoints` hash table (most recent insertion
first), and the `kmalloc`ed queue element records. -/
structure Udp where
  ep : Nat → Endpoint
  endpoints : List Nat
  elem : Nat → QueueElem
  nextElem : Nat
  nextEp : Nat

namespace Endpoint

/-- The endpoint `udp_open` initialises: `udp_init_queue`, a semaphore of count 0, one reference. -/
def opened (port : UInt16) : Endpoint := ⟨port, [], 0, some 0, true, 1⟩

/-- `udp_queue_push`: at the tail. -/
def push (x : Endpoint) (n : Nat) : Endpoint := { x with q := x.q ++ [n], count := x.count + 1 }

/-- `udp_queue_pop`: the head, if any. -/
def pop (x : Endpoint) : Endpoint × Option Nat :=
  match x.q with
  | [] => (x, none)
  | n :: rest => ({ x with q := rest, count := x.count - 1 }, some n)

/-- `sem_release(e->blocking_sem, 1)`. -/
def signal (x : Endpoint) : Endpoint := { x with sem := x.sem.map (· + 1) }

/-- `atomic_add(&e->ref_count, d)`. -/
def addRef (x : Endpoint) (d : Int) : Endpoint := { x with refCount := x.refCount + d }

/-- The first part of the teardown in `udp_endpoint_release_ref`: `mutex_destroy` and
`sem_delete`. -/
def destroy (x : Endpoint) : Endpoint := { x with lock := false, sem := none }

/-- The teardown in `udp_endpoint_release_ref`: `mutex_destroy`, `sem_delete`, and the queue
drained, each element popped and freed. -/
def teardown (x : Endpoint) : Endpoint :=
  { x with lock := false, sem := none, q := [], count := x.count - x.q.length }

/-- `udp_endpoint_release_ref`: the decrement, and the teardown when the count was 1. -/
def releaseRef (x : Endpoint) : Endpoint :=
  if x.refCount = 1 then (x.addRef (-1)).teardown else x.addRef (-1)

@[simp] theorem push_q (x : Endpoint) (n : Nat) : (x.push n).q = x.q ++ [n] := rfl
@[simp] theorem signal_q (x : Endpoint) : x.signal.q = x.q := rfl
@[simp] theorem signal_refCount (x : Endpoint) : x.signal.refCount = x.refCount := rfl
@[simp] theorem push_refCount (x : Endpoint) (n : Nat) : (x.push n).refCount = x.refCount := rfl
@[simp] theorem addRef_q (x : Endpoint) (d : Int) : (x.addRef d).q = x.q := rfl
@[simp] theorem addRef_refCount (x : Endpoint) (d : Int) :
    (x.addRef d).refCount = x.refCount + d := rfl
@[simp] theorem addRef_sem (x : Endpoint) (d : Int) : (x.addRef d).sem = x.sem := rfl
@[simp] theorem addRef_count (x : Endpoint) (d : Int) : (x.addRef d).count = x.count := rfl
@[simp] theorem push_sem (x : Endpoint) (n : Nat) : (x.push n).sem = x.sem := rfl
@[simp] theorem push_count (x : Endpoint) (n : Nat) : (x.push n).count = x.count + 1 := rfl
@[simp] theorem signal_sem (x : Endpoint) : x.signal.sem = x.sem.map (· + 1) := rfl
@[simp] theorem signal_count (x : Endpoint) : x.signal.count = x.count := rfl
@[simp] theorem destroy_q (x : Endpoint) : x.destroy.q = x.q := rfl
@[simp] theorem destroy_count (x : Endpoint) : x.destroy.count = x.count := rfl
@[simp] theorem destroy_sem (x : Endpoint) : x.destroy.sem = none := rfl
@[simp] theorem destroy_refCount (x : Endpoint) : x.destroy.refCount = x.refCount := rfl
@[simp] theorem destroy_lock (x : Endpoint) : x.destroy.lock = false := rfl
@[simp] theorem push_lock (x : Endpoint) (n : Nat) : (x.push n).lock = x.lock := rfl
@[simp] theorem signal_lock (x : Endpoint) : x.signal.lock = x.lock := rfl
@[simp] theorem addRef_lock (x : Endpoint) (d : Int) : (x.addRef d).lock = x.lock := rfl

@[simp] theorem pop_refCount (x : Endpoint) : x.pop.1.refCount = x.refCount := by
  unfold pop; split <;> rfl
@[simp] theorem pop_sem (x : Endpoint) : x.pop.1.sem = x.sem := by
  unfold pop; split <;> rfl
@[simp] theorem pop_lock (x : Endpoint) : x.pop.1.lock = x.lock := by
  unfold pop; split <;> rfl

theorem pop_of_nil {x : Endpoint} (h : x.q = []) : x.pop = (x, none) := by
  simp [pop, h]
theorem pop_of_cons {x : Endpoint} {n : Nat} {rest : List Nat} (h : x.q = n :: rest) :
    x.pop = ({ x with q := rest, count := x.count - 1 }, some n) := by
  simp [pop, h]

/-- Releasing a reference that is not the last one only drops the count. -/
theorem releaseRef_of_ne {x : Endpoint} (h : x.refCount ≠ 1) : x.releaseRef = x.addRef (-1) :=
  if_neg h

end Endpoint

namespace Udp

/-- The endpoint record `e` replaced by `x`. -/
def setEp (u : Udp) (e : Nat) (x : Endpoint) : Udp := { u with ep := update u.ep e x }

@[simp] theorem setEp_ep_self (u : Udp) (e : Nat) (x : Endpoint) : (u.setEp e x).ep e = x :=
  update_same _ _ _
@[simp] theorem setEp_elem (u : Udp) (e : Nat) (x : Endpoint) : (u.setEp e x).elem = u.elem := rfl
@[simp] theorem setEp_nextElem (u : Udp) (e : Nat) (x : Endpoint) :
    (u.setEp e x).nextElem = u.nextElem := rfl

/-- The `hash_lookup` of a port in `endpoints`: the most recent endpoint bound to it. -/
def lookupPort (u : Udp) (port : UInt16) : Option Nat :=
  u.endpoints.find? fun e => decide ((u.ep e).port = port)

/-- Models `udp_open(port)`: a new endpoint record at the head of `endpoints`. -/
def udpOpen (u : Udp) (port : UInt16) : Udp × Nat :=
  ({ u with ep := update u.ep u.nextEp (.opened port), endpoints := u.nextEp :: u.endpoints,
            nextEp := u.nextEp + 1 }, u.nextEp)

/-- No endpoint and no queue element yet: the state `udp_init` leaves. -/
def empty : Udp := ⟨fun _ => .opened 0, [], fun _ => ⟨0, 0, 0, 0, 0, []⟩, 0, 0⟩

end Udp

/-- The checks `udp_input` makes before the lookup: the length field against the buffer's length,
then the checksum, after the zero pad byte for an odd length is written at offset `length`. -/
def checkPacket (buf : List UInt8) (src dst : UInt32) : Except KernErr (List UInt8) :=
  let length := ntohs buf 4
  if length > buf.length % 65536 then .error .netBadPacket
  else if ntohs buf 6 = 0 then .ok buf
  else
    let mem := if length % 2 = 1 then (buf ++ [0]).set length 0 else buf
    if cksum16_2 (pseudoHeader src dst [buf.getD 4 0, buf.getD 5 0])
        (mem.take ((ntohs mem 4 + 1) / 2 * 2)) ≠ 0
    then .error .netBadPacket
    else .ok (if length % 2 = 1 then buf.set length 0 else buf)

/-- The queue element `udp_input` fills in; `len` is the length field less 8, as an `int`. -/
def queueElem (buf : List UInt8) (src dst : UInt32) : QueueElem :=
  ⟨src, dst, UInt16.ofNat (ntohs buf 0), UInt16.ofNat (ntohs buf 2), (ntohs buf 4 : Int) - 8,
    buf.drop 8⟩

/-- Models `udp_input(buf, i, src, dst)`; `allocOk` is whether the `kmalloc` of the queue element
succeeds. -/
def udpInput (u : Udp) (buf : List UInt8) (src dst : UInt32) (allocOk : Bool) :
    Udp × Except KernErr Unit :=
  match checkPacket buf src dst with
  | .error err => (u, .error err)
  | .ok buf =>
    match u.lookupPort (UInt16.ofNat (ntohs buf 2)) with
    | none => (u, .ok ())
    | some e =>
      let u := u.setEp e ((u.ep e).addRef 1)
      if allocOk then
        let n := u.nextElem
        let u := { u with elem := update u.elem n (queueElem buf src dst), nextElem := n + 1 }
        let u := u.setEp e (((u.ep e).push n).signal)
        (u.setEp e (u.ep e).releaseRef, .ok ())
      else (u.setEp e (u.ep e).releaseRef, .error .noMemory)

/-- What `udp_recvfrom` hands back for the popped element `qe`: the bytes copied, `qe->len`, and
the address and port written to `saddr`. -/
def recvOut (qe : QueueElem) (len : Int) : List UInt8 × Int × UInt32 × UInt16 :=
  (qe.buf.take (min qe.len len).toNat, qe.len, qe.srcAddress, qe.srcPort)

/-- Models `udp_recvfrom(e, buf, len, saddr)` run alone; `none` is a block in `sem_acquire`. -/
def udpRecvfrom (u : Udp) (e : Nat) (len : Int) :
    Option (Udp × Except KernErr (List UInt8 × Int × UInt32 × UInt16)) :=
  match (u.ep e).sem with
  | none => some (u, .error .semDeleted)
  | some s =>
    if s ≤ 0 then none
    else
      match ({ u.ep e with sem := some (s - 1) } : Endpoint).pop with
      | (_, none) => none
      | (x, some n) => some (u.setEp e x, .ok (recvOut (u.elem n) len))

/-- The datagram `udp_sendto` builds for the payload `data`, its checksum stored as `0xffff` when
it comes out zero. -/
def datagram (src dst : UInt32) (srcPort dstPort totalLen : Nat) (data : List UInt8) :
    List UInt8 :=
  let header := htons srcPort ++ htons dstPort ++ htons totalLen
  let c := cksum16_2 (pseudoHeader src dst (htons totalLen)) (header ++ [0, 0] ++ data)
  header ++ htons (if c = 0 then 0xffff else c) ++ data

/-- Models `udp_sendto` from an endpoint bound to `port`: the buffer handed to `ipv4_output`, and
its destination. -/
def udpSendto (port : UInt16) (inbuf : List UInt8) (len : Int) (toPort : Int) (toAddr : UInt32)
    (srcaddrForDest : UInt32 → Option UInt32) : Except KernErr (List UInt8 × UInt32) :=
  if len < 0 ∨ len + 8 > 0xffff then .error .invalidArgs
  else if toPort < 0 ∨ toPort > 0xffff then .error .invalidArgs
  else
    match srcaddrForDest toAddr with
    | none => .error .netNoRoute
    | some src =>
      .ok (datagram src toAddr port.toNat toPort.toNat (len + 8).toNat (inbuf.take len.toNat), toAddr)

/-! ## A datagram's way from `udp_sendto` to `udp_recvfrom` -/

theorem uint16_ofNat_toNat (x : UInt16) : UInt16.ofNat x.toNat = x :=
  UInt16.toNat.inj (UInt16.toNat_ofNat_of_lt x.toNat_lt_size)

@[simp] theorem length_htons (v : Nat) : (htons v).length = 2 := rfl

@[simp] theorem length_pseudoHeader (src dst : UInt32) (l : List UInt8) :
    (pseudoHeader src dst l).length = 10 + l.length := by
  simp [pseudoHeader, htonl]; omega

/-- The protocol word alone puts the pseudo-header's sum above zero. -/
theorem wordSum_pseudoHeader (src dst : UInt32) (l : List UInt8) :
    17 ≤ wordSum (pseudoHeader src dst l) := by
  unfold pseudoHeader
  rw [wordSum_append (by simp [htonl]), wordSum_append (by simp [htonl])]
  have : wordSum [0, ipProtUdp] = 17 := rfl
  omega

/-- The sum over a pseudo-header and header, a two-byte field, and the data, field by field. -/
theorem wordSum_field {P H X D : List UInt8} (hP : (P ++ H).length % 2 = 0) (hX : X.length = 2) :
    wordSum (P ++ (H ++ X ++ D)) = wordSum (P ++ H) + wordSum X + wordSum D := by
  rw [show P ++ (H ++ X ++ D) = (P ++ H) ++ (X ++ D) by simp, wordSum_append hP,
    wordSum_append (a := X) (by omega)]
  omega

/-- The header fields of a datagram laid out as `udp_sendto` lays it out, as `udp_input` reads
them back. -/
theorem header_fields {a b c d : Nat} (ha : a < 65536) (hb : b < 65536) (hc : c < 65536)
    (hd : d < 65536) (data : List UInt8) :
    ntohs (htons a ++ htons b ++ htons c ++ htons d ++ data) 0 = a ∧
      ntohs (htons a ++ htons b ++ htons c ++ htons d ++ data) 2 = b ∧
      ntohs (htons a ++ htons b ++ htons c ++ htons d ++ data) 4 = c ∧
      ntohs (htons a ++ htons b ++ htons c ++ htons d ++ data) 6 = d ∧
      [(htons a ++ htons b ++ htons c ++ htons d ++ data).getD 4 0,
        (htons a ++ htons b ++ htons c ++ htons d ++ data).getD 5 0] = htons c ∧
      (htons a ++ htons b ++ htons c ++ htons d ++ data).drop 8 = data := by
  simp only [htons, ntohs, List.cons_append, List.nil_append, List.getD_cons_zero,
    List.getD_cons_succ, toNat_ofNat, List.drop_succ_cons, List.drop_zero, and_true]
  omega

/-- The checksum field `udp_sendto` stores verifies: the checksum over the same words with the
field filled in is zero. -/
theorem cksum_field_verifies {P H D : List UInt8} (hP : (P ++ H).length % 2 = 0)
    (hpos : 0 < wordSum (P ++ H)) :
    cksum16_2 P (H ++ htons (if cksum16_2 P (H ++ [0, 0] ++ D) = 0 then 0xffff
      else cksum16_2 P (H ++ [0, 0] ++ D)) ++ D) = 0 := by
  have hW : cksum16_2 P (H ++ [0, 0] ++ D) = 65535 - foldCarry (wordSum (P ++ H) + wordSum D) := by
    rw [cksum16_2, wordSum_field (X := [0, 0]) hP rfl]; rfl
  rw [hW, cksum16_2, wordSum_field hP (length_htons _), wordSum_htons (by split_ifs <;> omega),
    Nat.add_right_comm]
  exact cksum_verifies (by omega)

/-- The zero byte `udp_input` pads an odd datagram with leaves its checksum as it was. -/
theorem cksum16_2_pad {P b : List UInt8} {n : Nat} (hP : P.length % 2 = 0) (hb : b.length = n) :
    cksum16_2 P (b ++ if n % 2 = 1 then [0] else []) = cksum16_2 P b := by
  split_ifs with h
  · rw [cksum16_2, cksum16_2, ← List.append_assoc, wordSum_pad (by simp; omega)]
  · rw [List.append_nil]

/-- A buffer whose length field reads its own length: the memory `udp_input` sums, with the pad
byte written, is the buffer and the pad byte past its end for an odd length. -/
theorem sum_span_of_length {b : List UInt8} {L : Nat} (hL : b.length = L) (h4 : ntohs b 4 = L)
    (hb : 6 ≤ L) :
    (if L % 2 = 1 then (b ++ [0]).set L 0 else b).take
        ((ntohs (if L % 2 = 1 then (b ++ [0]).set L 0 else b) 4 + 1) / 2 * 2) =
      b ++ if L % 2 = 1 then [0] else [] := by
  have hpad : (b ++ [0]).set L 0 = b ++ [0] := by rw [List.set_append, if_neg (by omega)]; simp [hL]
  have h4' : ntohs (b ++ [0]) 4 = L := by
    rw [← h4]; simp only [ntohs, List.getD_eq_getElem?_getD,
      List.getElem?_append_left (show 4 < b.length by omega),
      List.getElem?_append_left (show 4 + 1 < b.length by omega)]
  split_ifs with hodd
  · rw [hpad, h4', List.take_of_length_le (by simp; omega)]
  · rw [h4, List.append_nil, List.take_of_length_le (by omega)]

/-- `udp_input`'s checks pass on a datagram whose length field is its length and whose non-zero
checksum field verifies; the buffer is queued as it came. -/
theorem checkPacket_wire {src dst : UInt32} {sp dp c : Nat} (hsp : sp < 65536) (hdp : dp < 65536)
    (hc : c < 65536) (hc0 : c ≠ 0) {data : List UInt8} (hd : data.length + 8 < 65536)
    (hv : cksum16_2 (pseudoHeader src dst (htons (data.length + 8)))
      (htons sp ++ htons dp ++ htons (data.length + 8) ++ htons c ++ data) = 0) :
    checkPacket (htons sp ++ htons dp ++ htons (data.length + 8) ++ htons c ++ data) src dst =
      .ok (htons sp ++ htons dp ++ htons (data.length + 8) ++ htons c ++ data) := by
  obtain ⟨-, -, h4, h6, h45, -⟩ := header_fields hsp hdp hd hc data
  have hlen : (htons sp ++ htons dp ++ htons (data.length + 8) ++ htons c ++ data).length =
      data.length + 8 := by simp; omega
  have hP : (pseudoHeader src dst (htons (data.length + 8))).length % 2 = 0 := by simp
  simp only [checkPacket, h4, h6, h45, hlen, Nat.mod_eq_of_lt hd, gt_iff_lt, Nat.lt_irrefl,
    if_false, hc0, sum_span_of_length hlen h4 (by omega), cksum16_2_pad hP hlen, hv, ne_eq,
    not_true_eq_false, List.set_eq_of_length_le (Nat.le_of_eq hlen), ite_self]

/-- A datagram `udp_sendto` builds is its three header fields, a checksum field that is never
zero, and the data, and its checksum verifies. -/
theorem datagram_wire (src dst : UInt32) (sp dp T : Nat) (data : List UInt8) :
    ∃ c, c < 65536 ∧ c ≠ 0 ∧
      datagram src dst sp dp T data = htons sp ++ htons dp ++ htons T ++ htons c ++ data ∧
      cksum16_2 (pseudoHeader src dst (htons T)) (htons sp ++ htons dp ++ htons T ++ htons c ++ data)
        = 0 := by
  have hP : (pseudoHeader src dst (htons T) ++ (htons sp ++ htons dp ++ htons T)).length % 2 = 0 := by
    simp
  have hpos : 0 < wordSum (pseudoHeader src dst (htons T) ++ (htons sp ++ htons dp ++ htons T)) := by
    rw [wordSum_append (by simp)]
    have := wordSum_pseudoHeader src dst (htons T)
    omega
  have hv := cksum_field_verifies (D := data) hP hpos
  revert hv
  generalize hK : cksum16_2 (pseudoHeader src dst (htons T))
    (htons sp ++ htons dp ++ htons T ++ [0, 0] ++ data) = K
  have hK' : K < 65536 := by rw [← hK, cksum16_2]; omega
  intro hv
  refine ⟨if K = 0 then 0xffff else K, by split_ifs <;> omega, by split_ifs <;> omega, ?_, ?_⟩
  · simp only [datagram, hK]
  · simpa only [List.append_assoc] using hv

/-- A datagram `udp_sendto` built passes `udp_input`'s checks unchanged, and its checksum field is
never zero, so the check is always made. -/
theorem checkPacket_datagram (src dst : UInt32) {sp dp : Nat} (hsp : sp < 65536) (hdp : dp < 65536)
    {data : List UInt8} (hd : data.length + 8 < 65536) :
    checkPacket (datagram src dst sp dp (data.length + 8) data) src dst =
        .ok (datagram src dst sp dp (data.length + 8) data) ∧
      ntohs (datagram src dst sp dp (data.length + 8) data) 6 ≠ 0 := by
  obtain ⟨c, hc, hc0, heq, hv⟩ := datagram_wire src dst sp dp (data.length + 8) data
  rw [heq, (header_fields hsp hdp hd hc data).2.2.2.1]
  exact ⟨checkPacket_wire hsp hdp hc hc0 hd hv, hc0⟩

/-- `udp_sendto` with a route to the destination hands `ipv4_output` the datagram of its port,
the destination port and the payload. -/
theorem udpSendto_eq (port : UInt16) {data : List UInt8} {toPort : Int} {dst src : UInt32}
    {route : UInt32 → Option UInt32} (hd : data.length ≤ 0xffff - 8) (hp0 : 0 ≤ toPort)
    (hp : toPort ≤ 0xffff) (hroute : route dst = some src) :
    udpSendto port data data.length toPort dst route =
      .ok (datagram src dst port.toNat toPort.toNat (data.length + 8) data, dst) := by
  have : ((data.length : Int) + 8).toNat = data.length + 8 := by omega
  simp only [udpSendto, hroute, this, Int.toNat_ofNat, List.take_length]
  rw [if_neg (by omega), if_neg (by omega)]

/-- The state after `udp_input` queues the element built from `buf` on endpoint `e`. -/
def delivered (u : Udp) (e : Nat) (buf : List UInt8) (src dst : UInt32) : Udp :=
  { u with elem := update u.elem u.nextElem (queueElem buf src dst), nextElem := u.nextElem + 1 }
    |>.setEp e ((u.ep e).push u.nextElem).signal

/-- `udp_input` of a buffer that passes its checks queues it at the tail and releases the
semaphore. -/
theorem udpInput_delivers {u : Udp} {buf : List UInt8} {src dst : UInt32} {e : Nat}
    (hc : checkPacket buf src dst = .ok buf)
    (he : u.lookupPort (UInt16.ofNat (ntohs buf 2)) = some e) (hr : 0 < (u.ep e).refCount) :
    udpInput u buf src dst true = (delivered u e buf src dst, .ok ()) := by
  simp only [udpInput, hc, he, if_true, delivered, Udp.setEp, update_same]
  rw [Endpoint.releaseRef_of_ne (by simp; omega)]
  simp only [update_idem, Endpoint.addRef, Endpoint.push, Endpoint.signal, Int.add_neg_cancel_right]

/-- On an endpoint whose queue was empty, the next `udp_recvfrom` after a delivery takes the
element just queued. -/
theorem udpRecvfrom_delivered {u : Udp} {e : Nat} {buf : List UInt8} {src dst : UInt32} {s : Int}
    (hq : (u.ep e).q = []) (hs : (u.ep e).sem = some s) (hs0 : 0 ≤ s) (len : Int) :
    ∃ u', udpRecvfrom (delivered u e buf src dst) e len =
      some (u', .ok (recvOut (queueElem buf src dst) len)) := by
  simp only [udpRecvfrom, delivered, Udp.setEp_ep_self, Endpoint.signal, Endpoint.push, hs,
    Option.map_some']
  rw [if_neg (by omega)]
  simp [Endpoint.pop, hq, Endpoint.push]

/-- A datagram's round trip: what `udp_sendto` sends passes the checks of `udp_input`, and
`udp_recvfrom` returns its length, payload and sender. -/
theorem udp_round_trip (port : UInt16) (data : List UInt8) (toPort : Int) (src dst : UInt32)
    (route : UInt32 → Option UInt32) (u : Udp) (e : Nat) (hd : data.length ≤ 0xffff - 8)
    (hp0 : 0 ≤ toPort) (hp : toPort ≤ 0xffff) (hroute : route dst = some src)
    (he : u.lookupPort (UInt16.ofNat toPort.toNat) = some e) (hr : 0 < (u.ep e).refCount) :
    ∃ buf, udpSendto port data data.length toPort dst route = .ok (buf, dst) ∧
      checkPacket buf src dst = .ok buf ∧ ntohs buf 6 ≠ 0 ∧
      udpInput u buf src dst true = (delivered u e buf src dst, .ok ()) ∧
      ((delivered u e buf src dst).ep e).q = (u.ep e).q ++ [u.nextElem] ∧
      (delivered u e buf src dst).elem u.nextElem =
        ⟨src, dst, port, UInt16.ofNat toPort.toNat, data.length, data⟩ ∧
      ∀ len : Int, data.length ≤ len →
        recvOut (queueElem buf src dst) len = (data, (data.length : Int), src, port) ∧
        ∀ s, (u.ep e).q = [] → (u.ep e).sem = some s → 0 ≤ s →
          ∃ u', udpRecvfrom (delivered u e buf src dst) e len =
            some (u', .ok (data, (data.length : Int), src, port)) := by
  have hsp := port.toNat_lt_size
  have hdp : toPort.toNat < 65536 := by omega
  have hd8 : data.length + 8 < 65536 := by omega
  obtain ⟨hc, h6⟩ := checkPacket_datagram src dst hsp hdp hd8
  obtain ⟨c, hc65, -, heq, -⟩ := datagram_wire src dst port.toNat toPort.toNat (data.length + 8) data
  obtain ⟨h0, h2, h4, -, -, h8⟩ := header_fields hsp hdp hd8 hc65 data
  rw [← heq] at h0 h2 h4 h8
  have hqe : queueElem (datagram src dst port.toNat toPort.toNat (data.length + 8) data) src dst =
      ⟨src, dst, port, UInt16.ofNat toPort.toNat, data.length, data⟩ := by
    simp only [queueElem, h0, h2, h4, h8, uint16_ofNat_toNat, QueueElem.mk.injEq, true_and,
      and_true]
    omega
  have hout : ∀ len : Int, data.length ≤ len →
      recvOut (queueElem (datagram src dst port.toNat toPort.toNat (data.length + 8) data) src dst) len
        = (data, (data.length : Int), src, port) := by
    intro len hlen
    simp only [hqe, recvOut, Int.min_eq_left hlen, Int.toNat_ofNat, List.take_length]
  refine ⟨_, udpSendto_eq port hd hp0 hp hroute, hc, h6, udpInput_delivers hc (by rw [h2]; exact he) hr, ?_, ?_,
    fun len hlen => ⟨hout len hlen, fun s hq hs hs0 => ?_⟩⟩
  · simp [delivered]
  · simp [delivered, hqe]
  · rw [← hout len hlen]
    exact udpRecvfrom_delivered hq hs hs0 len

/-- Three bytes from port 5 to port 7, where `udp_open(7)` made endpoint 0. -/
theorem udp_round_trip_three_bytes :
    ∃ buf, udpSendto 5 [1, 2, 3] 3 7 2 (fun _ => some 1) = .ok (buf, 2) ∧
      checkPacket buf 1 2 = .ok buf ∧
      ∃ u', udpRecvfrom (delivered (Udp.empty.udpOpen 7).1 0 buf 1 2) 0 3 =
        some (u', .ok ([1, 2, 3], 3, 1, 5)) := by
  obtain ⟨buf, hs, hc, -, -, -, -, hr⟩ := udp_round_trip 5 [1, 2, 3] 7 1 2 (fun _ => some 1)
    (Udp.empty.udpOpen 7).1 0 (by decide) (by decide) (by decide) rfl rfl (by decide)
  exact ⟨buf, hs, hc, (hr 3 (by decide)).2 0 rfl rfl (by decide)⟩

/-! ## Length fields below the header -/

/-- Every buffer that passes the checks of `udp_input` is queued with a length in
`[-8, 0xffff - 8]`, at most the length of the buffer it keeps. -/
theorem checkPacket_queueElem_len {buf buf' : List UInt8} {src dst : UInt32}
    (h : checkPacket buf src dst = .ok buf') :
    -8 ≤ (queueElem buf' src dst).len ∧ (queueElem buf' src dst).len ≤ 0xffff - 8 ∧
      (queueElem buf' src dst).len ≤ (queueElem buf' src dst).buf.length := by
  have hfit : ntohs buf' 4 ≤ buf'.length := by
    unfold checkPacket at h
    dsimp only at h
    split_ifs at h with hlen _ _ hodd <;> cases h
    · omega
    · exact Nat.le_trans (ntohs_set_zero_le buf 4 _) (by rw [List.length_set]; omega)
    · omega
  have := ntohs_lt buf' 4
  simp only [queueElem, List.length_drop]
  omega

/-- An empty datagram from port 5 to port 7 with no checksum: its element records length `0`. -/
theorem checkPacket_queueElem_len_empty :
    checkPacket [0, 5, 0, 7, 0, 8, 0, 0] 1 2 = .ok [0, 5, 0, 7, 0, 8, 0, 0] ∧
      -8 ≤ (queueElem [0, 5, 0, 7, 0, 8, 0, 0] 1 2).len ∧
      (queueElem [0, 5, 0, 7, 0, 8, 0, 0] 1 2).len ≤ 0xffff - 8 ∧
      (queueElem [0, 5, 0, 7, 0, 8, 0, 0] 1 2).len ≤
        (queueElem [0, 5, 0, 7, 0, 8, 0, 0] 1 2).buf.length :=
  have h : checkPacket [0, 5, 0, 7, 0, 8, 0, 0] 1 2 = .ok [0, 5, 0, 7, 0, 8, 0, 0] := rfl
  ⟨h, checkPacket_queueElem_len h⟩

/-- A length field below 8 passes the checks of `udp_input`: the datagram is queued with a
negative `qe->len`, which `udp_recvfrom` returns. -/
theorem udpInput_queues_negative_len (u : Udp) (buf : List UInt8) (src dst : UInt32) (e : Nat)
    (hlen : ntohs buf 4 < 8) (hfit : ntohs buf 4 ≤ buf.length % 65536) (hck : ntohs buf 6 = 0)
    (he : u.lookupPort (UInt16.ofNat (ntohs buf 2)) = some e) (hr : 0 < (u.ep e).refCount) :
    checkPacket buf src dst = .ok buf ∧
      udpInput u buf src dst true = (delivered u e buf src dst, .ok ()) ∧
      (delivered u e buf src dst).elem u.nextElem = queueElem buf src dst ∧
      (queueElem buf src dst).len = (ntohs buf 4 : Int) - 8 ∧ (queueElem buf src dst).len < 0 ∧
      ∀ s, (u.ep e).q = [] → (u.ep e).sem = some s → 0 ≤ s → ∀ len : Int,
        ∃ u', udpRecvfrom (delivered u e buf src dst) e len =
          some (u', .ok (recvOut (queueElem buf src dst) len)) ∧
          (recvOut (queueElem buf src dst) len).2.1 < 0 ∧ min (queueElem buf src dst).len len < 0 := by
  have hc : checkPacket buf src dst = .ok buf := by
    simp only [checkPacket, hck, if_true]; rw [if_neg (by omega)]
  have hneg : (queueElem buf src dst).len < 0 := by simp only [queueElem]; omega
  refine ⟨hc, udpInput_delivers hc he hr, by simp [delivered], rfl, hneg,
    fun s hq hs hs0 len => ?_⟩
  have ⟨u', h⟩ : ∃ u', udpRecvfrom (delivered u e buf src dst) e len =
      some (u', .ok (recvOut (queueElem buf src dst) len)) := udpRecvfrom_delivered hq hs hs0 len
  exact ⟨u', h, hneg, by omega⟩

/-- A header alone, from port 5 to port 7 with length field `0` and no checksum, sent to the
endpoint `udp_open(7)` made: it is queued with length `-8`, and `udp_recvfrom` returns `-8`. -/
theorem udpInput_queues_negative_len_zero_length :
    checkPacket [0, 5, 0, 7, 0, 0, 0, 0] 1 2 = .ok [0, 5, 0, 7, 0, 0, 0, 0] ∧
      udpInput (Udp.empty.udpOpen 7).1 [0, 5, 0, 7, 0, 0, 0, 0] 1 2 true =
        (delivered (Udp.empty.udpOpen 7).1 0 [0, 5, 0, 7, 0, 0, 0, 0] 1 2, .ok ()) ∧
      (queueElem [0, 5, 0, 7, 0, 0, 0, 0] 1 2).len = -8 ∧
      ∃ u', udpRecvfrom (delivered (Udp.empty.udpOpen 7).1 0 [0, 5, 0, 7, 0, 0, 0, 0] 1 2) 0 100 =
        some (u', .ok ([], -8, 1, 5)) := by
  obtain ⟨hc, hin, -, hl, -, hr⟩ := udpInput_queues_negative_len (Udp.empty.udpOpen 7).1
    [0, 5, 0, 7, 0, 0, 0, 0] 1 2 0 (by decide) (by decide) (by decide) rfl (by decide)
  obtain ⟨u', h, -⟩ := hr 0 rfl rfl (by decide) 100
  exact ⟨hc, hin, hl, u', h⟩

end Net
end NewOS
