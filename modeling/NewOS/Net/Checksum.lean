import NewOS.Basic

/-! # The Internet checksum

`udp_sendto` and `udp_input` checksum the pseudo-header and the datagram with `cksum16_2`, which
lives in `kernel/net/misc.c`, outside the source tree. It is taken to be the checksum of RFC 1071
over its two buffers concatenated: the one's-complement sum of the 16-bit words, an odd last byte
padded with a zero byte, complemented. The one's-complement sum does not depend on the byte order
it is computed in, so words are read in network order throughout, and the checksum field is
written in the same order as the other header fields.
-/
namespace NewOS
namespace Net

/-- The 16-bit words of a byte string in network order, added without folding the carries: the
accumulator of RFC 1071. An odd last byte is the high byte of a word whose low byte is zero. -/
def wordSum : List UInt8 → Nat
  | [] => 0
  | [a] => a.toNat * 256
  | a :: b :: rest => a.toNat * 256 + b.toNat + wordSum rest

/-- The end-around carry of RFC 1071: `while (sum >> 16) sum = (sum & 0xffff) + (sum >> 16)`. -/
def foldCarry (s : Nat) : Nat :=
  if s < 65536 then s else foldCarry (s % 65536 + s / 65536)
termination_by s
decreasing_by omega

/-- `cksum16_2(a, la, b, lb)`: the complement of the folded sum of the two buffers. -/
def cksum16_2 (a b : List UInt8) : Nat := 65535 - foldCarry (wordSum (a ++ b))

/-- `htons`, and the layout of every 16-bit header field: the high byte first. -/
def htons (v : Nat) : List UInt8 := [UInt8.ofNat (v / 256), UInt8.ofNat v]

/-- `htonl`: a 32-bit value as four bytes, the high byte first. -/
def htonl (v : Nat) : List UInt8 :=
  [UInt8.ofNat (v / 2 ^ 24), UInt8.ofNat (v / 2 ^ 16), UInt8.ofNat (v / 2 ^ 8), UInt8.ofNat v]

/-- `ntohs` of the 16-bit field at byte offset `i`. -/
def ntohs (b : List UInt8) (i : Nat) : Nat := (b.getD i 0).toNat * 256 + (b.getD (i + 1) 0).toNat

@[simp] theorem toNat_ofNat (n : Nat) : (UInt8.ofNat n).toNat = n % 256 := rfl

/-- The folded sum is the sum modulo `0xffff`, with `0xffff` standing for a non-zero multiple. -/
theorem foldCarry_eq (s : Nat) : foldCarry s = if s = 0 then 0 else (s - 1) % 65535 + 1 := by
  induction s using foldCarry.induct with
  | case1 s h => rw [foldCarry, if_pos h]; split_ifs <;> omega
  | case2 s h ih => rw [foldCarry, if_neg h, ih]; split_ifs <;> omega

/-- The sum of two byte strings, the first of even length, is the sum of their sums. -/
theorem wordSum_append {a : List UInt8} (h : a.length % 2 = 0) (b : List UInt8) :
    wordSum (a ++ b) = wordSum a + wordSum b := by
  induction a using wordSum.induct with
  | case1 => simp [wordSum]
  | case2 x => simp at h
  | case3 x y rest ih =>
    simp only [List.length_cons] at h
    show wordSum (x :: y :: (rest ++ b)) = _
    rw [wordSum, wordSum, ih (by omega)]; omega

/-- A zero byte after an odd-length string is the padding the sum already assumes. -/
theorem wordSum_pad {a : List UInt8} (h : a.length % 2 = 1) : wordSum (a ++ [0]) = wordSum a := by
  induction a using wordSum.induct with
  | case1 => simp at h
  | case2 x => simp [wordSum]
  | case3 x y rest ih =>
    simp only [List.length_cons] at h
    show wordSum (x :: y :: (rest ++ [0])) = _
    rw [wordSum, wordSum, ih (by omega)]

theorem wordSum_htons {v : Nat} (hv : v < 65536) : wordSum (htons v) = v := by
  simp only [htons, wordSum, toNat_ofNat]
  omega

theorem ntohs_lt (b : List UInt8) (i : Nat) : ntohs b i < 65536 := by
  have := (b.getD i 0).toNat_lt_size; have := (b.getD (i + 1) 0).toNat_lt_size
  unfold ntohs UInt8.size at *; omega

/-- Zeroing a byte never makes a 16-bit field read larger. -/
theorem ntohs_set_zero_le (b : List UInt8) (i j : Nat) : ntohs (b.set j 0) i ≤ ntohs b i := by
  have key : ∀ n, ((b.set j 0).getD n 0).toNat ≤ (b.getD n 0).toNat := fun n => by
    simp only [List.getD_eq_getElem?_getD, List.getElem?_set]
    split_ifs <;> simp
  have := key i; have := key (i + 1)
  unfold ntohs; omega

/-- A datagram that carries the checksum computed over it with the field zero, `0xffff` in place
of a zero checksum, verifies: the receiver's checksum over the same words with the field filled
in is zero. -/
theorem cksum_verifies {W : Nat} (hW : 0 < W) :
    65535 - foldCarry (W + if 65535 - foldCarry W = 0 then 65535 else 65535 - foldCarry W) = 0 := by
  have hS : foldCarry W = (W - 1) % 65535 + 1 := by rw [foldCarry_eq, if_neg (by omega)]
  rw [hS, foldCarry_eq]
  split_ifs <;> first | contradiction | omega

end Net
end NewOS
