import QuicGo.Lib.Bits

/-!
# QuicGo — truncated packet numbers (`internal/protocol/packet_number.go`)

A packet carries the low one to four bytes of its packet number. The sender picks the length
from the number of packets the peer has not acknowledged (`PacketNumberLengthForHeader`), and the
receiver recovers the full number as the one with those low bytes that is closest to the next
number it expects (`DecodePacketNumber`, RFC 9000, Appendix A.3).

`DecodePacketNumber` puts the truncated bytes into the expected number with a mask, and moves the
candidate by one window when it is more than half a window away, except near `0` and `2^62`.
Packet numbers are `int64`s and `ℤ` here; below `2^62` none of the sums overflows. The mask is
computed with the two's-complement `Int.land` and `Int.lor`, and `Bits.lor_land_not_mask` says
what it gives.

The decoder returns every packet number within half a window of the next expected one
(`DecodePacketNumber_of_window`). The lengths the sender picks leave half a window for at most
`2^31 - 1` unacknowledged packets (`PacketNumberLengthForHeader_window`); with no packet
acknowledged at all, the count is `pn + 1`, and nothing bounds it
(`lengthForHeader_unacked_misdecoded`).
-/

namespace QuicGo

namespace Protocol

/-- `protocol.InvalidPacketNumber`: a packet number that is never sent. -/
def InvalidPacketNumber : ℤ := -1

/-- `DecodePacketNumber`: the packet number closest to `largest + 1` whose low `length` bytes
are `truncated`. -/
def DecodePacketNumber (length : ℕ) (largest truncated : ℤ) : ℤ :=
  let expected := largest + 1
  let win : ℤ := 2 ^ (length * 8)
  let hwin := win / 2
  let mask := win - 1
  let candidate := Int.lor (Int.land expected (~~~mask)) truncated
  if candidate ≤ expected - hwin ∧ candidate < 2 ^ 62 - win then candidate + win
  else if candidate > expected + hwin ∧ candidate ≥ win then candidate - win
  else candidate

/-- `PacketNumberLengthForHeader`: two bytes, three or four, by the number of packets up to
`pn` that are not acknowledged. It never chooses one byte. -/
def PacketNumberLengthForHeader (pn largestAcked : ℤ) : ℕ :=
  let numUnacked := if largestAcked = InvalidPacketNumber then pn + 1 else pn - largestAcked
  if numUnacked < 2 ^ (16 - 1) then 2
  else if numUnacked < 2 ^ (24 - 1) then 3
  else 4

/-! ## Decoding -/

/-- The candidate of `DecodePacketNumber`: the expected number rounded down to a whole window,
with the truncated bytes put in. -/
theorem candidate_eq (length : ℕ) (expected truncated : ℤ) (h0 : 0 ≤ truncated)
    (ht : truncated < 2 ^ (length * 8)) :
    Int.lor (Int.land expected (~~~(2 ^ (length * 8) - 1))) truncated =
      2 ^ (length * 8) * (expected / 2 ^ (length * 8)) + truncated :=
  Bits.lor_land_not_mask expected truncated (length * 8) h0 ht

/-- **Decoding.** A packet number within half a window of the next expected one, above the
window's lower end and up to its upper end, is decoded from its low `length` bytes. -/
theorem DecodePacketNumber_of_window {length : ℕ} {largest pn : ℤ} (hlen : 1 ≤ length)
    (h0 : 0 ≤ pn) (h62 : pn < 2 ^ 62) (hlo : largest + 1 - 2 ^ (8 * length - 1) < pn)
    (hhi : pn ≤ largest + 1 + 2 ^ (8 * length - 1)) :
    DecodePacketNumber length largest (pn % 2 ^ (8 * length)) = pn := by
  -- the window and its half
  have hW8 : (2 : ℤ) ^ (8 * length) = 2 ^ (length * 8) := by rw [Nat.mul_comm]
  have hWpos : (0 : ℤ) < 2 ^ (length * 8) := Int.pow_pos (by decide)
  have hH : (2 : ℤ) ^ (length * 8) = 2 ^ (8 * length - 1) * 2 := by
    rw [← pow_succ, Nat.sub_add_cancel (by omega), Nat.mul_comm]
  have hhwin : (2 : ℤ) ^ (length * 8) / 2 = 2 ^ (8 * length - 1) := by
    rw [hH, Int.mul_ediv_cancel _ (by decide)]
  rw [hW8] at ⊢
  -- the truncated bytes, and the candidate they give
  have ht0 : 0 ≤ pn % 2 ^ (length * 8) := Int.emod_nonneg _ (by omega)
  have htW : pn % 2 ^ (length * 8) < 2 ^ (length * 8) := Int.emod_lt_of_pos _ hWpos
  have hc := candidate_eq length (largest + 1) _ ht0 htW
  -- the expected number and `pn` are whole windows plus their low bytes
  have he := Int.mul_ediv_add_emod (largest + 1) (2 ^ (length * 8))
  have he0 : 0 ≤ (largest + 1) % 2 ^ (length * 8) := Int.emod_nonneg _ (by omega)
  have heW : (largest + 1) % 2 ^ (length * 8) < 2 ^ (length * 8) := Int.emod_lt_of_pos _ hWpos
  have hp := Int.mul_ediv_add_emod pn (2 ^ (length * 8))
  -- so `pn` is the candidate, or one window off it
  have hnear := Bits.eq_of_dvd_near hWpos
    (d := pn - (2 ^ (length * 8) * ((largest + 1) / 2 ^ (length * 8)) + pn % 2 ^ (length * 8)))
    (m := pn / 2 ^ (length * 8) - (largest + 1) / 2 ^ (length * 8))
    (by rw [Int.mul_sub]; omega) (by omega) (by omega)
  unfold DecodePacketNumber
  simp only [hc, hhwin]
  split_ifs <;> omega

/-! ## The length the sender chooses -/

/-- The length the sender chooses gives a window whose half covers every receiver that has seen
at least the largest acknowledged packet, as long as fewer than `2^31` packets up to `pn` are
unacknowledged. -/
theorem PacketNumberLengthForHeader_window {pn largestAcked largest : ℤ}
    (hla : largestAcked = InvalidPacketNumber ∧ pn + 1 < 2 ^ 31 ∨
      0 ≤ largestAcked ∧ largestAcked < pn ∧ pn - largestAcked < 2 ^ 31)
    (hlg : max largestAcked (-1) ≤ largest) (hlt : largest < pn) :
    1 ≤ PacketNumberLengthForHeader pn largestAcked ∧
      largest + 1 - 2 ^ (8 * PacketNumberLengthForHeader pn largestAcked - 1) < pn ∧
      pn ≤ largest + 1 + 2 ^ (8 * PacketNumberLengthForHeader pn largestAcked - 1) := by
  unfold PacketNumberLengthForHeader
  rcases hla with ⟨rfl, hpn⟩ | ⟨hla0, hlapn, hw⟩
  · -- nothing acknowledged: every packet up to `pn` counts, and the receiver is at `-1` or later
    have hlg' : -1 ≤ largest := (Int.max_le.mp hlg).2
    rw [if_pos rfl]
    dsimp only
    split_ifs <;> simp <;> omega
  · have hne : largestAcked ≠ InvalidPacketNumber := by unfold InvalidPacketNumber; omega
    have hlg' : largestAcked ≤ largest := (Int.max_le.mp hlg).1
    rw [if_neg hne]
    dsimp only
    split_ifs <;> simp <;> omega

/-- **Truncation and recovery.** A packet number below `2^62`, written with the length the sender
chooses, is decoded by every receiver between the largest acknowledged packet and `pn`, when
fewer than `2^31` packets are unacknowledged; and a packet number of any length is decoded when
it is within half a window of the next expected one. -/
theorem decodePacketNumber_truncated :
    (∀ pn largestAcked largest : ℤ, 0 ≤ pn → pn < 2 ^ 62 →
      (largestAcked = InvalidPacketNumber ∧ pn + 1 < 2 ^ 31 ∨
        0 ≤ largestAcked ∧ largestAcked < pn ∧ pn - largestAcked < 2 ^ 31) →
      max largestAcked (-1) ≤ largest → largest < pn →
      DecodePacketNumber (PacketNumberLengthForHeader pn largestAcked) largest
        (pn % 2 ^ (8 * PacketNumberLengthForHeader pn largestAcked)) = pn) ∧
    (∀ (length : ℕ) (largest pn : ℤ), 1 ≤ length → length ≤ 4 → 0 ≤ pn → pn < 2 ^ 62 →
      largest + 1 - 2 ^ (8 * length - 1) < pn → pn ≤ largest + 1 + 2 ^ (8 * length - 1) →
      DecodePacketNumber length largest (pn % 2 ^ (8 * length)) = pn) := by
  refine ⟨fun pn largestAcked largest h0 h62 hla hlg hlt => ?_,
    fun length largest pn hlen _ h0 h62 hlo hhi => DecodePacketNumber_of_window hlen h0 h62 hlo hhi⟩
  obtain ⟨hlen, hlo, hhi⟩ := PacketNumberLengthForHeader_window hla hlg hlt
  exact DecodePacketNumber_of_window hlen h0 h62 hlo hhi

/-- With no packet acknowledged, the sender counts `pn + 1` unacknowledged packets and chooses
four bytes for any `pn` from `2^23 - 1` on; at `2^32 + 5`, a receiver that has seen nothing
decodes `5`. -/
theorem lengthForHeader_unacked_misdecoded :
    PacketNumberLengthForHeader (2 ^ 32 + 5) InvalidPacketNumber = 4 ∧
      DecodePacketNumber 4 InvalidPacketNumber ((2 ^ 32 + 5) % 2 ^ (8 * 4)) = 5 := by
  refine ⟨by decide, ?_⟩
  unfold DecodePacketNumber
  dsimp only
  rw [candidate_eq 4 _ _ (by decide) (by decide)]
  decide

end Protocol

end QuicGo
