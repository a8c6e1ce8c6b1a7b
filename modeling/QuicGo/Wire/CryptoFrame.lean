import QuicGo.Quicvarint
import Mathlib.Data.Int.Notation
import Mathlib.Algebra.Group.Int.Defs

/-!
# QuicGo — the size of a CRYPTO frame (`internal/wire/crypto_frame.go`)

A CRYPTO frame is its type byte, its offset and its data length as varints, and its data.
`MaxDataLen` is the longest data that keeps the frame within a given size: it counts one byte
for the data length and takes a byte off the data when the length needs two. It does not count
the four bytes a length of `2^14` or more needs: below a size of `maxVarInt2 + 4` every frame
with at most `MaxDataLen` bytes of data fits (`Length_le_of_MaxDataLen`), above it one with
exactly `MaxDataLen` bytes is two bytes too long (`Length_MaxDataLen_overshoot`).

Offsets are `protocol.ByteCount`s, `int64`s that the crypto streams also set to
`InvalidByteCount`, so they are `ℤ` here, converted to `uint64` as Go converts them.
-/

namespace QuicGo

namespace Wire

open Quicvarint

/-- `CryptoFrame`. -/
structure CryptoFrame where
  Offset : ℤ
  Data : List UInt8
  deriving DecidableEq, Repr

/-- Go's conversion `uint64(x)` of an `int64`. -/
def toUint64 (x : ℤ) : ℕ := (x % 2 ^ 64).toNat

/-- `CryptoFrame.Length`; `none` is the panic of `quicvarint.Len`. -/
def CryptoFrame.Length (f : CryptoFrame) : Option ℤ :=
  match Len (toUint64 f.Offset), Len f.Data.length with
  | some lo, some ld => some (1 + lo + ld + f.Data.length)
  | _, _ => none

/-- `CryptoFrame.MaxDataLen`; `none` is the panic of `quicvarint.Len`. -/
def CryptoFrame.MaxDataLen (f : CryptoFrame) (maxSize : ℤ) : Option ℤ :=
  match Len (toUint64 f.Offset) with
  | none => none
  | some lo =>
    -- pretend that the data size will be 1 byte
    let headerLen : ℤ := 1 + lo + 1
    if headerLen > maxSize then some 0
    else
      let maxDataLen := maxSize - headerLen
      match Len (toUint64 maxDataLen) with
      | none => none
      | some l => if l ≠ 1 then some (maxDataLen - 1) else some maxDataLen

/-! ## The varint lengths -/

theorem toUint64_of_nonneg {x : ℤ} (h0 : 0 ≤ x) (h : x < 2 ^ 64) : toUint64 x = x.toNat := by
  unfold toUint64
  omega

theorem Len_one {i : ℕ} (h : i ≤ 63) : Len i = some 1 := by
  unfold Len maxVarInt1
  rw [if_pos h]

theorem Len_two {i : ℕ} (h₁ : 63 < i) (h₂ : i ≤ 16383) : Len i = some 2 := by
  unfold Len maxVarInt1 maxVarInt2
  rw [if_neg (by omega), if_pos h₂]

theorem Len_four {i : ℕ} (h₁ : 16383 < i) (h₂ : i ≤ 1073741823) : Len i = some 4 := by
  unfold Len maxVarInt1 maxVarInt2 maxVarInt4
  rw [if_neg (by omega), if_neg (by omega), if_pos h₂]

/-- A field of `d` bytes after its varint length, behind `h` bytes of header, fits a size for
exactly the `d` up to what `MaxDataLen` computes: the size less the header and a byte for the
length, less one more byte where that is above `63`, so that the length needs two bytes. This is
exact as long as the field is shorter than `2^14`. -/
theorem lengthPrefixed_fits_iff {h maxSize : ℤ} (d : ℕ) (hfit : h + 1 ≤ maxSize)
    (hmax : maxSize - h ≤ maxVarInt2 + 2) :
    (∃ ld : ℕ, Len d = some ld ∧ h + ld + d ≤ maxSize) ↔
      (d : ℤ) ≤ if maxSize - h - 1 ≤ 63 then maxSize - h - 1 else maxSize - h - 1 - 1 := by
  unfold maxVarInt2 at hmax
  constructor
  · rintro ⟨ld, hld, hle⟩
    -- a length above `63` takes at least two bytes
    have := Len_eq_some hld
    split_ifs <;> omega
  · intro hd
    split_ifs at hd with h63
    · exact ⟨1, Len_one (by omega), by omega⟩
    · by_cases hd63 : d ≤ 63
      · exact ⟨1, Len_one hd63, by omega⟩
      · exact ⟨2, Len_two (by omega) (by omega), by omega⟩

/-- `Length` of a frame, from the lengths of its varints. -/
theorem Length_eq {o : ℤ} {data : List UInt8} {lo ld : ℕ} (hlo : Len (toUint64 o) = some lo)
    (hld : Len data.length = some ld) :
    (CryptoFrame.mk o data).Length = some (1 + (lo : ℤ) + ld + data.length) := by
  unfold CryptoFrame.Length
  rw [hlo, hld]

/-! ## What `MaxDataLen` allows -/

/-- `MaxDataLen` below a size of `maxVarInt2 + 4`, where the one-byte frame fits: the size less
the header, less one more byte when the data length needs two bytes. -/
theorem MaxDataLen_eq {o maxSize : ℤ} {lo : ℕ} (hlo : Len (toUint64 o) = some lo)
    (hfit : 1 + (lo : ℤ) + 1 + 1 ≤ maxSize) (hmax : maxSize ≤ maxVarInt2 + 4) :
    (CryptoFrame.mk o []).MaxDataLen maxSize =
      some (if maxSize - (1 + lo + 1) ≤ 63 then maxSize - (1 + lo + 1)
        else maxSize - (1 + lo + 1) - 1) := by
  unfold maxVarInt2 at hmax
  have hlo1 : 1 ≤ lo := by rcases Len_eq_some hlo with h | h | h | h <;> omega
  have hu : toUint64 (maxSize - (1 + lo + 1)) = (maxSize - (1 + lo + 1)).toNat :=
    toUint64_of_nonneg (by omega) (by omega)
  unfold CryptoFrame.MaxDataLen
  rw [hlo]
  dsimp only
  rw [if_neg (by omega), hu]
  by_cases h63 : maxSize - (1 + lo + 1) ≤ 63
  · rw [Len_one (by omega), if_pos h63]
    rfl
  · -- the length the data starts from is at most `2^14`: two bytes, or four at `2^14` itself
    have hl : ∃ l, Len (maxSize - (1 + lo + 1)).toNat = some l ∧ l ≠ 1 := by
      by_cases h14 : maxSize - (1 + lo + 1) ≤ 16383
      · exact ⟨2, Len_two (by omega) (by omega), by decide⟩
      · exact ⟨4, Len_four (by omega) (by omega), by decide⟩
    obtain ⟨l, hl, hl1⟩ := hl
    rw [hl, if_neg h63]
    dsimp only
    rw [if_pos hl1]

/-- `MaxDataLen` when not even a one-byte frame fits. -/
theorem MaxDataLen_of_lt {o maxSize : ℤ} {lo : ℕ} (hlo : Len (toUint64 o) = some lo)
    (h : maxSize < 1 + (lo : ℤ) + 1 + 1) : (CryptoFrame.mk o []).MaxDataLen maxSize = some 0 := by
  unfold CryptoFrame.MaxDataLen
  rw [hlo]
  dsimp only
  by_cases hgt : 1 + (lo : ℤ) + 1 > maxSize
  · rw [if_pos hgt]
  · -- the header fills the size: no byte is left
    have h0 : maxSize - (1 + lo + 1) = 0 := by omega
    rw [if_neg hgt, h0]
    rfl

/-- The frames at `o` that fit a size, by the lengths of their varints. -/
theorem CryptoFrame.Length_fits_iff {o maxSize : ℤ} {lo : ℕ} (hlo : Len (toUint64 o) = some lo)
    (data : List UInt8) :
    (∃ L, (CryptoFrame.mk o data).Length = some L ∧ L ≤ maxSize) ↔
      ∃ ld : ℕ, Len data.length = some ld ∧ (1 + lo : ℤ) + ld + data.length ≤ maxSize := by
  unfold CryptoFrame.Length
  rw [hlo]
  cases hld : Len data.length with
  | none => simp
  | some ld =>
    simp only [Option.some.injEq, exists_eq_left']

/-- **`MaxDataLen` is exact** below a size of `maxVarInt2 + 4`: a frame at `o` with data fits the
size if and only if it has at most `MaxDataLen` bytes. -/
theorem CryptoFrame.fits_iff_le_MaxDataLen {o maxSize n : ℤ} (hmax : maxSize ≤ maxVarInt2 + 4)
    (hn : (CryptoFrame.mk o []).MaxDataLen maxSize = some n) (data : List UInt8)
    (hd : 0 < data.length) :
    (∃ L, (CryptoFrame.mk o data).Length = some L ∧ L ≤ maxSize) ↔ data.length ≤ n := by
  obtain ⟨lo, hlo⟩ : ∃ lo, Len (toUint64 o) = some lo := by
    unfold CryptoFrame.MaxDataLen at hn
    split at hn
    · cases hn
    · exact ⟨_, ‹_›⟩
  have hlo1 : 1 ≤ lo := by rcases Len_eq_some hlo with h | h | h | h <;> omega
  rw [Length_fits_iff hlo]
  by_cases hfit : 1 + (lo : ℤ) + 1 + 1 ≤ maxSize
  · rw [MaxDataLen_eq hlo hfit hmax, Option.some.injEq] at hn
    subst hn
    have hw : maxSize - (1 + lo) ≤ maxVarInt2 + 2 := by
      unfold maxVarInt2 at hmax ⊢
      omega
    rw [lengthPrefixed_fits_iff data.length (by omega : (1 + lo : ℤ) + 1 ≤ maxSize) hw]
    have he : maxSize - (1 + lo) - 1 = maxSize - (1 + lo + 1) := by omega
    rw [he]
  · -- not even one byte fits, and `MaxDataLen` is `0`
    rw [MaxDataLen_of_lt hlo (by omega), Option.some.injEq] at hn
    subst hn
    constructor
    · rintro ⟨ld, hld, hle⟩
      have := Len_eq_some hld
      omega
    · intro h
      omega

/-- For a size at most `maxVarInt2 + 4` that a one-byte CRYPTO frame at offset `o` fits,
`MaxDataLen` at `o` is at least one, and every frame at `o` with at most that much data fits
the size. -/
theorem Length_le_of_MaxDataLen {o L maxSize : ℤ} (hfit : (CryptoFrame.mk o [0]).Length = some L)
    (hL : L ≤ maxSize) (hmax : maxSize ≤ maxVarInt2 + 4) :
    ∃ m, (CryptoFrame.mk o []).MaxDataLen maxSize = some m ∧ 1 ≤ m ∧
      ∀ data : List UInt8, data.length ≤ m →
        ∃ L', (CryptoFrame.mk o data).Length = some L' ∧ L' ≤ maxSize := by
  -- the one-byte frame is `1 + lo + 1 + 1` bytes long
  obtain ⟨lo, hlo⟩ : ∃ lo, Len (toUint64 o) = some lo := by
    unfold CryptoFrame.Length at hfit
    split at hfit
    · rename_i lo ld hlo hld
      exact ⟨lo, hlo⟩
    · cases hfit
  have hLo : L = 1 + lo + 1 + 1 := by
    rw [Length_eq hlo (Len_one (by simp))] at hfit
    simp only [Option.some.injEq, List.length_singleton] at hfit
    omega
  have hlo1 : 1 ≤ lo := by rcases Len_eq_some hlo with h | h | h | h <;> omega
  rw [MaxDataLen_eq hlo (by omega) hmax]
  unfold maxVarInt2 at hmax
  -- the frame's length by the bytes its data length needs
  by_cases h63 : maxSize - (1 + lo + 1) ≤ 63
  · rw [if_pos h63]
    refine ⟨_, rfl, by omega, fun data hdata => ?_⟩
    exact ⟨_, Length_eq hlo (Len_one (by omega)), by omega⟩
  · rw [if_neg h63]
    refine ⟨_, rfl, by omega, fun data hdata => ?_⟩
    by_cases hd : data.length ≤ 63
    · exact ⟨_, Length_eq hlo (Len_one hd), by omega⟩
    · exact ⟨_, Length_eq hlo (Len_two (by omega) (by omega)), by omega⟩

/-- Above a size of `maxVarInt2 + 4` (and below sizes whose data length needs eight bytes), a
frame at offset `0` with `MaxDataLen` bytes of data is two bytes longer than the size: its data
length needs four bytes, not two. -/
theorem Length_MaxDataLen_overshoot {maxSize : ℤ} (hlo : maxVarInt2 + 5 ≤ maxSize)
    (hhi : maxSize ≤ maxVarInt4 + 3) :
    (CryptoFrame.mk 0 []).MaxDataLen maxSize = some (maxSize - 4) ∧
      (CryptoFrame.mk 0 (List.replicate (maxSize - 4).toNat 0)).Length = some (maxSize + 2) := by
  unfold maxVarInt2 at hlo
  unfold maxVarInt4 at hhi
  have h0 : Len (toUint64 0) = some 1 := rfl
  have hu : toUint64 (maxSize - (1 + ((1 : ℕ) : ℤ) + 1)) = (maxSize - 3).toNat :=
    toUint64_of_nonneg (by omega) (by omega)
  have h3 : Len (maxSize - 3).toNat = some 4 := Len_four (by omega) (by omega)
  have h4 : Len (List.replicate (maxSize - 4).toNat (0 : UInt8)).length = some 4 := by
    rw [List.length_replicate]
    exact Len_four (by omega) (by omega)
  constructor
  · unfold CryptoFrame.MaxDataLen
    rw [h0]
    dsimp only
    rw [if_neg (by omega), hu, h3]
    dsimp only
    rw [if_pos (by decide)]
    congr 1
    omega
  · rw [Length_eq h0 h4]
    simp only [List.length_replicate, Option.some.injEq]
    omega

/-! ## Splitting a frame -/

/-- `CryptoFrame.MaybeSplitOffFrame`: the frame split off, whether splitting was needed, and the
frame that is left; `none` is a panic. -/
def CryptoFrame.MaybeSplitOffFrame (f : CryptoFrame) (maxSize : ℤ) :
    Option (Option CryptoFrame × Bool × CryptoFrame) :=
  match f.Length with
  | none => none
  | some length =>
    if length ≤ maxSize then some (none, false, f)
    else
      match f.MaxDataLen maxSize with
      | none => none
      | some n =>
        if n = 0 then some (none, true, f)
        else
          let newLen := (f.Data.length : ℤ) - n
          -- `make([]byte, newLen)` panics on a negative length
          if newLen < 0 then none
          else
            -- the data slices swapped: the new frame keeps the first `n` bytes, `f` a copy of
            -- the rest
            some (some ⟨f.Offset, f.Data.take n.toNat⟩, true, ⟨f.Offset + n, f.Data.drop n.toNat⟩)

theorem CryptoFrame.MaxDataLen_nonneg {f : CryptoFrame} {maxSize n : ℤ}
    (h : f.MaxDataLen maxSize = some n) : 0 ≤ n := by
  unfold CryptoFrame.MaxDataLen at h
  split at h
  · cases h
  · rename_i lo hlo
    dsimp only at h
    split_ifs at h with hgt
    · cases h
      exact Int.le_refl 0
    · split at h
      · cases h
      · rename_i l hl
        -- a length that needs more than one byte is above `63`, and `toUint64` only lowers it
        have := Len_eq_some hl
        have hu : (toUint64 (maxSize - (1 + lo + 1)) : ℤ) ≤ maxSize - (1 + lo + 1) := by
          unfold toUint64
          omega
        split_ifs at h <;> cases h <;> omega

/-- What `MaybeSplitOffFrame` does: nothing to a frame that fits; nothing, reporting the split,
where `MaxDataLen` is `0`; and otherwise the first `MaxDataLen` bytes split off. -/
theorem CryptoFrame.MaybeSplitOffFrame_eq_some {f : CryptoFrame} {maxSize : ℤ}
    {r : Option CryptoFrame × Bool × CryptoFrame} (h : f.MaybeSplitOffFrame maxSize = some r) :
    ∃ L, f.Length = some L ∧ (L ≤ maxSize ∧ r = (none, false, f) ∨
      maxSize < L ∧ ∃ n, f.MaxDataLen maxSize = some n ∧ (n = 0 ∧ r = (none, true, f) ∨
        0 < n ∧ n ≤ f.Data.length ∧
          r = (some ⟨f.Offset, f.Data.take n.toNat⟩, true,
            ⟨f.Offset + n, f.Data.drop n.toNat⟩))) := by
  unfold CryptoFrame.MaybeSplitOffFrame at h
  split at h
  · cases h
  · rename_i L hL
    refine ⟨L, hL, ?_⟩
    split_ifs at h with hle
    · exact .inl ⟨hle, (Option.some.inj h).symm⟩
    · right
      refine ⟨by omega, ?_⟩
      split at h
      · cases h
      · rename_i n hn
        have h0 := MaxDataLen_nonneg hn
        refine ⟨n, hn, ?_⟩
        by_cases hn0 : n = 0
        · rw [if_pos hn0] at h
          exact .inl ⟨hn0, (Option.some.inj h).symm⟩
        · rw [if_neg hn0] at h
          dsimp only at h
          -- a negative length left is a panic
          split_ifs at h with hneg
          exact .inr ⟨by omega, by omega, (Option.some.inj h).symm⟩

section Split

variable {f f' g : CryptoFrame} {maxSize : ℤ}

/-- A frame that is not split fits. -/
theorem CryptoFrame.MaybeSplitOffFrame_not_split
    (h : f.MaybeSplitOffFrame maxSize = some (none, false, f')) :
    f' = f ∧ ∃ L, f.Length = some L ∧ L ≤ maxSize := by
  obtain ⟨L, hL, ⟨hle, h⟩ | ⟨-, n, -, ⟨-, h⟩ | ⟨-, -, h⟩⟩⟩ := MaybeSplitOffFrame_eq_some h
  · simp only [Prod.mk.injEq] at h
    exact ⟨h.2.2, L, hL, hle⟩
  · simp at h
  · simp at h

/-- Where the split reports that not even one byte fits, no frame with one byte at the offset
fits. -/
theorem CryptoFrame.MaybeSplitOffFrame_too_small (hmax : maxSize ≤ maxVarInt2 + 4)
    (h : f.MaybeSplitOffFrame maxSize = some (none, true, f')) :
    f' = f ∧
      ∀ (b : UInt8) (L : ℤ), (CryptoFrame.mk f.Offset [b]).Length = some L → maxSize < L := by
  obtain ⟨L, hL, ⟨-, h⟩ | ⟨-, n, hn, ⟨rfl, h⟩ | ⟨-, -, h⟩⟩⟩ := MaybeSplitOffFrame_eq_some h
  · simp at h
  · simp only [Prod.mk.injEq] at h
    refine ⟨h.2.2, fun b L' hL' => ?_⟩
    -- `MaxDataLen` is exact, and it is `0`
    have hfits := fits_iff_le_MaxDataLen hmax hn [b] (by simp)
    by_contra hle
    have := hfits.mp ⟨L', hL', by omega⟩
    simp at this
  · simp at h

/-- A split frame: the part split off fits, and the two parts are the data, the first at least
one byte and shorter than the whole. -/
theorem CryptoFrame.MaybeSplitOffFrame_split (hmax : maxSize ≤ maxVarInt2 + 4)
    (h : f.MaybeSplitOffFrame maxSize = some (some g, true, f')) :
    (∃ L, g.Length = some L ∧ L ≤ maxSize) ∧ g.Offset = f.Offset ∧ g.Data ++ f'.Data = f.Data ∧
      f'.Offset = f.Offset + g.Data.length ∧ 0 < g.Data.length ∧
        g.Data.length < f.Data.length := by
  obtain ⟨L, hL, ⟨-, h⟩ | ⟨hlt, n, hn, ⟨-, h⟩ | ⟨hn0, hnle, h⟩⟩⟩ := MaybeSplitOffFrame_eq_some h
  · simp at h
  · simp at h
  simp only [Prod.mk.injEq, Option.some.injEq] at h
  obtain ⟨rfl, -, rfl⟩ := h
  have hfits := fits_iff_le_MaxDataLen (o := f.Offset) hmax hn
  have hglen : ((f.Data.take n.toNat).length : ℤ) = n := by
    rw [List.length_take]
    omega
  -- `f` itself does not fit, so it has more than `n` bytes
  have hlen : n < f.Data.length := by
    by_contra hle
    obtain ⟨L', hL', hle'⟩ := (hfits f.Data (by omega)).mpr (by omega)
    rw [show CryptoFrame.mk f.Offset f.Data = f from rfl, hL, Option.some.injEq] at hL'
    omega
  dsimp only
  refine ⟨(hfits _ (by omega)).mpr (by omega), rfl, List.take_append_drop _ _, by omega, by omega,
    by omega⟩

end Split

end Wire

end QuicGo
