import QuicGo.Wire.CryptoFrame
import QuicGo.Protocol

/-!
# QuicGo — the size of a STREAM frame and splitting it (`internal/wire/stream_frame.go`)

A STREAM frame is its type byte, the stream ID, the offset unless it is `0`, the data length if
`DataLenPresent`, and the data. `MaxDataLen` is the longest data that keeps the frame within a
size, and `MaybeSplitOffFrame` splits the first `MaxDataLen` bytes off a frame that is too long.

As for CRYPTO frames, `MaxDataLen` counts one byte for the data length and takes a byte off the
data when the length needs two. Below a size of `maxVarInt2 + 4` it is exact: a frame fits if and
only if its data is at most `MaxDataLen` long (`fits_iff_le_MaxDataLen`). The split then keeps
the first `MaxDataLen` bytes in a frame that fits and the rest in the old one
(`MaybeSplitOffFrame_split`).

The new frame comes from a pool whose buffers have a capacity of `MaxPacketBufferSize`; the split
swaps the buffers, so the old frame's rest is copied into the pooled one, and a rest longer than
`MaxPacketBufferSize` is a slice beyond its capacity, a panic (`none`). Stream IDs and offsets
are `int64`s, `ℤ` here, converted to `uint64` as Go converts them.
-/

namespace QuicGo

namespace Wire

open Quicvarint

/-- `StreamFrame`; `fromPool` records whether its buffer came from the frame pool. -/
structure StreamFrame where
  StreamID : ℤ
  Offset : ℤ
  Data : List UInt8
  Fin : Bool
  DataLenPresent : Bool
  fromPool : Bool
  deriving DecidableEq, Repr

/-- `StreamFrame.DataLen`. -/
def StreamFrame.DataLen (f : StreamFrame) : ℕ := f.Data.length

/-- `StreamFrame.Length`; `none` is the panic of `quicvarint.Len`. -/
def StreamFrame.Length (f : StreamFrame) : Option ℤ :=
  match Len (toUint64 f.StreamID), (if f.Offset ≠ 0 then Len (toUint64 f.Offset) else some 0),
      (if f.DataLenPresent then Len f.DataLen else some 0) with
  | some ls, some lo, some ld => some (1 + ls + lo + ld + f.DataLen)
  | _, _, _ => none

/-- `StreamFrame.MaxDataLen`; `none` is the panic of `quicvarint.Len`. -/
def StreamFrame.MaxDataLen (f : StreamFrame) (maxSize : ℤ) : Option ℤ :=
  match Len (toUint64 f.StreamID), (if f.Offset ≠ 0 then Len (toUint64 f.Offset) else some 0) with
  | some ls, some lo =>
    -- pretend that the data size will be 1 byte
    let headerLen : ℤ := 1 + ls + lo + (if f.DataLenPresent then 1 else 0)
    if headerLen > maxSize then some 0
    else
      let maxDataLen := maxSize - headerLen
      if f.DataLenPresent then
        match Len (toUint64 maxDataLen) with
        | none => none
        | some l => if l ≠ 1 then some (maxDataLen - 1) else some maxDataLen
      else some maxDataLen
  | _, _ => none

/-- `StreamFrame.MaybeSplitOffFrame`: the frame split off, whether splitting was needed, and the
frame that is left; `none` is a panic. -/
def StreamFrame.MaybeSplitOffFrame (f : StreamFrame) (maxSize : ℤ) :
    Option (Option StreamFrame × Bool × StreamFrame) :=
  match f.Length with
  | none => none
  | some length =>
    if maxSize ≥ length then some (none, false, f)
    else
      match f.MaxDataLen maxSize with
      | none => none
      | some n =>
        if n = 0 then some (none, true, f)
        else
          -- the data slices swapped: `f` reslices the pooled buffer to what is left after `n`
          -- bytes and copies it there, the new frame reslices `f`'s buffer to `n` bytes
          let k := (f.Data.length : ℤ) - n
          if k < 0 ∨ k > MaxPacketBufferSize then none
          else
            let new : StreamFrame :=
              ⟨f.StreamID, f.Offset, f.Data.take n.toNat, false, f.DataLenPresent, f.fromPool⟩
            some (some new, true,
              { f with Data := f.Data.drop n.toNat, Offset := f.Offset + n, fromPool := true })

section Lengths

variable {f : StreamFrame} {maxSize : ℤ}

/-- The frames with `f`'s stream ID, offset and flags that fit a size, by the lengths of their
varints: the header of `ls + lo + 1` bytes, the data length if present, and the data. -/
theorem StreamFrame.Length_fits_iff {ls lo : ℕ} (hls : Len (toUint64 f.StreamID) = some ls)
    (hlo : (if f.Offset ≠ 0 then Len (toUint64 f.Offset) else some 0) = some lo)
    (data : List UInt8) :
    (∃ L, { f with Data := data }.Length = some L ∧ L ≤ maxSize) ↔
      if f.DataLenPresent then
        ∃ ld : ℕ, Len data.length = some ld ∧ (1 + ls + lo : ℤ) + ld + data.length ≤ maxSize
      else (1 + ls + lo : ℤ) + data.length ≤ maxSize := by
  unfold StreamFrame.Length StreamFrame.DataLen
  dsimp only
  rw [hls, hlo]
  cases f.DataLenPresent with
  | false => simp
  | true =>
    simp only [if_true]
    cases hld : Len data.length with
    | none => simp
    | some ld => simp [Int.add_assoc]

theorem StreamFrame.MaxDataLen_nonneg {n : ℤ} (h : f.MaxDataLen maxSize = some n) : 0 ≤ n := by
  unfold StreamFrame.MaxDataLen at h
  split at h
  · rename_i ls lo _ _
    dsimp only at h
    cases hdlp : f.DataLenPresent with
    | false =>
      simp only [hdlp, Bool.false_eq_true, if_false] at h
      split_ifs at h <;> cases h <;> omega
    | true =>
      simp only [hdlp, if_true] at h
      split_ifs at h with hgt
      · cases h
        exact Int.le_refl 0
      · split at h
        · cases h
        · rename_i l hl
          -- a length that needs more than one byte is above `63`, and `toUint64` only lowers it
          have := Len_eq_some hl
          have hu : (toUint64 (maxSize - (1 + ls + lo + 1)) : ℤ) ≤ maxSize - (1 + ls + lo + 1) := by
            unfold toUint64
            omega
          split_ifs at h <;> cases h <;> omega
  · cases h

/-- **`MaxDataLen` is exact** below a size of `maxVarInt2 + 4`: a frame with `f`'s stream ID,
offset and flags and with data fits the size if and only if it has at most `MaxDataLen` bytes. -/
theorem StreamFrame.fits_iff_le_MaxDataLen (hmax : maxSize ≤ maxVarInt2 + 4) {n : ℤ}
    (hn : f.MaxDataLen maxSize = some n) (data : List UInt8) (hd : 0 < data.length) :
    (∃ L, { f with Data := data }.Length = some L ∧ L ≤ maxSize) ↔ data.length ≤ n := by
  unfold StreamFrame.MaxDataLen at hn
  split at hn
  · rename_i ls lo hls hlo
    have hls1 : 1 ≤ ls := by rcases Len_eq_some hls with h | h | h | h <;> omega
    rw [Length_fits_iff hls hlo]
    dsimp only at hn
    cases hdlp : f.DataLenPresent with
    | false =>
      -- no length field: the size less the header
      simp only [hdlp, Bool.false_eq_true, if_false, Int.add_zero] at hn ⊢
      split_ifs at hn with hgt
      · cases hn
        omega
      · cases hn
        omega
    | true =>
      simp only [hdlp, if_true] at hn ⊢
      split_ifs at hn with hgt
      · -- not even one byte fits
        cases hn
        constructor
        · rintro ⟨ld, hld, hle⟩
          have := Len_eq_some hld
          omega
        · intro h
          omega
      · unfold maxVarInt2 at hmax
        have hu : toUint64 (maxSize - (1 + ls + lo + 1)) = (maxSize - (1 + ls + lo + 1)).toNat :=
          toUint64_of_nonneg (by omega) (by omega)
        rw [hu] at hn
        rw [lengthPrefixed_fits_iff data.length (by omega) (by unfold maxVarInt2; omega)]
        -- `MaxDataLen` takes a byte off where the length needs two
        split at hn
        · cases hn
        · rename_i l hl
          have := Len_eq_some hl
          split_ifs at hn <;> cases hn <;> split_ifs <;> omega
  · cases hn

/-- A frame of stream `4` at offset `0` with a length field: three bytes of header, and two for a
length of `96`. -/
example : (StreamFrame.mk 4 0 [] false true false).MaxDataLen 100 = some 96 := by decide

end Lengths

/-! ## Splitting a frame -/

section Split

variable {f f' g : StreamFrame} {maxSize : ℤ}

/-- What `MaybeSplitOffFrame` does: nothing to a frame that fits; nothing, reporting the split,
where `MaxDataLen` is `0`; and otherwise the first `MaxDataLen` bytes split off, where the rest
fits the pooled buffer. -/
theorem StreamFrame.MaybeSplitOffFrame_eq_some {r : Option StreamFrame × Bool × StreamFrame}
    (h : f.MaybeSplitOffFrame maxSize = some r) :
    ∃ L, f.Length = some L ∧ (L ≤ maxSize ∧ r = (none, false, f) ∨
      maxSize < L ∧ ∃ n, f.MaxDataLen maxSize = some n ∧ (n = 0 ∧ r = (none, true, f) ∨
        0 < n ∧ n ≤ f.Data.length ∧ (f.Data.length : ℤ) - n ≤ MaxPacketBufferSize ∧
          r = (some ⟨f.StreamID, f.Offset, f.Data.take n.toNat, false, f.DataLenPresent,
              f.fromPool⟩, true,
            { f with Data := f.Data.drop n.toNat, Offset := f.Offset + n, fromPool := true }))) := by
  unfold StreamFrame.MaybeSplitOffFrame at h
  split at h
  · cases h
  · rename_i L hL
    refine ⟨L, hL, ?_⟩
    split_ifs at h with hle
    · exact .inl ⟨hle, (Option.some.inj h).symm⟩
    · right
      refine ⟨by omega, ?_⟩
      split at h
      · cases h
      · rename_i n hn
        have h0 := MaxDataLen_nonneg hn
        refine ⟨n, hn, ?_⟩
        by_cases hn0 : n = 0
        · rw [if_pos hn0] at h
          exact .inl ⟨hn0, (Option.some.inj h).symm⟩
        · rw [if_neg hn0] at h
          dsimp only at h
          -- a rest of negative length, or longer than the pooled buffer, is a panic
          split_ifs at h with hk
          exact .inr ⟨by omega, by omega, by omega, (Option.some.inj h).symm⟩

/-- A frame that is not split fits, and is left as it is. -/
theorem StreamFrame.MaybeSplitOffFrame_not_split
    (h : f.MaybeSplitOffFrame maxSize = some (none, false, f')) :
    f' = f ∧ ∃ L, f.Length = some L ∧ L ≤ maxSize := by
  obtain ⟨L, hL, ⟨hle, h⟩ | ⟨-, n, -, ⟨-, h⟩ | ⟨-, -, -, h⟩⟩⟩ := MaybeSplitOffFrame_eq_some h
  · simp only [Prod.mk.injEq] at h
    exact ⟨h.2.2, L, hL, hle⟩
  · simp at h
  · simp at h

/-- Where the split reports that not even one byte fits, no frame of the stream at the offset
with one byte fits. -/
theorem StreamFrame.MaybeSplitOffFrame_too_small (hmax : maxSize ≤ maxVarInt2 + 4)
    (h : f.MaybeSplitOffFrame maxSize = some (none, true, f')) :
    f' = f ∧ ∀ (b : UInt8) (L : ℤ), { f with Data := [b] }.Length = some L → maxSize < L := by
  obtain ⟨L, hL, ⟨-, h⟩ | ⟨-, n, hn, ⟨rfl, h⟩ | ⟨-, -, -, h⟩⟩⟩ := MaybeSplitOffFrame_eq_some h
  · simp at h
  · simp only [Prod.mk.injEq] at h
    refine ⟨h.2.2, fun b L' hL' => ?_⟩
    -- `MaxDataLen` is exact, and it is `0`
    by_contra hle
    have := (fits_iff_le_MaxDataLen hmax hn [b] (by simp)).mp ⟨L', hL', by omega⟩
    simp at this
  · simp at h

/-- A split frame: the part split off fits, starts where the frame started and has no FIN; the two
parts are the data, the first at least one byte and shorter than the whole; the rest keeps the
stream, FIN and `DataLenPresent`. -/
theorem StreamFrame.MaybeSplitOffFrame_split (hmax : maxSize ≤ maxVarInt2 + 4)
    (h : f.MaybeSplitOffFrame maxSize = some (some g, true, f')) :
    (∃ L, g.Length = some L ∧ L ≤ maxSize) ∧ g.StreamID = f.StreamID ∧ g.Offset = f.Offset ∧
      g.Data ++ f'.Data = f.Data ∧ f'.Offset = f.Offset + g.Data.length ∧
      0 < g.Data.length ∧ g.Data.length < f.Data.length ∧ g.Fin = false ∧
      g.DataLenPresent = f.DataLenPresent ∧ f'.StreamID = f.StreamID ∧ f'.Fin = f.Fin ∧
      f'.DataLenPresent = f.DataLenPresent := by
  obtain ⟨L, hL, ⟨-, h⟩ | ⟨hlt, n, hn, ⟨-, h⟩ | ⟨hn0, hnle, -, h⟩⟩⟩ := MaybeSplitOffFrame_eq_some h
  · simp at h
  · simp at h
  simp only [Prod.mk.injEq, Option.some.injEq] at h
  obtain ⟨rfl, -, rfl⟩ := h
  have hfits := fits_iff_le_MaxDataLen hmax hn
  have hglen : ((f.Data.take n.toNat).length : ℤ) = n := by
    rw [List.length_take]
    omega
  -- `f` itself does not fit, so it has more than `n` bytes
  have hlen : n < f.Data.length := by
    by_contra hle
    obtain ⟨L', hL', hle'⟩ := (hfits f.Data (by omega)).mpr (by omega)
    rw [show { f with Data := f.Data } = f from rfl, hL, Option.some.injEq] at hL'
    omega
  -- the part split off has the length of `f` with its data
  have hg : StreamFrame.Length ⟨f.StreamID, f.Offset, f.Data.take n.toNat, false,
      f.DataLenPresent, f.fromPool⟩ = { f with Data := f.Data.take n.toNat }.Length := rfl
  dsimp only
  rw [hg]
  refine ⟨(hfits _ (by omega)).mpr (by omega), rfl, rfl, List.take_append_drop _ _, by omega,
    by omega, by omega, rfl, rfl, rfl, rfl, rfl⟩

end Split

/-! ## Splitting STREAM and CRYPTO frames -/

end Wire

end QuicGo
