import QuicGo.Wire.AckFrame
import QuicGo.Wire.CryptoFrame
import QuicGo.Protocol

/-!
# QuicGo — writing an ACK frame (`internal/wire/ack_frame.go`)

`Append` writes the frame type, the largest acknowledged packet number, the delay, the number of
ranges less one, the first range's length, a gap and a length for each further range, and the
ECN counts if any is set, each a varint. `Length` adds up the same varints. How many ranges are
written is `numEncodableAckRanges`: it counts a fixed header, two bytes for the number of ranges
and the bytes of each further range, and stops one range before the one that would take the
count above `MaxAckFrameSize`.

The count leaves out the first range's length and the ECN counts, so the frame can be longer
than `MaxAckFrameSize`, by at most those varints (`wideAckFrame` is 1007 bytes long). What is
written is always the frame of the first `numEncodableAckRanges` ranges, at least one, all of
which that frame writes (`Append_take`, `numEncodableAckRanges_take`).

`AckFrame` holds the ranges, which is what the receiver's checks read; `FullAckFrame` adds the
delay, a `time.Duration` in nanoseconds, and the ECN counts. Packet numbers are `int64`s, `ℤ`
here, converted to `uint64` as Go converts them. `none` is the panic of `quicvarint.Append` or
`quicvarint.Len` on a number above `quicvarint.Max`, or of an index beyond the ranges.
-/

namespace QuicGo

namespace Wire

open Quicvarint

/-- `wire.AckFrame` with all its fields. -/
structure FullAckFrame extends AckFrame where
  DelayTime : ℤ
  ECT0 : ℕ
  ECT1 : ℕ
  ECNCE : ℕ
  deriving DecidableEq, Repr

/-- `ackFrameType`, `ackECNFrameType`. -/
def ackFrameType : UInt8 := 0x2
def ackECNFrameType : UInt8 := 0x3

/-- `protocol.AckDelayExponent`. -/
def AckDelayExponent : ℕ := 3

/-- `encodeAckDelay`: the delay in units of `2^AckDelayExponent` microseconds, rounded toward
zero as Go divides. -/
def encodeAckDelay (delay : ℤ) : ℕ := toUint64 (delay.tdiv (1000 * 2 ^ AckDelayExponent))

/-- `AckFrame.LargestAcked`. -/
def FullAckFrame.LargestAcked (f : FullAckFrame) : Option ℤ := f.AckRanges[0]?.map (·.Largest)

/-- `AckFrame.encodeAckRange`: the gap below range `i - 1` and the length of range `i`. -/
def FullAckFrame.encodeAckRange (f : FullAckFrame) (i : ℕ) : Option (ℕ × ℕ) :=
  if i = 0 then f.AckRanges[0]?.map fun r => (0, toUint64 (r.Largest - r.Smallest))
  else
    match f.AckRanges[i - 1]?, f.AckRanges[i]? with
    | some prev, some r =>
      some (toUint64 (prev.Smallest - r.Largest - 2), toUint64 (r.Largest - r.Smallest))
    | _, _ => none

/-- The loop of `numEncodableAckRanges` from range `i` on, for `k` more ranges, with the length
counted so far. -/
def FullAckFrame.numEncodableLoop (f : FullAckFrame) : ℕ → ℕ → ℕ → Option ℕ
  | _, _, 0 => some f.AckRanges.length
  | length, i, k + 1 =>
    match f.encodeAckRange i with
    | none => none
    | some (gap, len) =>
      match Len gap, Len len with
      | some lg, some ll =>
        let rangeLen := lg + ll
        -- writing range `i` would exceed `MaxAckFrameSize`: encode one range less than that
        if length + rangeLen > MaxAckFrameSize then some (i - 1)
        else f.numEncodableLoop (length + rangeLen) (i + 1) k
      | _, _ => none

/-- `AckFrame.numEncodableAckRanges`: the number of ranges written. -/
def FullAckFrame.numEncodableAckRanges (f : FullAckFrame) : Option ℕ :=
  match f.LargestAcked with
  | none => none
  | some largestAcked =>
    match Len (toUint64 largestAcked), Len (encodeAckDelay f.DelayTime) with
    | some l₁, some l₂ =>
      -- assume that the number of ranges will consume 2 bytes
      f.numEncodableLoop (1 + l₁ + l₂ + 2) 1 (f.AckRanges.length - 1)
    | _, _ => none

/-- The loop of `Append` over the ranges from `i` on, for `k` ranges. -/
def FullAckFrame.appendRanges (f : FullAckFrame) : List UInt8 → ℕ → ℕ → Option (List UInt8)
  | b, _, 0 => some b
  | b, i, k + 1 => do
    let (gap, len) ← f.encodeAckRange i
    let b ← Quicvarint.Append b gap
    let b ← Quicvarint.Append b len
    f.appendRanges b (i + 1) k

/-- The loop of `Length` over the ranges from `i` on, for `k` ranges. -/
def FullAckFrame.rangesLength (f : FullAckFrame) : ℕ → ℕ → Option ℕ
  | _, 0 => some 0
  | i, k + 1 => do
    let (gap, len) ← f.encodeAckRange i
    let lg ← Len gap
    let ll ← Len len
    let rest ← f.rangesLength (i + 1) k
    return lg + ll + rest

/-- `AckFrame.Append`. -/
def FullAckFrame.Append (f : FullAckFrame) (b : List UInt8) : Option (List UInt8) := do
  let hasECN : Bool := f.ECT0 > 0 || f.ECT1 > 0 || f.ECNCE > 0
  let b := b ++ [if hasECN then ackECNFrameType else ackFrameType]
  let largestAcked ← f.LargestAcked
  let b ← Quicvarint.Append b (toUint64 largestAcked)
  let b ← Quicvarint.Append b (encodeAckDelay f.DelayTime)
  let numRanges ← f.numEncodableAckRanges
  let b ← Quicvarint.Append b (toUint64 ((numRanges : ℤ) - 1))
  -- write the first range
  let (_, firstRange) ← f.encodeAckRange 0
  let b ← Quicvarint.Append b firstRange
  -- write all the other ranges
  let b ← f.appendRanges b 1 (numRanges - 1)
  if hasECN then
    let b ← Quicvarint.Append b f.ECT0
    let b ← Quicvarint.Append b f.ECT1
    Quicvarint.Append b f.ECNCE
  else return b

/-- `AckFrame.Length`. -/
def FullAckFrame.Length (f : FullAckFrame) : Option ℕ := do
  let largestAcked ← f.LargestAcked
  let numRanges ← f.numEncodableAckRanges
  let mut length := 1 + (← Len (toUint64 largestAcked)) + (← Len (encodeAckDelay f.DelayTime))
  length := length + (← Len (toUint64 ((numRanges : ℤ) - 1)))
  let lowestInFirstRange ← f.AckRanges[0]?.map (·.Smallest)
  length := length + (← Len (toUint64 (largestAcked - lowestInFirstRange)))
  length := length + (← f.rangesLength 1 (numRanges - 1))
  if f.ECT0 > 0 ∨ f.ECT1 > 0 ∨ f.ECNCE > 0 then
    length := length + (← Len f.ECT0)
    length := length + (← Len f.ECT1)
    length := length + (← Len f.ECNCE)
  return length

example : (FullAckFrame.mk ⟨[⟨0, 5⟩]⟩ 0 0 0 0).Append [] = some [2, 5, 0, 0, 5] := by decide
example : (FullAckFrame.mk ⟨[⟨0, 5⟩]⟩ 0 0 0 0).Length = some 5 := by decide
example : (FullAckFrame.mk ⟨[⟨0, 5⟩]⟩ 0 1 2 3).Length = some 8 := by decide
example : (FullAckFrame.mk ⟨[⟨0, 5⟩]⟩ 0 1 2 3).Append [] = some [3, 5, 0, 0, 5, 1, 2, 3] := by decide

section Encoding

variable {f : FullAckFrame}

/-- A further range takes between 2 and 16 bytes: a gap and a length, one to eight each. -/
theorem rangeLen_bounds {gap len lg ll : ℕ} (hg : Len gap = some lg) (hl : Len len = some ll) :
    2 ≤ lg + ll ∧ lg + ll ≤ 16 := by
  have := Len_eq_some hg
  have := Len_eq_some hl
  omega

@[simp] theorem FullAckFrame.rangesLength_zero (i : ℕ) : f.rangesLength i 0 = some 0 := rfl

theorem FullAckFrame.rangesLength_succ {i k gap len lg ll : ℕ}
    (he : f.encodeAckRange i = some (gap, len)) (hg : Len gap = some lg) (hl : Len len = some ll) :
    f.rangesLength i (k + 1) = (f.rangesLength (i + 1) k).map (lg + ll + ·) := by
  simp only [FullAckFrame.rangesLength, he, hg, hl, Option.bind_eq_bind, Option.bind_some]
  cases f.rangesLength (i + 1) k <;> rfl

theorem FullAckFrame.rangesLength_succ_eq_some {i k s : ℕ} (h : f.rangesLength i (k + 1) = some s) :
    ∃ gap len lg ll s', f.encodeAckRange i = some (gap, len) ∧ Len gap = some lg ∧
      Len len = some ll ∧ f.rangesLength (i + 1) k = some s' ∧ s = lg + ll + s' := by
  cases he : f.encodeAckRange i with
  | none => simp [FullAckFrame.rangesLength, he] at h
  | some r =>
    obtain ⟨gap, len⟩ := r
    cases hg : Len gap with
    | none => simp [FullAckFrame.rangesLength, he, hg] at h
    | some lg =>
      cases hl : Len len with
      | none => simp [FullAckFrame.rangesLength, he, hg, hl] at h
      | some ll =>
        rw [FullAckFrame.rangesLength_succ he hg hl] at h
        obtain ⟨s', hs', rfl⟩ := Option.map_eq_some_iff.mp h
        exact ⟨gap, len, lg, ll, s', rfl, hg, hl, hs', rfl⟩

/-- **The loop of `numEncodableAckRanges`.** Started at range `i` with `length` bytes counted
and the ranges up to the last one left, it returns a count `res` such that the ranges from `i`
below `res` fit into `MaxAckFrameSize`; it stops below `i` only if range `i` does not fit. -/
theorem FullAckFrame.numEncodableLoop_spec {length i k res : ℕ}
    (h : f.numEncodableLoop length i k = some res) (hk : i + k = f.AckRanges.length)
    (hlen : length ≤ MaxAckFrameSize) :
    i ≤ res + 1 ∧ res ≤ f.AckRanges.length ∧ (length + 16 ≤ MaxAckFrameSize → i ≤ res) ∧
      ∃ s, f.rangesLength i (res - i) = some s ∧ length + s ≤ MaxAckFrameSize := by
  induction k generalizing length i with
  | zero =>
    -- no range left: all of them are encoded
    simp only [FullAckFrame.numEncodableLoop, Option.some.injEq] at h
    subst h
    exact ⟨by omega, Nat.le_refl _, fun _ => by omega, 0, by rw [← hk]; simp, hlen⟩
  | succ k ih =>
    cases he : f.encodeAckRange i with
    | none => simp [FullAckFrame.numEncodableLoop, he] at h
    | some r =>
      obtain ⟨gap, len⟩ := r
      cases hg : Len gap with
      | none => simp [FullAckFrame.numEncodableLoop, he, hg] at h
      | some lg =>
        cases hl : Len len with
        | none => simp [FullAckFrame.numEncodableLoop, he, hg, hl] at h
        | some ll =>
          have hr := rangeLen_bounds hg hl
          simp only [FullAckFrame.numEncodableLoop, he, hg, hl] at h
          split_ifs at h with hover
          · -- range `i` does not fit: the count stops below it
            simp only [Option.some.injEq] at h
            subst h
            refine ⟨by omega, by omega, fun _ => by omega, 0, ?_, hlen⟩
            rw [show i - 1 - i = 0 by omega]
            rfl
          · obtain ⟨h₁, h₂, -, s, hs, hfit⟩ := ih h (by omega) (by omega)
            refine ⟨by omega, h₂, fun _ => by omega, ?_⟩
            by_cases hres : res = i
            · subst hres
              exact ⟨0, by simp, hlen⟩
            · refine ⟨lg + ll + s, ?_, by omega⟩
              rw [show res - i = res - (i + 1) + 1 by omega, FullAckFrame.rangesLength_succ he hg hl,
                hs]
              rfl

/-- If the ranges from `i` on fit, the loop counts all of them. -/
theorem FullAckFrame.numEncodableLoop_of_fits {length i k s : ℕ}
    (h : f.rangesLength i k = some s) (hfit : length + s ≤ MaxAckFrameSize) :
    f.numEncodableLoop length i k = some f.AckRanges.length := by
  induction k generalizing length i s with
  | zero => rfl
  | succ k ih =>
    obtain ⟨gap, len, lg, ll, s', he, hg, hl, hs', rfl⟩ := FullAckFrame.rangesLength_succ_eq_some h
    simp only [FullAckFrame.numEncodableLoop, he, hg, hl]
    rw [if_neg (by omega)]
    exact ih hs' (by omega)

/-- What the loop of `Append` adds is as long as the loop of `Length` counts. -/
theorem FullAckFrame.appendRanges_eq_some {b e : List UInt8} {i k : ℕ}
    (h : f.appendRanges b i k = some e) : ∃ d, e = b ++ d ∧ f.rangesLength i k = some d.length := by
  induction k generalizing b i with
  | zero =>
    simp only [FullAckFrame.appendRanges, Option.some.injEq] at h
    exact ⟨[], by simp [h], rfl⟩
  | succ k ih =>
    cases he : f.encodeAckRange i with
    | none => simp [FullAckFrame.appendRanges, he] at h
    | some r =>
      obtain ⟨gap, len⟩ := r
      simp only [FullAckFrame.appendRanges, he, Option.bind_eq_bind, Option.bind_some] at h
      obtain ⟨b₁, hb₁, h⟩ := Option.bind_eq_some_iff.mp h
      obtain ⟨b₂, hb₂, h⟩ := Option.bind_eq_some_iff.mp h
      obtain ⟨d₁, rfl, hg⟩ := Append_eq_some hb₁
      obtain ⟨d₂, rfl, hl⟩ := Append_eq_some hb₂
      obtain ⟨d, rfl, hd⟩ := ih h
      refine ⟨d₁ ++ d₂ ++ d, by simp, ?_⟩
      rw [FullAckFrame.rangesLength_succ he hg hl, hd]
      simp only [Option.map_some, List.length_append]

theorem FullAckFrame.Length_of_Append {b e : List UInt8} (h : f.Append b = some e) :
    ∃ d, e = b ++ d ∧ f.Length = some d.length := by
  obtain ⟨r, rs, hr⟩ : ∃ r rs, f.AckRanges = r :: rs := by
    cases hr : f.AckRanges with
    | nil => simp [FullAckFrame.Append, FullAckFrame.LargestAcked, hr] at h
    | cons r rs => exact ⟨r, rs, rfl⟩
  have hla : f.LargestAcked = some r.Largest := by simp [FullAckFrame.LargestAcked, hr]
  have h0 : f.encodeAckRange 0 = some (0, toUint64 (r.Largest - r.Smallest)) := by
    simp [FullAckFrame.encodeAckRange, hr]
  cases hn : f.numEncodableAckRanges with
  | none => simp [FullAckFrame.Append, hla, hn] at h
  | some n =>
    simp only [FullAckFrame.Append, hla, hn, h0, Option.bind_eq_bind, Option.bind_some] at h
    -- the varints of the header and the ranges, in the order they are written
    obtain ⟨b₁, hb₁, h⟩ := Option.bind_eq_some_iff.mp h
    obtain ⟨b₂, hb₂, h⟩ := Option.bind_eq_some_iff.mp h
    obtain ⟨b₃, hb₃, h⟩ := Option.bind_eq_some_iff.mp h
    obtain ⟨b₄, hb₄, h⟩ := Option.bind_eq_some_iff.mp h
    obtain ⟨b₅, hb₅, h⟩ := Option.bind_eq_some_iff.mp h
    obtain ⟨d₁, rfl, hl₁⟩ := Append_eq_some hb₁
    obtain ⟨d₂, rfl, hl₂⟩ := Append_eq_some hb₂
    obtain ⟨d₃, rfl, hl₃⟩ := Append_eq_some hb₃
    obtain ⟨d₄, rfl, hl₄⟩ := Append_eq_some hb₄
    obtain ⟨d₅, rfl, hl₅⟩ := FullAckFrame.appendRanges_eq_some hb₅
    have hlow : (f.AckRanges[0]?.map (·.Smallest)) = some r.Smallest := by simp [hr]
    by_cases hecn : f.ECT0 > 0 ∨ f.ECT1 > 0 ∨ f.ECNCE > 0
    · -- the three ECN counts follow the ranges
      have hecn' : (decide (f.ECT0 > 0) || decide (f.ECT1 > 0) || decide (f.ECNCE > 0)) = true := by
        simpa [Bool.or_eq_true, decide_eq_true_eq, or_assoc] using hecn
      rw [if_pos hecn'] at h
      obtain ⟨b₆, hb₆, h⟩ := Option.bind_eq_some_iff.mp h
      obtain ⟨b₇, hb₇, h⟩ := Option.bind_eq_some_iff.mp h
      obtain ⟨d₆, rfl, hl₆⟩ := Append_eq_some hb₆
      obtain ⟨d₇, rfl, hl₇⟩ := Append_eq_some hb₇
      obtain ⟨d₈, rfl, hl₈⟩ := Append_eq_some h
      refine ⟨_, by simp only [List.append_assoc]; rfl, ?_⟩
      simp only [FullAckFrame.Length, hla, hn, hl₁, hl₂, hl₃, hlow, hl₄, hl₅, if_pos hecn, hl₆, hl₇, hl₈,
        Option.bind_eq_bind, Option.bind_some, Option.pure_def, List.length_append, List.length_cons,
        List.length_nil, Option.some.injEq]
      omega
    · have hecn' : (decide (f.ECT0 > 0) || decide (f.ECT1 > 0) || decide (f.ECNCE > 0)) = false := by
        simpa [Bool.or_eq_false_iff, decide_eq_false_iff_not, and_assoc] using hecn
      rw [if_neg (by rw [hecn']; decide)] at h
      obtain rfl := Option.some.inj h
      refine ⟨_, by simp only [List.append_assoc]; rfl, ?_⟩
      simp only [FullAckFrame.Length, hla, hn, hl₁, hl₂, hl₃, hlow, hl₄, hl₅, if_neg hecn,
        Option.bind_eq_bind, Option.bind_some, Option.pure_def, List.length_append, List.length_cons,
        List.length_nil, Option.some.injEq]
      omega


/-- Every range has an encoding with numbers that `quicvarint` can write. -/
def FullAckFrame.Encodable (f : FullAckFrame) : Prop :=
  ∀ i < f.AckRanges.length, ∃ gap len, f.encodeAckRange i = some (gap, len) ∧
    gap ≤ Quicvarint.Max ∧ len ≤ Quicvarint.Max

theorem toUint64_le_Max {x : ℤ} (h0 : 0 ≤ x) (h : x ≤ (Quicvarint.Max : ℤ)) :
    toUint64 x ≤ Quicvarint.Max := by
  unfold Quicvarint.Max maxVarInt8 at *
  rw [toUint64_of_nonneg h0 (by omega)]
  omega

/-- A delay that an `int64` holds, and that is not negative, encodes below `quicvarint.Max`. -/
theorem encodeAckDelay_le_Max {delay : ℤ} (h0 : 0 ≤ delay) (h : delay < 2 ^ 63) :
    encodeAckDelay delay ≤ Quicvarint.Max := by
  unfold encodeAckDelay
  rw [Int.tdiv_eq_ediv_of_nonneg h0, show (1000 * 2 ^ AckDelayExponent : ℤ) = 8000 from rfl]
  exact toUint64_le_Max (Int.ediv_nonneg h0 (by decide)) (by unfold Quicvarint.Max maxVarInt8; omega)

/-- **The ranges that `validateAckRanges` accepts can be encoded**, if their packet numbers are
at most `quicvarint.Max`: a range's length, and the gap below the range before it, are numbers
from 0 to `Max`. -/
theorem FullAckFrame.encodable_of_valid (hv : f.validateAckRanges = true)
    (hpn : ∀ r ∈ f.AckRanges, 0 ≤ r.Smallest ∧ r.Largest ≤ (Quicvarint.Max : ℤ)) : f.Encodable := by
  obtain ⟨-, hne, hchain⟩ := (validateAckRanges_iff _).mp hv
  have hr : ∀ j (hj : j < f.AckRanges.length), f.AckRanges[j].Smallest ≤ f.AckRanges[j].Largest ∧
      0 ≤ f.AckRanges[j].Smallest ∧ f.AckRanges[j].Largest ≤ (Quicvarint.Max : ℤ) :=
    fun j hj => ⟨hne _ (List.getElem_mem hj), hpn _ (List.getElem_mem hj)⟩
  intro i hi
  cases i with
  | zero =>
    -- the first range: no gap
    obtain ⟨h₁, h₂, h₃⟩ := hr 0 hi
    refine ⟨0, toUint64 (f.AckRanges[0].Largest - f.AckRanges[0].Smallest), ?_, Nat.zero_le _,
      toUint64_le_Max (by omega) (by omega)⟩
    simp [FullAckFrame.encodeAckRange, List.getElem?_eq_getElem hi]
  | succ j =>
    -- range `j + 1` lies below range `j`, with a packet number missing in between
    have hb := List.isChain_iff_getElem.mp hchain j hi
    obtain ⟨hp₁, hp₂, hp₃⟩ := hr j (by omega)
    obtain ⟨h₁, h₂, h₃⟩ := hr (j + 1) hi
    unfold Below at hb
    refine ⟨toUint64 (f.AckRanges[j].Smallest - f.AckRanges[j + 1].Largest - 2),
      toUint64 (f.AckRanges[j + 1].Largest - f.AckRanges[j + 1].Smallest), ?_,
      toUint64_le_Max (by omega) (by omega), toUint64_le_Max (by omega) (by omega)⟩
    simp [FullAckFrame.encodeAckRange, List.getElem?_eq_getElem hi,
      List.getElem?_eq_getElem (show j < f.AckRanges.length by omega)]

/-- Each further range counted takes at least two bytes. -/
theorem FullAckFrame.two_mul_le_rangesLength {i k s : ℕ} (h : f.rangesLength i k = some s) :
    2 * k ≤ s := by
  induction k generalizing i s with
  | zero => simp
  | succ k ih =>
    obtain ⟨gap, len, lg, ll, s', -, hg, hl, hs', rfl⟩ := FullAckFrame.rangesLength_succ_eq_some h
    have := rangeLen_bounds hg hl
    have := ih hs'
    omega

section Prefix

/-! The frame of the first `k` ranges, `{ f with AckRanges := f.AckRanges.take k }`, encodes its
ranges as `f` encodes them. -/

variable {k : ℕ}

theorem FullAckFrame.LargestAcked_take (hk : 1 ≤ k) :
    ({ f with AckRanges := f.AckRanges.take k } : FullAckFrame).LargestAcked = f.LargestAcked := by
  simp [FullAckFrame.LargestAcked, List.getElem?_take_of_lt (show 0 < k by omega)]

theorem FullAckFrame.encodeAckRange_take {i : ℕ} (hi : i < k) :
    ({ f with AckRanges := f.AckRanges.take k } : FullAckFrame).encodeAckRange i =
      f.encodeAckRange i := by
  unfold FullAckFrame.encodeAckRange
  dsimp only
  rw [List.getElem?_take_of_lt (show 0 < k by omega), List.getElem?_take_of_lt hi,
    List.getElem?_take_of_lt (show i - 1 < k by omega)]

theorem FullAckFrame.rangesLength_take {i m : ℕ} (h : i + m ≤ k) :
    ({ f with AckRanges := f.AckRanges.take k } : FullAckFrame).rangesLength i m =
      f.rangesLength i m := by
  induction m generalizing i with
  | zero => rfl
  | succ m ih =>
    simp only [FullAckFrame.rangesLength, FullAckFrame.encodeAckRange_take (show i < k by omega),
      ih (show i + 1 + m ≤ k by omega)]

theorem FullAckFrame.appendRanges_take {i m : ℕ} (h : i + m ≤ k) (b : List UInt8) :
    ({ f with AckRanges := f.AckRanges.take k } : FullAckFrame).appendRanges b i m =
      f.appendRanges b i m := by
  induction m generalizing b i with
  | zero => rfl
  | succ m ih =>
    simp only [FullAckFrame.appendRanges, FullAckFrame.encodeAckRange_take (show i < k by omega),
      ih (show i + 1 + m ≤ k by omega)]

end Prefix

private theorem exists_bind_eq_some {α β : Type} {o : Option α} {g : α → Option β}
    (ho : ∃ a, o = some a) (hg : ∀ a, o = some a → ∃ e, g a = some e) : ∃ e, o.bind g = some e := by
  obtain ⟨a, rfl⟩ := ho
  exact hg a rfl

section Encodable

variable (hf : f.Encodable)
include hf

theorem FullAckFrame.rangesLength_isSome {i k : ℕ} (h : i + k ≤ f.AckRanges.length) :
    ∃ s, f.rangesLength i k = some s := by
  induction k generalizing i with
  | zero => exact ⟨0, rfl⟩
  | succ k ih =>
    obtain ⟨gap, len, he, hg, hl⟩ := hf i (by omega)
    obtain ⟨lg, hlg, -⟩ := Len_of_le_Max hg
    obtain ⟨ll, hll, -⟩ := Len_of_le_Max hl
    obtain ⟨s, hs⟩ := ih (i := i + 1) (by omega)
    exact ⟨lg + ll + s, by rw [FullAckFrame.rangesLength_succ he hlg hll, hs]; rfl⟩

theorem FullAckFrame.numEncodableLoop_isSome {length i k : ℕ} (h : i + k ≤ f.AckRanges.length) :
    ∃ res, f.numEncodableLoop length i k = some res := by
  induction k generalizing length i with
  | zero => exact ⟨_, rfl⟩
  | succ k ih =>
    obtain ⟨gap, len, he, hg, hl⟩ := hf i (by omega)
    obtain ⟨lg, hlg, -⟩ := Len_of_le_Max hg
    obtain ⟨ll, hll, -⟩ := Len_of_le_Max hl
    simp only [FullAckFrame.numEncodableLoop, he, hlg, hll]
    split_ifs
    · exact ⟨_, rfl⟩
    · exact ih (by omega)

theorem FullAckFrame.appendRanges_isSome {i k : ℕ} (h : i + k ≤ f.AckRanges.length)
    (b : List UInt8) : ∃ e, f.appendRanges b i k = some e := by
  induction k generalizing b i with
  | zero => exact ⟨b, rfl⟩
  | succ k ih =>
    obtain ⟨gap, len, he, hg, hl⟩ := hf i (by omega)
    obtain ⟨b₁, hb₁⟩ := Append_isSome hg b
    obtain ⟨b₂, hb₂⟩ := Append_isSome hl b₁
    obtain ⟨e, he'⟩ := ih (i := i + 1) (by omega) b₂
    exact ⟨e, by simp only [FullAckFrame.appendRanges, he, hb₁, hb₂, he', Option.bind_eq_bind,
      Option.bind_some]⟩

/-- **How many ranges are written**: at least one, at most all of them, and those after the
first fit into `MaxAckFrameSize` together with the header as the code counts it. -/
theorem FullAckFrame.numEncodableAckRanges_spec {la : ℤ} {l₁ l₂ : ℕ}
    (hla : f.LargestAcked = some la) (hl₁ : Len (toUint64 la) = some l₁)
    (hl₂ : Len (encodeAckDelay f.DelayTime) = some l₂) :
    ∃ k, f.numEncodableAckRanges = some k ∧ 1 ≤ k ∧ k ≤ f.AckRanges.length ∧
      ∃ s, f.rangesLength 1 (k - 1) = some s ∧ 1 + l₁ + l₂ + 2 + s ≤ MaxAckFrameSize := by
  have hn : 1 ≤ f.AckRanges.length := by
    cases h : f.AckRanges with
    | nil => simp [FullAckFrame.LargestAcked, h] at hla
    | cons _ _ => simp
  have hb₁ := Len_eq_some hl₁
  have hb₂ := Len_eq_some hl₂
  have hres : ∃ res, f.numEncodableLoop (1 + l₁ + l₂ + 2) 1 (f.AckRanges.length - 1) = some res :=
    f.numEncodableLoop_isSome hf (by omega)
  obtain ⟨res, hres⟩ := hres
  -- the header takes at most 19 bytes, so the first further range always fits
  obtain ⟨h₁, h₂, h₃, s, hs, hfit⟩ :=
    f.numEncodableLoop_spec hres (by omega) (by unfold MaxAckFrameSize; omega)
  refine ⟨res, ?_, h₃ (by unfold MaxAckFrameSize; omega), h₂, s, hs, hfit⟩
  simp only [FullAckFrame.numEncodableAckRanges, hla, hl₁, hl₂, hres]

/-- The frame of the ranges that `f` writes writes all of them. -/
theorem FullAckFrame.numEncodableAckRanges_take {k : ℕ} {la : ℤ} {l₁ l₂ : ℕ}
    (hla : f.LargestAcked = some la) (hl₁ : Len (toUint64 la) = some l₁)
    (hl₂ : Len (encodeAckDelay f.DelayTime) = some l₂) (hk : f.numEncodableAckRanges = some k) :
    ({ f with AckRanges := f.AckRanges.take k } : FullAckFrame).numEncodableAckRanges = some k := by
  obtain ⟨k', hk', h1, hkn, s, hs, hfit⟩ := f.numEncodableAckRanges_spec hf hla hl₁ hl₂
  obtain rfl : k' = k := Option.some.inj (hk'.symm.trans hk)
  have hlen : (f.AckRanges.take k').length = k' := List.length_take_of_le hkn
  have hs' : ({ f with AckRanges := f.AckRanges.take k' } : FullAckFrame).rangesLength 1
      ((f.AckRanges.take k').length - 1) = some s := by
    rw [hlen, FullAckFrame.rangesLength_take (by omega)]
    exact hs
  simp only [FullAckFrame.numEncodableAckRanges, FullAckFrame.LargestAcked_take h1, hla, hl₁, hl₂]
  rw [FullAckFrame.numEncodableLoop_of_fits hs' hfit, hlen]

/-- What `f` writes is what the frame of its first `numEncodableAckRanges` ranges writes. -/
theorem FullAckFrame.Append_take {k : ℕ} {la : ℤ} {l₁ l₂ : ℕ}
    (hla : f.LargestAcked = some la) (hl₁ : Len (toUint64 la) = some l₁)
    (hl₂ : Len (encodeAckDelay f.DelayTime) = some l₂) (hk : f.numEncodableAckRanges = some k)
    (b : List UInt8) :
    ({ f with AckRanges := f.AckRanges.take k } : FullAckFrame).Append b = f.Append b := by
  obtain ⟨k', hk', h1, -⟩ := f.numEncodableAckRanges_spec hf hla hl₁ hl₂
  obtain rfl : k' = k := Option.some.inj (hk'.symm.trans hk)
  simp only [FullAckFrame.Append, FullAckFrame.LargestAcked_take h1, hk,
    FullAckFrame.numEncodableAckRanges_take hf hla hl₁ hl₂ hk,
    FullAckFrame.encodeAckRange_take (show 0 < k' by omega), Option.bind_eq_bind, Option.bind_some,
    FullAckFrame.appendRanges_take (show 1 + (k' - 1) ≤ k' by omega)]

/-- **`Append` writes the whole frame** when the largest acknowledged packet number, the delay
and the ECN counts are numbers that `quicvarint` can write: the number of ranges less one is
then small, since each range counted takes two bytes of `MaxAckFrameSize`. -/
theorem FullAckFrame.Append_isSome {k : ℕ} {la : ℤ} (hla : f.LargestAcked = some la)
    (hla' : toUint64 la ≤ Quicvarint.Max) (hd : encodeAckDelay f.DelayTime ≤ Quicvarint.Max)
    (hecn : f.ECT0 ≤ Quicvarint.Max ∧ f.ECT1 ≤ Quicvarint.Max ∧ f.ECNCE ≤ Quicvarint.Max)
    (hk : f.numEncodableAckRanges = some k) (b : List UInt8) : ∃ e, f.Append b = some e := by
  obtain ⟨l₁, hl₁, -⟩ := Len_of_le_Max hla'
  obtain ⟨l₂, hl₂, -⟩ := Len_of_le_Max hd
  obtain ⟨k', hk', h1, hkn, s, hs, hfit⟩ := f.numEncodableAckRanges_spec hf hla hl₁ hl₂
  obtain rfl : k' = k := Option.some.inj (hk'.symm.trans hk)
  have hs2 := f.two_mul_le_rangesLength hs
  have hcount : toUint64 ((k' : ℤ) - 1) ≤ Quicvarint.Max :=
    toUint64_le_Max (by omega) (by unfold MaxAckFrameSize at hfit; unfold Quicvarint.Max maxVarInt8; omega)
  obtain ⟨gap0, first, h0, -, hfirst⟩ := hf 0 (by omega)
  simp only [FullAckFrame.Append, hla, hk, h0, Option.bind_eq_bind, Option.bind_some]
  refine exists_bind_eq_some (Quicvarint.Append_isSome hla' _) fun b₁ _ => ?_
  refine exists_bind_eq_some (Quicvarint.Append_isSome hd _) fun b₂ _ => ?_
  refine exists_bind_eq_some (Quicvarint.Append_isSome hcount _) fun b₃ _ => ?_
  refine exists_bind_eq_some (Quicvarint.Append_isSome hfirst _) fun b₄ _ => ?_
  refine exists_bind_eq_some (f.appendRanges_isSome hf (by omega) _) fun b₅ _ => ?_
  split
  · -- the ECN counts
    refine exists_bind_eq_some (Quicvarint.Append_isSome hecn.1 _) fun b₆ _ => ?_
    refine exists_bind_eq_some (Quicvarint.Append_isSome hecn.2.1 _) fun b₇ _ => ?_
    exact Quicvarint.Append_isSome hecn.2.2 _
  · exact ⟨b₅, rfl⟩

end Encodable


/-- Two ranges and a delay of 16 µs, which is two units of eight microseconds. -/
def twoRangeAckFrame : FullAckFrame := ⟨⟨[⟨10, 12⟩, ⟨2, 5⟩]⟩, 16000, 1, 0, 0⟩

/-- Ranges of `2^30` packets with gaps of `2^30` packets between them, above a last range with a
gap of `2^20`: each further range takes 16 bytes and the last one 12, and the first range's
length takes eight bytes, which `numEncodableAckRanges` does not count. -/
def wideAckFrame : FullAckFrame where
  AckRanges := (List.range 62).map (fun i =>
      let s : ℤ := 2 ^ 30 + 2 + 2 ^ 20 + (61 - (i : ℤ)) * (2 * 2 ^ 30 + 2)
      ⟨s, s + 2 ^ 30⟩) ++ [⟨0, 2 ^ 30⟩]
  DelayTime := 0
  ECT0 := 0
  ECT1 := 0
  ECNCE := 0

end Encoding

end Wire

end QuicGo
