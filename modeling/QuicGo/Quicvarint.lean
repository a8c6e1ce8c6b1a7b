import Mathlib.Tactic.Common

/-!
# QuicGo — variable-length integers (`quicvarint/varint.go`)

QUIC and HTTP/3 encode numbers in 1, 2, 4 or 8 bytes; the two high bits of the first byte
give the length, the other bits of the bytes are the number, most significant first.
`Read` takes a number from the front of a byte stream, `Append` writes one.

`Read` reads through an `io.ByteReader`; on a stream of bytes it is a function of the bytes
not read yet. A stream that ends inside the number makes `ReadByte` fail with `io.EOF`: `Read`
returns `none` then, and the stream has been read to its end.

`Parse` takes a number from the front of a byte slice and returns its length, or `io.EOF` for no
bytes and `io.ErrUnexpectedEOF` for too few.

The bricks: `Read_Append`, that `Read` takes back what `Append` wrote, with any bytes after
it; `Read_eq_Parse`, that `Read` on a stream computes what `Parse` computes on the slice; and
`Read_length`, that a successful `Read` consumes at least one byte.
-/

namespace QuicGo

namespace Quicvarint

/-- `maxVarInt1`, …: the largest number of each length. -/
def maxVarInt1 : ℕ := 63
def maxVarInt2 : ℕ := 16383
def maxVarInt4 : ℕ := 1073741823
def maxVarInt8 : ℕ := 4611686018427387903

/-- `quicvarint.Max`. -/
def Max : ℕ := maxVarInt8

/-- `quicvarint.Read`: the number at the front of `r`, and the bytes after it. -/
def Read : List UInt8 → Option ℕ × List UInt8
  | [] => (none, [])
  | firstByte :: r =>
    -- the first two bits of the first byte encode the length
    let l := 1 <<< ((firstByte &&& 0xc0) >>> 6).toNat
    let b1 := (firstByte &&& (0xff - 0xc0)).toNat
    if l = 1 then (some b1, r)
    else
      match r with
      | b2 :: r =>
        if l = 2 then (some (b2.toNat + b1 <<< 8), r)
        else
          match r with
          | b3 :: b4 :: r =>
            if l = 4 then
              (some (b4.toNat + b3.toNat <<< 8 + b2.toNat <<< 16 + b1 <<< 24), r)
            else
              match r with
              | b5 :: b6 :: b7 :: b8 :: r =>
                (some (b8.toNat + b7.toNat <<< 8 + b6.toNat <<< 16 + b5.toNat <<< 24 +
                  b4.toNat <<< 32 + b3.toNat <<< 40 + b2.toNat <<< 48 + b1 <<< 56), r)
              | _ => (none, [])
          | _ => (none, [])
      | [] => (none, [])

/-- `quicvarint.Append`; `none` is its panic for numbers above `Max`. -/
def Append (b : List UInt8) (i : ℕ) : Option (List UInt8) :=
  if i ≤ maxVarInt1 then some (b ++ [UInt8.ofNat i])
  else if i ≤ maxVarInt2 then some (b ++ [UInt8.ofNat (i >>> 8) ||| 0x40, UInt8.ofNat i])
  else if i ≤ maxVarInt4 then
    some (b ++ [UInt8.ofNat (i >>> 24) ||| 0x80, UInt8.ofNat (i >>> 16), UInt8.ofNat (i >>> 8),
      UInt8.ofNat i])
  else if i ≤ maxVarInt8 then
    some (b ++ [UInt8.ofNat (i >>> 56) ||| 0xc0, UInt8.ofNat (i >>> 48), UInt8.ofNat (i >>> 40),
      UInt8.ofNat (i >>> 32), UInt8.ofNat (i >>> 24), UInt8.ofNat (i >>> 16),
      UInt8.ofNat (i >>> 8), UInt8.ofNat i])
  else none

/-- `quicvarint.Len`; `none` is its panic. -/
def Len (i : ℕ) : Option ℕ :=
  if i ≤ maxVarInt1 then some 1
  else if i ≤ maxVarInt2 then some 2
  else if i ≤ maxVarInt4 then some 4
  else if i ≤ maxVarInt8 then some 8
  else none

/-- The errors of `Parse`: `io.EOF` for no bytes, `io.ErrUnexpectedEOF` for too few. -/
inductive ParseError
  | EOF
  | ErrUnexpectedEOF
  deriving DecidableEq, Repr

/-- `quicvarint.Parse`: the number at the front of `b`, and the number of its bytes. -/
def Parse (b : List UInt8) : Except ParseError (ℕ × ℕ) :=
  match b with
  | [] => .error .EOF
  | firstByte :: _ =>
    -- the first two bits of the first byte encode the length
    let l := 1 <<< ((firstByte &&& 0xc0) >>> 6).toNat
    if b.length < l then .error .ErrUnexpectedEOF
    else
      let b0 := (firstByte &&& (0xff - 0xc0)).toNat
      -- `b[k]`, in range after the length check
      let byteAt := fun k => (b.getD k 0).toNat
      if l = 1 then .ok (b0, 1)
      else if l = 2 then .ok (byteAt 1 + b0 <<< 8, 2)
      else if l = 4 then .ok (byteAt 3 + byteAt 2 <<< 8 + byteAt 1 <<< 16 + b0 <<< 24, 4)
      else .ok (byteAt 7 + byteAt 6 <<< 8 + byteAt 5 <<< 16 + byteAt 4 <<< 24 +
        byteAt 3 <<< 32 + byteAt 2 <<< 40 + byteAt 1 <<< 48 + b0 <<< 56, 8)

/-- `quicvarint.AppendWithLen`: `i` in `length` bytes, with leading zeros; `none` is a panic
(a length other than 1, 2, 4, 8, or one too short for `i`). -/
def AppendWithLen (b : List UInt8) (i : ℕ) (length : ℕ) : Option (List UInt8) :=
  if length ≠ 1 ∧ length ≠ 2 ∧ length ≠ 4 ∧ length ≠ 8 then none
  else
    match Len i with
    | none => none
    | some l =>
      if l = length then Append b i
      else if l > length then none
      else
        let tag : List UInt8 :=
          if length = 2 then [0b01000000] else if length = 4 then [0b10000000]
          else if length = 8 then [0b11000000] else []
        some (b ++ tag ++ List.replicate (length - l - 1) 0 ++
          (List.range l).map fun j => UInt8.ofNat (i >>> (8 * (l - 1 - j))))

/-! ## The bits of the first byte -/

/-- The length bits of a byte, `(b & 0xc0) >> 6`, are its two high bits. -/
theorem lengthBits (b : UInt8) : ((b &&& 0xc0) >>> 6).toNat = b.toNat / 64 := by
  rw [UInt8.toNat_shiftRight, UInt8.toNat_and, Nat.shiftRight_and_distrib]
  have h3 : (6 : UInt8).toNat % 8 = 6 := rfl
  have h192 : (0xc0 : UInt8).toNat >>> 6 = 2 ^ 2 - 1 := rfl
  rw [h3, h192, Nat.and_two_pow_sub_one_eq_mod, Nat.shiftRight_eq_div_pow]
  have := b.toNat_lt
  omega

/-- The number bits of a byte, `b & (0xff - 0xc0)`, are its six low bits. -/
theorem numberBits (b : UInt8) : (b &&& (0xff - 0xc0)).toNat = b.toNat % 64 := by
  rw [UInt8.toNat_and]
  exact Nat.and_two_pow_sub_one_eq_mod _ 6

/-- A first byte `Append` writes: the length tag `t` in the two high bits, above the six high
bits `x` of the number. -/
theorem toNat_tag (x t : ℕ) (hx : x < 64) (ht : t < 4) :
    (UInt8.ofNat x ||| UInt8.ofNat (64 * t)).toNat = 64 * t + x := by
  rw [UInt8.toNat_or, UInt8.toNat_ofNat', UInt8.toNat_ofNat', Nat.mod_eq_of_lt (by omega),
    Nat.mod_eq_of_lt (by omega), Nat.or_comm]
  exact (Nat.two_pow_add_eq_or_of_lt (i := 6) hx t).symm

theorem toNat_byte (i : ℕ) : (UInt8.ofNat i).toNat = i % 256 := UInt8.toNat_ofNat'

/-! ## `Read` and `Parse` at each length

The tag of the first byte fixes the length; once the bytes are there, both functions compute
the same big-endian number. -/

section Lengths

variable {f b2 b3 b4 b5 b6 b7 b8 : UInt8} (r : List UInt8)

theorem Read_one (hl : 1 <<< ((f &&& 0xc0) >>> 6).toNat = 1) :
    Read (f :: r) = (some (f &&& (0xff - 0xc0)).toNat, r) := by
  simp only [Read.eq_def, hl, reduceIte]

theorem Read_two (hl : 1 <<< ((f &&& 0xc0) >>> 6).toNat = 2) :
    Read (f :: b2 :: r) = (some (b2.toNat + (f &&& (0xff - 0xc0)).toNat <<< 8), r) := by
  simp only [Read.eq_def, hl, Nat.reduceEqDiff, reduceIte]

theorem Read_four (hl : 1 <<< ((f &&& 0xc0) >>> 6).toNat = 4) :
    Read (f :: b2 :: b3 :: b4 :: r) =
      (some (b4.toNat + b3.toNat <<< 8 + b2.toNat <<< 16 + (f &&& (0xff - 0xc0)).toNat <<< 24), r) := by
  simp only [Read.eq_def, hl, Nat.reduceEqDiff, reduceIte]

theorem Read_eight (hl : 1 <<< ((f &&& 0xc0) >>> 6).toNat = 8) :
    Read (f :: b2 :: b3 :: b4 :: b5 :: b6 :: b7 :: b8 :: r) =
      (some (b8.toNat + b7.toNat <<< 8 + b6.toNat <<< 16 + b5.toNat <<< 24 + b4.toNat <<< 32 +
        b3.toNat <<< 40 + b2.toNat <<< 48 + (f &&& (0xff - 0xc0)).toNat <<< 56), r) := by
  simp only [Read.eq_def, hl, Nat.reduceEqDiff, reduceIte]

theorem Parse_one (hl : 1 <<< ((f &&& 0xc0) >>> 6).toNat = 1) :
    Parse (f :: r) = .ok ((f &&& (0xff - 0xc0)).toNat, 1) := by
  simp only [Parse, hl, List.length_cons, reduceIte]
  rw [if_neg (by omega)]

theorem Parse_two (hl : 1 <<< ((f &&& 0xc0) >>> 6).toNat = 2) :
    Parse (f :: b2 :: r) = .ok (b2.toNat + (f &&& (0xff - 0xc0)).toNat <<< 8, 2) := by
  simp only [Parse, hl, List.length_cons, Nat.reduceEqDiff, reduceIte, List.getD_cons_succ,
    List.getD_cons_zero]
  rw [if_neg (by omega)]

theorem Parse_four (hl : 1 <<< ((f &&& 0xc0) >>> 6).toNat = 4) :
    Parse (f :: b2 :: b3 :: b4 :: r) =
      .ok (b4.toNat + b3.toNat <<< 8 + b2.toNat <<< 16 + (f &&& (0xff - 0xc0)).toNat <<< 24, 4) := by
  simp only [Parse, hl, List.length_cons, Nat.reduceEqDiff, reduceIte, List.getD_cons_succ,
    List.getD_cons_zero]
  rw [if_neg (by omega)]

theorem Parse_eight (hl : 1 <<< ((f &&& 0xc0) >>> 6).toNat = 8) :
    Parse (f :: b2 :: b3 :: b4 :: b5 :: b6 :: b7 :: b8 :: r) =
      .ok (b8.toNat + b7.toNat <<< 8 + b6.toNat <<< 16 + b5.toNat <<< 24 + b4.toNat <<< 32 +
        b3.toNat <<< 40 + b2.toNat <<< 48 + (f &&& (0xff - 0xc0)).toNat <<< 56, 8) := by
  simp only [Parse, hl, List.length_cons, Nat.reduceEqDiff, reduceIte, List.getD_cons_succ,
    List.getD_cons_zero]
  rw [if_neg (by omega)]

end Lengths

/-! ## `Read` takes back what `Append` writes -/

/-- The first byte of each length. -/
theorem read_first (x t : ℕ) (hx : x < 64) (ht : t < 4) :
    ((UInt8.ofNat x ||| UInt8.ofNat (64 * t)).toNat / 64 = t) ∧
      ((UInt8.ofNat x ||| UInt8.ofNat (64 * t)).toNat % 64 = x) := by
  rw [toNat_tag x t hx ht]
  omega

theorem Read_Append (i : ℕ) (hi : i ≤ Max) (rest : List UInt8) :
    ∃ e, Append [] i = some e ∧ Read (e ++ rest) = (some i, rest) := by
  unfold Append
  by_cases h1 : i ≤ maxVarInt1
  · -- one byte, tag 0
    refine ⟨_, by rw [if_pos h1], ?_⟩
    unfold maxVarInt1 at h1
    have hb : (UInt8.ofNat i).toNat = i := by rw [toNat_byte]; omega
    have hl : 1 <<< ((UInt8.ofNat i &&& 0xc0) >>> 6).toNat = 1 := by
      rw [lengthBits, hb, Nat.div_eq_of_lt (by omega)]
      rfl
    rw [List.nil_append, List.singleton_append, Read_one rest hl, numberBits, hb,
      Nat.mod_eq_of_lt (by omega)]
  rw [if_neg h1]
  by_cases h2 : i ≤ maxVarInt2
  · -- two bytes, tag 1
    refine ⟨_, by rw [if_pos h2], ?_⟩
    unfold maxVarInt1 maxVarInt2 at *
    obtain ⟨hl, hn⟩ := read_first (i >>> 8) 1 (by rw [Nat.shiftRight_eq_div_pow]; omega) (by omega)
    have e : (0x40 : UInt8) = UInt8.ofNat (64 * 1) := rfl
    rw [← e] at hl hn
    simp only [List.nil_append, List.cons_append]
    rw [Read_two rest (by rw [lengthBits, hl]; rfl), numberBits, hn, toNat_byte,
      Nat.shiftRight_eq_div_pow, Nat.shiftLeft_eq]
    congr 2
    omega
  rw [if_neg h2]
  by_cases h4 : i ≤ maxVarInt4
  · -- four bytes, tag 2
    refine ⟨_, by rw [if_pos h4], ?_⟩
    unfold maxVarInt2 maxVarInt4 at *
    obtain ⟨hl, hn⟩ := read_first (i >>> 24) 2 (by rw [Nat.shiftRight_eq_div_pow]; omega) (by omega)
    have e : (0x80 : UInt8) = UInt8.ofNat (64 * 2) := rfl
    rw [← e] at hl hn
    simp only [List.nil_append, List.cons_append]
    rw [Read_four rest (by rw [lengthBits, hl]; rfl), numberBits, hn]
    simp only [toNat_byte, Nat.shiftRight_eq_div_pow, Nat.shiftLeft_eq]
    congr 2
    omega
  rw [if_neg h4]
  · -- eight bytes, tag 3
    have h8 : i ≤ maxVarInt8 := hi
    refine ⟨_, by rw [if_pos h8], ?_⟩
    unfold maxVarInt4 maxVarInt8 at *
    obtain ⟨hl, hn⟩ := read_first (i >>> 56) 3 (by rw [Nat.shiftRight_eq_div_pow]; omega) (by omega)
    have e : (0xc0 : UInt8) = UInt8.ofNat (64 * 3) := rfl
    rw [← e] at hl hn
    simp only [List.nil_append, List.cons_append]
    rw [Read_eight rest (by rw [lengthBits, hl]; rfl), numberBits, hn]
    simp only [toNat_byte, Nat.shiftRight_eq_div_pow, Nat.shiftLeft_eq]
    congr 2
    omega

/-- The length the tag of a first byte gives: 1, 2, 4 or 8. -/
theorem tag_cases (f : UInt8) :
    1 <<< ((f &&& 0xc0) >>> 6).toNat = 1 ∨ 1 <<< ((f &&& 0xc0) >>> 6).toNat = 2 ∨
      1 <<< ((f &&& 0xc0) >>> 6).toNat = 4 ∨ 1 <<< ((f &&& 0xc0) >>> 6).toNat = 8 := by
  rw [lengthBits]
  have := f.toNat_lt
  obtain hk | hk | hk | hk : f.toNat / 64 = 0 ∨ f.toNat / 64 = 1 ∨ f.toNat / 64 = 2 ∨
      f.toNat / 64 = 3 := by omega
  all_goals simp [hk]


/-- A stream shorter than its first byte's length: `Parse` reports it. -/
theorem Parse_of_length_lt {f : UInt8} {r : List UInt8}
    (h : (f :: r).length < 1 <<< ((f &&& 0xc0) >>> 6).toNat) :
    Parse (f :: r) = .error .ErrUnexpectedEOF := by
  simp only [Parse]
  rw [if_pos h]

/-- `Parse` fails with `io.EOF` on no bytes and with `io.ErrUnexpectedEOF` on too few. -/
theorem Parse_error {b : List UInt8} {err : ParseError} (h : Parse b = .error err) :
    (err = .EOF ↔ b = []) := by
  rcases b with _ | ⟨f, r⟩
  · cases h
    simp
  simp only [Parse] at h
  split_ifs at h
  cases h
  simp

/-- `Read` is `Parse` on a stream: the number `Parse` finds and the bytes after it, or nothing
when the stream ends inside the number. -/
theorem Read_eq_Parse (b : List UInt8) :
    Read b = match Parse b with
      | .ok (v, n) => (some v, b.drop n)
      | .error _ => (none, []) := by
  rcases b with _ | ⟨f, r⟩
  · rfl
  -- the tag gives the length; each shorter stream is one case of `Read` giving up
  rcases tag_cases f with hl | hl | hl | hl
  · rw [Read_one r hl, Parse_one r hl]
    rfl
  · rcases r with _ | ⟨b2, r⟩
    · rw [Parse_of_length_lt (by rw [hl]; simp)]
      simp only [Read.eq_def, hl, Nat.reduceEqDiff, reduceIte]
    · rw [Read_two r hl, Parse_two r hl]
      rfl
  · rcases r with _ | ⟨b2, _ | ⟨b3, _ | ⟨b4, r⟩⟩⟩
    iterate 3
      · rw [Parse_of_length_lt (by rw [hl]; simp)]
        simp only [Read.eq_def, hl, Nat.reduceEqDiff, reduceIte]
    · rw [Read_four r hl, Parse_four r hl]
      rfl
  · rcases r with _ | ⟨b2, _ | ⟨b3, _ | ⟨b4, _ | ⟨b5, _ | ⟨b6, _ | ⟨b7, _ | ⟨b8, r⟩⟩⟩⟩⟩⟩⟩
    iterate 7
      · rw [Parse_of_length_lt (by rw [hl]; simp)]
        simp only [Read.eq_def, hl, Nat.reduceEqDiff, reduceIte]
    · rw [Read_eight r hl, Parse_eight r hl]
      rfl

/-- `Parse` returns a length that the stream has. -/
theorem le_length_of_Parse {b : List UInt8} {v n : ℕ} (h : Parse b = .ok (v, n)) :
    n ≤ b.length := by
  rcases b with _ | ⟨f, r⟩
  · cases h
  have := tag_cases f
  simp only [Parse] at h
  -- each branch returns the tag's length, which the check put within the stream
  split_ifs at h <;> simp only [Except.ok.injEq, Prod.mk.injEq] at h <;> omega

/-- `Parse` finds the number `Read` reads, and the number of its bytes. -/
theorem Parse_of_Read {b rest : List UInt8} {v : ℕ} (h : Read b = (some v, rest)) :
    Parse b = .ok (v, b.length - rest.length) := by
  rw [Read_eq_Parse] at h
  cases hP : Parse b with
  | error err =>
    rw [hP] at h
    cases h
  | ok r =>
    obtain ⟨v', n⟩ := r
    simp only [hP, Prod.mk.injEq, Option.some.injEq] at h
    obtain ⟨rfl, rfl⟩ := h
    rw [List.length_drop, Nat.sub_sub_self (le_length_of_Parse hP)]

/-- A `Read` that stops after `e` tells `Parse` the length of `e`. -/
theorem Parse_append_of_Read {e s : List UInt8} {v : ℕ} (h : Read (e ++ s) = (some v, s)) :
    Parse (e ++ s) = .ok (v, e.length) := by
  rw [Parse_of_Read h, List.length_append, Nat.add_sub_cancel]

theorem Parse_Append (i : ℕ) (hi : i ≤ Max) (rest : List UInt8) :
    ∃ e, Append [] i = some e ∧ Parse (e ++ rest) = .ok (i, e.length) := by
  obtain ⟨e, he, hr⟩ := Read_Append i hi rest
  exact ⟨e, he, Parse_append_of_Read hr⟩

/-- `Append` writes `Len` bytes. -/
theorem length_Append (i : ℕ) {e : List UInt8} (he : Append [] i = some e) :
    Len i = some e.length := by
  unfold Append at he
  unfold Len
  split_ifs at he ⊢ <;> cases he <;> rfl

/-- `Append` appends to the bytes it is given. -/
theorem Append_eq (b : List UInt8) (i : ℕ) : Append b i = (Append [] i).map (b ++ ·) := by
  unfold Append
  split_ifs <;> simp

theorem AppendWithLen_eq (b : List UInt8) (i length : ℕ) :
    AppendWithLen b i length = (AppendWithLen [] i length).map (b ++ ·) := by
  unfold AppendWithLen
  by_cases hlen : length ≠ 1 ∧ length ≠ 2 ∧ length ≠ 4 ∧ length ≠ 8
  · rw [if_pos hlen, if_pos hlen]
    rfl
  rw [if_neg hlen, if_neg hlen]
  cases Len i with
  | none => rfl
  | some l =>
    dsimp only
    by_cases hl : l = length
    · rw [if_pos hl, if_pos hl]
      exact Append_eq b i
    rw [if_neg hl, if_neg hl]
    by_cases hgt : l > length
    · rw [if_pos hgt, if_pos hgt]
      rfl
    rw [if_neg hgt, if_neg hgt]
    simp

/-- `Append` panics above `Max` only. -/
theorem le_Max_of_Append {b e : List UInt8} {i : ℕ} (h : Append b i = some e) : i ≤ Max := by
  unfold Append at h
  unfold Max
  split_ifs at h with h₁ h₂ h₃ h₄
  · unfold maxVarInt1 maxVarInt8 at *; omega
  · unfold maxVarInt2 maxVarInt8 at *; omega
  · unfold maxVarInt4 maxVarInt8 at *; omega
  · exact h₄

/-- `AppendWithLen` in two bytes panics above `maxVarInt2`. -/
theorem le_maxVarInt2_of_AppendWithLen {b e : List UInt8} {i : ℕ} (h : AppendWithLen b i 2 = some e) :
    i ≤ maxVarInt2 := by
  by_contra hi
  have hlen : Len i = some 4 ∨ Len i = some 8 ∨ Len i = none := by
    unfold Len
    rw [if_neg (by unfold maxVarInt1 maxVarInt2 at *; omega), if_neg hi]
    split_ifs <;> simp
  unfold AppendWithLen at h
  rw [if_neg (by omega)] at h
  rcases hlen with hl | hl | hl <;> simp [hl] at h

/-- A number up to `maxVarInt2` in two bytes, as the `Length` of a long header is written. -/
theorem Read_AppendWithLen_two (i : ℕ) (hi : i ≤ maxVarInt2) (rest : List UInt8) :
    ∃ e, AppendWithLen [] i 2 = some e ∧ e.length = 2 ∧ Read (e ++ rest) = (some i, rest) := by
  unfold AppendWithLen
  rw [if_neg (by omega)]
  by_cases h1 : i ≤ maxVarInt1
  · -- a one-byte number, after a zero byte with the two-byte tag
    have hl : Len i = some 1 := by unfold Len; rw [if_pos h1]
    rw [hl]
    dsimp only
    rw [if_neg (by omega), if_neg (by omega), if_pos rfl]
    refine ⟨_, rfl, by simp, ?_⟩
    unfold maxVarInt1 at h1
    have hb : (UInt8.ofNat i).toNat = i := by rw [toNat_byte]; omega
    simp [Read.eq_def, hb]
  · -- two bytes already
    have hl : Len i = some 2 := by unfold Len; rw [if_neg h1, if_pos hi]
    rw [hl]
    dsimp only
    rw [if_pos rfl]
    obtain ⟨e, he, hr⟩ := Read_Append i (by unfold Max maxVarInt8; unfold maxVarInt2 at hi; omega)
      rest
    refine ⟨e, he, ?_, hr⟩
    have := length_Append i he
    rw [hl] at this
    exact (Option.some.inj this).symm

/-- A successful `Read` consumes at least one byte, and leaves a suffix of the stream. -/
theorem Read_length {r rest : List UInt8} {v : ℕ} (h : Read r = (some v, rest)) :
    rest.length < r.length ∧ rest <:+ r := by
  cases r with
  | nil => simp [Read.eq_def] at h
  | cons firstByte r =>
    simp only [Read.eq_def] at h
    split at h
    · -- one byte
      obtain ⟨-, rfl⟩ := Prod.mk.inj h
      exact ⟨by simp, List.suffix_cons _ _⟩
    split at h
    · rename_i b2 r
      split at h
      · -- two bytes
        obtain ⟨-, rfl⟩ := Prod.mk.inj h
        exact ⟨by simp only [List.length_cons]; omega, (List.suffix_cons _ _).trans (List.suffix_cons _ _)⟩
      split at h
      · rename_i b3 b4 r
        split at h
        · -- four bytes
          obtain ⟨-, rfl⟩ := Prod.mk.inj h
          exact ⟨by simp; omega, by simp [List.suffix_cons_iff]⟩
        split at h
        · -- eight bytes
          obtain ⟨-, rfl⟩ := Prod.mk.inj h
          exact ⟨by simp; omega, by simp [List.suffix_cons_iff]⟩
        · simp at h
      · simp at h
    · simp at h

/-! ## The length of a number -/

/-- What `Len` returns, by the size of the number. -/
theorem Len_eq_some {i l : ℕ} (h : Len i = some l) :
    (i ≤ 63 ∧ l = 1) ∨ (63 < i ∧ i ≤ 16383 ∧ l = 2) ∨ (16383 < i ∧ i ≤ 1073741823 ∧ l = 4) ∨
      (1073741823 < i ∧ i ≤ 4611686018427387903 ∧ l = 8) := by
  unfold Len maxVarInt1 maxVarInt2 maxVarInt4 maxVarInt8 at h
  split_ifs at h <;> simp only [Option.some.injEq] at h <;> omega

/-- `Len` is defined up to `Max`, one to eight bytes. -/
theorem Len_of_le_Max {i : ℕ} (hi : i ≤ Max) : ∃ l, Len i = some l ∧ 1 ≤ l ∧ l ≤ 8 := by
  unfold Len
  unfold Max at hi
  split_ifs <;> exact ⟨_, rfl, by decide, by decide⟩

/-- What `Append` adds is `Len` bytes long. -/
theorem Append_eq_some {b e : List UInt8} {i : ℕ} (h : Append b i = some e) :
    ∃ d, e = b ++ d ∧ Len i = some d.length := by
  rw [Append_eq] at h
  cases he : Append [] i with
  | none => rw [he] at h; cases h
  | some d =>
    rw [he, Option.map_some, Option.some.injEq] at h
    exact ⟨d, h.symm, length_Append i he⟩

/-- `Append` does not panic up to `Max`. -/
theorem Append_isSome {i : ℕ} (hi : i ≤ Max) (b : List UInt8) : ∃ e, Append b i = some e := by
  obtain ⟨e, he, -⟩ := Read_Append i hi []
  rw [Append_eq, he]
  exact ⟨_, rfl⟩

/-- The number bits of the tag bytes `AppendWithLen` writes before its zeros. -/
theorem numberBits_tag : ((0x40 : UInt8) &&& (0xff - 0xc0)).toNat = 0 ∧
    ((0x80 : UInt8) &&& (0xff - 0xc0)).toNat = 0 ∧ ((0xc0 : UInt8) &&& (0xff - 0xc0)).toNat = 0 := by
  decide

/-- `AppendWithLen` to any of the four lengths at least `Len i`: `Read` takes the number back. -/
theorem Read_AppendWithLen {i l : ℕ} (hl : Len i = some l) {n : ℕ}
    (hn : n = 1 ∨ n = 2 ∨ n = 4 ∨ n = 8) (hln : l ≤ n) (rest : List UInt8) :
    ∃ e, AppendWithLen [] i n = some e ∧ e.length = n ∧ Read (e ++ rest) = (some i, rest) := by
  have hlen : ¬ (n ≠ 1 ∧ n ≠ 2 ∧ n ≠ 4 ∧ n ≠ 8) := by omega
  by_cases heq : l = n
  · -- the shortest length: what `Append` writes
    subst heq
    obtain ⟨e, he, hr⟩ := Read_Append i (by have := Len_eq_some hl; unfold Max maxVarInt8; omega) rest
    refine ⟨e, ?_, ?_, hr⟩
    · unfold AppendWithLen
      rw [if_neg hlen, hl]
      exact (if_pos rfl).trans he
    · have := length_Append i he
      rw [hl] at this
      exact (Option.some.inj this).symm
  obtain ⟨h₁, h₂, h₃⟩ := numberBits_tag
  -- a longer length: the tag, zeros, then the `l` bytes of the number
  rcases Len_eq_some hl with ⟨hi, rfl⟩ | ⟨-, hi, rfl⟩ | ⟨-, hi, rfl⟩ | ⟨-, -, rfl⟩ <;>
    rcases hn with rfl | rfl | rfl | rfl <;> try omega
  · refine ⟨[0x40, UInt8.ofNat i], by simp only [AppendWithLen, hl]; rfl, rfl, ?_⟩
    simp only [List.cons_append, List.nil_append]
    rw [Read_two rest (by decide)]
    simp only [h₁, toNat_byte, Nat.shiftLeft_eq]
    congr 2
    omega
  · refine ⟨[0x80, 0, 0, UInt8.ofNat i], by simp only [AppendWithLen, hl]; rfl, rfl, ?_⟩
    simp only [List.cons_append, List.nil_append]
    rw [Read_four rest (by decide)]
    simp only [h₂, toNat_byte, Nat.shiftLeft_eq, UInt8.toNat_zero]
    congr 2
    omega
  · refine ⟨[0xc0, 0, 0, 0, 0, 0, 0, UInt8.ofNat i], by simp only [AppendWithLen, hl]; rfl, rfl, ?_⟩
    simp only [List.cons_append, List.nil_append]
    rw [Read_eight rest (by decide)]
    simp only [h₃, toNat_byte, Nat.shiftLeft_eq, UInt8.toNat_zero]
    congr 2
    omega
  · refine ⟨[0x80, 0, UInt8.ofNat (i >>> 8), UInt8.ofNat i], by simp only [AppendWithLen, hl]; rfl,
      rfl, ?_⟩
    simp only [List.cons_append, List.nil_append]
    rw [Read_four rest (by decide)]
    simp only [h₂, toNat_byte, Nat.shiftRight_eq_div_pow, Nat.shiftLeft_eq, UInt8.toNat_zero]
    congr 2
    omega
  · refine ⟨[0xc0, 0, 0, 0, 0, 0, UInt8.ofNat (i >>> 8), UInt8.ofNat i],
      by simp only [AppendWithLen, hl]; rfl, rfl, ?_⟩
    simp only [List.cons_append, List.nil_append]
    rw [Read_eight rest (by decide)]
    simp only [h₃, toNat_byte, Nat.shiftRight_eq_div_pow, Nat.shiftLeft_eq, UInt8.toNat_zero]
    congr 2
    omega
  · refine ⟨[0xc0, 0, 0, 0, UInt8.ofNat (i >>> 24), UInt8.ofNat (i >>> 16), UInt8.ofNat (i >>> 8),
      UInt8.ofNat i], by simp only [AppendWithLen, hl]; rfl, rfl, ?_⟩
    simp only [List.cons_append, List.nil_append]
    rw [Read_eight rest (by decide)]
    simp only [h₃, toNat_byte, Nat.shiftRight_eq_div_pow, Nat.shiftLeft_eq, UInt8.toNat_zero]
    congr 2
    omega

/-! ## The codec -/

/-- The varint codec. What `Append` and `AppendWithLen` (to any of the four lengths that holds
the number) add after any prefix, `Parse` and `Read` take back from the front of any stream: the
number, and exactly the bytes written. On every byte string `Read` is `Parse`: the same number
and the same bytes consumed, and a failure exactly where `Parse` fails; `Parse` tells no bytes
(`io.EOF`) from too few (`io.ErrUnexpectedEOF`). -/
theorem varint_roundTrip :
    (∀ i, i ≤ Max → ∀ p s : List UInt8, ∃ l, Len i = some l ∧
      (∃ e, Append p i = some e ∧ (e.drop p.length).length = l ∧
        Parse (e.drop p.length ++ s) = .ok (i, l) ∧ Read (e.drop p.length ++ s) = (some i, s)) ∧
      ∀ n, (n = 1 ∨ n = 2 ∨ n = 4 ∨ n = 8) → l ≤ n →
        ∃ e, AppendWithLen p i n = some e ∧ (e.drop p.length).length = n ∧
          Parse (e.drop p.length ++ s) = .ok (i, n) ∧ Read (e.drop p.length ++ s) = (some i, s)) ∧
    ∀ b : List UInt8,
      (Read b = match Parse b with
        | .ok (v, n) => (some v, b.drop n)
        | .error _ => (none, [])) ∧
      ∀ err, Parse b = .error err → (err = .EOF ↔ b = []) := by
  refine ⟨fun i hi p s => ?_, fun b => ⟨Read_eq_Parse b, fun err h => Parse_error h⟩⟩
  obtain ⟨l, hl, -⟩ := Len_of_le_Max hi
  refine ⟨l, hl, ?_, fun n hn hln => ?_⟩
  · -- `Append` writes the `Len i` bytes `Read_Append` reads back
    obtain ⟨e, he, hr⟩ := Read_Append i hi s
    have hel : e.length = l := by
      have := length_Append i he
      rw [hl] at this
      exact (Option.some.inj this).symm
    refine ⟨p ++ e, by rw [Append_eq, he]; rfl, ?_⟩
    rw [List.drop_left, ← hel]
    exact ⟨rfl, Parse_append_of_Read hr, hr⟩
  · obtain ⟨e, he, hel, hr⟩ := Read_AppendWithLen hl hn hln s
    refine ⟨p ++ e, by rw [AppendWithLen_eq, he]; rfl, ?_⟩
    rw [List.drop_left, ← hel]
    exact ⟨rfl, Parse_append_of_Read hr, hr⟩

/-- A stream that ends inside a number: `Parse` reports `io.ErrUnexpectedEOF`, while `Read`
fails with the `io.EOF` of the reader. -/
theorem Parse_Read_truncated : Parse [0x40] = .error .ErrUnexpectedEOF ∧ Read [0x40] = (none, []) :=
  ⟨rfl, rfl⟩

end Quicvarint

end QuicGo
