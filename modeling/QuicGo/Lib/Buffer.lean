import Mathlib.Data.List.Basic
import Mathlib.Data.List.Rotate

/-!
# Byte buffers written in place

Code that works on a byte buffer in place takes slices of it, XORs a key stream into a slice,
and copies bytes over a slice. Modelled over lists, a slice is `(buf.drop i).take n` and a
write of `src` from `i` on is `buf.take i ++ src ++ buf.drop (i + src.length)`.

The lemmas here describe a buffer that is laid out as `pre ++ mid ++ post`: a slice or a
write at `pre.length` of `mid`'s length sees or replaces exactly `mid`. A proof about
in-place code then cuts the buffer at the offsets the code uses and rewrites with these,
instead of reasoning about indices.

XOR with a key stream (`xorWith`) goes as far as the data goes; XORing twice with the same
key gives the data back (`xorWith_xorWith`).

A ring of slots read from a head position is the list rotated to that position
(`List.rotate`): writing one slot of the ring writes one slot of the rotation (`rotate_set`),
and moving the head one slot on rotates once more (`rotate_advance`).
-/

namespace Buffer

variable {α : Type*}

/-- `buf[i:i+n]`, as far as the buffer goes. -/
def slice (buf : List α) (i n : ℕ) : List α := (buf.drop i).take n

/-- `copy(buf[i:], src)` where `src` fits: `src` written over the buffer from `i` on. -/
def write (buf : List α) (i : ℕ) (src : List α) : List α :=
  buf.take i ++ src ++ buf.drop (i + src.length)

@[simp]
theorem slice_append (pre mid post : List α) :
    slice (pre ++ mid ++ post) pre.length mid.length = mid := by
  simp [slice]

/-- A slice from `pre.length` of at most `mid`'s length lies within `mid`. -/
theorem slice_append_of_le (pre mid post : List α) {n : ℕ} (h : n ≤ mid.length) :
    slice (pre ++ mid ++ post) pre.length n = mid.take n := by
  simp [slice, List.take_append, Nat.sub_eq_zero_of_le h]

/-- A slice beyond `pre ++ mid` sees `post` only. -/
theorem slice_append_beyond (pre mid post : List α) (j n : ℕ) :
    slice (pre ++ mid ++ post) (pre.length + mid.length + j) n = slice post j n := by
  have hpre : pre.drop (pre.length + (mid.length + j)) = [] := List.drop_eq_nil_of_le (by omega)
  have hmid : mid.drop (mid.length + j) = [] := List.drop_eq_nil_of_le (by omega)
  simp [slice, List.drop_append, Nat.add_assoc, hpre, hmid]

/-- A write at `pre.length` of as many elements as `mid` has replaces `mid`. -/
theorem write_append (pre mid post src : List α) (h : src.length = mid.length) :
    write (pre ++ mid ++ post) pre.length src = pre ++ src ++ post := by
  have hend : pre.length + src.length = (pre ++ mid).length := by simp [h]
  rw [write, hend, List.drop_left, List.append_assoc pre mid post, List.take_left]

theorem length_slice {buf : List α} {i n : ℕ} (h : i + n ≤ buf.length) :
    (slice buf i n).length = n := by
  simp only [slice, List.length_take, List.length_drop]
  omega

theorem length_write {buf src : List α} {i : ℕ} (h : i + src.length ≤ buf.length) :
    (write buf i src).length = buf.length := by
  simp only [write, List.length_append, List.length_take, List.length_drop]
  omega

section Xor

variable [XorOp α]

/-- The data XORed element by element with a key stream, as far as the data goes when the key
is long enough. -/
def xorWith (data key : List α) : List α := List.zipWith (· ^^^ ·) data key

theorem length_xorWith {data key : List α} (h : data.length ≤ key.length) :
    (xorWith data key).length = data.length := by
  simp [xorWith, h]

/-- XOR of a concatenation: the second part meets the key from where the first ended. -/
theorem xorWith_append (d₁ d₂ key : List α) :
    xorWith (d₁ ++ d₂) key = xorWith d₁ key ++ xorWith d₂ (key.drop d₁.length) := by
  induction d₁ generalizing key with
  | nil => rfl
  | cons a d₁ ih =>
    cases key with
    | nil => cases d₂ <;> simp [xorWith]
    | cons k key => simpa [xorWith] using ih key

/-- XORing twice with the same key is the identity, for an XOR that cancels. -/
theorem xorWith_xorWith (hxor : ∀ a k : α, a ^^^ k ^^^ k = a) {data key : List α}
    (h : data.length ≤ key.length) : xorWith (xorWith data key) key = data := by
  induction data generalizing key with
  | nil => rfl
  | cons a data ih =>
    cases key with
    | nil => simp at h
    | cons k key =>
      simp only [xorWith, List.zipWith_cons_cons, List.cons.injEq] at ih ⊢
      exact ⟨hxor a k, ih (by simpa using h)⟩

end Xor

/-! ## Rings -/

/-- A sum of two positions of a ring wraps round at most once. -/
theorem mod_of_lt_add {k n m : ℕ} (hk : k < m) (hn : n < m) :
    (k + n) % m = k + n ∨ (k + n) % m + m = k + n := by
  by_cases h : k + n < m
  · exact .inl (Nat.mod_eq_of_lt h)
  · right
    rw [Nat.mod_eq_sub_mod (by omega), Nat.mod_eq_of_lt (by omega)]
    omega

/-- Writing slot `i` of a ring shows in its rotation to `n` at `j`, the distance from `n` to `i`
going round. -/
theorem rotate_set {l : List α} {i n j : ℕ} (a : α) (hi : i < l.length) (hn : n < l.length)
    (hj : j < l.length) (hij : j + n = i ∨ j + n = i + l.length) :
    (l.set i a).rotate n = (l.rotate n).set j a := by
  apply List.ext_getElem (by simp)
  intro k hk _
  simp only [List.length_rotate, List.length_set] at hk
  have hmod := mod_of_lt_add hk hn
  rw [List.getElem_rotate, List.getElem_set, List.getElem_set, List.getElem_rotate]
  simp only [List.length_set]
  -- the slot `k` of the rotation is slot `i` of the ring exactly when `k = j`
  have hiff : i = (k + n) % l.length ↔ j = k := by
    have hlt := Nat.mod_lt (k + n) (Nat.zero_lt_of_lt hk)
    generalize (k + n) % l.length = m at hmod hlt
    constructor <;> intro <;> omega
  by_cases hk : j = k
  · rw [if_pos (hiff.mpr hk), if_pos hk]
  · rw [if_neg (mt hiff.mp hk), if_neg hk]

/-- Advancing a position by one, back to `0` at the end, rotates the ring one step further. -/
theorem rotate_advance (l : List α) (n : ℕ) :
    l.rotate (if n + 1 = l.length then 0 else n + 1) = l.rotate (n + 1) := by
  split_ifs with h
  · rw [h, List.rotate_length, List.rotate_zero]
  · rfl

end Buffer
