import Mathlib.Data.Int.Bitwise

/-!
# Masking the low bits of a two's-complement integer

Code on 64-bit integers replaces the low `k` bits of `x` by those of `t` with
`(x & ^mask) | t`, where `mask = 1<<k - 1` and `0 ≤ t < 1<<k`. On values that do not
overflow, Mathlib's two's-complement `Int.land`, `Int.lor` and `~~~` compute what the machine
does, and the expression is `x` rounded down to a multiple of `2^k`, plus `t`
(`lor_land_not_mask`), for negative `x` as well: `/` rounds down for a positive divisor.

The proof goes through the natural numbers bit by bit: a non-negative `x` clears its low bits
(`ldiff_two_pow_sub_one`); a negative `x = -(n+1)` sets the low bits of `n`
(`or_two_pow_sub_one`) and then clears those of `t` (`ldiff_two_pow_mul_add`).

A decoder that puts the low bits back next to a reference value then chooses among numbers one
window apart: two numbers with the same low bits that are less than two windows apart are at
most one window apart (`eq_of_dvd_near`).
-/

namespace Bits

theorem ldiff_two_pow_sub_one (n k : ℕ) : Nat.ldiff n (2 ^ k - 1) = 2 ^ k * (n / 2 ^ k) := by
  apply Nat.eq_of_testBit_eq
  intro i
  rw [Nat.testBit_ldiff, Nat.testBit_two_pow_sub_one, Nat.testBit_two_pow_mul,
    Nat.testBit_div_two_pow]
  by_cases hi : i < k
  · simp [hi]
  · have hik : i - k + k = i := by omega
    simp [hi, hik, Nat.le_of_not_lt hi]

theorem or_two_pow_sub_one (n k : ℕ) :
    n ||| (2 ^ k - 1) = 2 ^ k * (n / 2 ^ k) + (2 ^ k - 1) := by
  rw [Nat.two_pow_add_eq_or_of_lt (Nat.sub_lt (Nat.two_pow_pos k) Nat.one_pos)]
  apply Nat.eq_of_testBit_eq
  intro i
  rw [Nat.testBit_or, Nat.testBit_or, Nat.testBit_two_pow_sub_one, Nat.testBit_two_pow_mul,
    Nat.testBit_div_two_pow]
  by_cases hi : i < k
  · simp [hi]
  · have hik : i - k + k = i := by omega
    simp [hi, hik, Nat.le_of_not_lt hi]

theorem ldiff_two_pow_mul_add {t : ℕ} (q k : ℕ) (ht : t < 2 ^ k) :
    Nat.ldiff (2 ^ k * q + (2 ^ k - 1)) t = 2 ^ k * q + (2 ^ k - (t + 1)) := by
  rw [Nat.two_pow_add_eq_or_of_lt (Nat.sub_lt (Nat.two_pow_pos k) Nat.one_pos),
    Nat.two_pow_add_eq_or_of_lt (by omega)]
  apply Nat.eq_of_testBit_eq
  intro i
  rw [Nat.testBit_ldiff, Nat.testBit_or, Nat.testBit_or, Nat.testBit_two_pow_sub_one,
    Nat.testBit_two_pow_sub_succ ht, Nat.testBit_two_pow_mul]
  by_cases hi : i < k
  · simp [hi, Nat.not_le_of_lt hi]
  · -- above the low `k` bits `t` has none
    have hti : t.testBit i = false := Nat.testBit_eq_false_of_lt
      (lt_of_lt_of_le ht (Nat.pow_le_pow_right (by decide) (Nat.le_of_not_lt hi)))
    simp [hi, hti]

/-- `(x & ^(1<<k - 1)) | t` for `0 ≤ t < 2^k`: `x` rounded down to a multiple of `2^k`, plus
`t`. -/
theorem lor_land_not_mask (x t : ℤ) (k : ℕ) (h0 : 0 ≤ t) (ht : t < 2 ^ k) :
    Int.lor (Int.land x (~~~(2 ^ k - 1))) t = 2 ^ k * (x / 2 ^ k) + t := by
  obtain ⟨t, rfl⟩ := Int.eq_ofNat_of_zero_le h0
  have hk : ((2 : ℤ) ^ k) = ((2 ^ k : ℕ) : ℤ) := by push_cast; rfl
  have htk : t < 2 ^ k := by rw [hk] at ht; exact_mod_cast ht
  have hpos := Nat.two_pow_pos k
  have hmask : ~~~((2 : ℤ) ^ k - 1) = Int.negSucc (2 ^ k - 1) := by
    rw [hk, show ((2 ^ k : ℕ) : ℤ) - 1 = ((2 ^ k - 1 : ℕ) : ℤ) by omega]
    rfl
  rw [hmask, hk]
  cases x with
  | ofNat n =>
    show ((Nat.ldiff n (2 ^ k - 1) ||| t : ℕ) : ℤ) = _
    rw [ldiff_two_pow_sub_one, ← Nat.two_pow_add_eq_or_of_lt htk]
    push_cast
    rfl
  | negSucc n =>
    -- `-(n+1)`: the low bits of `n` set, then those of `t` cleared
    show Int.negSucc (Nat.ldiff (n ||| (2 ^ k - 1)) t) = _
    rw [or_two_pow_sub_one, ldiff_two_pow_mul_add _ _ htk, Int.negSucc_ediv _ (by omega),
      Int.negSucc_eq]
    have hd : (n : ℤ).ediv (2 ^ k) = n / 2 ^ k := rfl
    have hsub : ((2 ^ k - (t + 1) : ℕ) : ℤ) = 2 ^ k - (t + 1) := by
      push_cast [Nat.cast_sub htk]
      rfl
    push_cast
    rw [hd, hsub, Int.mul_neg, Int.mul_add, Int.mul_one]
    omega

/-- A multiple of `W` less than two `W`s away from `0` is `-W`, `0` or `W`. -/
theorem eq_of_dvd_near {W d m : ℤ} (hW : 0 < W) (hd : d = W * m) (hlo : -(2 * W) < d)
    (hhi : d < 2 * W) : d = -W ∨ d = 0 ∨ d = W := by
  have hm₁ : -2 < m := by
    by_contra h
    have := Int.mul_le_mul_of_nonneg_left (show m ≤ -2 by omega) (Int.le_of_lt hW)
    omega
  have hm₂ : m < 2 := by
    by_contra h
    have := Int.mul_le_mul_of_nonneg_left (show 2 ≤ m by omega) (Int.le_of_lt hW)
    omega
  have hm : m = -1 ∨ m = 0 ∨ m = 1 := by omega
  rcases hm with rfl | rfl | rfl
  · exact .inl (by rw [hd, Int.mul_neg, Int.mul_one])
  · exact .inr (.inl (by rw [hd, Int.mul_zero]))
  · exact .inr (.inr (by rw [hd, Int.mul_one]))

end Bits
