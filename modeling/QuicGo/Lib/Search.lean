import Mathlib.Order.Basic

/-!
# Binary search for the first index where a predicate holds

Go's `sort.Search(n, f)` searches `[0, n)` for the smallest index at which `f` is true,
assuming `f` is false and then true; it returns `n` if there is none. `search f i j` is its
loop on the half-open interval `[i, j)`.

The loop keeps two facts without any assumption on `f` (`search_spec`): it moves the lower
bound only past an index where `f` is false, and the upper bound only onto one where `f` is
true. For an `f` that is false and then true, the result is therefore the first index where `f`
holds.
-/

namespace Search

/-- The loop of `sort.Search` on `[i, j)`. -/
def search (f : ℕ → Bool) (i j : ℕ) : ℕ :=
  if i < j then
    let h := (i + j) / 2
    if !f h then search f (h + 1) j else search f i h
  else i
termination_by j - i

/-- **What the loop keeps.** The result lies in `[i, j]`; unless it is `j`, `f` holds there;
unless it is `i`, `f` fails just below it. -/
theorem search_spec (f : ℕ → Bool) {i j : ℕ} (hij : i ≤ j) :
    i ≤ search f i j ∧ search f i j ≤ j ∧ (search f i j < j → f (search f i j) = true) ∧
      (i < search f i j → f (search f i j - 1) = false) := by
  fun_induction search f i j with
  | case1 i j hlt m hf ih =>
    -- `f` fails at the midpoint `m`: the search goes on above it
    have hm : m = (i + j) / 2 := rfl
    obtain ⟨h₁, h₂, h₃, h₄⟩ := ih (by omega)
    refine ⟨by omega, h₂, h₃, fun _ => ?_⟩
    rcases Nat.eq_or_lt_of_le h₁ with heq | hlt'
    · rw [← heq]
      simpa using hf
    · exact h₄ hlt'
  | case2 i j hlt m hf ih =>
    -- `f` holds at the midpoint `m`: the search goes on below it
    have hm : m = (i + j) / 2 := rfl
    obtain ⟨h₁, h₂, h₃, h₄⟩ := ih (by omega)
    refine ⟨h₁, by omega, fun _ => ?_, h₄⟩
    rcases Nat.eq_or_lt_of_le h₂ with heq | hlt'
    · rw [heq]
      simpa using hf
    · exact h₃ hlt'
  | case3 i j hge =>
    exact ⟨Nat.le_refl i, hij, fun h => absurd h hge, fun h => absurd h (Nat.lt_irrefl i)⟩

end Search
