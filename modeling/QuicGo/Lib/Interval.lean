import Mathlib.Data.List.Pairwise
import Mathlib.Data.List.Basic

/-!
# Ordered lists of half-open intervals

A list of intervals, each given by its start `lo x` and its end `hi x`, that cover some
natural numbers. A sorted list of disjoint, non-adjacent intervals (`Ordered`) is how
a receiver records what it still misses; an edit of such a list replaces each interval by
sub-intervals of it. This module gives the two facts such an edit needs:

* `covers_flatMap_iff` — the numbers covered after the edit are those of the list that the
  edit keeps;
* `ordered_flatMap` — an edit that keeps each piece inside its interval and orders the pieces
  of one interval keeps the list ordered;

with the lookups of an ordered list by index (`Ordered.hi_lt_lo`, `Ordered.index_unique`)
and its last interval (`Ordered.getLast_hi`).
-/

namespace Interval

variable {ι : Type*} (lo hi : ι → ℕ)

/-- `p` lies in one of the intervals `[lo x, hi x)` of `l`. -/
def Covers (l : List ι) (p : ℕ) : Prop :=
  ∃ x ∈ l, lo x ≤ p ∧ p < hi x

/-- The intervals of `l` come in increasing order, each one ending strictly before the next
one starts. -/
def Ordered (l : List ι) : Prop :=
  l.Pairwise fun x y => hi x < lo y

variable {lo hi}

@[simp] theorem covers_nil (p : ℕ) : ¬Covers lo hi [] p := by
  simp [Covers]

@[simp] theorem covers_cons {x : ι} {l : List ι} {p : ℕ} :
    Covers lo hi (x :: l) p ↔ (lo x ≤ p ∧ p < hi x) ∨ Covers lo hi l p := by
  simp [Covers]

@[simp] theorem covers_append {l l' : List ι} {p : ℕ} :
    Covers lo hi (l ++ l') p ↔ Covers lo hi l p ∨ Covers lo hi l' p := by
  simp only [Covers, List.mem_append]
  constructor
  · rintro ⟨x, hx | hx, h⟩
    · exact .inl ⟨x, hx, h⟩
    · exact .inr ⟨x, hx, h⟩
  · rintro (⟨x, hx, h⟩ | ⟨x, hx, h⟩)
    · exact ⟨x, .inl hx, h⟩
    · exact ⟨x, .inr hx, h⟩

/-- Covering by a list is covering by one of its intervals, named by its index. -/
theorem covers_iff_getElem {l : List ι} {p : ℕ} :
    Covers lo hi l p ↔ ∃ i, ∃ h : i < l.length, lo l[i] ≤ p ∧ p < hi l[i] := by
  simp only [Covers, List.mem_iff_getElem]
  constructor
  · rintro ⟨x, ⟨i, hi, rfl⟩, h⟩
    exact ⟨i, hi, h⟩
  · rintro ⟨i, hi, h⟩
    exact ⟨l[i], ⟨i, hi, rfl⟩, h⟩

/-- **Covering after an edit of each interval.** If each interval is replaced by pieces that
cover exactly its numbers satisfying `Q`, the edited list covers exactly the numbers of the list
that satisfy `Q`. -/
theorem covers_flatMap_iff {f : ι → List ι} {l : List ι} {Q : ℕ → Prop}
    (hf : ∀ x ∈ l, ∀ p, Covers lo hi (f x) p ↔ (lo x ≤ p ∧ p < hi x) ∧ Q p) (p : ℕ) :
    Covers lo hi (l.flatMap f) p ↔ Covers lo hi l p ∧ Q p := by
  simp only [Covers, List.mem_flatMap]
  constructor
  · rintro ⟨y, ⟨x, hx, hy⟩, h⟩
    obtain ⟨hin, hq⟩ := (hf x hx p).mp ⟨y, hy, h⟩
    exact ⟨⟨x, hx, hin⟩, hq⟩
  · rintro ⟨⟨x, hx, hin⟩, hq⟩
    obtain ⟨y, hy, h⟩ := (hf x hx p).mpr ⟨hin, hq⟩
    exact ⟨y, ⟨x, hx, hy⟩, h⟩

/-- In an ordered list an earlier interval ends before a later one starts. -/
theorem Ordered.hi_lt_lo {l : List ι} (hl : Ordered lo hi l) {i j : ℕ} (hi' : i < l.length)
    (hj : j < l.length) (hij : i < j) : hi l[i] < lo l[j] :=
  List.pairwise_iff_getElem.mp hl i j hi' hj hij

/-- **Ordering after an edit of each interval.** If each interval is replaced by an ordered
list of pieces that lie inside it, the edited list is ordered. -/
theorem ordered_flatMap {f : ι → List ι} {l : List ι} (hl : Ordered lo hi l)
    (hf : ∀ x ∈ l, Ordered lo hi (f x) ∧ ∀ y ∈ f x, lo x ≤ lo y ∧ hi y ≤ hi x) :
    Ordered lo hi (l.flatMap f) := by
  unfold Ordered
  rw [List.pairwise_flatMap]
  refine ⟨fun x hx => (hf x hx).1, hl.imp_of_mem fun {x z} hx hz hxz => ?_⟩
  -- a piece of an earlier interval ends before a piece of a later one starts
  intro y hy w hw
  have hy' := ((hf x hx).2 y hy).2
  have hw' := ((hf z hz).2 w hw).1
  omega

/-- In an ordered list of non-empty intervals that all end at or below `M`, an interval that
ends at `M` is the last one. -/
theorem Ordered.getLast_hi {l : List ι} (hl : Ordered lo hi l) {M : ℕ}
    (hne : ∀ x ∈ l, lo x < hi x) (hle : ∀ x ∈ l, hi x ≤ M) {x : ι} (hx : x ∈ l)
    (hxM : hi x = M) : ∃ y, l.getLast? = some y ∧ hi y = M := by
  obtain ⟨y, hy⟩ : ∃ y, l.getLast? = some y :=
    Option.isSome_iff_exists.mp (List.getLast?_isSome.mpr (List.ne_nil_of_mem hx))
  refine ⟨y, hy, ?_⟩
  obtain ⟨l', rfl⟩ := List.getLast?_eq_some_iff.mp hy
  rcases List.mem_append.mp hx with hx' | hx'
  · -- an interval before the last one ends before the last one starts
    have hxy : hi x < lo y := (List.pairwise_append.mp hl).2.2 x hx' y (by simp)
    have := hne y (by simp)
    have := hle y (by simp)
    omega
  · rw [List.mem_singleton.mp hx'] at hxM
    exact hxM

/-- In an ordered list of non-empty intervals, the interval covering a number is unique. -/
theorem Ordered.index_unique {l : List ι} (hl : Ordered lo hi l) {p : ℕ} {i j : ℕ}
    (hi' : i < l.length) (hj : j < l.length)
    (hpi : lo l[i] ≤ p ∧ p < hi l[i]) (hpj : lo l[j] ≤ p ∧ p < hi l[j]) : i = j := by
  rcases Nat.lt_trichotomy i j with h | h | h
  · have := hl.hi_lt_lo hi' hj h
    omega
  · exact h
  · have := hl.hi_lt_lo hj hi' h
    omega

end Interval
