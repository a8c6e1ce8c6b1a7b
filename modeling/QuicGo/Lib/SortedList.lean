import Mathlib.Data.List.Sort
import Mathlib.Algebra.BigOperators.Group.List.Basic

/-!
# Sorted lists: insertion after equal elements, the last element, and weights

A sorted list here is `l.Pairwise (· ≤ ·)` over a linear order. Inserting `a` before the first
element above it, `l.orderedInsert (· < ·) a`, places it after the elements equal to it; that
keeps the list sorted, and leaves its last element alone when `a` is below it. A sum of
weights over such a list changes by the weight of `a` on insertion, and by that of the last
element when the list is cut back to its length.

Inserting at the index of the first element `a` goes before (`insertIdx_findIdx?_getD`) is
`orderedInsert`; inserting by a key is inserting the key (`map_orderedInsert_key`); and on a list
sorted by a key, the elements up to a bound are a prefix (`Pairwise.takeWhile_key_le`).
-/

namespace List

section Insert

variable {α : Type*} {l : List α}

theorem orderedInsert_ne_nil (r : α → α → Prop) [DecidableRel r] (a : α) :
    l.orderedInsert r a ≠ [] :=
  ne_nil_of_mem ((mem_orderedInsert r).2 (Or.inl rfl))

variable {β : Type*} [AddCommMonoid β]

/-- Inserting `a` adds its weight. -/
theorem sum_map_orderedInsert (r : α → α → Prop) [DecidableRel r] (f : α → β) (a : α) :
    ((l.orderedInsert r a).map f).sum = f a + (l.map f).sum := by
  rw [((perm_orderedInsert r a l).map f).sum_eq, map_cons, sum_cons]

/-- Cutting a list back by one takes off the weight of its last element. -/
theorem sum_map_dropLast_add (f : α → β) (hl : l ≠ []) :
    (l.dropLast.map f).sum + f (l.getLast hl) = (l.map f).sum := by
  conv_rhs => rw [← dropLast_append_getLast hl]
  rw [map_append, sum_append, map_singleton, sum_singleton]

/-- Inserting `a` at the index of the first element it goes before is `orderedInsert`. -/
theorem insertIdx_findIdx?_getD (r : α → α → Prop) [DecidableRel r] (a : α) (l : List α) :
    l.insertIdx ((l.findIdx? fun b => decide (r a b)).getD l.length) a = l.orderedInsert r a := by
  induction l with
  | nil => rfl
  | cons b l ih =>
    by_cases h : r a b
    · simp [List.findIdx?_cons, h]
    · -- the index is one past the index in the tail
      have hidx : ((b :: l).findIdx? fun b => decide (r a b)).getD (b :: l).length =
          (l.findIdx? fun b => decide (r a b)).getD l.length + 1 := by
        rw [List.findIdx?_cons, if_neg (by simpa using h)]
        cases l.findIdx? fun b => decide (r a b) <;> simp
      rw [hidx, List.insertIdx_succ_cons, ih, orderedInsert_of_not_le _ _ h]

end Insert

section Sorted

variable {α : Type*} [LinearOrder α] {l : List α}

/-- Inserting before the first element above `a` keeps a list sorted. -/
theorem Pairwise.orderedInsert_lt (a : α) (h : l.Pairwise (· ≤ ·)) :
    (l.orderedInsert (· < ·) a).Pairwise (· ≤ ·) := by
  induction l with
  | nil => simp
  | cons b l ih =>
    rw [pairwise_cons] at h
    by_cases hab : a < b
    · rw [orderedInsert_cons_of_le _ _ hab]
      refine pairwise_cons.2 ⟨fun c hc => ?_, pairwise_cons.2 h⟩
      -- `a` is below `b`, and `b` below the rest
      rcases mem_cons.1 hc with rfl | hc
      · exact le_of_lt hab
      · exact le_trans (le_of_lt hab) (h.1 c hc)
    · rw [orderedInsert_of_not_le _ _ hab]
      refine pairwise_cons.2 ⟨fun c hc => ?_, ih h.2⟩
      rcases (mem_orderedInsert _).1 hc with rfl | hc
      · exact not_lt.1 hab
      · exact h.1 c hc

/-- Inserting an element below the last one leaves the last one. -/
theorem getLast_orderedInsert_lt {a : α} (hl : l ≠ []) (ha : a < l.getLast hl) :
    (l.orderedInsert (· < ·) a).getLast (orderedInsert_ne_nil _ a) = l.getLast hl := by
  induction l with
  | nil => exact absurd rfl hl
  | cons b l ih =>
    by_cases hab : a < b
    · simp only [orderedInsert_cons_of_le _ _ hab, getLast_cons_cons]
    · rw [getLast_congr _ (cons_ne_nil _ _) (orderedInsert_of_not_le _ _ hab)]
      cases l with
      | nil => exact absurd ha (by simpa using hab)
      | cons c l =>
        -- the last element is that of the tail, into which `a` goes
        rw [getLast_cons (orderedInsert_ne_nil _ a), getLast_cons_cons]
        exact ih (cons_ne_nil _ _) (by rwa [getLast_cons_cons] at ha)

/-- What is left of a sorted list after the elements up to `s` is above `s`. -/
theorem Pairwise.lt_of_mem_dropWhile {s : α} (h : l.Pairwise (· ≤ ·)) {v : α}
    (hv : v ∈ l.dropWhile fun x => Decidable.decide (x ≤ s)) : s < v := by
  induction l with
  | nil => simp at hv
  | cons b l ih =>
    rw [pairwise_cons] at h
    by_cases hb : b ≤ s
    · rw [dropWhile_cons_of_pos (by simpa using hb)] at hv
      exact ih h.2 hv
    · rw [dropWhile_cons_of_neg (by simpa using hb)] at hv
      -- nothing was dropped: `b` is above `s`, and the rest above `b`
      rcases mem_cons.1 hv with rfl | hv
      · exact lt_of_not_ge hb
      · exact lt_of_lt_of_le (lt_of_not_ge hb) (h.1 v hv)

variable {β : Type*}

/-- Inserting by a key is inserting the key. -/
theorem map_orderedInsert_key (f : β → α) (x : β) (l : List β) :
    (l.orderedInsert (fun a b => f a < f b) x).map f = (l.map f).orderedInsert (· < ·) (f x) := by
  induction l with
  | nil => rfl
  | cons b l ih =>
    by_cases h : f x < f b
    · simp [h]
    · simp [h, ih]

/-- On a list sorted by a key, the elements up to a key `s` form a prefix. -/
theorem Pairwise.takeWhile_key_le {f : β → α} {l : List β} {s : α}
    (h : (l.map f).Pairwise (· ≤ ·)) :
    l.takeWhile (fun c => Decidable.decide (f c ≤ s)) =
        l.filter (fun c => Decidable.decide (f c ≤ s)) ∧
      l.dropWhile (fun c => Decidable.decide (f c ≤ s)) =
        l.filter (fun c => Decidable.decide (s < f c)) := by
  induction l with
  | nil => simp
  | cons b l ih =>
    rw [map_cons, pairwise_cons] at h
    obtain ⟨ih₁, ih₂⟩ := ih h.2
    by_cases hb : f b ≤ s
    · simp [hb, ih₁, ih₂]
    · -- nothing after `b` is at or below `s`: the rest are above `b`
      have hrest : ∀ c ∈ l, s < f c := fun c hc =>
        lt_of_lt_of_le (lt_of_not_ge hb) (h.1 (f c) (mem_map_of_mem hc))
      have hnone : l.filter (fun c => Decidable.decide (f c ≤ s)) = [] :=
        filter_eq_nil_iff.mpr fun c hc => by simpa using hrest c hc
      have hall : l.filter (fun c => Decidable.decide (s < f c)) = l :=
        filter_eq_self.mpr fun c hc => by simpa using hrest c hc
      simp [hb, hnone, hall, lt_of_not_ge hb]

end Sorted

end List
