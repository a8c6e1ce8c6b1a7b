import QuicGo.FrameSorter.Loops

/-!
# QuicGo — the effect of storing a frame

Whatever branch `push` takes, a `push` that stores a frame has one effect, stated over the
offsets `[st, en)` of the frame it finally stores (`Stores`):

* the queued frames that start in `[st, en)` are deleted, and no others;
* every gap loses the offsets `[st, en)` and nothing else: the gap list becomes
  `s.gaps.flatMap (ByteInterval.cutOut st en)`;
* no queued frame crosses `st` or `en`.

`Inv.insert` proves from these facts alone that inserting the frame keeps the representation
invariant. The module `Push` proves that every branch of `push` has this effect; the bridge
between the code's edit of the gap list, index by index, and `cutOut` is
`editGaps_eq_flatMap` with `Inv.gapEdit_eq_cutOut`.
-/

namespace QuicGo

/-- The gap `g` without the offsets `[lo, hi)`: the part of it before `lo` and the part from
`hi` on. -/
def ByteInterval.cutOut (lo hi : ℕ) (g : ByteInterval) : List ByteInterval :=
  (if g.Start < lo then [⟨g.Start, min g.End lo⟩] else []) ++
    (if hi < g.End then [⟨max g.Start hi, g.End⟩] else [])

namespace ByteInterval

variable {lo hi : ℕ} {g : ByteInterval}

theorem covers_cutOut (hlh : lo ≤ hi) (p : ℕ) :
    Interval.Covers Start End (g.cutOut lo hi) p ↔
      (g.Start ≤ p ∧ p < g.End) ∧ ¬(lo ≤ p ∧ p < hi) := by
  unfold cutOut
  by_cases h₁ : g.Start < lo <;> by_cases h₂ : hi < g.End <;> simp [h₁, h₂] <;> omega

theorem ordered_cutOut (hlh : lo < hi) : Interval.Ordered Start End (g.cutOut lo hi) := by
  unfold cutOut Interval.Ordered
  by_cases h₁ : g.Start < lo <;> by_cases h₂ : hi < g.End <;> simp [h₁, h₂]
  -- both pieces remain: the first ends by `lo`, before the second starts at `hi` or later
  omega

theorem le_of_mem_cutOut {x : ByteInterval} (hx : x ∈ g.cutOut lo hi) :
    g.Start ≤ x.Start ∧ x.End ≤ g.End := by
  unfold cutOut at hx
  by_cases h₁ : g.Start < lo <;> by_cases h₂ : hi < g.End <;> simp [h₁, h₂] at hx <;>
    rcases hx with rfl | rfl <;> simp <;> omega

theorem start_lt_end_of_mem_cutOut (hg : g.Start < g.End) {x : ByteInterval}
    (hx : x ∈ g.cutOut lo hi) : x.Start < x.End := by
  unfold cutOut at hx
  by_cases h₁ : g.Start < lo <;> by_cases h₂ : hi < g.End <;> simp [h₁, h₂] at hx <;>
    rcases hx with rfl | rfl <;> simp <;> omega

/-- A gap that ends at or before `lo` is kept. -/
theorem cutOut_of_end_le (hg : g.Start < g.End) (hlh : lo ≤ hi) (h : g.End ≤ lo) :
    g.cutOut lo hi = [g] := by
  simp [cutOut, show g.Start < lo by omega, show ¬hi < g.End by omega, Nat.min_eq_left h]

/-- A gap that starts at or after `hi` is kept. -/
theorem cutOut_of_le_start (hg : g.Start < g.End) (hlh : lo ≤ hi) (h : hi ≤ g.Start) :
    g.cutOut lo hi = [g] := by
  simp [cutOut, show ¬g.Start < lo by omega, show hi < g.End by omega, Nat.max_eq_left h]

/-- A gap inside `[lo, hi)` is removed. -/
theorem cutOut_of_inside (h₁ : lo ≤ g.Start) (h₂ : g.End ≤ hi) : g.cutOut lo hi = [] := by
  simp [cutOut, show ¬g.Start < lo by omega, show ¬hi < g.End by omega]

/-- A gap that starts inside `[lo, hi)` keeps its part from `hi` on. -/
theorem cutOut_of_le_start_le (h₁ : lo ≤ g.Start) (h₂ : g.Start ≤ hi) :
    g.cutOut lo hi = if hi < g.End then [⟨hi, g.End⟩] else [] := by
  simp [cutOut, show ¬g.Start < lo by omega, Nat.max_eq_right h₂]

/-- A gap that `lo` lies strictly inside keeps its part before `lo`, and its part from `hi`
on. -/
theorem cutOut_of_lt_start (h₁ : g.Start < lo) (h₂ : lo ≤ g.End) :
    g.cutOut lo hi = ⟨g.Start, lo⟩ :: (if hi < g.End then [⟨max g.Start hi, g.End⟩] else []) := by
  simp [cutOut, h₁, Nat.min_eq_right h₂]

/-- Cutting out up to any point at or after the end of a gap is the same. -/
theorem cutOut_of_end_le_hi (hi' : ℕ) (h : g.End ≤ hi) (h' : g.End ≤ hi') :
    g.cutOut lo hi = g.cutOut lo hi' := by
  simp [cutOut, show ¬hi < g.End by omega, show ¬hi' < g.End by omega]

end ByteInterval

namespace FrameSorter

variable {Cb : Type}

/-- The offsets in the gaps after `[st, en)` is cut out of each of them. -/
theorem inGap_flatMap_cutOut {gaps : List ByteInterval} {st en : ℕ} (hle : st ≤ en) (p : ℕ) :
    InGap (gaps.flatMap (ByteInterval.cutOut st en)) p ↔
      InGap gaps p ∧ ¬(st ≤ p ∧ p < en) :=
  Interval.covers_flatMap_iff (fun _ _ p => ByteInterval.covers_cutOut hle p) p

/-- The code's edit of the gap list is `cutOut` when it is at every index. -/
theorem editGaps_eq_flatMap {gaps : List ByteInterval} {a b sw : ℕ}
    {sE ins eE : List ByteInterval} {lo hi : ℕ}
    (h : ∀ i (h' : i < gaps.length), gapEdit a sE ins sw b eE i gaps[i] = gaps[i].cutOut lo hi) :
    editGaps gaps a sE ins sw b eE = gaps.flatMap (ByteInterval.cutOut lo hi) := by
  unfold editGaps
  rw [List.flatMap_def]
  congr 1
  apply List.ext_getElem (by simp)
  intro i h₁ h₂
  simp only [List.getElem_mapIdx, List.getElem_map]
  exact h i (by simpa using h₁)

/-! ## The effect of a stored frame -/

/-- A `push` that stores the frame `[st, en)` leaves the queue `q₁` (before the frame is
inserted) and the gap list `gaps`. -/
structure Stores (s : FrameSorter Cb) (q₁ : FrameQueue Cb) (gaps : List ByteInterval)
    (st en : ℕ) : Prop where
  lt : st < en
  lt_max : en < MaxByteCount
  readPos_le : s.readPos ≤ st
  queue_eq : ∀ k, q₁.lookup k = if st ≤ k ∧ k < en then none else s.queue.lookup k
  before : ∀ k e, s.queue.lookup k = some e → k < st → k + e.Data.length ≤ st
  inside : ∀ k e, s.queue.lookup k = some e → st ≤ k → k < en → k + e.Data.length ≤ en
  gaps_eq : gaps = s.gaps.flatMap (ByteInterval.cutOut st en)

section Inv

variable {s : FrameSorter Cb} (hs : Inv s)
include hs

/-- A gap of the list after the edit lies inside a gap of the list before it. -/
theorem Inv.mem_flatMap_cutOut {st en : ℕ} {g : ByteInterval}
    (hg : g ∈ s.gaps.flatMap (ByteInterval.cutOut st en)) :
    g.Start < g.End ∧ s.readPos ≤ g.Start ∧ g.End ≤ MaxByteCount := by
  obtain ⟨x, hx, hgx⟩ := List.mem_flatMap.mp hg
  obtain ⟨i, hi, rfl⟩ := List.mem_iff_getElem.mp hx
  have hin := ByteInterval.le_of_mem_cutOut hgx
  have := hs.readPos_le_gap hi
  have := hs.gap_end_le_max hi
  exact ⟨ByteInterval.start_lt_end_of_mem_cutOut (hs.nonempty_of_lt hi) hgx, by omega, by omega⟩

/-- The code's gap edit is `cutOut` at every index when it edits the gap `a` where the frame
starts and the gap `b` where it ends, swallows the gaps between them and leaves the others. -/
theorem Inv.gapEdit_eq_cutOut {a b sw : ℕ} {sE ins eE : List ByteInterval} {lo hi : ℕ}
    (hlh : lo ≤ hi) (ha : a < s.gaps.length) (hb : b < s.gaps.length)
    (hsw : (a = b ∧ sw = 0) ∨ (a < b ∧ a + sw + 1 = b))
    (hA : sE ++ ins = s.gaps[a].cutOut lo hi)
    (hB : a ≠ b → eE = s.gaps[b].cutOut lo hi)
    (hlo : ∀ i (h' : i < s.gaps.length), i < a → s.gaps[i].End ≤ lo)
    (hhi : ∀ i (h' : i < s.gaps.length), b < i → hi ≤ s.gaps[i].Start)
    (hmid : a < b → lo ≤ s.gaps[a].End ∧ s.gaps[b].Start ≤ hi) :
    ∀ i (h : i < s.gaps.length),
      gapEdit a sE ins sw b eE i s.gaps[i] = s.gaps[i].cutOut lo hi := by
  intro i h
  have hne := hs.nonempty_of_lt h
  unfold gapEdit
  split
  · subst i
    exact hA
  · split
    · -- a gap the middle loop swallowed lies inside the frame
      have hab : a < b := by omega
      have h₁ := hs.gaps_ordered.hi_lt_lo ha h (show a < i by omega)
      have h₂ := hs.gaps_ordered.hi_lt_lo h hb (show i < b by omega)
      have := hmid hab
      exact (ByteInterval.cutOut_of_inside (by omega) (by omega)).symm
    · split
      · subst i
        exact hB (by omega)
      · rcases Nat.lt_or_ge i a with h₁ | h₁
        · exact (ByteInterval.cutOut_of_end_le hne hlh (hlo i h h₁)).symm
        · exact (ByteInterval.cutOut_of_le_start hne hlh (hhi i h (by omega))).symm

/-- **Storing a frame keeps the invariant.** -/
theorem Inv.insert {q₁ : FrameQueue Cb} {gaps : List ByteInterval} {st en : ℕ}
    (h : Stores s q₁ gaps st en) (data : List UInt8) (hlen : data.length = en - st)
    (cb : Option Cb) : Inv { s with queue := q₁.insert st ⟨data, cb⟩, gaps := gaps } := by
  have hlt := h.lt
  have hgap : ∀ p, InGap gaps p ↔ InGap s.gaps p ∧ ¬(st ≤ p ∧ p < en) := by
    rw [h.gaps_eq]
    exact inGap_flatMap_cutOut (Nat.le_of_lt hlt)
  have hmem : ∀ g ∈ gaps, g.Start < g.End ∧ s.readPos ≤ g.Start ∧ g.End ≤ MaxByteCount := by
    rw [h.gaps_eq]
    exact fun g hg => hs.mem_flatMap_cutOut hg
  -- the last offset below `MaxByteCount` stays in a gap, and the gap holding it is the last
  have hlast : ∃ g ∈ gaps, g.End = MaxByteCount := by
    have hn : s.gaps.length - 1 < s.gaps.length := by
      have := List.length_pos_of_ne_nil hs.gaps_ne_nil
      omega
    have hE := hs.last_end hn (by omega)
    have hS := hs.nonempty_of_lt hn
    have hin : InGap gaps (MaxByteCount - 1) :=
      (hgap _).mpr ⟨⟨_, List.getElem_mem hn, by omega, by omega⟩, by have := h.lt_max; omega⟩
    obtain ⟨g, hg, hlo, hhi⟩ := hin
    exact ⟨g, hg, by have := (hmem g hg).2.2; omega⟩
  have hordered : Interval.Ordered ByteInterval.Start ByteInterval.End gaps := by
    rw [h.gaps_eq]
    exact Interval.ordered_flatMap hs.gaps_ordered fun x _ =>
      ⟨ByteInterval.ordered_cutOut hlt, fun y hy => ByteInterval.le_of_mem_cutOut hy⟩
  -- a frame of the queue before the insert is a frame of the sorter outside `[st, en)`
  have hq₁ : ∀ k e, q₁.lookup k = some e →
      s.queue.lookup k = some e ∧ ¬(st ≤ k ∧ k < en) := by
    intro k e hk
    rw [h.queue_eq] at hk
    split at hk
    · cases hk
    · exact ⟨hk, ‹_›⟩
  have hins : ∀ k e, (q₁.insert st ⟨data, cb⟩).lookup k = some e →
      (k = st ∧ e = ⟨data, cb⟩) ∨ (s.queue.lookup k = some e ∧ ¬(st ≤ k ∧ k < en)) := by
    intro k e hk
    rw [lookup_insert_eq] at hk
    split at hk
    · exact .inl ⟨‹_›, (Option.some.inj hk).symm⟩
    · exact .inr (hq₁ k e hk)
  refine ⟨?_, hordered, fun g hg => (hmem g hg).1, ?_, ?_, ⟨?_, ?_⟩, ?_, ?_, ?_, ?_⟩
  · obtain ⟨g, hg, -⟩ := hlast
    exact List.ne_nil_of_mem hg
  · obtain ⟨g, hg, hgM⟩ := hlast
    obtain ⟨y, hy, hyM⟩ := hordered.getLast_hi (fun g hg => (hmem g hg).1)
      (fun g hg => (hmem g hg).2.2) hg hgM
    intro g' hg'
    rw [hy, Option.mem_def, Option.some.injEq] at hg'
    rw [← hg']
    exact hyM
  · intro g hg
    exact (hmem g (List.mem_of_mem_head? hg)).2.1
  · intro k e hk
    rcases hins k e hk with ⟨-, rfl⟩ | ⟨hk, -⟩
    · show 0 < data.length
      omega
    · exact hs.queue_disjoint.nonempty k e hk
  · intro k e k' e' hk hk' hkk
    rcases hins k e hk with ⟨rfl, rfl⟩ | ⟨hk₁, hkn⟩ <;>
      rcases hins k' e' hk' with ⟨rfl, rfl⟩ | ⟨hk₂, hkn'⟩
    · omega
    · show k + data.length ≤ k'
      omega
    · exact h.before k e hk₁ (by omega)
    · exact hs.queue_disjoint.disjoint k e k' e' hk₁ hk₂ hkk
  · intro k e hk
    rcases hins k e hk with ⟨rfl, -⟩ | ⟨hk, -⟩
    · exact h.readPos_le
    · exact hs.readPos_le_entry k e hk
  · intro k e hk
    rcases hins k e hk with ⟨rfl, rfl⟩ | ⟨hk, -⟩
    · show k + data.length ≤ MaxByteCount
      have := h.lt_max
      omega
    · exact hs.entry_le_max k e hk
  · intro k e p hk hkp hpk
    rw [hgap]
    rcases hins k e hk with ⟨rfl, rfl⟩ | ⟨hk, -⟩
    · have : p < en := by
        change p < k + data.length at hpk
        omega
      exact fun hp => hp.2 ⟨hkp, this⟩
    · exact fun hp => hs.entry_not_gap k e p hk hkp hpk hp.1
  · intro p hp hpmax
    by_cases hin : st ≤ p ∧ p < en
    · -- the stored frame holds `p`
      refine .inr ⟨st, ⟨data, cb⟩, by rw [lookup_insert_eq, if_pos rfl], hin.1, ?_⟩
      show p < st + data.length
      omega
    · rcases hs.cover p hp hpmax with hg | ⟨k, e, hk, hkp, hpk⟩
      · exact .inl ((hgap p).mpr ⟨hg, hin⟩)
      · -- a frame holding `p` does not start in `[st, en)`, so it is still queued
        have hk' : ¬(st ≤ k ∧ k < en) := by
          rintro ⟨h₁, h₂⟩
          have := h.inside k e hk h₁ h₂
          omega
        refine .inr ⟨k, e, ?_, hkp, hpk⟩
        rw [lookup_insert_eq, if_neg (by omega), h.queue_eq, if_neg hk']
        exact hk

end Inv

end FrameSorter

end QuicGo
