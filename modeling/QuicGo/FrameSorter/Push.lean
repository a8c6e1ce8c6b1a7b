import QuicGo.FrameSorter.Store

/-!
# QuicGo — `push` stores what it receives

`push_spec`: on a sorter that satisfies the invariant, a call of `push` that does not panic
either finds the frame a duplicate, and then no offset of the frame is in a gap, or stores a
slice `[st, en)` of the frame that holds every offset of the frame that was in a gap, with the
effect `Stores` of `Store`.

The proof follows the code in three phases, after `locate` has found the gaps `a` and `b`
where the frame starts and ends (`Located`):

* the front (`front_spec`): the replace loop and the cut at the start of the frame. There are
  three shapes: the frame starts in a gap or before it (`FrontCut.pre`), or right where the gap
  `a` ends, where the replace loop walks the queued frames up to the next gap (`.post`) or cuts
  the frame before it (`.postCut`);
* the middle (`middle_spec`): when `a < b`, `deleteConsecutive` erases the queued frames
  between the gaps;
* the back (`back_spec_eq`, `back_spec_lt`): the cut at the end of the frame and the edit of
  the gap `b`.

Each phase states what it leaves as facts about the offsets, so that the phases meet in the
same terms: regions of the queue that are erased (`if st ≤ k ∧ k < X then none else ...`) and
gaps that are cut (`ByteInterval.cutOut`).
-/

namespace QuicGo

namespace FrameSorter

variable {Cb : Type}

/-! ## Where `locate` places a frame -/

/-- `locate` placed the frame `[start, end_)` between the gap `a`, where it starts in or before
(`startsInGap`), and the gap `b`, where it ends in or after (`endsInGap`). -/
structure Located (gaps : List ByteInterval) (start end_ a : ℕ) (startsInGap : Bool) (b : ℕ)
    (endsInGap : Bool) : Prop where
  a_le_b : a ≤ b
  b_lt : b < gaps.length
  startsInGap_eq : startsInGap = decide (gaps[a].Start ≤ start)
  start_le : start ≤ gaps[a].End
  before : ∀ i (h : i < gaps.length), i < a → gaps[i].End < start
  start_lt_end : gaps[a].Start < end_
  inGap : endsInGap = true → gaps[b].Start ≤ end_ ∧ end_ < gaps[b].End
  afterGap : endsInGap = false →
    gaps[b].End ≤ end_ ∧ ∃ h : b + 1 < gaps.length, end_ < gaps[b + 1].Start

section Inv

variable {s : FrameSorter Cb} (hs : Inv s)
include hs

/-- `findStartGap` returns the first gap that does not end before `start`. -/
theorem Inv.findStartGap_eq {start : ℕ} (hmax : start < MaxByteCount) :
    ∃ a, ∃ ha : a < s.gaps.length,
      findStartGap s.gaps start = some (a, decide (s.gaps[a].Start ≤ start)) ∧
      start ≤ s.gaps[a].End ∧ ∀ j (hj : j < s.gaps.length), j < a → s.gaps[j].End < start := by
  have hn : s.gaps.length - 1 < s.gaps.length := by
    have := List.length_pos_of_ne_nil hs.gaps_ne_nil
    omega
  exact findStartGap_spec (fun g hg => Nat.le_of_lt (hs.gap_nonempty g hg))
    ⟨_, List.getElem_mem hn, by rw [hs.last_end hn (by omega)]; omega⟩

/-- When `locate` finds the frame a duplicate, no offset of the frame is in a gap. -/
theorem Inv.locate_duplicate {start end_ : ℕ} (hmax : end_ ≤ MaxByteCount)
    (h : locate s.gaps start end_ = some .duplicate) :
    ∀ p, start ≤ p → p < end_ → ¬InGap s.gaps p := by
  have h0 : 0 < s.gaps.length := List.length_pos_of_ne_nil hs.gaps_ne_nil
  unfold locate at h
  simp only [bind, pure] at h
  obtain ⟨front, hfront, h⟩ := Option.bind_eq_some_iff.mp h
  rw [List.head?_eq_getElem?, List.getElem?_eq_getElem h0, Option.some.injEq] at hfront
  subst hfront
  intro p hp hpe
  split at h
  · -- the frame ends before the first gap starts
    refine not_inGap_of_forall fun j hj => .inl ?_
    have := hs.start_le_start hj (Nat.zero_le j)
    omega
  · obtain ⟨a, ha, hfind, -, hbefore⟩ := hs.findStartGap_eq (show start < MaxByteCount by omega)
    rw [hfind, Option.bind_some] at h
    obtain ⟨⟨r, eig⟩, -, h⟩ := Option.bind_eq_some_iff.mp h
    rw [List.getElem?_eq_getElem ha, Option.bind_some] at h
    obtain ⟨b, -, h⟩ := Option.bind_eq_some_iff.mp h
    obtain ⟨eg, -, h⟩ := Option.bind_eq_some_iff.mp h
    split at h
    · -- in both duplicate conditions the frame ends before the gap `a` starts
      rename_i hdup
      have hend : end_ ≤ s.gaps[a].Start := by
        rcases hdup with ⟨-, h'⟩ | ⟨-, -, h'⟩ <;> exact h'
      refine not_inGap_of_forall fun j hj => ?_
      rcases Nat.lt_or_ge j a with hja | hja
      · have := hbefore j hj hja
        exact .inr (by omega)
      · have := hs.start_le_start hj hja
        exact .inl (by omega)
    · cases h

/-- When `locate` finds where the frame goes, it is between the gaps `a` and `b` with `a ≤ b`. -/
theorem Inv.locate_found {start end_ : ℕ} (hlt : start < end_) (hmax : end_ ≤ MaxByteCount)
    {a b : ℕ} {sig eig : Bool} {sg eg : ByteInterval}
    (h : locate s.gaps start end_ = some (.found a sig b eig sg eg)) :
    ∃ ha : a < s.gaps.length, ∃ hb : b < s.gaps.length,
      sg = s.gaps[a] ∧ eg = s.gaps[b] ∧ Located s.gaps start end_ a sig b eig := by
  have h0 : 0 < s.gaps.length := List.length_pos_of_ne_nil hs.gaps_ne_nil
  unfold locate at h
  simp only [bind, pure] at h
  obtain ⟨front, hfront, h⟩ := Option.bind_eq_some_iff.mp h
  rw [List.head?_eq_getElem?, List.getElem?_eq_getElem h0, Option.some.injEq] at hfront
  subst hfront
  split at h
  · cases h
  rename_i hfront
  obtain ⟨a', ha, hfind, hstart, hbefore⟩ := hs.findStartGap_eq (show start < MaxByteCount by omega)
  rw [hfind, Option.bind_some] at h
  obtain ⟨⟨r, eig'⟩, hend, h⟩ := Option.bind_eq_some_iff.mp h
  simp only [findEndGap] at hend
  rw [List.getElem?_eq_getElem ha, Option.bind_some] at h
  obtain ⟨b', rfl, h⟩ := Option.bind_eq_some_iff.mp h
  obtain ⟨eg', heg, h⟩ := Option.bind_eq_some_iff.mp h
  have hb : b' < s.gaps.length := by
    by_contra hb
    rw [List.getElem?_eq_none (by omega)] at heg
    cases heg
  rw [List.getElem?_eq_getElem hb, Option.some.injEq] at heg
  subst heg
  split at h
  · cases h
  rename_i hndup
  simp only [Option.some.injEq, Location.found.injEq] at h
  obtain ⟨h₁, h₂, h₃, h₄, h₅, h₆⟩ := h
  subst a' b' sig eig' sg eg
  refine ⟨ha, hb, rfl, rfl, ?_⟩
  -- the loop of `findEndGap` stopped at the gap `c = a + j`, after gaps that end before `end_`
  obtain ⟨j, hj, hjbefore, hstop⟩ := findEndGapFrom_some hend
  simp only [List.length_drop] at hj
  simp only [List.getElem_drop] at hjbefore hstop
  have hc : a + j < s.gaps.length := by omega
  have hprior : ∀ i (hi : i < s.gaps.length), a ≤ i → i < a + j → s.gaps[i].End ≤ end_ := by
    intro i hi h₁ h₂
    have := hjbefore (i - a) (by omega) (by omega)
    simpa [show a + (i - a) = i by omega] using this.2
  have hSa := hs.nonempty_of_lt ha
  rcases hstop with ⟨rfl, hr, hS, hE⟩ | ⟨rfl, hr, hlt'⟩
  · -- `end_` is in the gap `c`, which is `b`
    simp only [Option.some.injEq] at hr
    subst hr
    have hab : a ≤ a + j := by omega
    refine ⟨hab, hb, rfl, hstart, hbefore, ?_, fun _ => ⟨hS, hE⟩, fun h => by cases h⟩
    rcases Nat.eq_zero_or_pos j with hj0 | hjpos
    · -- with `a = b`, the frame not being a duplicate means it ends after the gap starts
      by_contra hle
      exact hndup (.inl ⟨by omega, by omega⟩)
    · have := hs.gaps_ordered.hi_lt_lo ha hb (show a < a + j by omega)
      omega
  · -- `end_` is before the gap `c`, and `b` is the gap before it
    obtain ⟨c', hc'⟩ : ∃ c', a + j = c' + 1 := by
      rcases hcj : a + j with _ | c'
      · rw [hcj] at hr
        cases hr
      · exact ⟨c', rfl⟩
    rw [hc'] at hr
    simp only [Option.some.injEq] at hr
    subst hr
    have hjpos : 0 < j := by
      by_contra hj0
      -- stopping before the gap `a` itself makes the frame a duplicate
      have hab : b + 1 = a := by omega
      have h₁ := hs.gaps_ordered.hi_lt_lo hb ha (show b < a by omega)
      have h₂ := hs.nonempty_of_lt hb
      have hlt'' : end_ < s.gaps[a].Start := by simpa [show a + j = a by omega] using hlt'
      exact hndup (.inr ⟨by omega, by omega, by omega⟩)
    have hEb := hprior b hb (by omega) (by omega)
    refine ⟨by omega, hb, rfl, hstart, hbefore, ?_, (fun h => by cases h), fun _ => ⟨hEb, ?_⟩⟩
    · have := hs.end_le_end hb (show a ≤ b by omega)
      omega
    · exact ⟨by omega, by simpa [show a + j = b + 1 by omega] using hlt'⟩

/-- `locate` does not panic on a frame that ends before `MaxByteCount`: the last gap ends
after the frame, so the loop of `findEndGap` stops. -/
theorem Inv.locate_isSome {start end_ : ℕ} (hlt : start < end_) (hmax : end_ < MaxByteCount) :
    (locate s.gaps start end_).isSome := by
  have h0 : 0 < s.gaps.length := List.length_pos_of_ne_nil hs.gaps_ne_nil
  unfold locate
  simp only [bind, pure]
  rw [List.head?_eq_getElem?, List.getElem?_eq_getElem h0, Option.bind_some]
  split
  · rfl
  rename_i hfront
  obtain ⟨a, ha, hfind, -, -⟩ := hs.findStartGap_eq (show start < MaxByteCount by omega)
  rw [hfind, Option.bind_some]
  cases hend : findEndGap s.gaps a end_ with
  | none =>
    -- the loop cannot run past the last gap, which ends at `MaxByteCount`
    simp only [findEndGap] at hend
    have hn : s.gaps.length - 1 < s.gaps.length := by omega
    have hlast := hs.last_end hn (by omega)
    have := (findEndGapFrom_none hend (s.gaps.length - 1 - a) (by simp; omega)).2
    simp only [List.getElem_drop, show a + (s.gaps.length - 1 - a) = s.gaps.length - 1 by omega,
      hlast] at this
    omega
  | some rb =>
    obtain ⟨r, eig⟩ := rb
    simp only [findEndGap] at hend
    obtain ⟨j, hj, -, hstop⟩ := findEndGapFrom_some hend
    simp only [List.length_drop] at hj
    -- the loop stops at the gap `a + j` or before it, and before the front only for a duplicate
    obtain ⟨b, rfl, hb⟩ : ∃ b, r = some b ∧ b < s.gaps.length := by
      rcases hstop with ⟨-, hr, -⟩ | ⟨-, hr, hlt'⟩
      · exact ⟨a + j, hr, by omega⟩
      · rcases hc : a + j with _ | c
        · simp only [List.getElem_drop, hc] at hlt'
          exact absurd (Nat.le_of_lt hlt') hfront
        · rw [hc] at hr
          exact ⟨c, hr, by omega⟩
    simp only [Option.bind_some, List.getElem?_eq_getElem ha, List.getElem?_eq_getElem hb]
    split <;> rfl

end Inv

/-! ## The frame as it is cut -/

/-- `fr` holds the bytes `[fr.start, fr.end_)` of the frame `data` received at `offset`. -/
structure NewFrame.IsSlice (data : List UInt8) (offset : ℕ) (fr : NewFrame) : Prop where
  le_start : offset ≤ fr.start
  start_le_end : fr.start ≤ fr.end_
  end_le : fr.end_ ≤ offset + data.length
  data_eq : fr.data = (data.drop (fr.start - offset)).take (fr.end_ - fr.start)

namespace NewFrame.IsSlice

variable {data : List UInt8} {offset : ℕ} {fr : NewFrame}

theorem init (data : List UInt8) (offset : ℕ) (wasCut : Bool) :
    IsSlice data offset ⟨data, offset, offset + data.length, wasCut⟩ :=
  ⟨le_rfl, by simp, le_rfl, by simp⟩

theorem length_data (h : IsSlice data offset fr) : fr.data.length = fr.end_ - fr.start := by
  have := h.le_start
  have := h.start_le_end
  have := h.end_le
  rw [h.data_eq, List.length_take, List.length_drop]
  omega

/-- Cutting the end of the frame at `x` (lines 107-109, 144-146). -/
theorem take (h : IsSlice data offset fr) {x : ℕ} (h₁ : fr.start ≤ x) (h₂ : x ≤ fr.end_)
    (wasCut : Bool) : IsSlice data offset ⟨fr.data.take (x - fr.start), fr.start, x, wasCut⟩ := by
  refine ⟨h.le_start, h₁, le_trans h₂ h.end_le, ?_⟩
  simp only [h.data_eq, List.take_take]
  congr 1
  omega

/-- Cutting the start of the frame at `x` (lines 114-118). -/
theorem drop (h : IsSlice data offset fr) {x : ℕ} (h₁ : fr.start ≤ x) (h₂ : x ≤ fr.end_)
    (wasCut : Bool) : IsSlice data offset ⟨fr.data.drop (x - fr.start), x, fr.end_, wasCut⟩ := by
  have := h.le_start
  refine ⟨show offset ≤ x by omega, h₂, h.end_le, ?_⟩
  show List.drop (x - fr.start) fr.data = (data.drop (x - offset)).take (fr.end_ - x)
  rw [h.data_eq, List.drop_take, List.drop_drop,
    show fr.start - offset + (x - fr.start) = x - offset by omega,
    show fr.end_ - fr.start - (x - fr.start) = fr.end_ - x by omega]

end NewFrame.IsSlice

/-! ## The front: the replace loop and the cut at the start -/

/-- The three shapes of the frame after the front cut, with what the replace loop erased:
the frame starts before the end of the gap `a` and nothing but frames before the gap were
erased (`pre`); it starts where the gap ends and the loop erased every frame up to the next
gap (`post`), or it was cut before a longer frame (`postCut`). -/
inductive FrontShape (s : FrameSorter Cb) (en a : ℕ) (ha : a < s.gaps.length)
    (q : FrameQueue Cb) (fr : NewFrame) (adj : Bool) : Prop
  | pre (hlt : fr.start < s.gaps[a].End) (hend : fr.end_ = en)
      (hq : ∀ k, q.lookup k = if fr.start ≤ k ∧ k < s.gaps[a].Start then none
        else s.queue.lookup k)
  | post (hst : fr.start = s.gaps[a].End) (hend : fr.end_ = en) (hadj : adj = false)
      (hnext : a + 1 < s.gaps.length) (hle : s.gaps[a + 1].Start ≤ en)
      (hq : ∀ k, q.lookup k = if fr.start ≤ k ∧ k < s.gaps[a + 1].Start then none
        else s.queue.lookup k)
  | postCut (hst : fr.start = s.gaps[a].End) (hadj : adj = false) (hle : fr.end_ ≤ en)
      (hnext : a + 1 < s.gaps.length) (hen : en < s.gaps[a + 1].Start)
      (hq : ∀ k, q.lookup k = if fr.start ≤ k ∧ k < fr.end_ then none else s.queue.lookup k)
      (hinside : ∀ k e, s.queue.lookup k = some e → fr.start ≤ k → k < fr.end_ →
        k + e.Data.length ≤ fr.end_)

/-- What the front leaves: the frame `fr`, the edit `sE` of the gap `a` and whether the gap
was shortened at its end (`adj`), the queue `q` and the callbacks called. The edit is the
gap without the frame, up to the part after the frame that the back inserts when the frame
splits the gap (`edit`). -/
structure FrontCut (s : FrameSorter Cb) (data : List UInt8) (offset a : ℕ)
    (ha : a < s.gaps.length) (q : FrameQueue Cb) (rel : List Cb) (fr : NewFrame)
    (sE : List ByteInterval) (adj : Bool) : Prop where
  slice : fr.IsSlice data offset
  lt_end : fr.start < fr.end_
  readPos_le : s.readPos ≤ fr.start
  no_gap_before : ∀ p, offset ≤ p → p < fr.start → ¬InGap s.gaps p
  before : ∀ k e, s.queue.lookup k = some e → k < fr.start → k + e.Data.length ≤ fr.start
  released_perm : List.Perm (rel ++ queueCbs q) (queueCbs s.queue)
  edit : sE ++ (if adj = true ∧ fr.end_ < s.gaps[a].End then [⟨fr.end_, s.gaps[a].End⟩]
    else []) = s.gaps[a].cutOut fr.start fr.end_
  shape : FrontShape s (offset + data.length) a ha q fr adj

/-- The frame `fr'` after the cut at its start, when the cut happens. -/
theorem cutFront_of_start_le {g : ByteInterval} {sig hr : Bool} {fr : NewFrame}
    (fr' : NewFrame)
    (hfr : fr' = if (!sig && !hr) = true then
      ⟨fr.data.drop (g.Start - fr.start), g.Start, fr.end_, true⟩ else fr)
    (hle : fr'.start ≤ g.Start) (hlt : g.Start < fr'.end_) :
    cutFront g sig hr fr = (fr', g.cutOut fr'.start fr'.end_, false) := by
  unfold cutFront
  rw [← hfr, if_pos hle, ByteInterval.cutOut_of_le_start_le hle (Nat.le_of_lt hlt)]
  by_cases hge : fr'.end_ ≥ g.End
  · simp [hge, show ¬fr'.end_ < g.End by omega]
  · simp [hge, show fr'.end_ < g.End by omega]

/-- The frame starts after the gap does and has replaced no frame: the gap is shortened at
its end. -/
theorem cutFront_of_lt_start {g : ByteInterval} {sig : Bool} {fr : NewFrame}
    (hsig : sig = true) (hlt : g.Start < fr.start) :
    cutFront g sig false fr = (fr, [{ g with End := fr.start }], true) := by
  subst hsig
  simp [cutFront, show ¬fr.start ≤ g.Start by omega]

/-- The frame starts after the gap does and has replaced a frame: the gap stays. -/
theorem cutFront_of_lt_start_replaced {g : ByteInterval} {sig : Bool} {fr : NewFrame}
    (hlt : g.Start < fr.start) : cutFront g sig true fr = (fr, [g], false) := by
  simp [cutFront, show ¬fr.start ≤ g.Start by omega]

theorem Located.a_lt {gaps : List ByteInterval} {start end_ a b : ℕ} {sig eig : Bool}
    (h : Located gaps start end_ a sig b eig) : a < gaps.length :=
  lt_of_le_of_lt h.a_le_b h.b_lt

/-- The frame ends inside the gap `endGap`, which is the gap where it starts: the gap keeps
its edit from the front, and the rest of a split gap is inserted. -/
theorem cutBack_inGap_eq {eg : ByteInterval} {sgEnd : ℕ} {adj : Bool} {fr : NewFrame}
    (hlt : fr.end_ < eg.End) :
    cutBack eg sgEnd true true adj fr = (fr, [eg], if adj then [⟨fr.end_, sgEnd⟩] else []) := by
  cases adj <;> simp [cutBack, show fr.end_ ≠ eg.End by omega]

/-- The frame ends inside a later gap `endGap`, which loses its start. -/
theorem cutBack_inGap_lt {eg : ByteInterval} {sgEnd : ℕ} {adj : Bool} {fr : NewFrame}
    (hlt : fr.end_ < eg.End) :
    cutBack eg sgEnd true false adj fr = (fr, [{ eg with Start := fr.end_ }], []) := by
  simp [cutBack, show fr.end_ ≠ eg.End by omega]

/-- The frame ends at or after the end of the gap `endGap` and starts before it: it is cut to
end with the gap, which is removed unless it is the gap where the frame starts. -/
theorem cutBack_afterGap {eg : ByteInterval} {sgEnd : ℕ} {eq adj : Bool} {fr fr' : NewFrame}
    {eE ins : List ByteInterval} (hst : fr.start < eg.End) (hle : eg.End ≤ fr.end_)
    (h : cutBack eg sgEnd false eq adj fr = (fr', eE, ins)) :
    eE = (if eq then [eg] else []) ∧ ins = [] ∧ fr'.start = fr.start ∧ fr'.end_ = eg.End ∧
      ∀ {data offset}, fr.IsSlice data offset → fr'.IsSlice data offset := by
  by_cases hgt : fr.end_ > eg.End
  · have hcut : cutBack eg sgEnd false eq adj fr =
        (⟨fr.data.take (eg.End - fr.start), fr.start, eg.End, true⟩, if eq then [eg] else [], []) := by
      cases eq <;> simp [cutBack, hgt, show fr.start ≠ eg.End by omega]
    rw [hcut, Prod.mk.injEq, Prod.mk.injEq] at h
    obtain ⟨rfl, rfl, rfl⟩ := h
    exact ⟨rfl, rfl, rfl, rfl, fun h => h.take (Nat.le_of_lt hst) hle true⟩
  · have hcut : cutBack eg sgEnd false eq adj fr = (fr, if eq then [eg] else [], []) := by
      cases eq <;> simp [cutBack, show fr.end_ = eg.End by omega]
    rw [hcut, Prod.mk.injEq, Prod.mk.injEq] at h
    obtain ⟨rfl, rfl, rfl⟩ := h
    exact ⟨rfl, rfl, rfl, by omega, id⟩

/-- The frame starts where the gap `endGap` ends (and was cut before a longer frame): the gap
stays. -/
theorem cutBack_atEnd {eg : ByteInterval} {sgEnd : ℕ} {fr : NewFrame}
    (hst : fr.start = eg.End) (hlt : eg.End < fr.end_) :
    cutBack eg sgEnd false true false fr = (fr, [eg], []) := by
  simp [cutBack, hst, show fr.end_ ≠ eg.End by omega]

/-- An erased region of a queue can be widened by offsets where no frame starts. -/
theorem lookup_widen {q q' : FrameQueue Cb} {lo hi lo' hi' : ℕ}
    (h : ∀ k, q'.lookup k = if lo ≤ k ∧ k < hi then none else q.lookup k)
    (hsub : ∀ k, lo ≤ k → k < hi → lo' ≤ k ∧ k < hi')
    (hnone : ∀ k, lo' ≤ k → k < hi' → ¬(lo ≤ k ∧ k < hi) → q.lookup k = none) (k : ℕ) :
    q'.lookup k = if lo' ≤ k ∧ k < hi' then none else q.lookup k := by
  rw [h k]
  by_cases h₁ : lo ≤ k ∧ k < hi
  · rw [if_pos h₁, if_pos (hsub k h₁.1 h₁.2)]
  · rw [if_neg h₁]
    by_cases h₂ : lo' ≤ k ∧ k < hi'
    · rw [if_pos h₂, hnone k h₂.1 h₂.2 h₁]
    · rw [if_neg h₂]

/-- What a `push` that stores the frame `fr` leaves: the effect `Stores`, with `fr` a slice
of the received frame that holds every offset of it that was in a gap, and the callbacks
`released` of the frames it deleted. -/
structure PushStores (s : FrameSorter Cb) (data : List UInt8) (offset : ℕ) (q₁ : FrameQueue Cb)
    (gaps : List ByteInterval) (fr : NewFrame) (released : List Cb) : Prop where
  stores : Stores s q₁ gaps fr.start fr.end_
  slice : fr.IsSlice data offset
  gap_inside : ∀ p, offset ≤ p → p < offset + data.length → InGap s.gaps p →
    fr.start ≤ p ∧ p < fr.end_
  released_perm : List.Perm (released ++ queueCbs q₁) (queueCbs s.queue)

/-- `push` after the replace loop, in terms of its phases. -/
theorem push_found {s : FrameSorter Cb} {data : List UInt8} {offset : ℕ} {doneCb : Option Cb}
    (hlen : data.length ≠ 0) {a b : ℕ} {sig eig : Bool} {sg eg : ByteInterval}
    (hloc : locate s.gaps offset (offset + data.length) = some (.found a sig b eig sg eg))
    {q : FrameQueue Cb} {pos : ℕ} {hr cut : Bool} {rel : List Cb}
    (hrl : replaceLoop (offset + data.length) s.queue offset false = .done q pos hr cut rel)
    {fr : NewFrame} {sE : List ByteInterval} {adj : Bool}
    (hcf : cutFront sg sig hr (if cut then NewFrame.cutAt ⟨data, offset,
      offset + data.length, false⟩ pos else ⟨data, offset, offset + data.length, false⟩) =
      (fr, sE, adj))
    {fr' : NewFrame} {eE ins : List ByteInterval}
    (hcb : cutBack eg sg.End eig (decide (a = b)) adj fr = (fr', eE, ins)) :
    push s data offset doneCb =
      if a = b then some (s.store q (editGaps s.gaps a sE ins 0 b eE) fr' doneCb rel)
      else (deleteSwallowed s.gaps a sg.End eg.Start q).bind fun d =>
        some (s.store d.1 (editGaps s.gaps a sE ins d.2.2 b eE) fr' doneCb (rel ++ d.2.1)) := by
  simp only [push, hlen, if_false, hloc, hrl, hcf, hcb, Option.bind_some, bind, pure]
  by_cases hab : a = b <;> simp [hab]

/-- The middle phase calls the callbacks of the frames it deletes, of any queue. -/
theorem deleteSwallowed_perm {gaps : List ByteInterval} {a x y : ℕ} {q : FrameQueue Cb}
    {d : FrameQueue Cb × List Cb × ℕ} (hd : deleteSwallowed gaps a x y q = some d) :
    List.Perm (d.2.1 ++ queueCbs d.1) (queueCbs q) := by
  unfold deleteSwallowed at hd
  simp only [bind, pure] at hd
  obtain ⟨sw, -, hd⟩ := Option.bind_eq_some_iff.mp hd
  rw [← Option.some.inj hd]
  exact deleteConsecutiveAll_perm _ _

/-- **What `push` does with callbacks**, on any sorter: it finds the frame a duplicate, or it
stores the frame after erasing frames from the queue whose callbacks it calls. -/
theorem push_eq_store {s : FrameSorter Cb} {data : List UInt8} {offset : ℕ}
    {doneCb : Option Cb} {r : PushResult Cb} (h : push s data offset doneCb = some r) :
    r = duplicate s ∨ ∃ q₁ gaps fr released, List.Perm (released ++ queueCbs q₁) (queueCbs s.queue) ∧
      r = s.store q₁ gaps fr doneCb released := by
  by_cases hlen : data.length = 0
  · simp only [push, hlen, if_true, pure, Option.some.injEq] at h
    exact .inl h.symm
  cases hl : locate s.gaps offset (offset + data.length) with
  | none => simp [push, hlen, hl] at h
  | some l =>
  cases l with
  | duplicate =>
    simp only [push, hlen, if_false, hl, bind, pure, Option.bind_some,
      Option.some.injEq] at h
    exact .inl h.symm
  | found a sig b eig sg eg =>
  cases hrl : replaceLoop (offset + data.length) s.queue offset false with
  | duplicate =>
    simp only [push, hlen, if_false, hl, hrl, bind, pure, Option.bind_some,
      Option.some.injEq] at h
    exact .inl h.symm
  | done q pos hr cut rel =>
  right
  rcases hcf : cutFront sg sig hr (if cut then NewFrame.cutAt ⟨data, offset,
    offset + data.length, false⟩ pos else ⟨data, offset, offset + data.length, false⟩) with
    ⟨fr, sE, adj⟩
  rcases hcb : cutBack eg sg.End eig (decide (a = b)) adj fr with ⟨fr', eE, ins⟩
  rw [push_found hlen hl hrl hcf hcb] at h
  by_cases hab : a = b
  · rw [if_pos hab, Option.some.injEq] at h
    exact ⟨_, _, _, _, replaceLoop_perm hrl, h.symm⟩
  · rw [if_neg hab] at h
    obtain ⟨d, hd, h⟩ := Option.bind_eq_some_iff.mp h
    refine ⟨_, _, _, _, ?_, (Option.some.inj h).symm⟩
    rw [List.append_assoc]
    exact ((deleteSwallowed_perm hd).append_left rel).trans (replaceLoop_perm hrl)

section Inv

variable {s : FrameSorter Cb} (hs : Inv s)
include hs

/-- The replace loop started at a frame walks the frames that follow it, up to the next
offset `y` in a gap, or cuts the new frame before a frame that reaches past its end. -/
theorem Inv.replace_walk {en x y : ℕ} {e : FrameSorterEntry Cb}
    (hx : s.queue.lookup x = some e) (hy : InGap s.gaps y) (hxy : x ≤ y)
    (hbetween : ∀ p, x ≤ p → p < y → ¬InGap s.gaps p) (hxen : x ≤ en)
    {q : FrameQueue Cb} {pos : ℕ} {hr cut : Bool} {rel : List Cb}
    (h : replaceLoop en s.queue x false = .done q pos hr cut rel) :
    ReplaceStop s.queue q en x pos false hr cut ∧ x < pos ∧ hr = true ∧
      (cut = false → pos = y) ∧ (cut = true → pos < y ∧ en < y) := by
  have st := replaceLoop_done hs.queue_disjoint hxen h
  have hle := hs.run_le_of_inGap (fun _ _ _ => rfl) hy hxy st.run
  have hxpos : x < pos := by
    cases hcut : cut with
    | false =>
      have hnone := st.stop_none hcut
      have : pos ≠ x := fun h' => by rw [h', hx] at hnone; cases hnone
      have := st.run.le
      omega
    | true =>
      have := (st.stop_cut hcut).1
      simpa using st.replaced.mp this
  refine ⟨st, hxpos, st.replaced.mpr (.inr hxpos), fun hc => ?_, fun hc => ?_⟩
  · rcases hs.run_stop (fun _ _ _ => rfl) hy hxy hbetween st.run (st.stop_none hc) with h' | h'
    · omega
    · exact h'
  · -- the frame at `pos` starts before the gap offset `y` and so ends at or before it
    obtain ⟨-, e', he', hlt⟩ := st.stop_cut hc
    have hne : pos ≠ y := fun h' => by rw [h', hs.lookup_of_inGap hy] at he'; cases he'
    have := hs.entry_end_le_of_inGap he' hle hy
    omega

/-- The front when the frame starts inside the gap `a`: the loop finds no frame, and the gap
is removed, shortened at its start, or cut at the start of the frame. -/
theorem Inv.front_inGap {data : List UInt8} {offset : ℕ} {a : ℕ} (ha : a < s.gaps.length)
    (hS : s.gaps[a].Start ≤ offset) (hE : offset < s.gaps[a].End)
    (hlt : offset < offset + data.length)
    {q : FrameQueue Cb} {pos : ℕ} {hr cut : Bool} {rel : List Cb}
    (hrl : replaceLoop (offset + data.length) s.queue offset false = .done q pos hr cut rel)
    {fr : NewFrame} {sE : List ByteInterval} {adj : Bool}
    (hcf : cutFront s.gaps[a] true hr (if cut then NewFrame.cutAt ⟨data, offset,
      offset + data.length, false⟩ pos else ⟨data, offset, offset + data.length, false⟩) =
      (fr, sE, adj)) :
    FrontCut s data offset a ha q rel fr sE adj := by
  have hin : InGap s.gaps offset := ⟨_, List.getElem_mem ha, hS, hE⟩
  rw [replaceLoop_of_lookup_none (hs.lookup_of_inGap hin)] at hrl
  simp only [ReplaceResult.done.injEq] at hrl
  obtain ⟨rfl, rfl, rfl, rfl, rfl⟩ := hrl
  simp only [Bool.false_eq_true, if_false] at hcf
  have hread := hs.readPos_le_gap ha
  have hbefore : ∀ k e, s.queue.lookup k = some e → k < offset →
      k + e.Data.length ≤ offset :=
    fun k e hk hkp => hs.entry_end_le_of_inGap hk (Nat.le_of_lt hkp) hin
  rcases Nat.lt_or_ge s.gaps[a].Start offset with hSlt | hSge
  · -- the gap keeps its part before the frame, and the back adds the part after it
    rw [cutFront_of_lt_start rfl hSlt, Prod.mk.injEq, Prod.mk.injEq] at hcf
    obtain ⟨rfl, rfl, rfl⟩ := hcf
    refine ⟨.init data offset false, hlt, show s.readPos ≤ offset by omega,
      fun p _ h₂ => absurd h₂ (show ¬p < offset by omega), hbefore, by simp, ?_,
      .pre hE rfl fun k => by rw [if_neg (show ¬(offset ≤ k ∧ k < s.gaps[a].Start) by omega)]⟩
    dsimp only
    rw [ByteInterval.cutOut_of_lt_start hSlt (Nat.le_of_lt hE),
      Nat.max_eq_right (show s.gaps[a].Start ≤ offset + data.length by omega)]
    simp
  · -- the frame starts where the gap starts: the gap loses its start
    rw [cutFront_of_start_le (⟨data, offset, offset + data.length, false⟩) (by simp)
      (show offset ≤ s.gaps[a].Start by omega) (show s.gaps[a].Start < offset + data.length by
      omega), Prod.mk.injEq, Prod.mk.injEq] at hcf
    obtain ⟨rfl, rfl, rfl⟩ := hcf
    exact ⟨.init data offset false, hlt, show s.readPos ≤ offset by omega,
      fun p _ h₂ => absurd h₂ (show ¬p < offset by omega), hbefore, by simp, by simp,
      .pre hE rfl fun k => by rw [if_neg (show ¬(offset ≤ k ∧ k < s.gaps[a].Start) by omega)]⟩

/-- The front when the frame starts where the gap `a` ends: the replace loop walks the frames
that follow the gap, up to the next gap or to a frame that reaches past the new one. -/
theorem Inv.front_atEnd {data : List UInt8} {offset : ℕ} {a : ℕ} (ha : a < s.gaps.length)
    (hE : offset = s.gaps[a].End) (hlt : offset < offset + data.length)
    (hmax : offset + data.length ≤ MaxByteCount)
    {q : FrameQueue Cb} {pos : ℕ} {hr cut : Bool} {rel : List Cb}
    (hrl : replaceLoop (offset + data.length) s.queue offset false = .done q pos hr cut rel)
    {fr : NewFrame} {sE : List ByteInterval} {adj : Bool}
    (hcf : cutFront s.gaps[a] true hr (if cut then NewFrame.cutAt ⟨data, offset,
      offset + data.length, false⟩ pos else ⟨data, offset, offset + data.length, false⟩) =
      (fr, sE, adj)) :
    FrontCut s data offset a ha q rel fr sE adj := by
  have hne := hs.nonempty_of_lt ha
  have hread := hs.readPos_le_gap ha
  -- the gap `a` is not the last one, and a frame starts where it ends
  have hnext : a + 1 < s.gaps.length := by
    by_contra h
    have := hs.last_end ha (by omega)
    omega
  obtain ⟨e, he⟩ := hs.lookup_gap_end ha (show s.gaps[a].End < MaxByteCount by omega)
  rw [← hE] at he
  have hab := hs.gaps_ordered.hi_lt_lo ha hnext (Nat.lt_succ_self a)
  have hy : InGap s.gaps s.gaps[a + 1].Start :=
    ⟨_, List.getElem_mem hnext, le_rfl, hs.nonempty_of_lt hnext⟩
  obtain ⟨st, hxpos, rfl, hstop, hcut⟩ := hs.replace_walk he hy (by omega)
    (fun p h₁ h₂ => hs.not_inGap_between hnext (by omega) h₂) (by omega) hrl
  have hbefore : ∀ k e, s.queue.lookup k = some e → k < offset →
      k + e.Data.length ≤ offset := fun k e hk hkp =>
    hE ▸ hs.entry_end_le_gap_end ha hk (by omega)
  cases cut with
  | false =>
    -- the loop replaced every frame up to the next gap
    have hpos := hstop rfl
    simp only [Bool.false_eq_true, if_false] at hcf
    rw [cutFront_of_lt_start_replaced (show s.gaps[a].Start < offset by omega), Prod.mk.injEq,
      Prod.mk.injEq] at hcf
    obtain ⟨rfl, rfl, rfl⟩ := hcf
    refine ⟨.init data offset false, hlt, show s.readPos ≤ offset by omega,
      fun p _ h₂ => absurd h₂ (show ¬p < offset by omega), hbefore, replaceLoop_perm hrl, ?_,
      .post hE rfl rfl hnext (hpos ▸ st.le_end) (hpos ▸ st.run.lookup_eq)⟩
    dsimp only
    rw [ByteInterval.cutOut_of_end_le hne (by omega) (by omega)]
    simp
  | true =>
    -- the loop cut the frame before a longer frame, before the next gap
    obtain ⟨hposy, heny⟩ := hcut rfl
    simp only [if_true] at hcf
    rw [cutFront_of_lt_start_replaced (show s.gaps[a].Start < offset by omega),
      Prod.mk.injEq, Prod.mk.injEq] at hcf
    obtain ⟨rfl, rfl, rfl⟩ := hcf
    refine ⟨(NewFrame.IsSlice.init data offset false).take (by simp; omega)
      (by simpa using st.le_end) true, show offset < pos by omega, show s.readPos ≤ offset by
      omega, fun p _ h₂ => absurd h₂ (show ¬p < offset by omega), hbefore, replaceLoop_perm hrl, ?_,
      .postCut hE rfl st.le_end hnext heny st.run.lookup_eq st.run.inside⟩
    dsimp only [NewFrame.cutAt]
    rw [ByteInterval.cutOut_of_end_le hne (by omega) (by omega)]
    simp

/-- The front when the frame starts before the gap `a` and no frame starts where it does: the
frame is cut to start with the gap. -/
theorem Inv.front_before_none {data : List UInt8} {offset : ℕ} {a : ℕ} (ha : a < s.gaps.length)
    (hS : offset < s.gaps[a].Start) (hSen : s.gaps[a].Start < offset + data.length)
    (hprior : ∀ i (h : i < s.gaps.length), i < a → s.gaps[i].End < offset)
    (hnone : s.queue.lookup offset = none)
    {q : FrameQueue Cb} {pos : ℕ} {hr cut : Bool} {rel : List Cb}
    (hrl : replaceLoop (offset + data.length) s.queue offset false = .done q pos hr cut rel)
    {fr : NewFrame} {sE : List ByteInterval} {adj : Bool}
    (hcf : cutFront s.gaps[a] false hr (if cut then NewFrame.cutAt ⟨data, offset,
      offset + data.length, false⟩ pos else ⟨data, offset, offset + data.length, false⟩) =
      (fr, sE, adj)) :
    FrontCut s data offset a ha q rel fr sE adj := by
  rw [replaceLoop_of_lookup_none hnone] at hrl
  simp only [ReplaceResult.done.injEq] at hrl
  obtain ⟨rfl, rfl, rfl, rfl, rfl⟩ := hrl
  simp only [Bool.false_eq_true, if_false] at hcf
  have hin : InGap s.gaps s.gaps[a].Start :=
    ⟨_, List.getElem_mem ha, le_rfl, hs.nonempty_of_lt ha⟩
  rw [cutFront_of_start_le (⟨data.drop (s.gaps[a].Start - offset), s.gaps[a].Start,
      offset + data.length, true⟩) (by simp) le_rfl hSen, Prod.mk.injEq, Prod.mk.injEq] at hcf
  obtain ⟨rfl, rfl, rfl⟩ := hcf
  refine ⟨(NewFrame.IsSlice.init data offset false).drop (Nat.le_of_lt hS)
      (Nat.le_of_lt hSen) true, hSen, hs.readPos_le_gap ha, ?_,
    fun k e hk hkp => hs.entry_end_le_of_inGap hk (Nat.le_of_lt hkp) hin, by simp, by simp,
    .pre (hs.nonempty_of_lt ha) rfl fun k => by
      rw [if_neg (show ¬(s.gaps[a].Start ≤ k ∧ k < s.gaps[a].Start) by omega)]⟩
  -- between `offset` and the gap `a` no offset is in a gap
  intro p hp hpS
  change p < s.gaps[a].Start at hpS
  refine not_inGap_of_forall fun j hj => ?_
  rcases Nat.lt_or_ge j a with hja | hja
  · have := hprior j hj hja
    exact .inr (by omega)
  · have := hs.start_le_start hj hja
    exact .inl (by omega)

/-- The front when the frame starts before the gap `a` where a frame starts: the replace loop
replaces every frame up to the gap. -/
theorem Inv.front_before_some {data : List UInt8} {offset : ℕ} {a : ℕ} (ha : a < s.gaps.length)
    (hS : offset < s.gaps[a].Start) (hSen : s.gaps[a].Start < offset + data.length)
    (hprior : ∀ i (h : i < s.gaps.length), i < a → s.gaps[i].End < offset)
    {e : FrameSorterEntry Cb} (he : s.queue.lookup offset = some e)
    {q : FrameQueue Cb} {pos : ℕ} {hr cut : Bool} {rel : List Cb}
    (hrl : replaceLoop (offset + data.length) s.queue offset false = .done q pos hr cut rel)
    {fr : NewFrame} {sE : List ByteInterval} {adj : Bool}
    (hcf : cutFront s.gaps[a] false hr (if cut then NewFrame.cutAt ⟨data, offset,
      offset + data.length, false⟩ pos else ⟨data, offset, offset + data.length, false⟩) =
      (fr, sE, adj)) :
    FrontCut s data offset a ha q rel fr sE adj := by
  have hin : InGap s.gaps s.gaps[a].Start :=
    ⟨_, List.getElem_mem ha, le_rfl, hs.nonempty_of_lt ha⟩
  have hbetween : ∀ p, offset ≤ p → p < s.gaps[a].Start → ¬InGap s.gaps p := by
    intro p hp hpS
    refine not_inGap_of_forall fun j hj => ?_
    rcases Nat.lt_or_ge j a with hja | hja
    · have := hprior j hj hja
      exact .inr (by omega)
    · have := hs.start_le_start hj hja
      exact .inl (by omega)
  obtain ⟨st, hxpos, rfl, hstop, hcut⟩ := hs.replace_walk he hin (Nat.le_of_lt hS) hbetween
    (by omega) hrl
  -- frames before the gap end before it, so the loop cannot cut the frame
  cases cut with
  | true => exact absurd (hcut rfl).2 (by omega)
  | false =>
    have hpos := hstop rfl
    simp only [Bool.false_eq_true, if_false] at hcf
    rw [cutFront_of_start_le (⟨data, offset, offset + data.length, false⟩) (by simp)
        (Nat.le_of_lt hS) hSen, Prod.mk.injEq, Prod.mk.injEq] at hcf
    obtain ⟨rfl, rfl, rfl⟩ := hcf
    refine ⟨.init data offset false, show offset < offset + data.length by omega,
      hs.readPos_le_entry offset e he, fun p _ h₂ => absurd h₂ (show ¬p < offset by omega),
      fun k e' hk hkp => hs.queue_disjoint.disjoint k e' offset e hk he hkp, replaceLoop_perm hrl,
      by simp, .pre (show offset < s.gaps[a].End by have := hs.nonempty_of_lt ha; omega) rfl
        (hpos ▸ st.run.lookup_eq)⟩

/-- **The front.** -/
theorem Inv.front_spec {data : List UInt8} {offset : ℕ} (hlen : 0 < data.length)
    (hmax : offset + data.length ≤ MaxByteCount) {a b : ℕ} {sig eig : Bool}
    (hloc : Located s.gaps offset (offset + data.length) a sig b eig) (ha : a < s.gaps.length)
    {q : FrameQueue Cb} {pos : ℕ} {hr cut : Bool} {rel : List Cb}
    (hrl : replaceLoop (offset + data.length) s.queue offset false = .done q pos hr cut rel)
    {fr : NewFrame} {sE : List ByteInterval} {adj : Bool}
    (hcf : cutFront s.gaps[a] sig hr (if cut then NewFrame.cutAt ⟨data, offset,
      offset + data.length, false⟩ pos else ⟨data, offset, offset + data.length, false⟩) =
      (fr, sE, adj)) :
    FrontCut s data offset a ha q rel fr sE adj := by
  have hsig := hloc.startsInGap_eq
  by_cases hS : s.gaps[a].Start ≤ offset
  · rw [hsig, decide_eq_true hS] at hcf
    rcases Nat.lt_or_ge offset s.gaps[a].End with hE | hE
    · exact hs.front_inGap ha hS hE (by omega) hrl hcf
    · exact hs.front_atEnd ha (le_antisymm hloc.start_le hE) (by omega) hmax hrl hcf
  · rw [hsig, decide_eq_false hS] at hcf
    cases hx : s.queue.lookup offset with
    | none => exact hs.front_before_none ha (by omega) hloc.start_lt_end hloc.before hx hrl hcf
    | some e => exact hs.front_before_some ha (by omega) hloc.start_lt_end hloc.before hx hrl hcf

/-- A frame that ends in or after a later gap reaches the gap after `a`. -/
theorem Inv.next_start_le_of_lt {offset en a b : ℕ} {sig eig : Bool}
    (hloc : Located s.gaps offset en a sig b eig) (hab : a < b) :
    ∀ (hnext : a + 1 < s.gaps.length), s.gaps[a + 1].Start ≤ en := by
  intro hnext
  have hb := hloc.b_lt
  have hle := hs.start_le_start hb (show a + 1 ≤ b by omega)
  cases heig : eig with
  | true => have := (hloc.inGap heig).1; omega
  | false =>
    have := (hloc.afterGap heig).1
    have := hs.nonempty_of_lt hb
    omega

/-- The middle loop swallows exactly the gaps strictly between `a` and `b`. -/
theorem Inv.swallowedGaps_eq {a b : ℕ} (hb : b < s.gaps.length) (hab : a < b) :
    swallowedGaps (s.gaps.drop (a + 1)) s.gaps[b].Start =
      some ((s.gaps.drop (a + 1)).take (b - a - 1)) := by
  have hspec := swallowedGaps_spec (show b - a - 1 < (s.gaps.drop (a + 1)).length by simp; omega)
    (fun j hj hjn => by
      simp only [List.getElem_drop]
      exact hs.gaps_ordered.hi_lt_lo _ _ (by omega))
    (by simp only [List.getElem_drop]; exact Nat.le_of_lt (hs.nonempty_of_lt _))
  simpa only [List.getElem_drop, show a + 1 + (b - a - 1) = b by omega] using hspec

/-- So the middle phase does not panic. -/
theorem Inv.deleteSwallowed_isSome {a b : ℕ} (hb : b < s.gaps.length) (hab : a < b) (x : ℕ)
    (q : FrameQueue Cb) : (deleteSwallowed s.gaps a x s.gaps[b].Start q).isSome := by
  simp [deleteSwallowed, hs.swallowedGaps_eq hb hab]

/-- **The middle.** When the frame spans several gaps, the queue loses every frame between the
start of the frame and the gap `b`. -/
theorem Inv.middle_spec {data : List UInt8} {offset : ℕ} {a b : ℕ} {sig eig : Bool}
    (hloc : Located s.gaps offset (offset + data.length) a sig b eig)
    (ha : a < s.gaps.length) (hb : b < s.gaps.length) (hab : a < b)
    {q : FrameQueue Cb} {rel : List Cb} {fr : NewFrame} {sE : List ByteInterval} {adj : Bool}
    (hfront : FrontCut s data offset a ha q rel fr sE adj)
    {d : FrameQueue Cb × List Cb × ℕ}
    (hd : deleteSwallowed s.gaps a s.gaps[a].End s.gaps[b].Start q = some d) :
    a + d.2.2 + 1 = b ∧
      (∀ k, d.1.lookup k = if fr.start ≤ k ∧ k < s.gaps[b].Start then none
        else s.queue.lookup k) ∧
      List.Perm (d.2.1 ++ queueCbs d.1) (queueCbs q) := by
  unfold deleteSwallowed at hd
  simp only [bind, pure] at hd
  obtain ⟨sw, hsw, hd⟩ := Option.bind_eq_some_iff.mp hd
  simp only [Option.some.injEq] at hd
  subst hd
  rw [hs.swallowedGaps_eq hb hab, Option.some.injEq] at hsw
  subst hsw
  have hlist : s.gaps[a].End :: ((s.gaps.drop (a + 1)).take (b - a - 1)).map ByteInterval.End =
      ((s.gaps.drop a).take (b - a - 1 + 1)).map ByteInterval.End := by
    rw [List.drop_eq_getElem_cons ha, List.take_succ_cons, List.map_cons]
  refine ⟨by simp; omega, fun k => ?_, deleteConsecutiveAll_perm _ _⟩
  dsimp only
  cases hfront.shape with
  | pre hlt _ hq =>
    rw [hlist, hs.deleteConsecutiveAll_tiles (show a + (b - a - 1 + 1) < s.gaps.length by omega)
      (Nat.le_of_lt hlt) hq k]
    simp only [show a + (b - a - 1 + 1) = b by omega]
  | post hst _ _ hnext _ hq =>
    -- the replace loop erased the frames after the gap `a`: the first call finds none
    have hnone : q.lookup s.gaps[a].End = none := by
      rw [hq, if_pos ⟨by omega, hs.gaps_ordered.hi_lt_lo ha hnext (Nat.lt_succ_self a)⟩]
    simp only [deleteConsecutiveAll, deleteConsecutive_of_lookup_none hnone]
    rw [hst, hs.deleteConsecutiveAll_tiles (show a + 1 + (b - a - 1) < s.gaps.length by omega)
      (hs.end_le_end hnext (Nat.le_succ a)) (hst ▸ hq) k]
    simp only [show a + 1 + (b - a - 1) = b by omega]
  | postCut _ _ _ hnext hen _ _ =>
    have := hs.next_start_le_of_lt hloc hab hnext
    omega

/-- The facts a `push` gathers about the frame it stores, assembled. -/
theorem Inv.pushStores_of {data : List UInt8} {offset a b sw : ℕ} {q₁ : FrameQueue Cb}
    {rel₁ : List Cb} {sE ins eE : List ByteInterval} {fr : NewFrame}
    (ha : a < s.gaps.length) (hb : b < s.gaps.length)
    (hsw : (a = b ∧ sw = 0) ∨ (a < b ∧ a + sw + 1 = b))
    (hslice : fr.IsSlice data offset) (hlt : fr.start < fr.end_)
    (hmax : fr.end_ < MaxByteCount) (hread : s.readPos ≤ fr.start)
    (hq : ∀ k, q₁.lookup k = if fr.start ≤ k ∧ k < fr.end_ then none else s.queue.lookup k)
    (hbefore : ∀ k e, s.queue.lookup k = some e → k < fr.start → k + e.Data.length ≤ fr.start)
    (hinside : ∀ k e, s.queue.lookup k = some e → fr.start ≤ k → k < fr.end_ →
      k + e.Data.length ≤ fr.end_)
    (hA : sE ++ ins = s.gaps[a].cutOut fr.start fr.end_)
    (hB : a ≠ b → eE = s.gaps[b].cutOut fr.start fr.end_)
    (hlo : ∀ i (h : i < s.gaps.length), i < a → s.gaps[i].End ≤ fr.start)
    (hhi : ∀ i (h : i < s.gaps.length), b < i → fr.end_ ≤ s.gaps[i].Start)
    (hmid : a < b → fr.start ≤ s.gaps[a].End ∧ s.gaps[b].Start ≤ fr.end_)
    (hgapBefore : ∀ p, offset ≤ p → p < fr.start → ¬InGap s.gaps p)
    (hgapAfter : ∀ p, fr.end_ ≤ p → p < offset + data.length → ¬InGap s.gaps p)
    (hperm : List.Perm (rel₁ ++ queueCbs q₁) (queueCbs s.queue)) :
    PushStores s data offset q₁ (editGaps s.gaps a sE ins sw b eE) fr rel₁ where
  stores := ⟨hlt, hmax, hread, hq, hbefore, hinside, editGaps_eq_flatMap
    (hs.gapEdit_eq_cutOut (Nat.le_of_lt hlt) ha hb hsw hA hB hlo hhi hmid)⟩
  slice := hslice
  gap_inside p hp hpe hin := by
    constructor
    · by_contra h
      exact hgapBefore p hp (by omega) hin
    · by_contra h
      exact hgapAfter p (by omega) hpe hin
  released_perm := hperm

/-- The gaps after `a` start after the frame, when it ends before the gap after `a`. -/
theorem Inv.end_le_starts_after {a : ℕ} {x : ℕ}
    (hnext : ∀ h : a + 1 < s.gaps.length, x ≤ s.gaps[a + 1].Start) :
    ∀ i (h : i < s.gaps.length), a < i → x ≤ s.gaps[i].Start := by
  intro i h hi
  have := hnext (by omega)
  have := hs.start_le_start h (show a + 1 ≤ i by omega)
  omega

/-- **The back, when the frame ends at the gap where it starts.** -/
theorem Inv.back_spec_eq {data : List UInt8} {offset : ℕ} {a : ℕ} {sig eig : Bool}
    (hloc : Located s.gaps offset (offset + data.length) a sig a eig) (ha : a < s.gaps.length)
    {q : FrameQueue Cb} {rel : List Cb} {fr : NewFrame} {sE : List ByteInterval} {adj : Bool}
    (hfront : FrontCut s data offset a ha q rel fr sE adj)
    {fr' : NewFrame} {eE ins : List ByteInterval}
    (hcb : cutBack s.gaps[a] s.gaps[a].End eig true adj fr = (fr', eE, ins)) :
    PushStores s data offset q (editGaps s.gaps a sE ins 0 a eE) fr' rel := by
  have hne := hs.nonempty_of_lt ha
  have hin : ∀ p, s.gaps[a].Start ≤ p → p < s.gaps[a].End → InGap s.gaps p :=
    fun p h₁ h₂ => ⟨_, List.getElem_mem ha, h₁, h₂⟩
  -- what the back leaves: the frame keeps its start and ends at `fr'.end_`
  obtain ⟨hst, hslice, hA, hlt, hmax, hq, hinside, hnext, hafter⟩ :
      fr'.start = fr.start ∧ fr'.IsSlice data offset ∧
      sE ++ ins = s.gaps[a].cutOut fr.start fr'.end_ ∧ fr.start < fr'.end_ ∧
      fr'.end_ < MaxByteCount ∧
      (∀ k, q.lookup k = if fr.start ≤ k ∧ k < fr'.end_ then none else s.queue.lookup k) ∧
      (∀ k e, s.queue.lookup k = some e → fr.start ≤ k → k < fr'.end_ →
        k + e.Data.length ≤ fr'.end_) ∧
      (∀ h : a + 1 < s.gaps.length, fr'.end_ ≤ s.gaps[a + 1].Start) ∧
      (∀ p, fr'.end_ ≤ p → p < offset + data.length → ¬InGap s.gaps p) := by
    cases hfront.shape with
    | pre hlt hend hq =>
      cases eig with
      | true =>
        -- the frame ends inside the gap: the gap keeps its part after the frame
        obtain ⟨hS, hE⟩ := hloc.inGap rfl
        rw [cutBack_inGap_eq (show fr.end_ < s.gaps[a].End by omega), Prod.mk.injEq,
          Prod.mk.injEq] at hcb
        obtain ⟨rfl, rfl, rfl⟩ := hcb
        have hedit := hfront.edit
        refine ⟨rfl, hfront.slice, by cases adj <;> simpa [show fr.end_ < s.gaps[a].End by omega]
          using hedit, hfront.lt_end, by have := hs.gap_end_le_max ha; omega,
          lookup_widen hq (fun k h₁ h₂ => ⟨h₁, by omega⟩) fun k h₁ h₂ h₃ =>
            hs.lookup_of_inGap (hin k (by omega) (by omega)), ?_,
          fun h => by have := hs.gaps_ordered.hi_lt_lo ha h (Nat.lt_succ_self a); omega,
          fun p h₁ h₂ => absurd h₂ (by omega)⟩
        intro k e hk h₁ h₂
        rcases Nat.lt_or_ge k s.gaps[a].Start with h₃ | h₃
        · have := hs.entry_end_le_of_inGap hk (Nat.le_of_lt h₃) (hin _ le_rfl hne)
          omega
        · rw [hs.lookup_of_inGap (hin k h₃ (by omega))] at hk
          cases hk
      | false =>
        -- the frame ends after the gap: it is cut to end with the gap
        obtain ⟨hE, hnext, hS1⟩ := hloc.afterGap rfl
        obtain ⟨-, hins, hst', hend', hsl⟩ := cutBack_afterGap hlt (by omega) hcb
        have hedit := hfront.edit
        rw [if_neg (by omega), List.append_nil] at hedit
        have hab := hs.gaps_ordered.hi_lt_lo ha hnext (Nat.lt_succ_self a)
        refine ⟨hst', hsl hfront.slice, ?_, by omega, by rw [hend']; exact hs.end_lt_max hnext,
          lookup_widen hq (fun k h₁ h₂ => ⟨h₁, by omega⟩) fun k h₁ h₂ h₃ =>
            hs.lookup_of_inGap (hin k (by omega) (by omega)),
          fun k e hk h₁ h₂ => hend' ▸ hs.entry_end_le_gap_end ha hk (by omega),
          fun h => by omega,
          fun p h₁ h₂ => hs.not_inGap_between hnext (by omega) (by omega)⟩
        rw [hins, List.append_nil, hedit, hend, hend',
          ByteInterval.cutOut_of_end_le_hi _ hE le_rfl]
    | post _ hend _ hnext hle _ =>
      -- a frame that reaches the next gap does not end at the gap `a`
      have hab := hs.gaps_ordered.hi_lt_lo ha hnext (Nat.lt_succ_self a)
      cases eig with
      | true =>
        have := (hloc.inGap rfl).2
        omega
      | false =>
        obtain ⟨-, _, h⟩ := hloc.afterGap rfl
        omega
    | postCut hst0 hadj hle0 hnext hen hq0 hinside0 =>
      have hlt := hfront.lt_end
      cases eig with
      | true =>
        -- the frame starts where the gap ends, so it does not end inside it
        have := (hloc.inGap rfl).2
        omega
      | false =>
        -- the frame was cut before a longer frame, before the next gap: the gap stays
        subst hadj
        rw [cutBack_atEnd hst0 (by omega), Prod.mk.injEq, Prod.mk.injEq] at hcb
        obtain ⟨rfl, rfl, rfl⟩ := hcb
        have hedit := hfront.edit
        simp only [Bool.false_eq_true, false_and, if_false, List.append_nil] at hedit
        have hmaxS := hs.lt_max_of_inGap
          ⟨_, List.getElem_mem hnext, le_rfl, hs.nonempty_of_lt hnext⟩
        refine ⟨rfl, hfront.slice, by simpa using hedit, hlt, by omega, hq0, hinside0,
          fun _ => by omega, fun p h₁ h₂ => hs.not_inGap_between hnext (by omega) (by omega)⟩
  exact hs.pushStores_of ha ha (.inl ⟨rfl, rfl⟩) hslice (hst ▸ hlt) hmax
    (hst ▸ hfront.readPos_le) (hst ▸ hq) (hst ▸ hfront.before) (hst ▸ hinside) (hst ▸ hA)
    (fun h => absurd rfl h)
    (fun i h hi => by have := hloc.before i h hi; have := hslice.le_start; omega)
    (hs.end_le_starts_after hnext) (fun h => absurd h (lt_irrefl a))
    (hst ▸ hfront.no_gap_before) hafter hfront.released_perm

/-- **The back, when the frame ends at a later gap.** -/
theorem Inv.back_spec_lt {data : List UInt8} {offset : ℕ} {a b : ℕ} {sig eig : Bool}
    (hloc : Located s.gaps offset (offset + data.length) a sig b eig)
    (ha : a < s.gaps.length) (hb : b < s.gaps.length) (hab : a < b)
    {q : FrameQueue Cb} {rel : List Cb} {fr : NewFrame} {sE : List ByteInterval} {adj : Bool}
    (hfront : FrontCut s data offset a ha q rel fr sE adj)
    {q₁ : FrameQueue Cb} {rel₁ : List Cb} {sw : ℕ} (hsw : a + sw + 1 = b)
    (hq₁ : ∀ k, q₁.lookup k = if fr.start ≤ k ∧ k < s.gaps[b].Start then none
      else s.queue.lookup k)
    (hperm : List.Perm (rel₁ ++ queueCbs q₁) (queueCbs q))
    {fr' : NewFrame} {eE ins : List ByteInterval}
    (hcb : cutBack s.gaps[b] s.gaps[a].End eig false adj fr = (fr', eE, ins)) :
    PushStores s data offset q₁ (editGaps s.gaps a sE ins sw b eE) fr' (rel ++ rel₁) := by
  have hneb := hs.nonempty_of_lt hb
  have hord := hs.gaps_ordered.hi_lt_lo ha hb hab
  -- the front left the frame starting at or before the end of the gap `a`, and uncut
  obtain ⟨hstE, hend⟩ : fr.start ≤ s.gaps[a].End ∧ fr.end_ = offset + data.length := by
    cases hfront.shape with
    | pre hlt hend _ => exact ⟨Nat.le_of_lt hlt, hend⟩
    | post hst hend _ _ _ _ => exact ⟨Nat.le_of_eq hst, hend⟩
    | postCut _ _ _ hnext hen _ _ =>
      have := hs.next_start_le_of_lt hloc hab hnext
      omega
  have hinb : ∀ p, s.gaps[b].Start ≤ p → p < s.gaps[b].End → InGap s.gaps p :=
    fun p h₁ h₂ => ⟨_, List.getElem_mem hb, h₁, h₂⟩
  have hSend : s.gaps[b].Start ≤ offset + data.length := by
    cases eig with
    | true => exact (hloc.inGap rfl).1
    | false => have := (hloc.afterGap rfl).1; omega
  -- what the back leaves: the frame ends inside the gap `b`, or is cut to end with it
  obtain ⟨hst, hslice, hB, hins, hSb, hEb, hmax, hnext, hafter⟩ :
      fr'.start = fr.start ∧ fr'.IsSlice data offset ∧
      eE = s.gaps[b].cutOut fr.start fr'.end_ ∧ ins = [] ∧
      s.gaps[b].Start ≤ fr'.end_ ∧ fr'.end_ ≤ s.gaps[b].End ∧ fr'.end_ < MaxByteCount ∧
      (∀ h : b + 1 < s.gaps.length, fr'.end_ ≤ s.gaps[b + 1].Start) ∧
      (∀ p, fr'.end_ ≤ p → p < offset + data.length → ¬InGap s.gaps p) := by
    cases eig with
    | true =>
      obtain ⟨hS, hE⟩ := hloc.inGap rfl
      rw [cutBack_inGap_lt (show fr.end_ < s.gaps[b].End by omega), Prod.mk.injEq,
        Prod.mk.injEq] at hcb
      obtain ⟨rfl, rfl, rfl⟩ := hcb
      refine ⟨rfl, hfront.slice, ?_, rfl, by omega, by omega,
        by have := hs.gap_end_le_max hb; omega,
        fun h => by have := hs.gaps_ordered.hi_lt_lo hb h (Nat.lt_succ_self b); omega,
        fun p h₁ h₂ => absurd h₂ (by omega)⟩
      rw [ByteInterval.cutOut_of_le_start_le (by omega) (by omega), if_pos (by omega), hend]
    | false =>
      obtain ⟨hE, hnext, hS1⟩ := hloc.afterGap rfl
      obtain ⟨heE, hins, hst', hend', hsl⟩ := cutBack_afterGap (by omega) (by omega) hcb
      refine ⟨hst', hsl hfront.slice, ?_, hins, by omega, by omega,
        by rw [hend']; exact hs.end_lt_max hnext,
        fun h => by have := hs.gaps_ordered.hi_lt_lo hb h (Nat.lt_succ_self b); omega,
        fun p h₁ h₂ => hs.not_inGap_between hnext (by omega) (by omega)⟩
      rw [heE, hend', ByteInterval.cutOut_of_le_start_le (by omega) (Nat.le_of_lt hneb),
        if_neg (lt_irrefl _)]
      simp
  -- the gap `a` loses everything from the start of the frame on
  have hedit := hfront.edit
  rw [if_neg (show ¬(adj = true ∧ fr.end_ < s.gaps[a].End) from
    fun h => absurd h.2 (by omega)), List.append_nil] at hedit
  have hA : sE ++ ins = s.gaps[a].cutOut fr.start fr'.end_ := by
    rw [hins, List.append_nil, hedit, ByteInterval.cutOut_of_end_le_hi fr'.end_
      (show s.gaps[a].End ≤ fr.end_ by omega) (show s.gaps[a].End ≤ fr'.end_ by omega)]
  have hq : ∀ k, q₁.lookup k = if fr.start ≤ k ∧ k < fr'.end_ then none else s.queue.lookup k :=
    lookup_widen hq₁ (fun k h₁ h₂ => ⟨h₁, by omega⟩) fun k h₁ h₂ h₃ =>
      hs.lookup_of_inGap (hinb k (by omega) (by omega))
  have hinside : ∀ k e, s.queue.lookup k = some e → fr.start ≤ k → k < fr'.end_ →
      k + e.Data.length ≤ fr'.end_ := by
    intro k e hk h₁ h₂
    rcases Nat.lt_or_ge k s.gaps[b].Start with h₃ | h₃
    · have := hs.entry_end_le_of_inGap hk (Nat.le_of_lt h₃) (hinb _ le_rfl hneb)
      omega
    · rw [hs.lookup_of_inGap (hinb k h₃ (by omega))] at hk
      cases hk
  have hperm' : List.Perm ((rel ++ rel₁) ++ queueCbs q₁) (queueCbs s.queue) := by
    rw [List.append_assoc]
    exact (hperm.append_left rel).trans hfront.released_perm
  have hlt : fr'.start < fr'.end_ := by omega
  have hmid : fr'.start ≤ s.gaps[a].End := by omega
  exact hs.pushStores_of ha hb (.inr ⟨hab, hsw⟩) hslice hlt hmax
    (hst ▸ hfront.readPos_le) (hst ▸ hq) (hst ▸ hfront.before) (hst ▸ hinside) (hst ▸ hA)
    (fun _ => hst ▸ hB)
    (fun i h hi => by have := hloc.before i h hi; have := hslice.le_start; omega)
    (hs.end_le_starts_after hnext) (fun _ => ⟨hmid, hSb⟩)
    (hst ▸ hfront.no_gap_before) hafter hperm'

/-- **What `push` does.** From a sorter that keeps the invariant, a `push` that does not panic
either finds the data already received, or stores a slice of the frame that holds every
offset of it in a gap, with the effect `PushStores`. -/
theorem Inv.push_spec {data : List UInt8} {offset : ℕ} {doneCb : Option Cb}
    (hmax : offset + data.length ≤ MaxByteCount) {r : PushResult Cb}
    (h : push s data offset doneCb = some r) :
    (r = duplicate s ∧ ∀ p, offset ≤ p → p < offset + data.length → ¬InGap s.gaps p) ∨
      ∃ q₁ gaps fr released, PushStores s data offset q₁ gaps fr released ∧
        r = s.store q₁ gaps fr doneCb released := by
  by_cases hlen : data.length = 0
  · simp only [push, hlen, if_true, pure, Option.some.injEq] at h
    exact .inl ⟨h.symm, fun p h₁ h₂ => absurd h₂ (by omega)⟩
  cases hl : locate s.gaps offset (offset + data.length) with
  | none => simp [push, hlen, hl] at h
  | some l =>
  cases l with
  | duplicate =>
    simp only [push, hlen, if_false, hl, bind, pure, Option.bind_some,
      Option.some.injEq] at h
    exact .inl ⟨h.symm, hs.locate_duplicate hmax hl⟩
  | found a sig b eig sg eg =>
  obtain ⟨ha, hb, rfl, rfl, hloc⟩ := hs.locate_found (by omega) hmax hl
  cases hrl : replaceLoop (offset + data.length) s.queue offset false with
  | duplicate =>
    -- the replace loop met a queued frame at the offset that covers the whole frame
    simp only [push, hlen, if_false, hl, hrl, bind, pure, Option.bind_some,
      Option.some.injEq] at h
    obtain ⟨-, e, he, hend⟩ := replaceLoop_duplicate hrl
    exact .inl ⟨h.symm, fun p h₁ h₂ => hs.entry_not_gap offset e p he h₁ (by omega)⟩
  | done q pos hr cut rel =>
  right
  rcases hcf : cutFront s.gaps[a] sig hr (if cut then NewFrame.cutAt ⟨data, offset,
    offset + data.length, false⟩ pos else ⟨data, offset, offset + data.length, false⟩) with
    ⟨fr, sE, adj⟩
  rcases hcb : cutBack s.gaps[b] s.gaps[a].End eig (decide (a = b)) adj fr with ⟨fr', eE, ins⟩
  have hfront := hs.front_spec (Nat.pos_of_ne_zero hlen) hmax hloc ha hrl hcf
  rw [push_found hlen hl hrl hcf hcb] at h
  by_cases hab : a = b
  · subst hab
    rw [if_pos rfl, Option.some.injEq] at h
    rw [decide_eq_true rfl] at hcb
    exact ⟨_, _, _, _, hs.back_spec_eq hloc ha hfront hcb, h.symm⟩
  · rw [if_neg hab] at h
    obtain ⟨d, hd, h⟩ := Option.bind_eq_some_iff.mp h
    rw [Option.some.injEq] at h
    have hlt : a < b := lt_of_le_of_ne hloc.a_le_b hab
    obtain ⟨hsw, hq₁, hperm⟩ := hs.middle_spec hloc ha hb hlt hfront hd
    rw [decide_eq_false hab] at hcb
    exact ⟨_, _, _, _, hs.back_spec_lt hloc ha hb hlt hfront hsw hq₁ hperm hcb, h.symm⟩

/-- A `push` of a frame that reaches past `MaxByteCount` panics: no gap contains its end. -/
theorem Inv.push_eq_none {data : List UInt8} {offset : ℕ} {doneCb : Option Cb}
    (hlen : data.length ≠ 0) (hmax : MaxByteCount < offset + data.length) :
    FrameSorter.push s data offset doneCb = none := by
  have h0 : 0 < s.gaps.length := List.length_pos_of_ne_nil hs.gaps_ne_nil
  have hend : ∀ g ∈ s.gaps, g.Start < g.End ∧ g.End < offset + data.length := fun g hg =>
    ⟨hs.gap_nonempty g hg, by
      obtain ⟨i, hi, rfl⟩ := List.getElem_of_mem hg
      have := hs.gap_end_le_max hi
      omega⟩
  have hloc : locate s.gaps offset (offset + data.length) = none := by
    unfold locate
    simp only [bind, pure]
    rw [List.head?_eq_getElem?, List.getElem?_eq_getElem h0, Option.bind_some,
      if_neg (by have := hend _ (List.getElem_mem h0); omega)]
    cases hf : findStartGap s.gaps offset with
    | none => rfl
    | some ai =>
      rw [Option.bind_some, findEndGap, findEndGapFrom_eq_none fun g hg =>
        have := hend g (List.mem_of_mem_drop hg); ⟨this.1, Nat.le_of_lt this.2⟩]
      rfl
  simp [FrameSorter.push, hlen, hloc]

/-- **`push` does not panic** on a frame that ends before `MaxByteCount`. -/
theorem Inv.push_isSome {data : List UInt8} {offset : ℕ} {doneCb : Option Cb}
    (hmax : offset + data.length < MaxByteCount) :
    (FrameSorter.push s data offset doneCb).isSome := by
  by_cases hlen : data.length = 0
  · simp [FrameSorter.push, hlen]
  obtain ⟨l, hl⟩ := Option.isSome_iff_exists.mp
    (hs.locate_isSome (show offset < offset + data.length by omega) hmax)
  cases l with
  | duplicate => simp [FrameSorter.push, hlen, hl]
  | found a sig b eig sg eg =>
  obtain ⟨ha, hb, rfl, rfl, hloc⟩ := hs.locate_found (by omega) (Nat.le_of_lt hmax) hl
  cases hrl : replaceLoop (offset + data.length) s.queue offset false with
  | duplicate => simp [FrameSorter.push, hlen, hl, hrl]
  | done q pos hr cut rel =>
  rcases hcf : cutFront s.gaps[a] sig hr (if cut then NewFrame.cutAt ⟨data, offset,
    offset + data.length, false⟩ pos else ⟨data, offset, offset + data.length, false⟩) with
    ⟨fr, sE, adj⟩
  rcases hcb : cutBack s.gaps[b] s.gaps[a].End eig (decide (a = b)) adj fr with ⟨fr', eE, ins⟩
  rw [push_found hlen hl hrl hcf hcb]
  split
  · rfl
  · -- the middle phase is the only one that can fail, and it does not
    rename_i hab
    obtain ⟨d, hd⟩ := Option.isSome_iff_exists.mp
      (hs.deleteSwallowed_isSome hb (lt_of_le_of_ne hloc.a_le_b hab) s.gaps[a].End q)
    rw [hd]
    rfl

end Inv

end FrameSorter

end QuicGo
