import Mathlib.Data.Int.Notation
import QuicGo.Protocol
import QuicGo.Lib.Run

/-!
# QuicGo — the history of received packet numbers (`received_packet_history.go`)

`receivedPacketHistory` remembers which packet numbers were received, as a list of disjoint
ranges in increasing order, so that the ACK frames can be built from it and duplicates can be
rejected; everything below `deletedBelow` counts as received.

The loops of `addToRanges` and `IsPotentiallyDuplicate` walk the ranges from the last one
towards the first; the model runs them on the reversed list (`addToRangesRev`,
`isPotentiallyDuplicateRev`), where "the range before" is the next element. The packet numbers
are `ℤ` (`protocol.PacketNumber` is an `int64`, and `p - 1` is computed for `p = 0`).

The bricks:

* `Wf` — the ranges are non-empty, increasing and not adjacent; `Covers` — a packet number is in
  one of them;
* `addToRangesRev_spec`, `isPotentiallyDuplicateRev_iff`, `covers_deleteBelowRanges` — the loops
  add a packet number, find one, and cut the ranges below one;
* `Remembers` — what the history counts as received; `ReceivedPacket` reports a packet new
  exactly when it is not remembered, and remembers it afterwards *unless it trims the oldest
  ranges*, which forgets them without raising `deletedBelow`.
-/

namespace QuicGo

namespace AckHandler

/-- `interval`: the packet numbers from `Start` to `End`, both included. -/
structure Interval where
  Start : ℤ
  End : ℤ
  deriving DecidableEq, Repr

/-- `receivedPacketHistory`. -/
structure ReceivedPacketHistory where
  ranges : List Interval
  deletedBelow : ℤ
  deriving DecidableEq, Repr

/-- `newReceivedPacketHistory`. -/
def newReceivedPacketHistory : ReceivedPacketHistory := ⟨[], 0⟩

/-- The loop of `addToRanges` (lines 49-76) on the ranges read from the last one: `p` is in the
range, extends it at its end, extends it at its start (merging it with the range before when
they meet), or comes after it; otherwise the loop goes on with the range before, and after the
first range it creates a new range at the beginning. -/
def addToRangesRev (p : ℤ) : List Interval → List Interval × Bool
  | [] => ([⟨p, p⟩], true)
  | r :: rest =>
    if p ≥ r.Start ∧ p ≤ r.End then (r :: rest, false)
    else if r.End = p - 1 then ({ r with End := p } :: rest, true)
    else if r.Start = p + 1 then
      match rest with
      | prev :: rest' =>
        if prev.End + 1 = p then ({ prev with End := r.End } :: rest', true)
        else ({ r with Start := p } :: prev :: rest', true)
      | [] => ([{ r with Start := p }], true)
    else if p > r.End then (⟨p, p⟩ :: r :: rest, true)
    else
      let res := addToRangesRev p rest
      (r :: res.1, res.2)

/-- `receivedPacketHistory.addToRanges`: the new ranges, and whether `p` is new. -/
def addToRanges (ranges : List Interval) (p : ℤ) : List Interval × Bool :=
  if ranges.length = 0 then (ranges ++ [⟨p, p⟩], true)
  else
    let res := addToRangesRev p ranges.reverse
    (res.1.reverse, res.2)

/-- `receivedPacketHistory.ReceivedPacket`: a packet below `deletedBelow` is not new; otherwise
it is added, and the oldest ranges are deleted when there are more than `MaxNumAckRanges`. -/
def ReceivedPacket (h : ReceivedPacketHistory) (p : ℤ) : ReceivedPacketHistory × Bool :=
  if p < h.deletedBelow then (h, false)
  else
    let res := addToRanges h.ranges p
    let ranges := if res.1.length > MaxNumAckRanges then
      res.1.drop (res.1.length - MaxNumAckRanges) else res.1
    ({ h with ranges := ranges }, res.2)

/-- The loop of `DeleteBelow` (lines 99-112): the ranges that end below `p` are deleted, and
the first one that does not is cut to start at `p`. -/
def deleteBelowRanges (p : ℤ) : List Interval → List Interval
  | [] => []
  | r :: rs =>
    if r.End < p then deleteBelowRanges p rs
    else if p > r.Start ∧ p ≤ r.End then { r with Start := p } :: rs
    else r :: rs

/-- `receivedPacketHistory.DeleteBelow`. -/
def DeleteBelow (h : ReceivedPacketHistory) (p : ℤ) : ReceivedPacketHistory :=
  if p < h.deletedBelow then h
  else ⟨deleteBelowRanges p h.ranges, p⟩

/-- The loop of `IsPotentiallyDuplicate` (lines 132-139) on the ranges read from the last one. -/
def isPotentiallyDuplicateRev (p : ℤ) : List Interval → Bool
  | [] => false
  | r :: rest =>
    if p > r.End then false
    else if p ≤ r.End ∧ p ≥ r.Start then true
    else isPotentiallyDuplicateRev p rest

/-- `receivedPacketHistory.IsPotentiallyDuplicate`. -/
def IsPotentiallyDuplicate (h : ReceivedPacketHistory) (p : ℤ) : Bool :=
  decide (p < h.deletedBelow) || isPotentiallyDuplicateRev p h.ranges.reverse

/-! ## Ranges -/

/-- `p` is in one of the ranges. -/
def Covers (l : List Interval) (p : ℤ) : Prop :=
  ∃ r ∈ l, r.Start ≤ p ∧ p ≤ r.End

/-- The ranges are non-empty, increasing, and there is a packet number missing between any
two of them. -/
structure Wf (l : List Interval) : Prop where
  nonempty : ∀ r ∈ l, r.Start ≤ r.End
  sorted : l.Pairwise fun a b => a.End + 1 < b.Start

/-- The same, for the ranges read from the last one. -/
structure WfRev (l : List Interval) : Prop where
  nonempty : ∀ r ∈ l, r.Start ≤ r.End
  sorted : l.Pairwise fun a b => b.End + 1 < a.Start

theorem wf_iff_wfRev (l : List Interval) : Wf l ↔ WfRev l.reverse := by
  constructor
  · rintro ⟨h₁, h₂⟩
    exact ⟨fun r hr => h₁ r (List.mem_reverse.mp hr), List.pairwise_reverse.mpr h₂⟩
  · rintro ⟨h₁, h₂⟩
    exact ⟨fun r hr => h₁ r (List.mem_reverse.mpr hr), List.pairwise_reverse.mp h₂⟩

@[simp] theorem covers_nil (p : ℤ) : ¬Covers [] p := by
  simp [Covers]

@[simp] theorem covers_cons (r : Interval) (l : List Interval) (p : ℤ) :
    Covers (r :: l) p ↔ (r.Start ≤ p ∧ p ≤ r.End) ∨ Covers l p := by
  simp [Covers]

@[simp] theorem covers_reverse (l : List Interval) (p : ℤ) : Covers l.reverse p ↔ Covers l p := by
  simp [Covers]

theorem WfRev.cons {r : Interval} {l : List Interval} (h : WfRev (r :: l)) : WfRev l :=
  ⟨fun x hx => h.nonempty x (by simp [hx]), (List.pairwise_cons.mp h.sorted).2⟩

/-- Below the first range read from the last one lie all the others. -/
theorem WfRev.not_covers_of_lt {r : Interval} {l : List Interval} (h : WfRev (r :: l)) {p : ℤ}
    (hp : r.Start ≤ p + 1) : ¬Covers l p := by
  rintro ⟨x, hx, -, h₂⟩
  have := (List.pairwise_cons.mp h.sorted).1 x hx
  omega

theorem Wf.cons {r : Interval} {l : List Interval} (h : Wf (r :: l)) : Wf l :=
  ⟨fun x hx => h.nonempty x (by simp [hx]), (List.pairwise_cons.mp h.sorted).2⟩

theorem Wf.head {r : Interval} {l : List Interval} (h : Wf (r :: l)) : r.Start ≤ r.End :=
  h.nonempty r (by simp)

/-- Above the first range lie all the others. -/
theorem Wf.above {r : Interval} {l : List Interval} (h : Wf (r :: l)) {b : Interval}
    (hb : b ∈ l) : r.End + 1 < b.Start :=
  (List.pairwise_cons.mp h.sorted).1 b hb

theorem Wf.drop {l : List Interval} (h : Wf l) (n : ℕ) : Wf (l.drop n) :=
  ⟨fun r hr => h.nonempty r (List.mem_of_mem_drop hr), h.sorted.sublist (List.drop_sublist n l)⟩

theorem covers_of_covers_drop {l : List Interval} {n : ℕ} {p : ℤ} (h : Covers (l.drop n) p) :
    Covers l p :=
  let ⟨r, hr, hp⟩ := h
  ⟨r, List.mem_of_mem_drop hr, hp⟩

theorem WfRev.cons_of {r : Interval} {l : List Interval} (hr : r.Start ≤ r.End)
    (hbelow : ∀ b ∈ l, b.End + 1 < r.Start) (hl : WfRev l) : WfRev (r :: l) := by
  refine ⟨fun b hb => ?_, List.Pairwise.cons hbelow hl.sorted⟩
  rcases List.mem_cons.mp hb with rfl | hb
  · exact hr
  · exact hl.nonempty b hb

theorem WfRev.below {r : Interval} {l : List Interval} (h : WfRev (r :: l)) {b : Interval}
    (hb : b ∈ l) : b.End + 1 < r.Start :=
  (List.pairwise_cons.mp h.sorted).1 b hb

theorem WfRev.head {r : Interval} {l : List Interval} (h : WfRev (r :: l)) : r.Start ≤ r.End :=
  h.nonempty r (by simp)

/-! ## `addToRanges` -/

section AddToRangesRev

-- `simp` runs the loop one step on ranges it can see: each lemma below is an induction on them
attribute [local simp] addToRangesRev

theorem covers_addToRangesRev (p : ℤ) {l : List Interval} (hl : ∀ r ∈ l, r.Start ≤ r.End) (q : ℤ) :
    Covers (addToRangesRev p l).1 q ↔ Covers l q ∨ q = p := by
  induction l with
  | nil => simp; grind
  | cons r rest ih =>
    have hr := hl r (by simp)
    simp only [addToRangesRev]
    split_ifs with h₁ h₂ h₃ h₄
    · simp only [covers_cons]; grind
    · simp only [covers_cons]; grind
    · rcases rest with _ | ⟨prev, rest'⟩
      · simp only [covers_cons, covers_nil]; grind
      · have hprev := hl prev (by simp)
        simp only
        split_ifs
        · simp only [covers_cons]; grind
        · simp only [covers_cons]; grind
    · simp only [covers_cons]; grind
    · simp only [covers_cons, ih (fun b hb => hl b (by simp [hb]))]; grind

theorem addToRangesRev_snd (p : ℤ) {l : List Interval} (hl : WfRev l) :
    (addToRangesRev p l).2 = true ↔ ¬Covers l p := by
  induction l with
  | nil => simp
  | cons r rest ih =>
    have hr := hl.nonempty r (by simp)
    have hbelow : r.Start ≤ p + 1 → ¬Covers rest p := hl.not_covers_of_lt
    simp only [addToRangesRev]
    split_ifs with h₁ h₂ h₃ h₄
    · simp only [covers_cons] at hbelow ⊢; grind
    · simp only [covers_cons] at hbelow ⊢; grind
    · rcases rest with _ | ⟨prev, rest'⟩
      · simp only [covers_cons, covers_nil] at hbelow ⊢; grind
      · simp only
        split_ifs
        · simp only [covers_cons] at hbelow ⊢; grind
        · simp only [covers_cons] at hbelow ⊢; grind
    · simp only [covers_cons] at hbelow ⊢; grind
    · simp only [covers_cons, ih hl.cons]; grind

/-- A packet number the ranges hold leaves them as they are. -/
theorem addToRangesRev_fst_of_covers (p : ℤ) {l : List Interval} (hl : WfRev l)
    (hp : Covers l p) : (addToRangesRev p l).1 = l := by
  induction l with
  | nil => simp at hp
  | cons r rest ih =>
    have hr := hl.nonempty r (by simp)
    have hbelow : r.Start ≤ p + 1 → ¬Covers rest p := hl.not_covers_of_lt
    simp only [covers_cons] at hp
    simp only [addToRangesRev]
    split_ifs with h₁ h₂ h₃ h₄
    · rfl
    -- in the three branches that change the ranges, `p` is next to or above the range, and
    -- all the other ranges lie below it
    · exfalso; grind
    · exfalso; grind
    · exfalso; grind
    · rw [ih hl.cons (by grind)]

/-- The loop of `addToRanges` gives no range a new end other than `p`. -/
theorem addToRangesRev_end (p : ℤ) (l : List Interval) :
    ∀ b ∈ (addToRangesRev p l).1, b.End = p ∨ ∃ b' ∈ l, b'.End = b.End := by
  induction l with
  | nil => simp
  | cons r rest ih =>
    simp only [addToRangesRev]
    split_ifs with h₁ h₂ h₃ h₄
    · grind
    · grind
    · rcases rest with _ | ⟨prev, rest'⟩
      · grind
      · simp only
        split_ifs <;> grind
    · grind
    · grind

theorem addToRangesRev_wfRev (p : ℤ) {l : List Interval} (hl : WfRev l) :
    WfRev (addToRangesRev p l).1 := by
  induction l with
  | nil => exact WfRev.cons_of (Int.le_refl _) (by simp) ⟨by simp, by simp⟩
  | cons r rest ih =>
    have hr := hl.head
    simp only [addToRangesRev]
    split_ifs with h₁ h₂ h₃ h₄
    · exact hl
    · -- `p` extends the range at its end
      exact WfRev.cons_of (show r.Start ≤ p by omega) (fun b hb => hl.below hb) hl.cons
    · rcases rest with _ | ⟨prev, rest'⟩
      · exact WfRev.cons_of (show p ≤ r.End by omega) (by simp) hl.cons
      · have hprev := hl.cons.head
        have hprev_lt := hl.below (b := prev) (by simp)
        simp only
        split_ifs with h₅
        · -- `p` closes the gap between the range and the one before: they merge
          exact WfRev.cons_of (show prev.Start ≤ r.End by omega) (fun b hb => hl.cons.below hb)
            hl.cons.cons
        · refine WfRev.cons_of (show p ≤ r.End by omega) (fun b hb => ?_) hl.cons
          rcases List.mem_cons.mp hb with rfl | hb
          · show b.End + 1 < p
            omega
          · have := hl.cons.below hb
            show b.End + 1 < p
            omega
    · -- `p` comes after the range
      refine WfRev.cons_of (Int.le_refl _) (fun b hb => ?_) hl
      rcases List.mem_cons.mp hb with rfl | hb
      · show b.End + 1 < p
        omega
      · have := hl.below hb
        show b.End + 1 < p
        omega
    · -- the loop goes on with the range before
      refine WfRev.cons_of hr (fun b hb => ?_) (ih hl.cons)
      rcases addToRangesRev_end p rest b hb with h | ⟨b', hb', hend⟩
      · omega
      · have := hl.below hb'
        omega

theorem length_addToRangesRev (p : ℤ) (l : List Interval) :
    (addToRangesRev p l).1.length ≤ l.length + 1 := by
  induction l with
  | nil => simp
  | cons r rest ih =>
    simp only [addToRangesRev]
    split_ifs
    · simp
    · simp
    · rcases rest with _ | ⟨prev, rest'⟩
      · simp
      · simp only
        split_ifs <;> simp
    · simp
    · simpa using ih

end AddToRangesRev

/-- The branch of `addToRanges` for empty ranges does what the loop would do. -/
theorem addToRanges_eq (l : List Interval) (p : ℤ) :
    addToRanges l p = ((addToRangesRev p l.reverse).1.reverse, (addToRangesRev p l.reverse).2) := by
  unfold addToRanges
  split
  · rename_i hl
    rw [List.length_eq_zero_iff.mp hl]
    rfl
  · rfl

theorem addToRanges_fst_of_covers (p : ℤ) {l : List Interval} (hl : Wf l) (hp : Covers l p) :
    (addToRanges l p).1 = l := by
  rw [addToRanges_eq, addToRangesRev_fst_of_covers p ((wf_iff_wfRev l).mp hl)
    ((covers_reverse l p).mpr hp), List.reverse_reverse]

theorem wf_addToRanges (p : ℤ) {l : List Interval} (hl : Wf l) : Wf (addToRanges l p).1 := by
  rw [addToRanges_eq, wf_iff_wfRev, List.reverse_reverse]
  exact addToRangesRev_wfRev p ((wf_iff_wfRev l).mp hl)

theorem covers_addToRanges (p : ℤ) {l : List Interval} (hl : Wf l) (q : ℤ) :
    Covers (addToRanges l p).1 q ↔ Covers l q ∨ q = p := by
  rw [addToRanges_eq, covers_reverse,
    covers_addToRangesRev p (fun r hr => hl.nonempty r (List.mem_reverse.mp hr)), covers_reverse]

theorem addToRanges_snd (p : ℤ) {l : List Interval} (hl : Wf l) :
    (addToRanges l p).2 = true ↔ ¬Covers l p := by
  rw [addToRanges_eq, addToRangesRev_snd p ((wf_iff_wfRev l).mp hl), covers_reverse]

theorem length_addToRanges (p : ℤ) (l : List Interval) :
    (addToRanges l p).1.length ≤ l.length + 1 := by
  rw [addToRanges_eq, List.length_reverse]
  simpa using length_addToRangesRev p l.reverse

/-! ## `IsPotentiallyDuplicate` and `DeleteBelow` -/

/-- **The loop of `IsPotentiallyDuplicate`** finds exactly the packet numbers in the ranges: it
may stop at the first range that ends below `p`, since all the others lie below it. -/
theorem isPotentiallyDuplicateRev_iff (p : ℤ) {l : List Interval} (hl : WfRev l) :
    isPotentiallyDuplicateRev p l = true ↔ Covers l p := by
  induction l with
  | nil => simp [isPotentiallyDuplicateRev]
  | cons r rest ih =>
    have hbelow : r.Start ≤ p + 1 → ¬Covers rest p := hl.not_covers_of_lt
    have hr := hl.head
    simp only [isPotentiallyDuplicateRev]
    split_ifs with h₁ h₂
    · simp only [covers_cons] at hbelow ⊢
      grind
    · simp only [covers_cons] at hbelow ⊢
      grind
    · simp only [covers_cons, ih hl.cons]
      grind

/-- **The loop of `DeleteBelow`** removes exactly the packet numbers below `q`. -/
theorem covers_deleteBelowRanges (q : ℤ) {l : List Interval} (hl : Wf l) (x : ℤ) :
    Covers (deleteBelowRanges q l) x ↔ Covers l x ∧ q ≤ x := by
  induction l with
  | nil => simp [deleteBelowRanges]
  | cons r rs ih =>
    -- the ranges after `r` start above its end
    have habove : ∀ y, Covers rs y → r.End + 1 < y := fun y ⟨b, hb, hy⟩ => by
      have := hl.above hb
      omega
    have hr := hl.head
    simp only [deleteBelowRanges]
    split_ifs with h₁ h₂
    · rw [ih hl.cons, covers_cons]
      grind
    · rw [covers_cons, covers_cons]
      grind
    · rw [covers_cons]
      grind

theorem wf_deleteBelowRanges (q : ℤ) {l : List Interval} (hl : Wf l) :
    Wf (deleteBelowRanges q l) := by
  induction l with
  | nil => exact hl
  | cons r rs ih =>
    simp only [deleteBelowRanges]
    split_ifs with h₁ h₂
    · exact ih hl.cons
    · -- the range is cut to start at `q`, which keeps it non-empty and below the others
      refine ⟨fun b hb => ?_, List.Pairwise.cons (fun b hb => hl.above hb) hl.cons.sorted⟩
      rcases List.mem_cons.mp hb with rfl | hb
      · exact h₂.2
      · exact hl.cons.nonempty b hb
    · exact hl

theorem length_deleteBelowRanges (q : ℤ) (l : List Interval) :
    (deleteBelowRanges q l).length ≤ l.length := by
  induction l with
  | nil => simp [deleteBelowRanges]
  | cons r rs ih =>
    simp only [deleteBelowRanges]
    split_ifs
    · simp only [List.length_cons]
      omega
    · simp
    · simp

/-! ## What the history remembers -/

/-- The packet numbers the history counts as received: those below `deletedBelow` and those in
its ranges. -/
def Remembers (h : ReceivedPacketHistory) (p : ℤ) : Prop :=
  p < h.deletedBelow ∨ Covers h.ranges p

/-- The invariant of the history: its ranges are well formed, and there are at most
`MaxNumAckRanges` of them, as the comment on the field says. -/
structure Inv (h : ReceivedPacketHistory) : Prop where
  wf : Wf h.ranges
  length_le : h.ranges.length ≤ MaxNumAckRanges

theorem inv_newReceivedPacketHistory : Inv newReceivedPacketHistory :=
  ⟨⟨by simp [newReceivedPacketHistory], by simp [newReceivedPacketHistory]⟩,
    by simp [newReceivedPacketHistory]⟩

/-- `ReceivedPacket` unfolded, with the trimming of the oldest ranges as a `drop`. -/
theorem ReceivedPacket_eq (h : ReceivedPacketHistory) (p : ℤ) :
    ReceivedPacket h p =
      if p < h.deletedBelow then (h, false)
      else (⟨(addToRanges h.ranges p).1.drop
          ((addToRanges h.ranges p).1.length - MaxNumAckRanges), h.deletedBelow⟩,
        (addToRanges h.ranges p).2) := by
  unfold ReceivedPacket
  split
  · rfl
  · dsimp only
    split
    · rfl
    · rename_i hlen
      rw [Nat.sub_eq_zero_of_le (Nat.le_of_not_lt hlen), List.drop_zero]

theorem wf_ReceivedPacket {h : ReceivedPacketHistory} (hw : Wf h.ranges) (p : ℤ) :
    Wf (ReceivedPacket h p).1.ranges := by
  rw [ReceivedPacket_eq]
  split
  · exact hw
  · exact (wf_addToRanges p hw).drop _

theorem Inv.of_ReceivedPacket {h : ReceivedPacketHistory} (hi : Inv h) (p : ℤ) :
    Inv (ReceivedPacket h p).1 := by
  refine ⟨wf_ReceivedPacket hi.wf p, ?_⟩
  rw [ReceivedPacket_eq]
  split
  · exact hi.length_le
  · simp only [List.length_drop]
    omega

/-- **`ReceivedPacket` reports a packet new exactly when the history does not remember it.** -/
theorem ReceivedPacket_snd {h : ReceivedPacketHistory} (hw : Wf h.ranges) (p : ℤ) :
    (ReceivedPacket h p).2 = true ↔ ¬Remembers h p := by
  rw [ReceivedPacket_eq, Remembers]
  split
  · simp [*]
  · rw [addToRanges_snd p hw]
    simp [*]

/-- **A packet that is not new leaves the history as it is.** -/
theorem ReceivedPacket_fst_of_not_new {h : ReceivedPacketHistory} (hi : Inv h) {p : ℤ}
    (hn : (ReceivedPacket h p).2 = false) : (ReceivedPacket h p).1 = h := by
  by_cases hlt : p < h.deletedBelow
  · rw [ReceivedPacket_eq, if_pos hlt]
  · rw [ReceivedPacket_eq, if_neg hlt] at hn
    -- not new, and not below `deletedBelow`: a range holds `p`
    have hcov : Covers h.ranges p := by
      by_contra hc
      have := (addToRanges_snd p hi.wf).mpr hc
      simp [this] at hn
    rw [ReceivedPacket_eq, if_neg hlt, addToRanges_fst_of_covers p hi.wf hcov,
      Nat.sub_eq_zero_of_le hi.length_le, List.drop_zero]

/-- Afterwards it remembers nothing it did not remember before, apart from `p`. -/
theorem remembers_of_ReceivedPacket {h : ReceivedPacketHistory} (hw : Wf h.ranges) {p q : ℤ}
    (hq : Remembers (ReceivedPacket h p).1 q) : Remembers h q ∨ q = p := by
  rw [ReceivedPacket_eq] at hq
  split at hq
  · exact .inl hq
  · rcases hq with hq | hq
    · exact .inl (.inl hq)
    · rcases (covers_addToRanges p hw q).mp (covers_of_covers_drop hq) with hq | hq
      · exact .inl (.inr hq)
      · exact .inr hq

/-- **While there is room for one more range**, `ReceivedPacket` trims nothing: afterwards the
history remembers what it remembered and `p`. -/
theorem remembers_ReceivedPacket {h : ReceivedPacketHistory} (hw : Wf h.ranges)
    (hlen : h.ranges.length < MaxNumAckRanges) (p q : ℤ) :
    Remembers (ReceivedPacket h p).1 q ↔ Remembers h q ∨ q = p := by
  refine ⟨remembers_of_ReceivedPacket hw, fun hq => ?_⟩
  rw [ReceivedPacket_eq]
  split
  · rcases hq with hq | rfl
    · exact hq
    · exact .inl ‹_›
  · have hdrop : (addToRanges h.ranges p).1.length - MaxNumAckRanges = 0 := by
      have := length_addToRanges p h.ranges
      omega
    rw [Remembers, hdrop, List.drop_zero, covers_addToRanges p hw]
    rcases hq with (hq | hq) | hq
    · exact .inl hq
    · exact .inr (.inl hq)
    · exact .inr (.inr hq)

theorem length_ReceivedPacket (h : ReceivedPacketHistory) (p : ℤ) :
    (ReceivedPacket h p).1.ranges.length ≤ h.ranges.length + 1 := by
  rw [ReceivedPacket_eq]
  split
  · exact Nat.le_succ _
  · have := length_addToRanges p h.ranges
    simp only [List.length_drop]
    omega

theorem wf_DeleteBelow {h : ReceivedPacketHistory} (hw : Wf h.ranges) (q : ℤ) :
    Wf (DeleteBelow h q).ranges := by
  unfold DeleteBelow
  split
  · exact hw
  · exact wf_deleteBelowRanges q hw

/-- **`DeleteBelow` forgets nothing**: it only adds the packet numbers below `q`. -/
theorem remembers_DeleteBelow {h : ReceivedPacketHistory} (hw : Wf h.ranges) (q x : ℤ) :
    Remembers (DeleteBelow h q) x ↔ Remembers h x ∨ x < q := by
  unfold DeleteBelow Remembers
  split
  · grind
  · rw [covers_deleteBelowRanges q hw]
    grind

theorem length_DeleteBelow (h : ReceivedPacketHistory) (q : ℤ) :
    (DeleteBelow h q).ranges.length ≤ h.ranges.length := by
  unfold DeleteBelow
  split
  · exact Nat.le_refl _
  · exact length_deleteBelowRanges q h.ranges

theorem Inv.of_DeleteBelow {h : ReceivedPacketHistory} (hi : Inv h) (q : ℤ) :
    Inv (DeleteBelow h q) :=
  ⟨wf_DeleteBelow hi.wf q, Nat.le_trans (length_DeleteBelow h q) hi.length_le⟩

/-- **`IsPotentiallyDuplicate` holds exactly of what the history remembers.** -/
theorem IsPotentiallyDuplicate_iff {h : ReceivedPacketHistory} (hw : Wf h.ranges) (p : ℤ) :
    IsPotentiallyDuplicate h p = true ↔ Remembers h p := by
  rw [IsPotentiallyDuplicate, Bool.or_eq_true, decide_eq_true_iff,
    isPotentiallyDuplicateRev_iff p ((wf_iff_wfRev _).mp hw), covers_reverse, Remembers]

end AckHandler

end QuicGo
