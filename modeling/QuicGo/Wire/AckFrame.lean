import Mathlib.Data.Int.Notation
import Mathlib.Data.List.Chain
import QuicGo.Lib.Search

/-!
# QuicGo — the ranges of an ACK frame (`internal/wire/ack_frame.go`)

An ACK frame lists the acknowledged packet numbers as ranges from the largest down. The
receiver of an ACK frame checks the ranges with `validateAckRanges`: there is one, each range is
non-empty, and each one lies below the one before it with at least one packet number missing
in between. `AcksPacket` looks a packet number up in the ranges with Go's `sort.Search`; on
ranges that pass the check it says whether one of them holds it (`AcksPacket_eq`).

Left out: the frame's `DelayTime` and ECN counts, which `validateAckRanges` does not read.
-/

namespace QuicGo

namespace Wire

/-- `wire.AckRange`: the packet numbers from `Smallest` to `Largest`. -/
structure AckRange where
  Smallest : ℤ
  Largest : ℤ
  deriving DecidableEq, Repr

/-- `wire.AckFrame`, with its ranges. -/
structure AckFrame where
  AckRanges : List AckRange
  deriving DecidableEq, Repr

/-- The second loop of `validateAckRanges`: every range against the one before it. -/
def rangesConsistent : List AckRange → Bool
  | lastAckRange :: ackRange :: rest =>
    !decide (lastAckRange.Smallest ≤ ackRange.Smallest) &&
      !decide (lastAckRange.Smallest ≤ ackRange.Largest + 1) &&
      rangesConsistent (ackRange :: rest)
  | _ => true

/-- `AckFrame.validateAckRanges`. -/
def AckFrame.validateAckRanges (f : AckFrame) : Bool :=
  if f.AckRanges.length = 0 then false
  else if f.AckRanges.any fun ackRange => decide (ackRange.Smallest > ackRange.Largest) then false
  else rangesConsistent f.AckRanges

/-- A range lies below the one before it, with a packet number missing in between. -/
def Below (lastAckRange ackRange : AckRange) : Prop :=
  ackRange.Smallest < lastAckRange.Smallest ∧ ackRange.Largest + 1 < lastAckRange.Smallest

theorem rangesConsistent_iff (l : List AckRange) :
    rangesConsistent l = true ↔ l.IsChain Below := by
  induction l using rangesConsistent.induct with
  | case1 lastAckRange ackRange rest ih =>
    simp only [rangesConsistent, Bool.and_eq_true, Bool.not_eq_true', decide_eq_false_iff_not,
      Int.not_le, ih, List.isChain_cons_cons, Below]
  | case2 l hl =>
    match l, hl with
    | [], _ => simp [rangesConsistent]
    | [_], _ => simp [rangesConsistent]
    | _ :: _ :: _, hl => exact absurd rfl (hl _ _ _)

/-- **What `validateAckRanges` accepts**: at least one range, every range non-empty, and every
range below the one before it, with a gap. -/
theorem validateAckRanges_iff (f : AckFrame) :
    f.validateAckRanges = true ↔ f.AckRanges ≠ [] ∧
      (∀ r ∈ f.AckRanges, r.Smallest ≤ r.Largest) ∧ f.AckRanges.IsChain Below := by
  unfold AckFrame.validateAckRanges
  rw [← rangesConsistent_iff]
  by_cases h₁ : f.AckRanges.length = 0
  · rw [if_pos h₁]
    simp [List.length_eq_zero_iff.mp h₁]
  rw [if_neg h₁]
  by_cases h₂ : (f.AckRanges.any fun ackRange => decide (ackRange.Smallest > ackRange.Largest)) = true
  · -- an empty range
    rw [if_pos h₂]
    obtain ⟨r, hr, hlt⟩ := List.any_eq_true.mp h₂
    simp only [decide_eq_true_eq] at hlt
    simp only [Bool.false_eq_true, false_iff, not_and]
    exact fun _ hle => absurd (hle r hr) (by omega)
  · rw [if_neg h₂]
    simp only [List.any_eq_true, decide_eq_true_eq, not_exists, not_and, Int.not_lt] at h₂
    have hne : f.AckRanges ≠ [] := fun h => h₁ (by rw [h]; rfl)
    exact ⟨fun h => ⟨hne, h₂, h⟩, fun h => h.2.2⟩

/-! ## Looking up a packet number -/

/-- `AckRange.Len`. -/
def AckRange.Len (r : AckRange) : ℤ := r.Largest - r.Smallest + 1

/-- `AckFrame.LargestAcked`; `none` where Go indexes an empty slice and panics. -/
def AckFrame.LargestAcked (f : AckFrame) : Option ℤ := f.AckRanges[0]?.map (·.Largest)

/-- `AckFrame.LowestAcked`; `none` where Go indexes an empty slice and panics. -/
def AckFrame.LowestAcked (f : AckFrame) : Option ℤ := f.AckRanges.getLast?.map (·.Smallest)

/-- `AckFrame.HasMissingRanges`: more than one range, so some packet number between the lowest and
the largest one is missing. -/
def AckFrame.HasMissingRanges (f : AckFrame) : Bool := f.AckRanges.length > 1

/-- `AckFrame.AcksPacket`: the first range whose `Smallest` is at most `p`, found by
`sort.Search`, must reach up to `p`. `none` where Go panics. -/
def AckFrame.AcksPacket (f : AckFrame) (p : ℤ) : Option Bool := do
  -- `p < f.LowestAcked() || p > f.LargestAcked()`, evaluated from the left
  let lowestAcked ← f.LowestAcked
  if p < lowestAcked then return false
  let largestAcked ← f.LargestAcked
  if p > largestAcked then return false
  let i := Search.search (fun i => f.AckRanges[i]?.any fun r => decide (p ≥ r.Smallest)) 0
    f.AckRanges.length
  let r ← f.AckRanges[i]?
  return decide (p ≤ r.Largest)

/-- `AcksPacket` of a number below the lowest acknowledged one. -/
theorem AckFrame.AcksPacket_of_lt {f : AckFrame} {lowestAcked p : ℤ}
    (hlow : f.LowestAcked = some lowestAcked) (hlt : p < lowestAcked) : f.AcksPacket p = some false := by
  simp [AckFrame.AcksPacket, hlow, hlt]

/-- `AcksPacket` of a number above the largest acknowledged one. -/
theorem AckFrame.AcksPacket_of_gt {f : AckFrame} {lowestAcked largestAcked p : ℤ}
    (hlow : f.LowestAcked = some lowestAcked) (hlarge : f.LargestAcked = some largestAcked)
    (hgt : p > largestAcked) : f.AcksPacket p = some false := by
  simp [AckFrame.AcksPacket, hlow, hlarge, hgt]

/-- Non-empty ranges, each below the one before it with a gap, lie each above all the later
ones. -/
theorem pairwise_of_isChain {l : List AckRange} (hne : ∀ r ∈ l, r.Smallest ≤ r.Largest)
    (hchain : l.IsChain Below) : l.Pairwise fun a b => b.Largest + 1 < a.Smallest := by
  induction l with
  | nil => exact List.Pairwise.nil
  | cons a rest ih =>
    have hrest := ih (fun r hr => hne r (List.mem_cons_of_mem a hr)) hchain.tail
    refine List.pairwise_cons.mpr ⟨fun b hb => ?_, hrest⟩
    -- `b` is the range right after `a`, or lies below that one
    obtain ⟨c, rest', rfl⟩ := List.exists_cons_of_ne_nil (List.ne_nil_of_mem hb)
    have hac : c.Largest + 1 < a.Smallest := (List.isChain_cons_cons.mp hchain).1.2
    rcases List.mem_cons.mp hb with rfl | hb'
    · exact hac
    · have hbc := (List.pairwise_cons.mp hrest).1 b hb'
      have hc := hne c (by simp)
      omega

section Valid

variable {f : AckFrame} (hv : f.validateAckRanges = true)
include hv

/-- Along ranges that pass `validateAckRanges`, both ends decrease. -/
theorem le_of_validateAckRanges {i j : ℕ} (hij : i ≤ j) (hj : j < f.AckRanges.length) :
    f.AckRanges[j].Smallest ≤ f.AckRanges[i].Smallest ∧
      f.AckRanges[j].Largest ≤ f.AckRanges[i].Largest := by
  obtain ⟨-, hne, hchain⟩ := (validateAckRanges_iff f).mp hv
  rcases Nat.eq_or_lt_of_le hij with rfl | hlt
  · exact ⟨Int.le_refl _, Int.le_refl _⟩
  · have hgap := List.pairwise_iff_getElem.mp (pairwise_of_isChain hne hchain) i j
      (by omega) hj hlt
    have hi := hne _ (List.getElem_mem (n := i) (by omega))
    have hj' := hne _ (List.getElem_mem hj)
    omega

/-- **What `AcksPacket` computes.** On ranges that pass `validateAckRanges` it does not panic,
and it says whether one of the ranges holds `p`. -/
theorem AckFrame.AcksPacket_eq (p : ℤ) :
    f.AcksPacket p = some (decide (∃ r ∈ f.AckRanges, r.Smallest ≤ p ∧ p ≤ r.Largest)) := by
  obtain ⟨hne, hle, hchain⟩ := (validateAckRanges_iff f).mp hv
  have hn : 0 < f.AckRanges.length := List.length_pos_iff.mpr hne
  have hlow : f.LowestAcked = some f.AckRanges[f.AckRanges.length - 1].Smallest := by
    simp [AckFrame.LowestAcked, List.getLast?_eq_getElem?, List.getElem?_eq_getElem (by omega : f.AckRanges.length - 1 < f.AckRanges.length)]
  have hlarge : f.LargestAcked = some f.AckRanges[0].Largest := by
    simp [AckFrame.LargestAcked, List.getElem?_eq_getElem hn]
  unfold AckFrame.AcksPacket
  rw [hlow]
  simp only [Option.bind_eq_bind, Option.bind_some, hlarge]
  split_ifs with hlt hgt
  · -- below the last range, hence below all of them
    refine congrArg some (decide_eq_false ?_).symm
    rintro ⟨r, hr, h₁, -⟩
    obtain ⟨m, hm, rfl⟩ := List.mem_iff_getElem.mp hr
    have := (le_of_validateAckRanges hv (Nat.le_sub_one_of_lt hm) (by omega)).1
    omega
  · -- above the first range, hence above all of them
    refine congrArg some (decide_eq_false ?_).symm
    rintro ⟨r, hr, -, h₂⟩
    obtain ⟨m, hm, rfl⟩ := List.mem_iff_getElem.mp hr
    have := (le_of_validateAckRanges hv (Nat.zero_le m) hm).2
    omega
  · -- `sort.Search` stops at the first range that starts at or below `p`
    set g := fun (i : ℕ) => Option.any (fun (r : AckRange) => decide (p ≥ r.Smallest)) f.AckRanges[i]?
    have hg : ∀ i (hi : i < f.AckRanges.length), g i = decide (p ≥ f.AckRanges[i].Smallest) :=
      fun i hi => by simp [g, List.getElem?_eq_getElem hi]
    obtain ⟨-, hle', hat, hbelow⟩ := Search.search_spec g (Nat.zero_le f.AckRanges.length)
    set i := Search.search g 0 f.AckRanges.length
    have hi : i < f.AckRanges.length := by
      refine Nat.lt_of_le_of_ne hle' fun heq => ?_
      have hlast := hbelow (by omega)
      rw [heq, hg _ (by omega)] at hlast
      simp only [decide_eq_false_iff_not] at hlast
      omega
    have hsi : f.AckRanges[i].Smallest ≤ p := by
      simpa [hg i hi] using hat hi
    rw [List.getElem?_eq_getElem hi, Option.bind_some]
    refine congrArg some (decide_eq_decide.mpr ⟨fun h => ⟨_, List.getElem_mem hi, hsi, h⟩, ?_⟩)
    rintro ⟨r, hr, h₁, h₂⟩
    obtain ⟨m, hm, rfl⟩ := List.mem_iff_getElem.mp hr
    -- the range that holds `p` is the one the search found
    rcases Nat.lt_trichotomy m i with hmi | rfl | him
    · have hprev := hbelow (by omega)
      rw [hg _ (by omega)] at hprev
      simp only [decide_eq_false_iff_not] at hprev
      have := (le_of_validateAckRanges hv (Nat.le_sub_one_of_lt hmi) (by omega)).1
      omega
    · exact h₂
    · have hgap := List.pairwise_iff_getElem.mp (pairwise_of_isChain hle hchain) i m hi hm him
      omega

end Valid

end Wire

end QuicGo
