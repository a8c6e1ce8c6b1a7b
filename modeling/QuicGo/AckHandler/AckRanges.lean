import QuicGo.AckHandler.DuplicateDetection
import QuicGo.Wire.AckFrame

/-!
# QuicGo — the ACK ranges of the received packet history

`AppendAckRanges` hands the ranges of the history to an ACK frame, from the last one down.
Along every run of the history its ranges are well formed, lie at or above `deletedBelow` and
are at most `MaxNumAckRanges`, so the ACK frame they make passes `validateAckRanges`.

While no `ReceivedPacket` has to trim the ranges (the runs of `Machine.guard` with `Trims`
refused), they hold exactly the packet numbers at or above `deletedBelow` that were received
(`Tracks`). `ReceivedPacket` then reports a packet number new exactly when it is at or above
`deletedBelow` and was not received before: one below `deletedBelow` is reported not new even
on its first reception (`firstReception_below_deleted`).
-/

namespace QuicGo

namespace AckHandler

namespace ReceivedPacketHistory

open Wire

/-- `receivedPacketHistory.AppendAckRanges`: the loop from the last range down appends each
range to `ackRanges`. -/
def AppendAckRanges (h : ReceivedPacketHistory) (ackRanges : List AckRange) : List AckRange :=
  ackRanges ++ h.ranges.reverse.map fun r => ⟨r.Start, r.End⟩

/-- `receivedPacketHistory.GetHighestAckRange`: the last range, or the zero range if there is
none. -/
def GetHighestAckRange (h : ReceivedPacketHistory) : AckRange :=
  match h.ranges.getLast? with
  | some r => ⟨r.Start, r.End⟩
  | none => ⟨0, 0⟩

/-- The ACK ranges hold exactly the packet numbers that the ranges of the history hold. -/
theorem exists_AppendAckRanges_iff (h : ReceivedPacketHistory) (p : ℤ) :
    (∃ r ∈ h.AppendAckRanges [], r.Smallest ≤ p ∧ p ≤ r.Largest) ↔ Covers h.ranges p := by
  simp [AppendAckRanges, Covers]

/-- **Well-formed ranges make an ACK frame that passes `validateAckRanges`**, unless there are
none: read from the last one, each range lies above the next with a gap. -/
theorem validateAckRanges_AppendAckRanges {h : ReceivedPacketHistory} (hw : Wf h.ranges) :
    h.AppendAckRanges [] = [] ∨ (AckFrame.mk (h.AppendAckRanges [])).validateAckRanges = true := by
  cases hr : h.ranges with
  | nil => exact .inl (by simp [AppendAckRanges, hr])
  | cons r rs =>
    right
    have hrev := (wf_iff_wfRev _).mp hw
    rw [validateAckRanges_iff]
    refine ⟨by simp [AppendAckRanges, hr], fun a ha => ?_, ?_⟩
    · simp only [AppendAckRanges, List.nil_append, List.mem_map, List.mem_reverse] at ha
      obtain ⟨r', hr', rfl⟩ := ha
      exact hw.nonempty r' hr'
    · apply List.Pairwise.isChain
      simp only [AppendAckRanges, List.nil_append, List.pairwise_map]
      refine hrev.sorted.imp_of_mem fun _ hb hlt => ?_
      have := hrev.nonempty _ hb
      exact ⟨by dsimp only; omega, hlt⟩

/-! ## Every run -/

/-- Every packet number in the ranges is at or above `deletedBelow`. -/
def AboveDeleted (h : ReceivedPacketHistory) : Prop :=
  ∀ q, Covers h.ranges q → h.deletedBelow ≤ q

theorem aboveDeleted_newReceivedPacketHistory : AboveDeleted newReceivedPacketHistory :=
  fun _ ⟨_, hr, _⟩ => by cases hr

/-- `ReceivedPacket` adds a packet number only at or above `deletedBelow`. -/
theorem AboveDeleted.ReceivedPacket {h : ReceivedPacketHistory} (ha : AboveDeleted h)
    (hw : Wf h.ranges) (p : ℤ) : AboveDeleted (ReceivedPacket h p).1 := by
  intro q hq
  rw [ReceivedPacket_eq] at hq ⊢
  by_cases hp : p < h.deletedBelow
  · rw [if_pos hp] at hq ⊢
    exact ha q hq
  · rw [if_neg hp] at hq ⊢
    rcases (covers_addToRanges p hw q).mp (covers_of_covers_drop hq) with hq | rfl
    · exact ha q hq
    · exact Int.not_lt.mp hp

/-- `DeleteBelow` raises `deletedBelow` only together with the cut of the ranges. -/
theorem AboveDeleted.DeleteBelow {h : ReceivedPacketHistory} (ha : AboveDeleted h)
    (hw : Wf h.ranges) (q : ℤ) : AboveDeleted (DeleteBelow h q) := by
  intro x hx
  unfold AckHandler.DeleteBelow at hx ⊢
  by_cases hq : q < h.deletedBelow
  · rw [if_pos hq] at hx ⊢
    exact ha x hx
  · rw [if_neg hq] at hx ⊢
    exact ((covers_deleteBelowRanges q hw x).mp hx).2

/-- Every range starts at or above `deletedBelow`. -/
theorem AboveDeleted.start_ge {h : ReceivedPacketHistory} (ha : AboveDeleted h)
    (hw : Wf h.ranges) : ∀ r ∈ h.ranges, h.deletedBelow ≤ r.Start :=
  fun r hr => ha r.Start ⟨r, hr, Int.le_refl _, hw.nonempty r hr⟩

/-- In every reachable state the ranges are well formed, at or above `deletedBelow`, and at
most `MaxNumAckRanges`. -/
theorem inv_aboveDeleted_of_reachable {h : ReceivedPacketHistory}
    (hr : Machine.Reachable step newReceivedPacketHistory (fun _ => True) (fun _ => True) h) :
    Inv h ∧ AboveDeleted h := by
  refine Machine.Reachable.induction (fun h => Inv h ∧ AboveDeleted h)
    ⟨inv_newReceivedPacketHistory, aboveDeleted_newReceivedPacketHistory⟩ ?_ hr
  intro h c h' o ⟨hi, ha⟩ _ _ hstep
  cases c with
  | receivedPacket p =>
    cases hstep
    exact ⟨hi.of_ReceivedPacket p, ha.ReceivedPacket hi.wf p⟩
  | deleteBelow p =>
    cases hstep
    exact ⟨hi.of_DeleteBelow p, ha.DeleteBelow hi.wf p⟩
  | isPotentiallyDuplicate p =>
    cases hstep
    exact ⟨hi, ha⟩

/-! ## Runs that trim nothing -/

/-- `ReceivedPacket p` would trim the oldest ranges: `p` is not below `deletedBelow`, and adding
it makes more than `MaxNumAckRanges` ranges. -/
def Call.Trims (h : ReceivedPacketHistory) : Call → Prop
  | .receivedPacket p => h.deletedBelow ≤ p ∧ MaxNumAckRanges < (addToRanges h.ranges p).1.length
  | _ => False

instance (h : ReceivedPacketHistory) : DecidablePred (Call.Trims h) := fun c =>
  match c with
  | .receivedPacket p => inferInstanceAs
    (Decidable (h.deletedBelow ≤ p ∧ MaxNumAckRanges < (addToRanges h.ranges p).1.length))
  | .deleteBelow _ => inferInstanceAs (Decidable False)
  | .isPotentiallyDuplicate _ => inferInstanceAs (Decidable False)

/-- The ranges hold exactly the packet numbers at or above `deletedBelow` that the calls passed
to `ReceivedPacket`. -/
def Tracks (calls : List Call) (h : ReceivedPacketHistory) : Prop :=
  ∀ q, Covers h.ranges q ↔ h.deletedBelow ≤ q ∧ Call.receivedPacket q ∈ calls

theorem tracks_newReceivedPacketHistory : Tracks [] newReceivedPacketHistory := fun q => by
  simp [Covers, newReceivedPacketHistory]

/-- A `ReceivedPacket` that trims nothing adds its packet number to the ranges. -/
theorem ReceivedPacket_of_not_trims {h : ReceivedPacketHistory} {p : ℤ}
    (hnt : ¬(Call.receivedPacket p).Trims h) (hp : h.deletedBelow ≤ p) :
    (ReceivedPacket h p).1 = ⟨(addToRanges h.ranges p).1, h.deletedBelow⟩ := by
  have hlen : (addToRanges h.ranges p).1.length - MaxNumAckRanges = 0 := by
    simp only [Call.Trims, not_and, Nat.not_lt] at hnt
    have := hnt hp
    omega
  rw [ReceivedPacket_eq, if_neg (Int.not_lt.mpr hp)]
  simp only [hlen, List.drop_zero]

/-- **A call that trims nothing keeps track of the packet numbers received.** -/
theorem Tracks.step {calls : List Call} {h h' : ReceivedPacketHistory} {c : Call} {o : Output}
    (ht : Tracks calls h) (hw : Wf h.ranges) (hnt : ¬c.Trims h) (hstep : step h c = some (h', o)) :
    Tracks (calls ++ [c]) h' := by
  cases c with
  | receivedPacket p =>
    cases hstep
    intro q
    by_cases hp : h.deletedBelow ≤ p
    · -- `p` goes into the ranges
      rw [ReceivedPacket_of_not_trims hnt hp]
      show Covers (addToRanges h.ranges p).1 q ↔ _
      rw [covers_addToRanges p hw, ht q]
      simp only [List.mem_append, List.mem_singleton, Call.receivedPacket.injEq]
      constructor
      · rintro (⟨hq, hmem⟩ | rfl)
        · exact ⟨hq, .inl hmem⟩
        · exact ⟨hp, .inr rfl⟩
      · rintro ⟨hq, hmem | rfl⟩
        · exact .inl ⟨hq, hmem⟩
        · exact .inr rfl
    · -- a packet number below `deletedBelow` is ignored
      rw [ReceivedPacket_eq, if_pos (Int.lt_of_not_ge hp), ht q]
      simp only [List.mem_append, List.mem_singleton, Call.receivedPacket.injEq]
      constructor
      · rintro ⟨hq, hmem⟩
        exact ⟨hq, .inl hmem⟩
      · rintro ⟨hq, hmem | rfl⟩
        · exact ⟨hq, hmem⟩
        · exact absurd hq hp
  | deleteBelow p =>
    cases hstep
    intro x
    have hcalls : Call.receivedPacket x ∈ calls ++ [.deleteBelow p] ↔
        Call.receivedPacket x ∈ calls := by simp
    rw [hcalls]
    unfold AckHandler.DeleteBelow
    split
    · exact ht x
    · -- the ranges are cut at the new `deletedBelow`, which is above the old one
      rename_i hp
      show Covers (deleteBelowRanges p h.ranges) x ↔ p ≤ x ∧ _
      rw [covers_deleteBelowRanges p hw, ht x]
      constructor
      · rintro ⟨⟨-, hmem⟩, hx⟩
        exact ⟨hx, hmem⟩
      · rintro ⟨hx, hmem⟩
        exact ⟨⟨by omega, hmem⟩, hx⟩
  | isPotentiallyDuplicate p =>
    cases hstep
    intro q
    rw [ht q]
    simp

/-- Along every run that trims nothing the ranges stay well formed and keep track of the
packet numbers received. -/
theorem tracks_of_run {calls : List Call} {s : ReceivedPacketHistory} {outs : List Output}
    (hrun : Machine.run (Machine.guard (fun h c => ¬c.Trims h) step) newReceivedPacketHistory
      calls = some (s, outs)) : Wf s.ranges ∧ Tracks calls s := by
  have := Machine.run_induction_of (fun _ => True) (fun _ => True)
    (fun h calls _ => Wf h.ranges ∧ Tracks calls h)
    (fun h _ _ c h' o ⟨hw, ht⟩ _ _ hstep => by
      obtain ⟨hnt, hstep⟩ := Machine.guard_eq_some.mp hstep
      refine ⟨?_, ht.step hw hnt hstep⟩
      cases c with
      | receivedPacket p =>
        cases hstep
        exact wf_ReceivedPacket hw p
      | deleteBelow p =>
        cases hstep
        exact wf_DeleteBelow hw p
      | isPotentiallyDuplicate p =>
        cases hstep
        exact hw)
    [] [] ⟨inv_newReceivedPacketHistory.wf, tracks_newReceivedPacketHistory⟩
    (fun _ _ => trivial) (fun _ _ => trivial) hrun
  simpa using this

/-- **The received packet history and its ACK ranges.** In every reachable state the ranges are
well formed (non-empty, increasing, with a packet number missing between two of them), start
at or above `deletedBelow` and are at most `MaxNumAckRanges`, so `AppendAckRanges` makes an
ACK frame that passes `validateAckRanges` or has no range. After a run that trims nothing, the
ranges hold exactly the packet numbers at or above `deletedBelow` that were received, and
`ReceivedPacket` reports new exactly the packet numbers at or above `deletedBelow` not received
before. -/
theorem ackRanges_valid :
    (∀ h, Machine.Reachable step newReceivedPacketHistory (fun _ => True) (fun _ => True) h →
      Wf h.ranges ∧ (∀ r ∈ h.ranges, h.deletedBelow ≤ r.Start) ∧
        h.ranges.length ≤ MaxNumAckRanges ∧
        (h.AppendAckRanges [] = [] ∨
          (AckFrame.mk (h.AppendAckRanges [])).validateAckRanges = true)) ∧
    ∀ calls s outs, Machine.run (Machine.guard (fun h c => ¬c.Trims h) step)
        newReceivedPacketHistory calls = some (s, outs) →
      (∀ q, Covers s.ranges q ↔ s.deletedBelow ≤ q ∧ Call.receivedPacket q ∈ calls) ∧
      ∀ p, (ReceivedPacket s p).2 = true ↔
        s.deletedBelow ≤ p ∧ Call.receivedPacket p ∉ calls := by
  refine ⟨fun h hr => ?_, fun calls s outs hrun => ?_⟩
  · obtain ⟨hi, ha⟩ := inv_aboveDeleted_of_reachable hr
    exact ⟨hi.wf, ha.start_ge hi.wf, hi.length_le, validateAckRanges_AppendAckRanges hi.wf⟩
  · obtain ⟨hw, ht⟩ := tracks_of_run hrun
    refine ⟨ht, fun p => ?_⟩
    -- new is what the history does not remember, and it remembers what lies below
    -- `deletedBelow` and what it tracks
    rw [ReceivedPacket_snd hw, Remembers, ht p]
    constructor
    · intro hn
      exact ⟨Int.not_lt.mp fun hlt => hn (.inl hlt), fun hmem => hn (.inr ⟨by omega, hmem⟩)⟩
    · rintro ⟨hp, hmem⟩ (hlt | ⟨-, hmem'⟩)
      · omega
      · exact hmem hmem'

/-- A packet number below `deletedBelow` is reported not new on its first reception. -/
theorem firstReception_below_deleted :
    Machine.run step newReceivedPacketHistory [.deleteBelow 1, .receivedPacket 0] =
      some (⟨[], 1⟩, [.deleteBelow, .receivedPacket false]) := by
  decide

end ReceivedPacketHistory

end AckHandler

end QuicGo
