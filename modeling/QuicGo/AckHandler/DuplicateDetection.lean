import QuicGo.AckHandler.ReceivedPacketHistory

/-!
# QuicGo — duplicate detection over a run of the received packet history

The receiver asks the history of every packet number whether it is `IsPotentiallyDuplicate`,
and registers the packet with `ReceivedPacket`, which says whether it is new; `DeleteBelow`
forgets the packet numbers that can no longer be acknowledged. This module makes the history
a machine in the sense of `QuicGo.Lib.Run` and checks the duplicate detection along its runs.

The bricks:

* `detectsDuplicates` — the duplicate detection a run should have, computed from its calls and
  outputs: no packet number is reported new twice, and `IsPotentiallyDuplicate` holds of every
  one that was;
* `detectsDuplicates_of_run` — it holds of every run from a history that remembers what was
  reported new so far, as long as `ReceivedPacket` never has to trim the ranges;
* `duplicate_accepted_after_trim` — it fails on the 33rd gap: the trimming of the oldest range
  forgets a packet number that is still above `deletedBelow`.
-/

namespace QuicGo

namespace AckHandler

namespace ReceivedPacketHistory

/-- The calls a receiver makes to its history. -/
inductive Call
  | receivedPacket (p : ℤ)
  | deleteBelow (p : ℤ)
  | isPotentiallyDuplicate (p : ℤ)
  deriving DecidableEq, Repr

/-- What each call returns. -/
inductive Output
  | receivedPacket (isNew : Bool)
  | deleteBelow
  | isPotentiallyDuplicate (dup : Bool)
  deriving DecidableEq, Repr

/-- One call to the history; none of them panics. -/
def step (h : ReceivedPacketHistory) : Call → Option (ReceivedPacketHistory × Output)
  | .receivedPacket p => some ((ReceivedPacket h p).1, .receivedPacket (ReceivedPacket h p).2)
  | .deleteBelow p => some (DeleteBelow h p, .deleteBelow)
  | .isPotentiallyDuplicate p => some (h, .isPotentiallyDuplicate (IsPotentiallyDuplicate h p))

/-- The invariant holds in every state a run reaches from `newReceivedPacketHistory`. -/
theorem Inv.of_reachable {h : ReceivedPacketHistory}
    (hr : Machine.Reachable step newReceivedPacketHistory (fun _ => True) (fun _ => True) h) :
    Inv h := by
  refine Machine.Reachable.induction Inv inv_newReceivedPacketHistory ?_ hr
  intro h c h' o hi _ _ hstep
  cases c with
  | receivedPacket p =>
    cases hstep
    exact hi.of_ReceivedPacket p
  | deleteBelow p =>
    cases hstep
    exact hi.of_DeleteBelow p
  | isPotentiallyDuplicate p =>
    cases hstep
    exact hi

/-! ## The duplicate detection of a run -/

def Call.isReceivedPacket : Call → Bool
  | .receivedPacket _ => true
  | _ => false

/-- The duplicate detection of a run, given the packet numbers `seen` that `ReceivedPacket`
reported new before it: no call reports a packet number in `seen` new, and
`IsPotentiallyDuplicate` holds of every packet number in `seen`. -/
def detectsDuplicates : List ℤ → List Call → List Output → Bool
  | seen, .receivedPacket p :: cs, .receivedPacket b :: os =>
    !(b && seen.contains p) && detectsDuplicates (if b then p :: seen else seen) cs os
  | seen, .isPotentiallyDuplicate p :: cs, .isPotentiallyDuplicate b :: os =>
    (!seen.contains p || b) && detectsDuplicates seen cs os
  | seen, _ :: cs, _ :: os => detectsDuplicates seen cs os
  | _, _, _ => true

/-- **Duplicate detection while the ranges fit.** A run from a well-formed history that
remembers every packet number in `seen`, with room for one range per `ReceivedPacket` call,
detects every duplicate: the history then only ever learns packet numbers, so what was
reported new stays remembered, and what is remembered is reported a duplicate. -/
theorem detectsDuplicates_of_run {h s : ReceivedPacketHistory} {seen : List ℤ} {calls : List Call}
    {outs : List Output} (hw : Wf h.ranges) (hseen : ∀ p ∈ seen, Remembers h p)
    (hroom : h.ranges.length + (calls.filter Call.isReceivedPacket).length ≤ MaxNumAckRanges)
    (hrun : Machine.run step h calls = some (s, outs)) :
    detectsDuplicates seen calls outs = true := by
  -- induction on the calls; the history, the packet numbers reported new and the room change
  induction calls generalizing h seen outs with
  | nil =>
    simp only [Machine.run_nil, Option.some.injEq, Prod.mk.injEq] at hrun
    obtain ⟨-, rfl⟩ := hrun
    rfl
  | cons c cs ih =>
    obtain ⟨h', o, os, hstep, hrun', rfl⟩ := Machine.run_cons_eq_some hrun
    cases c with
    | receivedPacket p =>
      cases hstep
      have hroom' : h.ranges.length + 1 + (cs.filter Call.isReceivedPacket).length ≤
          MaxNumAckRanges := by
        simp only [List.filter_cons, Call.isReceivedPacket, if_true, List.length_cons] at hroom
        omega
      have hrem := remembers_ReceivedPacket hw (by omega) p
      -- a packet number reported new was not remembered, so it was not reported new before
      have hfresh : (ReceivedPacket h p).2 = true → p ∉ seen :=
        fun hb hp => (ReceivedPacket_snd hw p).mp hb (hseen p hp)
      have hrest : detectsDuplicates (if (ReceivedPacket h p).2 then p :: seen else seen) cs os =
          true := ih (wf_ReceivedPacket hw p)
        (fun q hq => (hrem q).mpr (by split at hq <;> grind))
        (by have := length_ReceivedPacket h p; omega) hrun'
      simp only [detectsDuplicates, hrest, Bool.and_true]
      cases hb : (ReceivedPacket h p).2 with
      | false => rfl
      | true => simpa using hfresh hb
    | deleteBelow q =>
      cases hstep
      have hrest := ih (wf_DeleteBelow hw q)
        (fun x hx => (remembers_DeleteBelow hw q x).mpr (.inl (hseen x hx)))
        (by
          have := length_DeleteBelow h q
          simp only [List.filter_cons, Call.isReceivedPacket, Bool.false_eq_true, if_false] at hroom
          omega) hrun'
      simpa only [detectsDuplicates] using hrest
    | isPotentiallyDuplicate p =>
      cases hstep
      have hrest := ih hw hseen
        (by simpa only [List.filter_cons, Call.isReceivedPacket, Bool.false_eq_true, if_false] using hroom) hrun'
      simp only [detectsDuplicates, hrest, Bool.and_true]
      -- a packet number reported new is remembered, so it is reported a duplicate
      by_cases hp : p ∈ seen
      · simp [(IsPotentiallyDuplicate_iff hw p).mpr (hseen p hp)]
      · simp [hp]

/-- From a new history, a run with at most `MaxNumAckRanges` `ReceivedPacket` calls, and any
`DeleteBelow` and `IsPotentiallyDuplicate` calls between them, detects every duplicate. -/
theorem detectsDuplicates_of_few_packets {s : ReceivedPacketHistory} {calls : List Call}
    {outs : List Output} (hfew : (calls.filter Call.isReceivedPacket).length ≤ MaxNumAckRanges)
    (hrun : Machine.run step newReceivedPacketHistory calls = some (s, outs)) :
    detectsDuplicates [] calls outs = true :=
  detectsDuplicates_of_run inv_newReceivedPacketHistory.wf (by simp)
    (by simpa [newReceivedPacketHistory] using hfew) hrun

/-! ## The 33rd gap -/

/-- Packets `0, 2, …, 64`, each leaving a gap before the next, then the duplicate check and the
registration of packet `0` again. -/
def gappedPackets : List Call :=
  (List.range 33).map (fun i => .receivedPacket (2 * i : ℕ)) ++
    [.isPotentiallyDuplicate 0, .receivedPacket 0]

theorem duplicate_accepted_after_trim :
    ∃ s outs, Machine.run step newReceivedPacketHistory gappedPackets = some (s, outs) ∧
      outs = List.replicate 33 (.receivedPacket true) ++
        [.isPotentiallyDuplicate false, .receivedPacket true] ∧
      detectsDuplicates [] gappedPackets outs = false :=
  ⟨_, _, rfl, by decide, by decide⟩

end ReceivedPacketHistory

end AckHandler

end QuicGo
