import QuicGo.AckHandler.AckRanges
import QuicGo.Wire.AckFrameAppend

/-!
# QuicGo — the tracker of received packets and its ACK alarm (`received_packet_tracker.go`)

`receivedPacketTracker` counts the ECN marks of the received packets, registers their packet
numbers in the history and hands out ACK frames built from it. `appDataReceivedPacketTracker`
delays the ACK of 1-RTT packets: it queues one at once for the first packet, for a packet the
last ACK reported missing, for the second ack-eliciting packet since the last ACK, for a new gap
and for an ECN-CE mark, and otherwise arms an alarm `max_ack_delay` after the packet came.
`IgnoreBelow` stops acknowledging the packet numbers below a bound.

Times are `time.Time` as nanoseconds on `ℤ`, counted from Go's zero `time.Time{}`, so that
`IsZero` is `= 0`. Where Go indexes an empty slice and panics, the model returns `none`.

The bricks:

* `IsLargest` — the largest packet number the ranges hold, kept by `ReceivedPacket`
  (`isLargest_ReceivedPacket`) and by a `DeleteBelow` that does not pass it;
* `Inv` — the invariant of the tracker over the packets received and the ack-eliciting packets
  not yet acknowledged: the alarm or the queued ACK covers them, and the last ACK frame passes
  `validateAckRanges`, so that `isMissing` never panics;
* `inv_of_run` — it holds along every run in which `IgnoreBelow` never passes the largest
  packet number received (`Allowed`).
-/

namespace QuicGo

namespace AckHandler

open Wire

/-! ## The model -/

/-- `receivedPacketTracker`. -/
structure ReceivedPacketTracker where
  ect0 : ℕ
  ect1 : ℕ
  ecnce : ℕ
  packetHistory : ReceivedPacketHistory
  lastAck : Option FullAckFrame
  hasNewAck : Bool
  deriving DecidableEq, Repr

/-- `newReceivedPacketTracker`. -/
def newReceivedPacketTracker : ReceivedPacketTracker :=
  ⟨0, 0, 0, newReceivedPacketHistory, none, false⟩

namespace ReceivedPacketTracker

/-- `receivedPacketTracker.ReceivedPacket`, without the receive time it does not read; the
error is `some`. The history registers the packet number before the tracker looks at whether
it was new. -/
def ReceivedPacket (h : ReceivedPacketTracker) (pn : ℤ) (ecn : ECN) (ackEliciting : Bool) :
    ReceivedPacketTracker × Option String :=
  let res := AckHandler.ReceivedPacket h.packetHistory pn
  let h := { h with packetHistory := res.1 }
  if !res.2 then
    (h, some s!"recevedPacketTracker BUG: ReceivedPacket called for old / duplicate packet {pn}")
  else
    let h := match ecn with
      | .ECT0 => { h with ect0 := h.ect0 + 1 }
      | .ECT1 => { h with ect1 := h.ect1 + 1 }
      | .ECNCE => { h with ecnce := h.ecnce + 1 }
      | _ => h
    if !ackEliciting then (h, none)
    else ({ h with hasNewAck := true }, none)

/-- `receivedPacketTracker.GetAckFrame`: a frame only if an ack-eliciting packet came since the
last one. Go resets the frame of the last call and fills it again; the model builds it anew. -/
def GetAckFrame (h : ReceivedPacketTracker) : ReceivedPacketTracker × Option FullAckFrame :=
  if !h.hasNewAck then (h, none)
  else
    let ack : FullAckFrame :=
      { AckRanges := h.packetHistory.AppendAckRanges [], DelayTime := 0, ECT0 := h.ect0,
        ECT1 := h.ect1, ECNCE := h.ecnce }
    ({ h with lastAck := some ack, hasNewAck := false }, some ack)

end ReceivedPacketTracker

/-- `packetsBeforeAck`: the ack-eliciting packets received before an ACK is queued. -/
def packetsBeforeAck : ℕ := 2

/-- `appDataReceivedPacketTracker`, without its logger. -/
structure AppDataReceivedPacketTracker extends ReceivedPacketTracker where
  largestObservedRcvdTime : ℤ
  largestObserved : ℤ
  ignoreBelow : ℤ
  maxAckDelay : ℤ
  ackQueued : Bool
  ackElicitingPacketsReceivedSinceLastAck : ℕ
  ackAlarm : ℤ
  deriving DecidableEq, Repr

/-- `newAppDataReceivedPacketTracker`. -/
def newAppDataReceivedPacketTracker : AppDataReceivedPacketTracker :=
  { toReceivedPacketTracker := newReceivedPacketTracker, largestObservedRcvdTime := 0,
    largestObserved := 0, ignoreBelow := 0, maxAckDelay := MaxAckDelay, ackQueued := false,
    ackElicitingPacketsReceivedSinceLastAck := 0, ackAlarm := 0 }

namespace AppDataReceivedPacketTracker

/-- `appDataReceivedPacketTracker.isMissing`: `p` lies below the largest packet number of the
last ACK frame and that frame does not acknowledge it. -/
def isMissing (h : AppDataReceivedPacketTracker) (p : ℤ) : Option Bool :=
  match h.lastAck with
  | none => some false
  | some lastAck =>
    if p < h.ignoreBelow then some false
    else do
      -- `p < h.lastAck.LargestAcked() && !h.lastAck.AcksPacket(p)`
      let largestAcked ← lastAck.toAckFrame.LargestAcked
      if p < largestAcked then return !(← lastAck.toAckFrame.AcksPacket p)
      else return false

/-- `appDataReceivedPacketTracker.hasNewMissingPackets`: the highest range of the history is a
single packet number, with a gap above the largest packet number of the last ACK frame. -/
def hasNewMissingPackets (h : AppDataReceivedPacketTracker) : Option Bool :=
  match h.lastAck with
  | none => some false
  | some lastAck => do
    let highestRange := h.packetHistory.GetHighestAckRange
    let largestAcked ← lastAck.toAckFrame.LargestAcked
    return decide (highestRange.Smallest > largestAcked + 1) && decide (highestRange.Len = 1)

/-- `appDataReceivedPacketTracker.shouldQueueACK`, without the packet number it only logs. -/
def shouldQueueACK (h : AppDataReceivedPacketTracker) (ecn : ECN) (wasMissing : Bool) :
    Option Bool :=
  -- always acknowledge the first packet
  if h.lastAck.isNone then some true
  else if wasMissing then some true
  else if h.ackElicitingPacketsReceivedSinceLastAck ≥ packetsBeforeAck then some true
  else do
    if ← h.hasNewMissingPackets then return true
    return ecn == .ECNCE

/-- Lines 116-130 of `appDataReceivedPacketTracker.ReceivedPacket`, for an ack-eliciting
packet: queue an ACK if none is queued and `shouldQueueACK` says so, and otherwise arm the alarm
`maxAckDelay` after the packet came. -/
def maybeQueueACK (h : AppDataReceivedPacketTracker) (pn : ℤ) (ecn : ECN) (rcvTime : ℤ) :
    Option AppDataReceivedPacketTracker := do
  let isMissing ← h.isMissing pn
  let mut h := h
  if !h.ackQueued then
    if ← h.shouldQueueACK ecn isMissing then
      -- queue an ACK and cancel the alarm
      h := { h with ackQueued := true, ackAlarm := 0 }
  if !h.ackQueued then
    -- no ACK queued: the packet is acknowledged after `max_ack_delay`
    h := { h with ackAlarm := rcvTime + h.maxAckDelay }
  return h

/-- `appDataReceivedPacketTracker.ReceivedPacket`; the error is `some`. -/
def ReceivedPacket (h : AppDataReceivedPacketTracker) (pn : ℤ) (ecn : ECN) (rcvTime : ℤ)
    (ackEliciting : Bool) : Option (AppDataReceivedPacketTracker × Option String) :=
  let res := h.toReceivedPacketTracker.ReceivedPacket pn ecn ackEliciting
  let h := { h with toReceivedPacketTracker := res.1 }
  match res.2 with
  | some err => some (h, some err)
  | none =>
    let h := if pn ≥ h.largestObserved then
      { h with largestObserved := pn, largestObservedRcvdTime := rcvTime } else h
    if !ackEliciting then some (h, none)
    else
      let h := { h with
        ackElicitingPacketsReceivedSinceLastAck := h.ackElicitingPacketsReceivedSinceLastAck + 1 }
      (h.maybeQueueACK pn ecn rcvTime).map fun h => (h, none)

/-- `appDataReceivedPacketTracker.IgnoreBelow`. -/
def IgnoreBelow (h : AppDataReceivedPacketTracker) (pn : ℤ) : AppDataReceivedPacketTracker :=
  if pn ≤ h.ignoreBelow then h
  else { h with ignoreBelow := pn, packetHistory := DeleteBelow h.packetHistory pn }

/-- `appDataReceivedPacketTracker.GetAckFrame`. Unless an ACK is queued or the alarm has gone
off, `onlyIfQueued` returns none; a frame handed out carries the time since the largest packet
came as its delay, and resets the queue, the alarm and the count. -/
def GetAckFrame (h : AppDataReceivedPacketTracker) (now : ℤ) (onlyIfQueued : Bool) :
    AppDataReceivedPacketTracker × Option FullAckFrame :=
  if onlyIfQueued && !h.ackQueued && (decide (h.ackAlarm = 0) || decide (h.ackAlarm > now)) then
    (h, none)
  else
    let res := h.toReceivedPacketTracker.GetAckFrame
    match res.2 with
    | none => ({ h with toReceivedPacketTracker := res.1 }, none)
    | some ack =>
      -- Go writes the delay into the frame that it also keeps as `lastAck`
      let ack := { ack with DelayTime := max 0 (now - h.largestObservedRcvdTime) }
      ({ h with
          toReceivedPacketTracker := { res.1 with lastAck := some ack }, ackQueued := false,
          ackAlarm := 0, ackElicitingPacketsReceivedSinceLastAck := 0 }, some ack)

/-- `appDataReceivedPacketTracker.GetAlarmTimeout`. -/
def GetAlarmTimeout (h : AppDataReceivedPacketTracker) : ℤ := h.ackAlarm

end AppDataReceivedPacketTracker

/-! ## The largest packet number in the ranges -/

/-- `L` is the largest packet number the ranges hold. -/
def IsLargest (l : List Interval) (L : ℤ) : Prop :=
  Covers l L ∧ ∀ x, Covers l x → x ≤ L

/-- Dropping the oldest ranges keeps the largest packet number, as long as one range is left. -/
theorem IsLargest.drop {l : List Interval} (hw : Wf l) {L : ℤ} (hL : IsLargest l L) {n : ℕ}
    (hn : n < l.length) : IsLargest (l.drop n) L := by
  induction l generalizing n with
  | nil => simp at hn
  | cons r rest ih =>
    cases n with
    | zero => simpa using hL
    | succ k =>
      simp only [List.length_cons, Nat.add_lt_add_iff_right] at hn
      rw [List.drop_succ_cons]
      -- a range after `r` holds a packet number above `r`, so `L` is not in `r`
      obtain ⟨b, hb⟩ := List.exists_mem_of_length_pos (Nat.lt_of_le_of_lt (Nat.zero_le k) hn)
      have hbr := hw.above hb
      have hbL := hL.2 b.Start ((covers_cons r rest _).mpr (.inr ⟨b, hb, Int.le_refl _,
        hw.cons.nonempty b hb⟩))
      have hLrest : Covers rest L := by
        rcases (covers_cons r rest L).mp hL.1 with hr | hr
        · omega
        · exact hr
      exact ih hw.cons ⟨hLrest, fun x hx => hL.2 x ((covers_cons r rest x).mpr (.inr hx))⟩ hn

/-- **A new packet number is the largest one if it is above the largest before.** `M` is the
larger of the two, or the new one if the ranges were empty; the trimming of the oldest ranges
keeps it. -/
theorem isLargest_ReceivedPacket {h : ReceivedPacketHistory} (hi : Inv h) {p M : ℤ}
    (hnew : (ReceivedPacket h p).2 = true) (hM : Covers h.ranges M ∨ M = p)
    (hle : ∀ x, Covers h.ranges x ∨ x = p → x ≤ M) :
    IsLargest (ReceivedPacket h p).1.ranges M := by
  by_cases hlt : p < h.deletedBelow
  · rw [ReceivedPacket_eq, if_pos hlt] at hnew
    cases hnew
  rw [ReceivedPacket_eq, if_neg hlt]
  have hL : IsLargest (addToRanges h.ranges p).1 M :=
    ⟨(covers_addToRanges p hi.wf M).mpr hM,
      fun x hx => hle x ((covers_addToRanges p hi.wf x).mp hx)⟩
  have hpos : 0 < (addToRanges h.ranges p).1.length := by
    obtain ⟨r, hr, -⟩ := hL.1
    exact List.length_pos_of_mem hr
  exact hL.drop (wf_addToRanges p hi.wf) (Nat.sub_lt hpos (by decide))

/-- A `DeleteBelow` that does not pass the largest packet number keeps it. -/
theorem isLargest_DeleteBelow {h : ReceivedPacketHistory} (hw : Wf h.ranges) {q L : ℤ}
    (hL : IsLargest h.ranges L) (hq : q ≤ L) : IsLargest (DeleteBelow h q).ranges L := by
  unfold DeleteBelow
  split
  · exact hL
  · exact ⟨(covers_deleteBelowRanges q hw L).mpr ⟨hL.1, hq⟩,
      fun x hx => hL.2 x ((covers_deleteBelowRanges q hw x).mp hx).1⟩

theorem DeleteBelow_ranges_nil {h : ReceivedPacketHistory} (hr : h.ranges = []) (q : ℤ) :
    (DeleteBelow h q).ranges = [] := by
  unfold DeleteBelow
  split
  · exact hr
  · simp [hr, deleteBelowRanges]

theorem deletedBelow_le_DeleteBelow (h : ReceivedPacketHistory) (q : ℤ) :
    h.deletedBelow ≤ (DeleteBelow h q).deletedBelow := by
  unfold DeleteBelow
  split
  · exact Int.le_refl _
  · simp only
    omega

/-- A new packet number is at or above `deletedBelow`. -/
theorem deletedBelow_le_of_new {h : ReceivedPacketHistory} (hw : Wf h.ranges) {p : ℤ}
    (hnew : (ReceivedPacket h p).2 = true) : h.deletedBelow ≤ p := by
  have := (ReceivedPacket_snd hw p).mp hnew
  simp only [Remembers, not_or, Int.not_lt] at this
  exact this.1

/-! ## What each call does -/

namespace ReceivedPacketTracker

variable (h : ReceivedPacketTracker) (pn : ℤ) (ecn : ECN) (ackEliciting : Bool)

@[simp] theorem ReceivedPacket_packetHistory :
    (h.ReceivedPacket pn ecn ackEliciting).1.packetHistory =
      (AckHandler.ReceivedPacket h.packetHistory pn).1 := by
  unfold ReceivedPacket
  cases ecn <;> cases ackEliciting <;> dsimp only <;> split <;> rfl

@[simp] theorem ReceivedPacket_lastAck :
    (h.ReceivedPacket pn ecn ackEliciting).1.lastAck = h.lastAck := by
  unfold ReceivedPacket
  cases ecn <;> cases ackEliciting <;> dsimp only <;> split <;> rfl

/-- The packet is an error exactly when the history says it is not new. -/
theorem ReceivedPacket_snd_eq_none :
    (h.ReceivedPacket pn ecn ackEliciting).2 = none ↔
      (AckHandler.ReceivedPacket h.packetHistory pn).2 = true := by
  unfold ReceivedPacket
  cases ecn <;> cases ackEliciting <;> dsimp only <;> split <;> simp_all

/-- A new packet sets `hasNewAck` if it is ack-eliciting. -/
theorem ReceivedPacket_hasNewAck (hnew : (AckHandler.ReceivedPacket h.packetHistory pn).2 = true) :
    (h.ReceivedPacket pn ecn ackEliciting).1.hasNewAck = (h.hasNewAck || ackEliciting) := by
  unfold ReceivedPacket
  rw [if_neg (by simp [hnew])]
  cases ecn <;> cases ackEliciting <;> simp

/-- A packet that is not new leaves the tracker as it is. -/
theorem ReceivedPacket_of_not_new (hi : AckHandler.Inv h.packetHistory)
    (hn : (AckHandler.ReceivedPacket h.packetHistory pn).2 = false) :
    (h.ReceivedPacket pn ecn ackEliciting).1 = h := by
  unfold ReceivedPacket
  rw [if_pos (by simp [hn]), AckHandler.ReceivedPacket_fst_of_not_new hi hn]

/-- **What `GetAckFrame` does.** Without an ack-eliciting packet since the last frame it
returns none; otherwise it hands out the ranges of the history with the ECN counts and keeps
the frame as `lastAck`. -/
theorem GetAckFrame_eq :
    (h.hasNewAck = false ∧ h.GetAckFrame = (h, none)) ∨
      (h.hasNewAck = true ∧ h.GetAckFrame =
        ({ h with
            lastAck := some ⟨⟨h.packetHistory.AppendAckRanges []⟩, 0, h.ect0, h.ect1, h.ecnce⟩,
            hasNewAck := false },
          some ⟨⟨h.packetHistory.AppendAckRanges []⟩, 0, h.ect0, h.ect1, h.ecnce⟩)) := by
  cases hn : h.hasNewAck with
  | false => exact .inl ⟨rfl, by simp [GetAckFrame, hn]⟩
  | true => exact .inr ⟨rfl, by simp [GetAckFrame, hn]⟩

end ReceivedPacketTracker

namespace AppDataReceivedPacketTracker

variable {h h' : AppDataReceivedPacketTracker} {pn : ℤ} {ecn : ECN} {rcvTime : ℤ}
  {ackEliciting : Bool}

/-- The last ACK frame passes `validateAckRanges`, which is what keeps the lookups of
`isMissing` and `hasNewMissingPackets` from panicking. -/
def LastAckValid (h : AppDataReceivedPacketTracker) : Prop :=
  ∀ a, h.lastAck = some a → a.validateAckRanges = true

theorem LargestAcked_isSome {f : AckFrame} (hv : f.validateAckRanges = true) :
    f.LargestAcked.isSome := by
  obtain ⟨hne, -, -⟩ := (validateAckRanges_iff f).mp hv
  obtain ⟨r, rest, hr⟩ := List.exists_cons_of_ne_nil hne
  simp [AckFrame.LargestAcked, hr]

theorem isMissing_isSome (hv : h.LastAckValid) (p : ℤ) : (h.isMissing p).isSome := by
  unfold isMissing
  cases hl : h.lastAck with
  | none => rfl
  | some a =>
    have hva := hv a hl
    obtain ⟨largestAcked, hla⟩ := Option.isSome_iff_exists.mp (LargestAcked_isSome hva)
    simp only
    split_ifs
    · rfl
    · simp only [hla, AckFrame.AcksPacket_eq hva, Option.bind_eq_bind, Option.bind_some]
      split <;> rfl

theorem hasNewMissingPackets_isSome (hv : h.LastAckValid) : h.hasNewMissingPackets.isSome := by
  unfold hasNewMissingPackets
  cases hl : h.lastAck with
  | none => rfl
  | some a =>
    obtain ⟨largestAcked, hla⟩ := Option.isSome_iff_exists.mp (LargestAcked_isSome (hv a hl))
    simp [hla]

theorem shouldQueueACK_isSome (hv : h.LastAckValid) (wasMissing : Bool) :
    (h.shouldQueueACK ecn wasMissing).isSome := by
  unfold shouldQueueACK
  split_ifs
  · rfl
  · rfl
  · rfl
  · obtain ⟨b, hb⟩ := Option.isSome_iff_exists.mp (hasNewMissingPackets_isSome hv)
    cases b <;> simp [hb]

/-- The second ack-eliciting packet since the last ACK always queues one. -/
theorem shouldQueueACK_of_count {wasMissing q : Bool}
    (hc : packetsBeforeAck ≤ h.ackElicitingPacketsReceivedSinceLastAck)
    (hs : h.shouldQueueACK ecn wasMissing = some q) : q = true := by
  unfold shouldQueueACK at hs
  -- the branches that return before the count and the one that reaches it
  split_ifs at hs
  · exact (Option.some.inj hs).symm
  · exact (Option.some.inj hs).symm
  · exact (Option.some.inj hs).symm

theorem maybeQueueACK_isSome (hv : h.LastAckValid) :
    (h.maybeQueueACK pn ecn rcvTime).isSome := by
  obtain ⟨m, hm⟩ := Option.isSome_iff_exists.mp (isMissing_isSome hv pn)
  obtain ⟨q, hq⟩ := Option.isSome_iff_exists.mp
    (shouldQueueACK_isSome hv m : (h.shouldQueueACK ecn m).isSome)
  simp only [maybeQueueACK, hm, Option.bind_eq_bind, Option.bind_some]
  cases q <;> split_ifs <;> simp [hq]

/-- **What `maybeQueueACK` does.** It changes only the queue and the alarm: unless an ACK is
queued afterwards, the alarm is armed `maxAckDelay` after the packet came, and the second
ack-eliciting packet since the last ACK queues one. -/
theorem maybeQueueACK_eq_some (hq : h.maybeQueueACK pn ecn rcvTime = some h') :
    ∃ queued alarm, h' = { h with ackQueued := queued, ackAlarm := alarm } ∧
      (queued = false → alarm = rcvTime + h.maxAckDelay) ∧
      (packetsBeforeAck ≤ h.ackElicitingPacketsReceivedSinceLastAck → queued = true) := by
  simp only [maybeQueueACK, Option.bind_eq_bind] at hq
  obtain ⟨m, -, hq⟩ := Option.bind_eq_some_iff.mp hq
  by_cases hqd : h.ackQueued = true
  · -- an ACK is queued already: nothing changes
    simp only [hqd, Bool.not_true, Bool.false_eq_true, if_false] at hq
    cases hq
    exact ⟨h.ackQueued, h.ackAlarm, rfl, by simp [hqd], fun _ => hqd⟩
  · simp only [Bool.not_eq_true] at hqd
    simp only [hqd, Bool.not_false, if_true] at hq
    obtain ⟨q, hs, hq⟩ := Option.bind_eq_some_iff.mp hq
    cases q with
    | true =>
      simp only [if_true, Bool.not_true, Bool.false_eq_true, if_false] at hq
      cases hq
      exact ⟨true, 0, rfl, by simp, fun _ => rfl⟩
    | false =>
      simp only [Bool.false_eq_true, if_false] at hq
      cases hq
      exact ⟨false, _, rfl, fun _ => rfl, fun hc => shouldQueueACK_of_count hc hs⟩

/-- A packet that is not new changes only the history, and is an error. -/
theorem ReceivedPacket_isSome (hv : h.LastAckValid) :
    (h.ReceivedPacket pn ecn rcvTime ackEliciting).isSome := by
  cases hb : (h.toReceivedPacketTracker.ReceivedPacket pn ecn ackEliciting).2 with
  | some e => simp [ReceivedPacket, hb]
  | none =>
    cases ackEliciting
    · simp [ReceivedPacket, hb]
    · simp only [ReceivedPacket, hb, Bool.not_true, Bool.false_eq_true, if_false,
        Option.isSome_map]
      -- the last ACK frame is still the one before the call
      refine maybeQueueACK_isSome fun a ha => hv a ?_
      by_cases hge : pn ≥ h.largestObserved <;> simpa [hge] using ha

theorem ReceivedPacket_of_error {err : String}
    (hn : (h.toReceivedPacketTracker.ReceivedPacket pn ecn ackEliciting).2 = some err) :
    h.ReceivedPacket pn ecn rcvTime ackEliciting = some ({ h with
      toReceivedPacketTracker := (h.toReceivedPacketTracker.ReceivedPacket pn ecn ackEliciting).1 },
      some err) := by
  simp only [ReceivedPacket, hn]

/-- **What `ReceivedPacket` does with a new packet.** It raises the largest packet number, and
for an ack-eliciting packet it counts the packet and then queues an ACK or arms the alarm. -/
theorem ReceivedPacket_of_new {err : Option String}
    (hn : (h.toReceivedPacketTracker.ReceivedPacket pn ecn ackEliciting).2 = none)
    (hr : h.ReceivedPacket pn ecn rcvTime ackEliciting = some (h', err)) :
    err = none ∧
      h'.toReceivedPacketTracker =
        (h.toReceivedPacketTracker.ReceivedPacket pn ecn ackEliciting).1 ∧
      h'.largestObserved = (if pn ≥ h.largestObserved then pn else h.largestObserved) ∧
      h'.ignoreBelow = h.ignoreBelow ∧ h'.maxAckDelay = h.maxAckDelay ∧
      (ackEliciting = false → h'.ackQueued = h.ackQueued ∧ h'.ackAlarm = h.ackAlarm ∧
        h'.ackElicitingPacketsReceivedSinceLastAck = h.ackElicitingPacketsReceivedSinceLastAck) ∧
      (ackEliciting = true → h'.ackElicitingPacketsReceivedSinceLastAck =
          h.ackElicitingPacketsReceivedSinceLastAck + 1 ∧
        (h'.ackQueued = false → h'.ackAlarm = rcvTime + h.maxAckDelay) ∧
        (packetsBeforeAck ≤ h.ackElicitingPacketsReceivedSinceLastAck + 1 →
          h'.ackQueued = true)) := by
  simp only [ReceivedPacket, hn] at hr
  cases ackEliciting with
  | false =>
    simp only [Bool.not_false, if_true, Option.some.injEq, Prod.mk.injEq] at hr
    obtain ⟨rfl, rfl⟩ := hr
    by_cases hge : pn ≥ h.largestObserved <;> simp [hge]
  | true =>
    simp only [Bool.not_true, Bool.false_eq_true, if_false, Option.map_eq_some_iff,
      Prod.mk.injEq] at hr
    obtain ⟨h'', hq, rfl, rfl⟩ := hr
    obtain ⟨queued, alarm, rfl, halarm, hqueued⟩ := maybeQueueACK_eq_some hq
    by_cases hge : pn ≥ h.largestObserved
    · simp only [hge, if_true]
      simp_all
    · simp only [hge, if_false]
      simp_all

/-- The frame `GetAckFrame` hands out: the ranges of the history, the ECN counts, and the time
since the largest packet came as its delay. -/
def ackFrameAt (h : AppDataReceivedPacketTracker) (now : ℤ) : FullAckFrame :=
  ⟨⟨h.packetHistory.AppendAckRanges []⟩, max 0 (now - h.largestObservedRcvdTime), h.ect0, h.ect1,
    h.ecnce⟩

/-- **What `GetAckFrame` does.** It returns none and changes nothing, or, if an ack-eliciting
packet came since the last frame, hands out `ackFrameAt`, keeps it as `lastAck` and resets the
queue, the alarm and the count. -/
theorem GetAckFrame_eq (now : ℤ) (onlyIfQueued : Bool) :
    h.GetAckFrame now onlyIfQueued = (h, none) ∨
      (h.hasNewAck = true ∧ h.GetAckFrame now onlyIfQueued =
        ({ h with
            lastAck := some (h.ackFrameAt now), hasNewAck := false, ackQueued := false,
            ackAlarm := 0, ackElicitingPacketsReceivedSinceLastAck := 0 },
          some (h.ackFrameAt now))) := by
  unfold GetAckFrame
  split
  · exact .inl rfl
  · rcases ReceivedPacketTracker.GetAckFrame_eq h.toReceivedPacketTracker with ⟨hn, he⟩ | ⟨hn, he⟩
    · exact .inl (by simp only [he])
    · exact .inr ⟨hn, by simp only [he]; rfl⟩

/-- The frame handed out passes `validateAckRanges` when the history holds a range. -/
theorem ackFrameAt_valid (hw : Wf h.packetHistory.ranges) (hne : h.packetHistory.ranges ≠ [])
    (now : ℤ) : (h.ackFrameAt now).validateAckRanges = true := by
  rcases ReceivedPacketHistory.validateAckRanges_AppendAckRanges hw with h0 | hv
  · simp [ReceivedPacketHistory.AppendAckRanges] at h0
    exact absurd h0 hne
  · exact hv

/-- The frame handed out acknowledges exactly what the history holds. -/
theorem AcksPacket_ackFrameAt (hw : Wf h.packetHistory.ranges) (hne : h.packetHistory.ranges ≠ [])
    (now p : ℤ) :
    (h.ackFrameAt now).toAckFrame.AcksPacket p = some true ↔ Covers h.packetHistory.ranges p := by
  rw [AckFrame.AcksPacket_eq (ackFrameAt_valid hw hne now), Option.some.injEq,
    decide_eq_true_iff]
  exact ReceivedPacketHistory.exists_AppendAckRanges_iff _ p

/-- A queued ACK is handed out by the next `GetAckFrame`, if an ack-eliciting packet came. -/
theorem GetAckFrame_isSome (hq : h.ackQueued = true) (hn : h.hasNewAck = true) (now : ℤ)
    (onlyIfQueued : Bool) : (h.GetAckFrame now onlyIfQueued).2.isSome := by
  unfold GetAckFrame
  rw [if_neg (by simp [hq])]
  rcases ReceivedPacketTracker.GetAckFrame_eq h.toReceivedPacketTracker with ⟨hn', -⟩ | ⟨-, he⟩
  · exact absurd hn (by simp [hn'])
  · simp only [he]
    rfl

end AppDataReceivedPacketTracker

/-! ## The tracker as a machine -/

namespace AppDataReceivedPacketTracker

/-- The calls the connection makes to the tracker of 1-RTT packets. -/
inductive Call
  | receivedPacket (pn : ℤ) (ecn : ECN) (rcvTime : ℤ) (ackEliciting : Bool)
  | ignoreBelow (pn : ℤ)
  | getAckFrame (now : ℤ) (onlyIfQueued : Bool)
  deriving DecidableEq, Repr

/-- What each call returns. -/
inductive Output
  | receivedPacket (err : Option String)
  | ignoreBelow
  | getAckFrame (ack : Option FullAckFrame)
  deriving DecidableEq, Repr

/-- One call; `none` where Go panics. -/
def step (h : AppDataReceivedPacketTracker) : Call → Option (AppDataReceivedPacketTracker × Output)
  | .receivedPacket pn ecn rcvTime ackEliciting =>
    (h.ReceivedPacket pn ecn rcvTime ackEliciting).map fun r => (r.1, .receivedPacket r.2)
  | .ignoreBelow pn => some (h.IgnoreBelow pn, .ignoreBelow)
  | .getAckFrame now onlyIfQueued =>
    some ((h.GetAckFrame now onlyIfQueued).1, .getAckFrame (h.GetAckFrame now onlyIfQueued).2)

/-- What a call and its output add to the packet numbers received. -/
def receivedStep (received : List ℤ) : Call → Output → List ℤ
  | .receivedPacket pn _ _ _, .receivedPacket none => received ++ [pn]
  | _, _ => received

/-- What a call and its output do to the receive times of the ack-eliciting packets taken since
the last ACK frame handed out. -/
def pendingStep (pending : List ℤ) : Call → Output → List ℤ
  | .receivedPacket _ _ rcvTime true, .receivedPacket none => pending ++ [rcvTime]
  | .getAckFrame _ _, .getAckFrame (some _) => []
  | _, _ => pending

/-- The packet numbers a run received. -/
def receivedPackets (calls : List Call) (outs : List Output) : List ℤ :=
  (calls.zip outs).foldl (fun received co => receivedStep received co.1 co.2) []

/-- The receive times of the ack-eliciting packets a run took since the last ACK frame it
handed out. -/
def pendingAcks (calls : List Call) (outs : List Output) : List ℤ :=
  (calls.zip outs).foldl (fun pending co => pendingStep pending co.1 co.2) []

theorem receivedPackets_snoc {calls : List Call} {outs : List Output}
    (hlen : calls.length = outs.length) (c : Call) (o : Output) :
    receivedPackets (calls ++ [c]) (outs ++ [o]) = receivedStep (receivedPackets calls outs) c o := by
  simp [receivedPackets, List.zip_append hlen]

theorem pendingAcks_snoc {calls : List Call} {outs : List Output}
    (hlen : calls.length = outs.length) (c : Call) (o : Output) :
    pendingAcks (calls ++ [c]) (outs ++ [o]) = pendingStep (pendingAcks calls outs) c o := by
  simp [pendingAcks, List.zip_append hlen]

/-- The calls under which the tracker stays sound: packets come at or after Go's zero time, and
`IgnoreBelow` never passes the largest packet number received. The connection calls
`IgnoreBelow` with one more than the largest packet number of an ACK frame it sent and the peer
acknowledged. -/
def Allowed (h : AppDataReceivedPacketTracker) : Call → Prop
  | .receivedPacket _ _ rcvTime _ => 0 ≤ rcvTime
  | .ignoreBelow pn => pn ≤ h.largestObserved
  | .getAckFrame _ _ => True

instance (h : AppDataReceivedPacketTracker) (c : Call) : Decidable (Allowed h c) :=
  match c with
  | .receivedPacket _ _ rcvTime _ => inferInstanceAs (Decidable (0 ≤ rcvTime))
  | .ignoreBelow pn => inferInstanceAs (Decidable (pn ≤ h.largestObserved))
  | .getAckFrame _ _ => inferInstanceAs (Decidable True)

/-! ## The invariant -/

/-- What the tracker keeps of the packets received: the history is well formed, the ranges hold
`largestObserved`, which is the largest packet number received, and the last ACK frame passes
`validateAckRanges`. -/
structure ReceivedInv (h : AppDataReceivedPacketTracker) (received : List ℤ) : Prop where
  history : AckHandler.Inv h.packetHistory
  largest : h.packetHistory.ranges ≠ [] → IsLargest h.packetHistory.ranges h.largestObserved
  empty : h.packetHistory.ranges = [] → h.largestObserved ≤ h.packetHistory.deletedBelow
  received_nil : received = [] → h.packetHistory.ranges = []
  received_le : ∀ x ∈ received, x ≤ h.largestObserved
  largest_mem : received ≠ [] → h.largestObserved ∈ received
  ranges_of_hasNewAck : h.hasNewAck = true → h.packetHistory.ranges ≠ []
  lastAck : h.LastAckValid

/-- What the tracker keeps of the ack-eliciting packets not yet acknowledged: the count,
`hasNewAck`, the queue and the alarm follow their receive times. -/
structure PendingInv (h : AppDataReceivedPacketTracker) (pending : List ℤ) : Prop where
  maxAckDelay : h.maxAckDelay = MaxAckDelay
  count : h.ackElicitingPacketsReceivedSinceLastAck = pending.length
  hasNewAck_of_pending : pending ≠ [] → h.hasNewAck = true
  queued : h.ackQueued = true → pending ≠ []
  queued_of_two : 2 ≤ pending.length → h.ackQueued = true
  alarm : h.ackQueued = false → ∀ t, pending = [t] → h.ackAlarm = t + h.maxAckDelay
  pending_nonneg : ∀ t ∈ pending, 0 ≤ t

/-- The invariant of the tracker. -/
structure Inv (h : AppDataReceivedPacketTracker) (received pending : List ℤ) : Prop
    extends ReceivedInv h received, PendingInv h pending

theorem inv_newAppDataReceivedPacketTracker : Inv newAppDataReceivedPacketTracker [] [] where
  history := inv_newReceivedPacketHistory
  largest := fun h => absurd rfl h
  empty := fun _ => Int.le_refl 0
  received_nil := fun _ => rfl
  received_le := by simp
  largest_mem := fun h => absurd rfl h
  ranges_of_hasNewAck := by simp [newAppDataReceivedPacketTracker, newReceivedPacketTracker]
  lastAck := by simp [LastAckValid, newAppDataReceivedPacketTracker, newReceivedPacketTracker]
  maxAckDelay := rfl
  count := rfl
  hasNewAck_of_pending := fun h => absurd rfl h
  queued := by simp [newAppDataReceivedPacketTracker]
  queued_of_two := by simp
  alarm := by simp
  pending_nonneg := by simp

/-- A call that leaves the queue, the alarm, the count and `maxAckDelay` as they are, and clears
no `hasNewAck`, keeps `PendingInv`. -/
theorem PendingInv.of_eq {pending : List ℤ} (hp : PendingInv h pending)
    (hm : h'.maxAckDelay = h.maxAckDelay) (hc : h'.ackElicitingPacketsReceivedSinceLastAck =
      h.ackElicitingPacketsReceivedSinceLastAck) (hq : h'.ackQueued = h.ackQueued)
    (ha : h'.ackAlarm = h.ackAlarm) (hn : h.hasNewAck = true → h'.hasNewAck = true) :
    PendingInv h' pending where
  maxAckDelay := hm.trans hp.maxAckDelay
  count := hc.trans hp.count
  hasNewAck_of_pending := fun hne => hn (hp.hasNewAck_of_pending hne)
  queued := fun h₁ => hp.queued (hq ▸ h₁)
  queued_of_two := fun h₂ => hq ▸ hp.queued_of_two h₂
  alarm := fun h₁ t ht => by rw [ha, hm]; exact hp.alarm (hq ▸ h₁) t ht
  pending_nonneg := hp.pending_nonneg

/-! ## Every call keeps the invariant -/

section ReceivedPacket

variable {pn : ℤ} {ecn : ECN} {rcvTime : ℤ} {ackEliciting : Bool} {err : Option String}

/-- A new packet keeps `ReceivedInv`, with its packet number received. -/
theorem ReceivedInv.of_new {received : List ℤ} (hi : ReceivedInv h received)
    (hnew : (AckHandler.ReceivedPacket h.packetHistory pn).2 = true)
    (hr : h.ReceivedPacket pn ecn rcvTime ackEliciting = some (h', err)) :
    ReceivedInv h' (received ++ [pn]) := by
  have hn := (ReceivedPacketTracker.ReceivedPacket_snd_eq_none _ pn ecn ackEliciting).mpr hnew
  obtain ⟨-, hbase, hL, -⟩ := ReceivedPacket_of_new hn hr
  have hhist : h'.packetHistory = (AckHandler.ReceivedPacket h.packetHistory pn).1 := by
    rw [← ReceivedPacketTracker.ReceivedPacket_packetHistory h.toReceivedPacketTracker pn ecn
      ackEliciting, ← hbase]
  have hlast : h'.lastAck = h.lastAck := by
    rw [← ReceivedPacketTracker.ReceivedPacket_lastAck h.toReceivedPacketTracker pn ecn
      ackEliciting, ← hbase]
  have hdel := deletedBelow_le_of_new hi.history.wf hnew
  -- the new largest packet number is `pn`, or the largest before when that is above it
  have hcases : h'.largestObserved = pn ∨ (h'.largestObserved = h.largestObserved ∧
      h.packetHistory.ranges ≠ [] ∧ received ≠ []) := by
    rw [hL]
    split_ifs with hge
    · exact .inl rfl
    · refine .inr ⟨rfl, fun h0 => hge (Int.le_trans (hi.empty h0) hdel),
        fun h0 => hge (Int.le_trans (hi.empty (hi.received_nil h0)) hdel)⟩
  have hpn : pn ≤ h'.largestObserved := by
    rw [hL]
    split_ifs <;> omega
  have hbefore : h.largestObserved ≤ h'.largestObserved := by
    rw [hL]
    split_ifs <;> omega
  have hlarge : IsLargest h'.packetHistory.ranges h'.largestObserved := by
    rw [hhist]
    refine isLargest_ReceivedPacket hi.history hnew ?_ ?_
    · rcases hcases with hc | ⟨hc, hne, -⟩
      · exact .inr hc
      · exact .inl (hc ▸ (hi.largest hne).1)
    · rintro x (hx | rfl)
      · have hne : h.packetHistory.ranges ≠ [] := fun h0 => covers_nil x (h0 ▸ hx)
        exact Int.le_trans ((hi.largest hne).2 x hx) hbefore
      · exact hpn
  have hne : h'.packetHistory.ranges ≠ [] := fun h0 => covers_nil _ (h0 ▸ hlarge.1)
  exact {
    history := by rw [hhist]; exact hi.history.of_ReceivedPacket pn
    largest := fun _ => hlarge
    empty := fun h0 => absurd h0 hne
    received_nil := fun h0 => absurd h0 (by simp)
    received_le := by
      intro x hx
      rcases List.mem_append.mp hx with hx | hx
      · exact Int.le_trans (hi.received_le x hx) hbefore
      · rw [List.mem_singleton.mp hx]
        exact hpn
    largest_mem := fun _ => by
      rcases hcases with hc | ⟨hc, -, hrne⟩
      · rw [hc]
        simp
      · rw [hc]
        exact List.mem_append_left _ (hi.largest_mem hrne)
    ranges_of_hasNewAck := fun _ => hne
    lastAck := fun a ha => hi.lastAck a (hlast ▸ ha) }

/-- A new packet keeps `PendingInv`; an ack-eliciting one is not acknowledged yet. -/
theorem PendingInv.of_new {pending : List ℤ} (hp : PendingInv h pending) (ht : 0 ≤ rcvTime)
    (hnew : (AckHandler.ReceivedPacket h.packetHistory pn).2 = true)
    (hr : h.ReceivedPacket pn ecn rcvTime ackEliciting = some (h', err)) :
    PendingInv h' (if ackEliciting then pending ++ [rcvTime] else pending) := by
  have hn := (ReceivedPacketTracker.ReceivedPacket_snd_eq_none _ pn ecn ackEliciting).mpr hnew
  obtain ⟨-, hbase, -, -, hmad, hfalse, htrue⟩ := ReceivedPacket_of_new hn hr
  have hnewack : h'.hasNewAck = (h.hasNewAck || ackEliciting) := by
    rw [← ReceivedPacketTracker.ReceivedPacket_hasNewAck _ _ ecn ackEliciting hnew, ← hbase]
  cases ackEliciting with
  | false =>
    obtain ⟨hq, ha, hc⟩ := hfalse rfl
    exact hp.of_eq hmad hc hq ha (by simp [hnewack])
  | true =>
    obtain ⟨hc, halarm, hqueued⟩ := htrue rfl
    exact {
      maxAckDelay := hmad.trans hp.maxAckDelay
      count := by simp [hc, hp.count]
      hasNewAck_of_pending := fun _ => by simp [hnewack]
      queued := fun _ => by simp
      queued_of_two := fun h₂ => hqueued (by
        simp only [if_true, List.length_append, List.length_singleton] at h₂
        rw [hp.count]
        exact h₂)
      alarm := fun hq t ht' => by
        -- the packet is the only one not acknowledged
        simp only [if_true, List.append_eq_singleton_iff, List.cons.injEq, and_true] at ht'
        rcases ht' with ⟨-, rfl⟩ | ⟨-, h0⟩
        · rw [halarm hq, hmad]
        · exact absurd h0 (by simp)
      pending_nonneg := fun t ht' => by
        simp only [if_true, List.mem_append, List.mem_singleton] at ht'
        rcases ht' with ht' | rfl
        · exact hp.pending_nonneg t ht'
        · exact ht }

end ReceivedPacket

/-- An `IgnoreBelow` that does not pass the largest packet number keeps `ReceivedInv`. -/
theorem ReceivedInv.of_IgnoreBelow {received : List ℤ} (hi : ReceivedInv h received) {q : ℤ}
    (hq : q ≤ h.largestObserved) : ReceivedInv (h.IgnoreBelow q) received := by
  unfold IgnoreBelow
  split
  · exact hi
  · -- the ranges keep the largest packet number, and empty ranges stay empty
    have hkeep : h.packetHistory.ranges ≠ [] →
        IsLargest (DeleteBelow h.packetHistory q).ranges h.largestObserved :=
      fun hne => isLargest_DeleteBelow hi.history.wf (hi.largest hne) hq
    have hnil : h.packetHistory.ranges = [] → (DeleteBelow h.packetHistory q).ranges = [] :=
      fun h0 => DeleteBelow_ranges_nil h0 q
    exact {
      history := hi.history.of_DeleteBelow q
      largest := fun hne => hkeep fun h0 => hne (hnil h0)
      empty := fun h0 => by
        by_cases hr : h.packetHistory.ranges = []
        · exact Int.le_trans (hi.empty hr) (deletedBelow_le_DeleteBelow _ q)
        · exact absurd (hkeep hr).1 (h0 ▸ covers_nil _)
      received_nil := fun h0 => hnil (hi.received_nil h0)
      received_le := hi.received_le
      largest_mem := hi.largest_mem
      ranges_of_hasNewAck := fun hn h0 =>
        covers_nil _ (h0 ▸ (hkeep (hi.ranges_of_hasNewAck hn)).1)
      lastAck := hi.lastAck }

theorem PendingInv.of_IgnoreBelow {pending : List ℤ} (hp : PendingInv h pending) (q : ℤ) :
    PendingInv (h.IgnoreBelow q) pending := by
  unfold IgnoreBelow
  split
  · exact hp
  · exact hp.of_eq rfl rfl rfl rfl id

/-- `GetAckFrame` keeps the invariant: a frame handed out passes `validateAckRanges` and
acknowledges every ack-eliciting packet taken so far. -/
theorem Inv.of_GetAckFrame {received pending : List ℤ} (hi : Inv h received pending)
    (now : ℤ) (onlyIfQueued : Bool) :
    Inv (h.GetAckFrame now onlyIfQueued).1 received (pendingStep pending
      (.getAckFrame now onlyIfQueued) (.getAckFrame (h.GetAckFrame now onlyIfQueued).2)) := by
  rcases GetAckFrame_eq now onlyIfQueued with he | ⟨hn, he⟩
  · rw [he]
    exact hi
  · rw [he]
    have hv := ackFrameAt_valid hi.history.wf (hi.ranges_of_hasNewAck hn) now
    show Inv _ received []
    exact {
      toReceivedInv := { hi.toReceivedInv with
        ranges_of_hasNewAck := fun h₁ => absurd h₁ (by simp)
        lastAck := fun a ha => by
          cases ha
          exact hv }
      maxAckDelay := hi.maxAckDelay
      count := rfl
      hasNewAck_of_pending := fun h₁ => absurd rfl h₁
      queued := fun h₁ => absurd h₁ (by simp)
      queued_of_two := fun h₂ => absurd h₂ (by simp)
      alarm := fun _ t ht => absurd ht (by simp)
      pending_nonneg := by simp }

/-- **One step keeps the invariant.** -/
theorem Inv.of_step {received pending : List ℤ} (hi : Inv h received pending) {c : Call}
    (hc : Allowed h c) {o : Output} (hs : step h c = some (h', o)) :
    Inv h' (receivedStep received c o) (pendingStep pending c o) := by
  cases c with
  | receivedPacket pn ecn rcvTime ackEliciting =>
    obtain ⟨⟨h'', err⟩, hr, he⟩ := Option.map_eq_some_iff.mp hs
    cases he
    by_cases hnew : (AckHandler.ReceivedPacket h.packetHistory pn).2 = true
    · have hn := (ReceivedPacketTracker.ReceivedPacket_snd_eq_none _ pn ecn ackEliciting).mpr hnew
      obtain ⟨rfl, -⟩ := ReceivedPacket_of_new hn hr
      have hp := hi.toPendingInv.of_new hc hnew hr
      cases ackEliciting
      · exact ⟨hi.toReceivedInv.of_new hnew hr, hp⟩
      · exact ⟨hi.toReceivedInv.of_new hnew hr, hp⟩
    · -- not new: an error, and nothing changes
      obtain ⟨e, he⟩ := Option.ne_none_iff_exists'.mp
        (mt (ReceivedPacketTracker.ReceivedPacket_snd_eq_none _ pn ecn ackEliciting).mp hnew)
      rw [ReceivedPacket_of_error he, ReceivedPacketTracker.ReceivedPacket_of_not_new _ pn ecn
        ackEliciting hi.history (by simpa using hnew)] at hr
      cases hr
      cases ackEliciting
      · exact hi
      · exact hi
  | ignoreBelow q =>
    cases hs
    exact ⟨hi.toReceivedInv.of_IgnoreBelow hc, hi.toPendingInv.of_IgnoreBelow q⟩
  | getAckFrame now onlyIfQueued =>
    cases hs
    exact hi.of_GetAckFrame now onlyIfQueued

/-- No call panics. -/
theorem Inv.step_isSome {received pending : List ℤ} (hi : Inv h received pending) (c : Call) :
    (step h c).isSome := by
  cases c with
  | receivedPacket pn ecn rcvTime ackEliciting =>
    simp only [step, Option.isSome_map]
    exact ReceivedPacket_isSome hi.lastAck
  | ignoreBelow q => rfl
  | getAckFrame now onlyIfQueued => rfl

/-- **The invariant holds along every run** in which packets come at or after Go's zero time and
`IgnoreBelow` never passes the largest packet number received. -/
theorem inv_of_run {calls : List Call} {s : AppDataReceivedPacketTracker} {outs : List Output}
    (hrun : Machine.run (Machine.guard Allowed step) newAppDataReceivedPacketTracker calls =
      some (s, outs)) :
    Inv s (receivedPackets calls outs) (pendingAcks calls outs) := by
  have := Machine.run_induction_of (fun _ => True) (fun _ => True)
    (fun s hist out => hist.length = out.length ∧
      Inv s (receivedPackets hist out) (pendingAcks hist out))
    (fun s hist out c s' o ⟨hlen, hi⟩ _ _ hs => by
      obtain ⟨hc, hs⟩ := Machine.guard_eq_some.mp hs
      refine ⟨by simp [hlen], ?_⟩
      rw [receivedPackets_snoc hlen, pendingAcks_snoc hlen]
      exact hi.of_step hc hs)
    [] [] ⟨rfl, inv_newAppDataReceivedPacketTracker⟩ (fun _ _ => trivial) (fun _ _ => trivial)
    hrun
  simpa using this.2

/-! ## The ACK deadline -/

/-- **The ACK of 1-RTT packets is never delayed beyond `max_ack_delay`,** along every run in
which packets come at or after Go's zero time and `IgnoreBelow` never passes the largest packet
number received. For each ack-eliciting packet not yet acknowledged, received at `t`, an ACK is
queued, which the next `GetAckFrame` hands out, or the alarm is armed, at most `max_ack_delay`
after `t`; two such packets queue an ACK; the next frame handed out has a non-negative delay and
acknowledges the largest packet number received; and no call panics. -/
theorem ackDelay_bounded_of_run {calls : List Call} {s : AppDataReceivedPacketTracker}
    {outs : List Output}
    (hrun : Machine.run (Machine.guard Allowed step) newAppDataReceivedPacketTracker calls =
      some (s, outs)) :
    (∀ t ∈ pendingAcks calls outs,
      (s.ackQueued = true ∧ ∀ now, (s.GetAckFrame now true).2.isSome) ∨
        (s.GetAlarmTimeout ≠ 0 ∧ s.GetAlarmTimeout ≤ t + MaxAckDelay)) ∧
    (2 ≤ (pendingAcks calls outs).length → s.ackQueued = true) ∧
    (∀ now onlyIfQueued ack, (s.GetAckFrame now onlyIfQueued).2 = some ack →
      0 ≤ ack.DelayTime ∧ ∀ L ∈ receivedPackets calls outs,
        (∀ x ∈ receivedPackets calls outs, x ≤ L) → ack.toAckFrame.AcksPacket L = some true) ∧
    ∀ c, (step s c).isSome := by
  have hi := inv_of_run hrun
  refine ⟨fun t ht => ?_, hi.queued_of_two, fun now onlyIfQueued ack hack => ?_, hi.step_isSome⟩
  · cases hq : s.ackQueued with
    | true =>
      exact .inl ⟨rfl, fun now => GetAckFrame_isSome hq
        (hi.hasNewAck_of_pending (List.ne_nil_of_mem ht)) now true⟩
    | false =>
      -- no ACK queued: `t` is the only packet not acknowledged, and the alarm is armed for it
      have hlen : (pendingAcks calls outs).length < 2 := by
        refine Nat.lt_of_not_le fun h₂ => ?_
        rw [hi.queued_of_two h₂] at hq
        cases hq
      obtain ⟨t', ht'⟩ : ∃ t', pendingAcks calls outs = [t'] := by
        match hp : pendingAcks calls outs, hlen with
        | [t'], _ => exact ⟨t', rfl⟩
        | [], _ => rw [hp] at ht; cases ht
      rw [ht', List.mem_singleton] at ht
      subst ht
      have hnonneg := hi.pending_nonneg t (by simp [ht'])
      rw [GetAlarmTimeout, hi.alarm hq t ht', hi.maxAckDelay]
      exact .inr ⟨by unfold MaxAckDelay; omega, Int.le_refl _⟩
  · rcases GetAckFrame_eq now onlyIfQueued with he | ⟨hn, he⟩
    · rw [he] at hack
      cases hack
    · rw [he] at hack
      cases hack
      refine ⟨Int.le_max_left _ _, fun L hL hmax => ?_⟩
      -- the largest packet number received is `largestObserved`, which the ranges hold
      have hLeq : L = s.largestObserved := Int.le_antisymm (hi.received_le L hL)
        (hmax _ (hi.largest_mem (List.ne_nil_of_mem hL)))
      have hne := hi.ranges_of_hasNewAck hn
      rw [AcksPacket_ackFrameAt hi.history.wf hne, hLeq]
      exact (hi.largest hne).1

/-- At Go's zero time the alarm reads as not armed: a packet received `max_ack_delay` before it,
after the first ACK, arms the alarm for the zero time, which `GetAckFrame` takes for none. -/
example : (Machine.run step newAppDataReceivedPacketTracker
    [.receivedPacket 0 .ECNNon (-MaxAckDelay) true, .getAckFrame 0 false,
      .receivedPacket 1 .ECNNon (-MaxAckDelay) true]).map
      (fun r => (r.1.ackQueued, r.1.GetAlarmTimeout)) = some (false, 0) := by
  decide

/-- The calls of a run in which `IgnoreBelow` passes the largest packet number received, and a
`GetAckFrame` follows. -/
def ignoreAboveLargestCalls : List Call :=
  [.receivedPacket 5 .ECNNon 1 true, .ignoreBelow 6, .getAckFrame 1 false]

/-- **An `IgnoreBelow` above the largest packet number received makes an ACK frame with no
ranges, and the next ack-eliciting packet panics.** `DeleteBelow` empties the history, but the
ack-eliciting packet 5 still asks for an ACK, so `GetAckFrame` hands out a frame without ranges
and keeps it as `lastAck`; `isMissing` of packet 7 then reads `lastAck.LargestAcked()`, the first
range of an empty slice. -/
theorem ignoreBelow_empties_ackFrame :
    (Machine.run step newAppDataReceivedPacketTracker ignoreAboveLargestCalls).map Prod.snd =
      some [.receivedPacket none, .ignoreBelow, .getAckFrame (some ⟨⟨[]⟩, 0, 0, 0, 0⟩)] ∧
    Machine.run step newAppDataReceivedPacketTracker
      (ignoreAboveLargestCalls ++ [.receivedPacket 7 .ECNNon 2 true]) = none := by
  decide

end AppDataReceivedPacketTracker

end AckHandler

end QuicGo
