import QuicGo.AckHandler.SentPacketHistory
import QuicGo.Wire.AckFrame

/-!
# QuicGo — the packets an ACK frame acknowledges (`internal/ackhandler/sent_packet_handler.go`)

`detectAndRemoveAckedPackets` finds the packets of the history that an ACK frame acknowledges
and removes them from the history. Its first loop walks the history in ascending packet number
order and, with a second index, the ACK ranges from the lowest one up, skipping the packets in
the gaps between ranges. An acknowledged skipped packet is a protocol violation; a path probe's
placeholder is replaced by the probe, which `RemovePathProbe` takes out of the history, unless
the probe was already declared lost. Its second loop raises `lowestNotConfirmedAcked` and calls
`Remove` for each acknowledged packet.

The range walk agrees with `AcksPacket` on every frame that passes `validateAckRanges`
(`walkRanges_eq`), so the "BUG" error is out of reach. The packets returned are the ones
`AckedPackets` names, in ascending order, and the history keeps all but them and, below each,
the run of skipped packets directly before it: `Remove` clears that run even where the ACK does
not acknowledge it.

The model takes the history of the ACK's packet number space, which `getPacketNumberSpace`
picks, and the handler's `lowestNotConfirmedAcked`. Left out: the `OnAcked` callbacks of the
packets' frames, the logger and the tracer, which do not change the history.
-/

namespace QuicGo

namespace AckHandler

open Protocol Wire SentPacketHistory

/-- The errors `detectAndRemoveAckedPackets` returns: a transport error, or one of
`fmt.Errorf`. -/
inductive AckError
  | transportError (e : TransportError)
  | errorf (msg : String)
  deriving DecidableEq, Repr

/-- The fields of `sentPacketHandler` that `detectAndRemoveAckedPackets` reads and writes: the
history of the ACK's packet number space, and `lowestNotConfirmedAcked`. -/
structure SentPacketHandler where
  history : SentPacketHistory
  lowestNotConfirmedAcked : ℤ
  deriving DecidableEq, Repr

/-- The inner loop of the range walk: go up from the range at `ackRangeIndex`, counted from the
lowest, while `pn` lies above it and a higher range is left. `fuel` bounds the steps; the
length of the ranges is enough (`advanceRange_spec`). -/
def advanceRange (ranges : List AckRange) (pn : ℤ) :
    ℕ → ℕ → AckRange → Option (ℕ × AckRange)
  | 0, ackRangeIndex, ackRange => some (ackRangeIndex, ackRange)
  | fuel + 1, ackRangeIndex, ackRange =>
    if pn > ackRange.Largest ∧ ackRangeIndex < ranges.length - 1 then
      (ranges[ranges.length - 1 - (ackRangeIndex + 1)]?).bind
        (advanceRange ranges pn fuel (ackRangeIndex + 1))
    else some (ackRangeIndex, ackRange)

/-- Where the range walk leaves a packet number: in the range it stops at, below it in a gap,
or above it, which the "BUG" error reports. -/
inductive RangeWalk
  | inRange (ackRangeIndex : ℕ)
  | inGap (ackRangeIndex : ℕ)
  | wrong (ackRange : AckRange)
  deriving DecidableEq, Repr

/-- The range walk of the first loop for a packet number between the lowest and the largest
acknowledged one; only a frame with missing ranges is walked. `none` where Go indexes out of
range. -/
def walkRanges (ack : AckFrame) (pn : ℤ) (ackRangeIndex : ℕ) : Option RangeWalk :=
  if ack.HasMissingRanges then
    (ack.AckRanges[ack.AckRanges.length - 1 - ackRangeIndex]?).bind fun ackRange =>
      (advanceRange ack.AckRanges pn ack.AckRanges.length ackRangeIndex ackRange).map
        fun (i, ackRange) =>
          -- packet not contained in ACK range
          if pn < ackRange.Smallest then .inGap i
          else if pn > ackRange.Largest then .wrong ackRange
          else .inRange i
  else some (.inRange ackRangeIndex)

/-- The protocol violation of an acknowledged skipped packet. -/
def skippedPacketError (pn : ℤ) (encLevel : EncryptionLevel) : AckError :=
  .transportError
    { ErrorCode := .ProtocolViolation
      ErrorMessage := "received an ACK for skipped packet number: " ++ toString pn ++ " (" ++
        encLevel.String ++ ")" }

/-- The first loop of `detectAndRemoveAckedPackets`, over the packets `ps` of the history still to
go, with the range index, the history, whose probes `RemovePathProbe` takes out, and
`h.ackedPackets`. The loop body does not write the slots, so it sees the packets as they were
when it began. -/
def collectAckedPackets (ack : AckFrame) (encLevel : EncryptionLevel) (lowestAcked largestAcked : ℤ) :
    List Packet → ℕ → SentPacketHistory → List Packet →
      Option (SentPacketHistory × Except AckError (List Packet))
  | [], _, history, ackedPackets => some (history, .ok ackedPackets)
  | p :: ps, ackRangeIndex, history, ackedPackets =>
    -- ignore packets below the lowest acked
    if p.PacketNumber < lowestAcked then
      collectAckedPackets ack encLevel lowestAcked largestAcked ps ackRangeIndex history ackedPackets
    else if p.PacketNumber > largestAcked then some (history, .ok ackedPackets)
    else
      match walkRanges ack p.PacketNumber ackRangeIndex with
      | none => none
      | some (.inGap i) =>
        collectAckedPackets ack encLevel lowestAcked largestAcked ps i history ackedPackets
      | some (.wrong ackRange) =>
        some (history, .error (.errorf ("BUG: ackhandler would have acked wrong packet " ++
          toString p.PacketNumber ++ ", while evaluating range " ++ toString ackRange.Smallest ++
          " -> " ++ toString ackRange.Largest)))
      | some (.inRange i) =>
        if p.skippedPacket then some (history, .error (skippedPacketError p.PacketNumber encLevel))
        else if p.isPathProbePacket then
          -- the probe packet might already have been declared lost
          let r := history.RemovePathProbe p.PacketNumber
          collectAckedPackets ack encLevel lowestAcked largestAcked ps i r.1
            (ackedPackets ++ r.2.toList)
        else
          collectAckedPackets ack encLevel lowestAcked largestAcked ps i history
            (ackedPackets ++ [p])

/-- The second loop of `detectAndRemoveAckedPackets`: for each acknowledged packet, raise
`lowestNotConfirmedAcked` past the largest packet number the packet acknowledged, and remove
it from the history. -/
def removeAckedPackets (encLevel : EncryptionLevel) :
    List Packet → SentPacketHandler → Option (SentPacketHandler × Option AckError)
  | [], s => some (s, none)
  | p :: ps, s =>
    let lowestNotConfirmedAcked :=
      if p.LargestAcked ≠ InvalidPacketNumber ∧ encLevel = .Encryption1RTT then
        max s.lowestNotConfirmedAcked (p.LargestAcked + 1)
      else s.lowestNotConfirmedAcked
    (s.history.Remove p.PacketNumber).bind fun (history, err) =>
      let s : SentPacketHandler := ⟨history, lowestNotConfirmedAcked⟩
      match err with
      | some e => some (s, some (.errorf e))
      | none => removeAckedPackets encLevel ps s

/-- `detectAndRemoveAckedPackets`: the acknowledged packets in ascending packet number order, or
the error; `none` where Go panics. -/
def detectAndRemoveAckedPackets (s : SentPacketHandler) (ack : AckFrame)
    (encLevel : EncryptionLevel) : Option (SentPacketHandler × Except AckError (List Packet)) :=
  ack.LowestAcked.bind fun lowestAcked =>
    ack.LargestAcked.bind fun largestAcked =>
      (collectAckedPackets ack encLevel lowestAcked largestAcked s.history.Packets 0 s.history
          []).bind fun (history, r) =>
        match r with
        | .error e => some ({ s with history }, .error e)
        | .ok ackedPackets =>
          (removeAckedPackets encLevel ackedPackets { s with history }).map fun (s, err) =>
            (s, match err with
              | some e => .error e
              | none => .ok ackedPackets)

/-! ## The packets an ACK acknowledges -/

/-- The packet the handler returns for an entry an ACK acknowledges: for a path probe's
placeholder the probe itself, while `probes` still holds it. -/
def ackedEntry (probes : List Packet) (p : Packet) : Option Packet :=
  if p.isPathProbePacket then probes.find? fun q => decide (q.PacketNumber = p.PacketNumber)
  else some p

/-- **The packets an ACK acknowledges**, as the handler is to return them: the entries `ps` of the
history that `AcksPacket` finds, in order, each as `ackedEntry` gives it. -/
def AckedPackets (f : AckFrame) (probes ps : List Packet) : List Packet :=
  ps.filterMap fun p =>
    if f.AcksPacket p.PacketNumber = some true then ackedEntry probes p else none

section AckedPackets

variable {f : AckFrame} {probes : List Packet} {p : Packet} {ps : List Packet}

theorem ackedEntry_number {q : Packet} (hq : ackedEntry probes p = some q) :
    q.PacketNumber = p.PacketNumber := by
  unfold ackedEntry at hq
  split_ifs at hq
  · simpa using List.find?_some hq
  · rw [Option.some.injEq] at hq
    rw [hq]

theorem AckedPackets_cons_of_not (h : f.AcksPacket p.PacketNumber ≠ some true) :
    AckedPackets f probes (p :: ps) = AckedPackets f probes ps := by
  simp [AckedPackets, h]

theorem AckedPackets_cons_of_acks (h : f.AcksPacket p.PacketNumber = some true) :
    AckedPackets f probes (p :: ps) = (ackedEntry probes p).toList ++ AckedPackets f probes ps := by
  simp only [AckedPackets, List.filterMap_cons, h, ↓reduceIte]
  cases ackedEntry probes p <;> rfl

theorem AckedPackets_eq_nil (h : ∀ p ∈ ps, f.AcksPacket p.PacketNumber ≠ some true) :
    AckedPackets f probes ps = [] := by
  simp only [AckedPackets, List.filterMap_eq_nil_iff]
  intro p hp
  rw [if_neg (h p hp)]

/-- Taking the probe of one number out leaves the entries of the other numbers as they are. -/
theorem AckedPackets_eraseP {pn : ℤ} (h : ∀ q ∈ ps, q.PacketNumber ≠ pn) :
    AckedPackets f (probes.eraseP fun q => decide (q.PacketNumber = pn)) ps =
      AckedPackets f probes ps := by
  refine List.filterMap_congr fun q hq => ?_
  simp only [ackedEntry]
  rw [find?_eraseP_of_imp probes fun x hx => by
    have hx' := of_decide_eq_true hx
    simpa [hx'] using (h q hq).symm]

theorem mem_AckedPackets {q : Packet} (hq : q ∈ AckedPackets f probes ps) :
    ∃ p ∈ ps, p.PacketNumber = q.PacketNumber ∧ f.AcksPacket p.PacketNumber = some true := by
  obtain ⟨p, hp, he⟩ := List.mem_filterMap.mp hq
  split_ifs at he with hack
  exact ⟨p, hp, (ackedEntry_number he).symm, hack⟩

/-- The packets come in the order of the history. -/
theorem pairwise_AckedPackets (hps : ps.Pairwise fun a b => a.PacketNumber < b.PacketNumber) :
    (AckedPackets f probes ps).Pairwise fun a b => a.PacketNumber < b.PacketNumber := by
  refine hps.filterMap _ fun a a' hlt b hb b' hb' => ?_
  split_ifs at hb hb'
  rw [ackedEntry_number hb, ackedEntry_number hb']
  exact hlt

end AckedPackets

/-! ## The range walk -/

/-- The range walk stands at index `i` for packet number `pn`: `i` counts a range from the
lowest, and the ranges it has gone past lie below `pn`. -/
def WalkedPast (ranges : List AckRange) (i : ℕ) (pn : ℤ) : Prop :=
  i ≤ ranges.length - 1 ∧ ∀ j < i, ∀ r, ranges[ranges.length - 1 - j]? = some r → r.Largest < pn

theorem walkedPast_zero (ranges : List AckRange) (pn : ℤ) : WalkedPast ranges 0 pn :=
  ⟨Nat.zero_le _, fun j hj => absurd hj (Nat.not_lt_zero j)⟩

theorem WalkedPast.mono {ranges : List AckRange} {i : ℕ} {pn pn' : ℤ} (h : WalkedPast ranges i pn)
    (hle : pn ≤ pn') : WalkedPast ranges i pn' :=
  ⟨h.1, fun j hj r hr => Int.lt_of_lt_of_le (h.2 j hj r hr) hle⟩

/-- **The inner loop ends in time.** With at least as much fuel as ranges are left above it, the
walk stops at a range that reaches up to `pn`, or at the highest range. -/
theorem advanceRange_spec {ranges : List AckRange} {pn : ℤ} :
    ∀ {fuel i : ℕ} {r : AckRange}, WalkedPast ranges i pn → ranges.length - 1 - i ≤ fuel →
      ranges[ranges.length - 1 - i]? = some r →
      ∃ i' r', advanceRange ranges pn fuel i r = some (i', r') ∧
        ranges[ranges.length - 1 - i']? = some r' ∧ WalkedPast ranges i' pn ∧
        (pn ≤ r'.Largest ∨ i' = ranges.length - 1) := by
  intro fuel
  induction fuel with
  | zero =>
    intro i r hw hfuel hr
    exact ⟨i, r, rfl, hr, hw, .inr (by have := hw.1; omega)⟩
  | succ fuel ih =>
    intro i r hw hfuel hr
    unfold advanceRange
    split_ifs with hc
    · -- `pn` lies above the range: go on to the next one up
      obtain ⟨r₁, hr₁⟩ : ∃ r₁, ranges[ranges.length - 1 - (i + 1)]? = some r₁ :=
        ⟨_, List.getElem?_eq_getElem (by omega)⟩
      rw [hr₁, Option.bind_some]
      refine ih ⟨by omega, fun j hj r' hr' => ?_⟩ (by omega) hr₁
      rcases Nat.lt_or_ge j i with hji | hji
      · exact hw.2 j hji r' hr'
      · rw [show j = i by omega, hr, Option.some.injEq] at hr'
        rw [← hr']
        exact hc.1
    · exact ⟨i, r, rfl, hr, hw, by have := hw.1; omega⟩

section Walk

variable {f : AckFrame} (hv : f.validateAckRanges = true) {lowestAcked largestAcked : ℤ}
  (hlow : f.LowestAcked = some lowestAcked) (hlarge : f.LargestAcked = some largestAcked)
include hv hlow hlarge

/-- **The range walk agrees with `AcksPacket`.** For a number between the lowest and the largest
acknowledged one, the walk from an index it has not gone beyond finds the number in a range
exactly when `AcksPacket` does, in a gap otherwise, and never above the range it stops at. -/
theorem walkRanges_eq {pn : ℤ} {i : ℕ} (hi : WalkedPast f.AckRanges i pn) (hl : lowestAcked ≤ pn)
    (hg : pn ≤ largestAcked) :
    ∃ i', WalkedPast f.AckRanges i' pn ∧ walkRanges f pn i =
      some (if ∃ r ∈ f.AckRanges, r.Smallest ≤ pn ∧ pn ≤ r.Largest then .inRange i'
        else .inGap i') := by
  obtain ⟨hne, hle, hchain⟩ := (validateAckRanges_iff f).mp hv
  have hn : 0 < f.AckRanges.length := List.length_pos_iff.mpr hne
  have hlarge' : largestAcked = f.AckRanges[0].Largest := by
    simp only [AckFrame.LargestAcked, List.getElem?_eq_getElem hn, Option.map_some,
      Option.some.injEq] at hlarge
    exact hlarge.symm
  by_cases hm : f.HasMissingRanges = true
  · -- missing ranges: the walk goes up from the range at `i`
    have hi₀ : f.AckRanges.length - 1 - i < f.AckRanges.length := by omega
    obtain ⟨r₀, hr₀⟩ : ∃ r₀, f.AckRanges[f.AckRanges.length - 1 - i]? = some r₀ :=
      ⟨_, List.getElem?_eq_getElem hi₀⟩
    obtain ⟨i', r', hadv, hr', hw', hend⟩ := advanceRange_spec hi
      (show f.AckRanges.length - 1 - i ≤ f.AckRanges.length by omega) hr₀
    rw [walkRanges, if_pos hm, hr₀, Option.bind_some, hadv, Option.map_some]
    obtain ⟨hr'lt, hr'eq⟩ := List.getElem?_eq_some_iff.mp hr'
    -- the range it stops at reaches up to `pn`: the highest one reaches up to `largestAcked`
    have hpl : pn ≤ r'.Largest := by
      rcases hend with h | h
      · exact h
      · have : f.AckRanges.length - 1 - i' = 0 := by omega
        simp only [this] at hr'eq
        rw [← hr'eq, ← hlarge']
        exact hg
    -- a range holds `pn` exactly when the one it stops at starts at or below it
    have hiff : (∃ r ∈ f.AckRanges, r.Smallest ≤ pn ∧ pn ≤ r.Largest) ↔ r'.Smallest ≤ pn := by
      refine ⟨?_, fun h => ⟨r', List.mem_of_getElem? hr', h, hpl⟩⟩
      rintro ⟨r, hr, h₁, h₂⟩
      obtain ⟨m, hm, rfl⟩ := List.mem_iff_getElem.mp hr
      rcases Nat.lt_trichotomy m (f.AckRanges.length - 1 - i') with hmt | hmt | hmt
      · -- a higher range starts above the one it stops at
        have hgap := List.pairwise_iff_getElem.mp (pairwise_of_isChain hle hchain) m
          (f.AckRanges.length - 1 - i') hm hr'lt hmt
        rw [hr'eq] at hgap
        omega
      · have : f.AckRanges[m] = r' := by simp only [hmt]; exact hr'eq
        rw [← this]
        exact h₁
      · -- a lower range is one it has gone past
        have := hw'.2 (f.AckRanges.length - 1 - m) (by omega) f.AckRanges[m]
          (by rw [show f.AckRanges.length - 1 - (f.AckRanges.length - 1 - m) = m by omega];
              exact List.getElem?_eq_getElem hm)
        omega
    refine ⟨i', hw', ?_⟩
    dsimp only
    by_cases hs : pn < r'.Smallest
    · rw [if_pos hs, if_neg (by rw [hiff]; omega)]
    · rw [if_neg hs, if_neg (by omega), if_pos (hiff.mpr (by omega))]
  · -- one range, from `lowestAcked` to `largestAcked`
    have h1 : f.AckRanges.length = 1 := by
      have : ¬ f.AckRanges.length > 1 := by simpa [AckFrame.HasMissingRanges] using hm
      omega
    obtain ⟨r, hr⟩ := List.length_eq_one_iff.mp h1
    simp only [AckFrame.LowestAcked, AckFrame.LargestAcked, hr, List.getLast?_singleton,
      Option.map_some, Option.some.injEq, List.getElem?_cons_zero] at hlow hlarge
    refine ⟨i, hi, ?_⟩
    rw [walkRanges, if_neg hm, if_pos ⟨r, by simp [hr], by omega, by omega⟩]

end Walk

/-! ## The first loop -/

/-- Two histories with the same slots and counters; they may differ in the path probes. -/
def SameSlots (a b : SentPacketHistory) : Prop :=
  a.packets = b.packets ∧ a.numOutstanding = b.numOutstanding ∧
    a.highestPacketNumber = b.highestPacketNumber

theorem SameSlots.refl (a : SentPacketHistory) : SameSlots a a := ⟨rfl, rfl, rfl⟩

theorem SameSlots.trans {a b c : SentPacketHistory} (hab : SameSlots a b) (hbc : SameSlots b c) :
    SameSlots a c :=
  ⟨hab.1.trans hbc.1, hab.2.1.trans hbc.2.1, hab.2.2.trans hbc.2.2⟩

/-- The invariant does not read the path probes. -/
theorem SameSlots.inv {a b : SentPacketHistory} (hab : SameSlots a b)
    (hb : SentPacketHistory.Inv b) : SentPacketHistory.Inv a := by
  obtain ⟨hp, hn, hh⟩ := hab
  have hP : a.Packets = b.Packets := by rw [Packets, Packets, hp]
  refine ⟨by rw [hp]; exact hb.front, ?_, fun hinv => ?_, by rw [hn, hP]; exact hb.outstanding⟩
  · rw [firstNumber, hp, hh]
    exact hb.numbered
  · rw [hp]
    exact hb.fresh (hh ▸ hinv)

theorem sameSlots_RemovePathProbe (h : SentPacketHistory) (pn : ℤ) :
    SameSlots (h.RemovePathProbe pn).1 h := by
  rw [RemovePathProbe_eq]
  exact SameSlots.refl _

/-- What the first loop gives from the packets `ps` on: the protocol violation of an acknowledged
skipped packet of `ps`, or, when there is none, the packets acknowledged so far followed by
those of `ps` that the frame acknowledges, with the slots as they were. -/
def Collects (f : AckFrame) (encLevel : EncryptionLevel) (ps : List Packet)
    (history : SentPacketHistory) (ackedPackets : List Packet)
    (r : Option (SentPacketHistory × Except AckError (List Packet))) : Prop :=
  (∃ p ∈ ps, p.skippedPacket = true ∧ f.AcksPacket p.PacketNumber = some true ∧
    ∃ history', r = some (history', .error (skippedPacketError p.PacketNumber encLevel))) ∨
  ((∀ p ∈ ps, p.skippedPacket = true → f.AcksPacket p.PacketNumber ≠ some true) ∧
    ∃ history', r = some (history', .ok (ackedPackets ++
      AckedPackets f history.pathProbePackets ps)) ∧ SameSlots history' history)

/-- A pass of the loop that goes on from `p` to `ps` with what it acknowledged of `p`. -/
theorem Collects.cons {f : AckFrame} {encLevel : EncryptionLevel} {p : Packet} {ps : List Packet}
    {history history₁ : SentPacketHistory} {ackedPackets ackedPackets₁ : List Packet}
    {r : Option (SentPacketHistory × Except AckError (List Packet))}
    (h : Collects f encLevel ps history₁ ackedPackets₁ r)
    (hacked : ackedPackets₁ ++ AckedPackets f history₁.pathProbePackets ps =
      ackedPackets ++ AckedPackets f history.pathProbePackets (p :: ps))
    (hskip : p.skippedPacket = true → f.AcksPacket p.PacketNumber ≠ some true)
    (hslots : SameSlots history₁ history) : Collects f encLevel (p :: ps) history ackedPackets r := by
  rcases h with ⟨q, hq, hqs, hqa, hr⟩ | ⟨hno, history', hr, hsame⟩
  · exact .inl ⟨q, List.mem_cons_of_mem p hq, hqs, hqa, hr⟩
  · refine .inr ⟨fun q hq => ?_, history', by rw [hr, hacked], hsame.trans hslots⟩
    rcases List.mem_cons.mp hq with rfl | hq'
    · exact hskip
    · exact hno q hq'

section Loop

variable {f : AckFrame} (hv : f.validateAckRanges = true) {lowestAcked largestAcked : ℤ}
  (hlow : f.LowestAcked = some lowestAcked) (hlarge : f.LargestAcked = some largestAcked)
  (encLevel : EncryptionLevel)
include hv hlow hlarge

/-- **The first loop finds the acknowledged packets.** Over packets in ascending order that the
range walk has not gone beyond, it returns the protocol violation of an acknowledged skipped
packet, or the acknowledged packets as `AckedPackets` gives them. -/
theorem collectAckedPackets_spec :
    ∀ (ps : List Packet) (i : ℕ) (history : SentPacketHistory) (ackedPackets : List Packet),
      ps.Pairwise (fun a b => a.PacketNumber < b.PacketNumber) →
      (∀ p ∈ ps, WalkedPast f.AckRanges i p.PacketNumber) →
      Collects f encLevel ps history ackedPackets
        (collectAckedPackets f encLevel lowestAcked largestAcked ps i history ackedPackets) := by
  intro ps
  induction ps with
  | nil =>
    intro i history ackedPackets _ _
    exact .inr ⟨fun p hp => absurd hp List.not_mem_nil, history,
      by simp [collectAckedPackets, AckedPackets], SameSlots.refl _⟩
  | cons p ps ih =>
    intro i history ackedPackets hps hw
    obtain ⟨hlt, hps'⟩ := List.pairwise_cons.mp hps
    have hwp := hw p List.mem_cons_self
    unfold collectAckedPackets
    by_cases h₁ : p.PacketNumber < lowestAcked
    · -- below the lowest acknowledged number: not acknowledged
      have hna : f.AcksPacket p.PacketNumber ≠ some true := by
        rw [AckFrame.AcksPacket_of_lt hlow h₁]
        simp
      rw [if_pos h₁]
      exact (ih i history ackedPackets hps' fun q hq => hw q (List.mem_cons_of_mem p hq)).cons
        (by rw [AckedPackets_cons_of_not hna]) (fun _ => hna) (SameSlots.refl _)
    rw [if_neg h₁]
    by_cases h₂ : p.PacketNumber > largestAcked
    · -- above the largest acknowledged number, and so are the packets after it
      have hna : ∀ q ∈ p :: ps, f.AcksPacket q.PacketNumber ≠ some true := by
        intro q hq
        have hq' : q.PacketNumber > largestAcked := by
          rcases List.mem_cons.mp hq with rfl | hq'
          · exact h₂
          · have := hlt q hq'
            omega
        rw [AckFrame.AcksPacket_of_gt hlow hlarge hq']
        simp
      rw [if_pos h₂]
      exact .inr ⟨fun q hq _ => hna q hq, history,
        by rw [AckedPackets_eq_nil hna, List.append_nil], SameSlots.refl _⟩
    rw [if_neg h₂]
    -- between them: the range walk decides
    obtain ⟨i', hw', hwalk⟩ := walkRanges_eq hv hlow hlarge hwp (by omega) (by omega)
    have hw'' : ∀ q ∈ ps, WalkedPast f.AckRanges i' q.PacketNumber :=
      fun q hq => hw'.mono (Int.le_of_lt (hlt q hq))
    have hacks := AckFrame.AcksPacket_eq hv p.PacketNumber
    rw [hwalk]
    by_cases ha : ∃ r ∈ f.AckRanges, r.Smallest ≤ p.PacketNumber ∧ p.PacketNumber ≤ r.Largest
    · have hta : f.AcksPacket p.PacketNumber = some true := by rw [hacks, decide_eq_true ha]
      rw [if_pos ha]
      dsimp only
      cases hs : p.skippedPacket
      · cases hpp : p.isPathProbePacket
        · -- a packet: acknowledged as it is
          simp only [Bool.false_eq_true, ↓reduceIte]
          refine (ih i' history (ackedPackets ++ [p]) hps' hw'').cons ?_ (by simp [hs])
            (SameSlots.refl _)
          rw [AckedPackets_cons_of_acks hta, ackedEntry, hpp]
          simp
        · -- a placeholder: its probe, if it is still there, taken out of the probes
          simp only [Bool.false_eq_true, ↓reduceIte]
          refine (ih i' _ _ hps' hw'').cons ?_ (by simp [hs]) (sameSlots_RemovePathProbe _ _)
          rw [RemovePathProbe_eq, AckedPackets_cons_of_acks hta, ackedEntry, hpp, if_pos rfl]
          dsimp only
          rw [AckedPackets_eraseP fun q hq => Int.ne_of_gt (hlt q hq), List.append_assoc]
      · -- an acknowledged skipped packet
        exact .inl ⟨p, List.mem_cons_self, hs, hta, history, by simp⟩
    · -- in a gap
      have hna : f.AcksPacket p.PacketNumber ≠ some true := by
        rw [hacks, decide_eq_false ha]
        simp
      rw [if_neg ha]
      exact (ih i' history ackedPackets hps' hw'').cons (by rw [AckedPackets_cons_of_not hna])
        (fun _ => hna) (SameSlots.refl _)

end Loop

/-! ## The second loop -/

/-- **The second loop removes the acknowledged packets.** For packets in ascending order whose
numbers are those of packets of the history that are not skipped, every `Remove` succeeds. The
history keeps the invariant and all its packets but, for each packet removed, the one with its
number and the run of skipped packets directly below it. -/
theorem removeAckedPackets_spec (encLevel : EncryptionLevel) :
    ∀ (acked : List Packet) (s : SentPacketHandler), SentPacketHistory.Inv s.history →
      acked.Pairwise (fun a b => a.PacketNumber < b.PacketNumber) →
      (∀ q ∈ acked, ∃ r ∈ s.history.Packets, r.PacketNumber = q.PacketNumber ∧
        r.skippedPacket = false) →
      ∃ (s' : SentPacketHandler) (k : ℤ → ℕ), removeAckedPackets encLevel acked s = some (s', none) ∧
        SentPacketHistory.Inv s'.history ∧
        (∀ q ∈ acked, SkippedBelow s.history.Packets q.PacketNumber (k q.PacketNumber)) ∧
        s'.history.Packets = s.history.Packets.filter fun r => !decide (∃ q ∈ acked,
          q.PacketNumber - k q.PacketNumber ≤ r.PacketNumber ∧ r.PacketNumber ≤ q.PacketNumber) := by
  intro acked
  induction acked with
  | nil =>
    intro s hi _ _
    refine ⟨s, fun _ => 0, rfl, hi, fun q hq => absurd hq List.not_mem_nil, ?_⟩
    simp
  | cons q rest ih =>
    intro s hi hps hmem
    obtain ⟨hlt, hps'⟩ := List.pairwise_cons.mp hps
    obtain ⟨r, hr, hrn, hrs⟩ := hmem q List.mem_cons_self
    obtain ⟨h₁, k₀, hR, hi₁, hP₁, hbelow, -, -⟩ := hi.Remove_spec hr
    -- the packets of the rest lie above `q`, so `Remove` left them
    have hmem₁ : ∀ q' ∈ rest, ∃ r' ∈ h₁.Packets, r'.PacketNumber = q'.PacketNumber ∧
        r'.skippedPacket = false := by
      intro q' hq'
      obtain ⟨r', hr', hr'n, hr's⟩ := hmem q' (List.mem_cons_of_mem q hq')
      refine ⟨r', ?_, hr'n, hr's⟩
      rw [hP₁]
      refine List.mem_filter.mpr ⟨hr', ?_⟩
      have := hlt q' hq'
      simp only [Bool.not_eq_eq_eq_not, Bool.not_true, decide_eq_false_iff_not, not_and, Int.not_le]
      omega
    obtain ⟨s', k', hrun, hi', hbelow', hP'⟩ := ih ⟨h₁,
      if q.LargestAcked ≠ InvalidPacketNumber ∧ encLevel = .Encryption1RTT then
        max s.lowestNotConfirmedAcked (q.LargestAcked + 1)
      else s.lowestNotConfirmedAcked⟩ hi₁ hps' hmem₁
    have hk : ∀ q' ∈ rest, (if q'.PacketNumber = q.PacketNumber then k₀ else k' q'.PacketNumber) =
        k' q'.PacketNumber := fun q' hq' => if_neg (Int.ne_of_gt (hlt q' hq'))
    refine ⟨s', fun n => if n = q.PacketNumber then k₀ else k' n, ?_, hi', fun q' hq' => ?_, ?_⟩
    · rw [removeAckedPackets, ← hrn, hR, Option.bind_some]
      exact hrun
    · dsimp only
      rcases List.mem_cons.mp hq' with rfl | hq'
      · rw [if_pos rfl, ← hrn]
        exact hbelow
      · -- the run below a higher number stops above the packet `Remove` cleared
        have hb := hbelow' q' hq'
        rw [hP₁] at hb
        rw [hk q' hq']
        exact hb.of_filter hi.numbered.pairwise hr hrs (by rw [hrn]; exact hlt q' hq')
    · rw [hP', hP₁, List.filter_filter]
      refine List.filter_congr fun x _ => ?_
      -- the numbers cleared: those of `q`'s run, and those of the rest's runs
      have hiff : (∃ q₁ ∈ q :: rest, q₁.PacketNumber - (if q₁.PacketNumber = q.PacketNumber then k₀
          else k' q₁.PacketNumber) ≤ x.PacketNumber ∧ x.PacketNumber ≤ q₁.PacketNumber) ↔
          (q.PacketNumber - k₀ ≤ x.PacketNumber ∧ x.PacketNumber ≤ q.PacketNumber) ∨
            ∃ q' ∈ rest, q'.PacketNumber - k' q'.PacketNumber ≤ x.PacketNumber ∧
              x.PacketNumber ≤ q'.PacketNumber := by
        constructor
        · rintro ⟨q₁, hq₁, h⟩
          rcases List.mem_cons.mp hq₁ with rfl | hq₁
          · rw [if_pos rfl] at h
            exact .inl h
          · exact .inr ⟨q₁, hq₁, by rwa [hk q₁ hq₁] at h⟩
        · rintro (h | ⟨q', hq', h⟩)
          · exact ⟨q, List.mem_cons_self, by rwa [if_pos rfl]⟩
          · exact ⟨q', List.mem_cons_of_mem q hq', by rwa [hk q' hq']⟩
      rw [decide_eq_decide.mpr hiff, Bool.decide_or, Bool.not_or, Bool.and_comm, hrn]

/-! ## Removing the acknowledged packets -/

theorem SameSlots.Packets {a b : SentPacketHistory} (hab : SameSlots a b) : a.Packets = b.Packets := by
  rw [SentPacketHistory.Packets, SentPacketHistory.Packets, hab.1]

/-- The ends of the ranges of a frame that passes `validateAckRanges`. -/
theorem exists_acked_of_valid {f : AckFrame} (hv : f.validateAckRanges = true) :
    ∃ lowestAcked largestAcked, f.LowestAcked = some lowestAcked ∧
      f.LargestAcked = some largestAcked := by
  obtain ⟨hne, -, -⟩ := (validateAckRanges_iff f).mp hv
  obtain ⟨r, rest, he⟩ := List.exists_cons_of_ne_nil hne
  obtain ⟨l, hl⟩ := List.getLast?_isSome.mpr hne |> Option.isSome_iff_exists.mp
  exact ⟨l.Smallest, r.Largest, by simp [AckFrame.LowestAcked, hl], by simp [AckFrame.LargestAcked, he]⟩

end AckHandler

end QuicGo
