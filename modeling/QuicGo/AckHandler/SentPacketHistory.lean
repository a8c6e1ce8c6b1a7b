import Mathlib.Data.List.Basic
import QuicGo.Protocol
import QuicGo.Protocol.PacketNumber
import QuicGo.Lib.Run

/-!
# QuicGo — the history of sent packets (`internal/ackhandler/sent_packet_history.go`)

The sender keeps the packets of a packet number space in a slice indexed by packet number:
slot `i` belongs to the number of the first slot plus `i`. Packets are appended in number
order (`checkSequentialPacketNumberUse` panics otherwise). A skipped number gets a slot with a
packet marked `skippedPacket`; a packet that is not ack-eliciting gets a `nil` slot, but only
behind a packet; a path probe gets a slot with a placeholder marked `isPathProbePacket`, and
the probe itself goes to `pathProbePackets`. `Remove` and `DeclareLost` set the slot of a
packet number to `nil`; `Remove` also clears the skipped packets directly before it. Once the
first slot is `nil`, `cleanupStart` cuts off the `nil` slots at the front.

A slot is an `Option Packet`, `none` for `nil`. A panic is `none` of the result: a
non-sequential packet number, a `nil` pointer read (`packets[0]` in `getIndex`, the slot of the
number in `Remove` and `DeclareLost`), an index out of range, a negative count of outstanding
packets, and `Remove`'s "remove failed".

The handler also removes packets or declares them lost inside a loop over `Packets`. Such a loop
ranges over the slice as it was when the loop began, and sees the `nil` the body writes, since
the history's slice shares that slice's backing array (`rangeSlot`, `rangePackets`).

`Inv` is the invariant of every reachable history: the slots start with a packet or there
are none, they are numbered from `highestPacketNumber` back, and `numOutstanding` counts the
outstanding packets. With it `getIndex` finds the slot of every packet, `Remove` of a packet
neither panics nor fails, and what `Remove` and `DeclareLost` leave of the packets is a filter
of the packets by number (`Inv.Remove_spec`, `Inv.DeclareLost_spec`). Each call the handler
makes keeps it (`Inv.step_spec`), and so does every run (`sentPacketHistory_index`).

Left out: the packets' send time, frames, length and encryption level, which the history only
stores; `Len`, `FirstOutstanding`, `LowestPacketNumber` and the iterators over path probes,
which no modelled function calls.
-/

namespace QuicGo

namespace AckHandler

open Protocol

/-- `ackhandler.packet`, with the fields the history and the handling of an ACK read. -/
structure Packet where
  PacketNumber : ℤ
  LargestAcked : ℤ := 0
  IsPathMTUProbePacket : Bool := false
  declaredLost : Bool := false
  skippedPacket : Bool := false
  isPathProbePacket : Bool := false
  deriving DecidableEq, Repr

/-- `packet.outstanding`. -/
def Packet.outstanding (p : Packet) : Bool :=
  !p.declaredLost && !p.skippedPacket && !p.IsPathMTUProbePacket && !p.isPathProbePacket

/-- `ackhandler.sentPacketHistory`. -/
structure SentPacketHistory where
  packets : List (Option Packet)
  pathProbePackets : List Packet
  numOutstanding : ℤ
  highestPacketNumber : ℤ
  deriving DecidableEq, Repr

namespace SentPacketHistory

/-- `newSentPacketHistory`; the capacity it reserves is not modelled. -/
def newSentPacketHistory : SentPacketHistory := ⟨[], [], 0, InvalidPacketNumber⟩

/-- `checkSequentialPacketNumberUse`. -/
def checkSequentialPacketNumberUse (h : SentPacketHistory) (pn : ℤ) :
    Option SentPacketHistory :=
  -- "non-sequential packet number use"
  if h.highestPacketNumber ≠ InvalidPacketNumber ∧ pn ≠ h.highestPacketNumber + 1 then none
  else some { h with highestPacketNumber := pn }

/-- `SkippedPacket`. -/
def SkippedPacket (h : SentPacketHistory) (pn : ℤ) : Option SentPacketHistory :=
  (h.checkSequentialPacketNumberUse pn).map fun h =>
    { h with packets := h.packets ++ [some { PacketNumber := pn, skippedPacket := true }] }

/-- `SentNonAckElicitingPacket`. -/
def SentNonAckElicitingPacket (h : SentPacketHistory) (pn : ℤ) : Option SentPacketHistory :=
  (h.checkSequentialPacketNumberUse pn).map fun h =>
    if h.packets.length > 0 then { h with packets := h.packets ++ [none] } else h

/-- `SentAckElicitingPacket`. -/
def SentAckElicitingPacket (h : SentPacketHistory) (p : Packet) : Option SentPacketHistory :=
  (h.checkSequentialPacketNumberUse p.PacketNumber).map fun h =>
    { h with
      packets := h.packets ++ [some p]
      numOutstanding := if p.outstanding then h.numOutstanding + 1 else h.numOutstanding }

/-- `SentPathProbePacket`: a placeholder in the slots, the probe in `pathProbePackets`. -/
def SentPathProbePacket (h : SentPacketHistory) (p : Packet) : Option SentPacketHistory :=
  (h.checkSequentialPacketNumberUse p.PacketNumber).map fun h =>
    { h with
      packets := h.packets ++ [some { PacketNumber := p.PacketNumber, isPathProbePacket := true }]
      pathProbePackets := h.pathProbePackets ++ [p] }

/-- `Packets`: the packets of the slots in order, skipping `nil`. -/
def Packets (h : SentPacketHistory) : List Packet := h.packets.filterMap id

/-- `getIndex`: the slot of packet number `p`, if it is in range. -/
def getIndex (h : SentPacketHistory) (p : ℤ) : Option (ℕ × Bool) :=
  match h.packets with
  | [] => some (0, false)
  -- `h.packets[0].PacketNumber` of a `nil` slot
  | none :: _ => none
  | some first :: _ =>
    if p < first.PacketNumber then some (0, false)
    else
      let index := p - first.PacketNumber
      if index > (h.packets.length : ℤ) - 1 then some (0, false) else some (index.toNat, true)

/-- `cleanupStart`: the slots from the first packet on, or none. -/
def cleanupStart (h : SentPacketHistory) : SentPacketHistory :=
  { h with packets := h.packets.dropWhile Option.isNone }

/-- The loop of `Remove` that clears the skipped packets directly before slot `idx`: the slots
and the index it stops at. -/
def clearSkipped (packets : List (Option Packet)) : ℕ → Option (List (Option Packet) × ℕ)
  | 0 => some (packets, 0)
  | idx + 1 =>
    match packets[idx]? with
    -- `h.packets[idx]` out of range
    | none => none
    | some none => some (packets, idx)
    | some (some p) =>
      if !p.skippedPacket then some (packets, idx)
      else clearSkipped (packets.set idx none) idx

/-- `Remove`: `nil` for the slot of `pn` and the skipped packets directly before it, or the
error for a number out of range. -/
def Remove (h : SentPacketHistory) (pn : ℤ) : Option (SentPacketHistory × Option String) :=
  (h.getIndex pn).bind fun (idx, ok) =>
    if !ok then some (h, some ("packet " ++ toString pn ++ " not found in sent packet history"))
    else
      match h.packets[idx]? with
      | some (some p) =>
        -- "negative number of outstanding packets"
        if p.outstanding ∧ h.numOutstanding - 1 < 0 then none
        else
          let numOutstanding := if p.outstanding then h.numOutstanding - 1 else h.numOutstanding
          (clearSkipped (h.packets.set idx none) idx).bind fun (packets, idx) =>
            let h := { h with packets, numOutstanding }
            let h := if idx = 0 then h.cleanupStart else h
            match h.packets with
            -- "remove failed"
            | none :: _ => none
            | _ => some (h, none)
      -- `p.outstanding()` of a `nil` slot
      | _ => none

/-- `DeclareLost`: `nil` for the slot of `pn`, if it is in range. -/
def DeclareLost (h : SentPacketHistory) (pn : ℤ) : Option SentPacketHistory :=
  (h.getIndex pn).bind fun (idx, ok) =>
    if !ok then some h
    else
      match h.packets[idx]? with
      | some (some p) =>
        -- "negative number of outstanding packets"
        if p.outstanding ∧ h.numOutstanding - 1 < 0 then none
        else
          let h := { h with
            packets := h.packets.set idx none
            numOutstanding := if p.outstanding then h.numOutstanding - 1 else h.numOutstanding }
          some (if idx = 0 then h.cleanupStart else h)
      -- `p.outstanding()` of a `nil` slot
      | _ => none

/-- `RemovePathProbe`: the first path probe with number `pn`, taken out. -/
def RemovePathProbe (h : SentPacketHistory) (pn : ℤ) : SentPacketHistory × Option Packet :=
  match h.pathProbePackets.findIdx? (·.PacketNumber = pn) with
  | none => (h, none)
  | some idx =>
    ({ h with pathProbePackets := h.pathProbePackets.eraseIdx idx }, h.pathProbePackets[idx]?)

/-! ## Numbered slots -/

/-- The slots `l` hold packets numbered from `base`: slot `i` holds packet `base + i`. -/
def Numbered (base : ℤ) (l : List (Option Packet)) : Prop :=
  ∀ (i : ℕ) (p : Packet), l[i]? = some (some p) → p.PacketNumber = base + i

section Numbered

variable {base : ℤ} {l : List (Option Packet)}

theorem numbered_nil (base : ℤ) : Numbered base [] := by
  intro i p h
  simp at h

theorem Numbered.tail {x : Option Packet} (h : Numbered base (x :: l)) :
    Numbered (base + 1) l := by
  intro i p hp
  have := h (i + 1) p (by simpa using hp)
  push_cast at this
  omega

theorem Numbered.head {p : Packet} (h : Numbered base (some p :: l)) : p.PacketNumber = base := by
  simpa using h 0 p rfl

theorem Numbered.append {x : Option Packet} (h : Numbered base l)
    (hx : ∀ p, x = some p → p.PacketNumber = base + l.length) : Numbered base (l ++ [x]) := by
  intro i p hp
  rcases Nat.lt_or_ge i l.length with hi | hi
  · rw [List.getElem?_append_left hi] at hp
    exact h i p hp
  · rw [List.getElem?_append_right hi] at hp
    have hi' : i - l.length = 0 := by
      by_contra hne
      simp [List.getElem?_eq_none (by simp; omega : [x].length ≤ i - l.length)] at hp
    rw [hi', List.getElem?_singleton, if_pos rfl, Option.some.injEq] at hp
    rw [hx p hp]
    omega

theorem Numbered.drop (h : Numbered base l) (k : ℕ) : Numbered (base + k) (l.drop k) := by
  intro i p hp
  rw [List.getElem?_drop] at hp
  have := h (k + i) p hp
  push_cast at this
  omega

theorem mem_filterMap_id {q : Packet} : q ∈ l.filterMap id ↔ some q ∈ l := by
  simp

/-- The packets of slots that agree with `l` except that the slots of the numbers `P` holds of
are cleared: the packets of `l` with the other numbers. -/
theorem Numbered.filterMap_clear (h : Numbered base l) {l' : List (Option Packet)}
    (P : ℤ → Prop) [DecidablePred P] (hlen : l'.length = l.length)
    (hl' : ∀ m : ℕ, l'[m]? = if P (base + m) then some none else l[m]?) :
    l'.filterMap id = (l.filterMap id).filter fun p => !decide (P p.PacketNumber) := by
  induction l generalizing base l' with
  | nil =>
    rw [List.length_nil, List.length_eq_zero_iff] at hlen
    simp [hlen]
  | cons x l ih =>
    obtain ⟨x', l', rfl⟩ := List.exists_cons_of_length_eq_add_one hlen
    have htail := ih h.tail (by simpa using hlen) fun m => by
      have e : base + ((m + 1 : ℕ) : ℤ) = base + 1 + m := by push_cast; omega
      simpa only [List.getElem?_cons_succ, e] using hl' (m + 1)
    -- the head slot is cleared exactly when `P` holds of its number, `base`
    have h0 : x' = if P base then none else x := by
      have := hl' 0
      simp only [List.getElem?_cons_zero, Int.natCast_zero, Int.add_zero] at this
      split_ifs at this ⊢ <;> simpa using this
    rw [List.filterMap_cons, htail, List.filterMap_cons]
    cases x with
    | none =>
      rw [h0]
      split_ifs <;> rfl
    | some p => by_cases hP : P base <;> simp [h0, hP, h.head]

/-- Clearing slots keeps the numbering. -/
theorem Numbered.of_clear (h : Numbered base l) {l' : List (Option Packet)}
    (hl' : ∀ m : ℕ, l'[m]? = some none ∨ l'[m]? = l[m]?) : Numbered base l' := by
  intro i p hp
  rcases hl' i with h' | h' <;> rw [h'] at hp
  · cases hp
  · exact h i p hp

/-- A packet of numbered slots sits in the slot of its number. -/
theorem Numbered.mem {q : Packet} (h : Numbered base l) (hq : q ∈ l.filterMap id) :
    ∃ i, i < l.length ∧ l[i]? = some (some q) ∧ q.PacketNumber = base + i := by
  obtain ⟨i, hi⟩ := List.mem_iff_getElem?.mp (mem_filterMap_id.mp hq)
  exact ⟨i, (List.getElem?_eq_some_iff.mp hi).1, hi, h i q hi⟩

/-- The packets of numbered slots come in increasing number order. -/
theorem Numbered.pairwise (h : Numbered base l) :
    (l.filterMap id).Pairwise fun a b => a.PacketNumber < b.PacketNumber := by
  induction l generalizing base with
  | nil => exact List.Pairwise.nil
  | cons x l ih =>
    have htail := ih h.tail
    cases x with
    | none => simpa using htail
    | some p =>
      show List.Pairwise _ (p :: l.filterMap id)
      refine List.pairwise_cons.mpr ⟨fun b hb => ?_, htail⟩
      obtain ⟨i, -, -, hi⟩ := h.tail.mem hb
      rw [h.head, hi]
      omega

/-- `cleanupStart` cuts off `nil` slots only. -/
theorem filterMap_dropWhile (l : List (Option Packet)) :
    (l.dropWhile Option.isNone).filterMap id = l.filterMap id := by
  induction l with
  | nil => rfl
  | cons x l ih =>
    cases x with
    | none => rw [List.dropWhile_cons_of_pos rfl, ih]; rfl
    | some p => rw [List.dropWhile_cons_of_neg (by simp)]

theorem dropWhile_front (l : List (Option Packet)) :
    l.dropWhile Option.isNone = [] ∨ ∃ p rest, l.dropWhile Option.isNone = some p :: rest := by
  induction l with
  | nil => exact .inl rfl
  | cons x l ih =>
    cases x with
    | none => simpa using ih
    | some p => exact .inr ⟨p, l, by simp⟩

/-- The slots from the first packet on are numbered from as far further as they are
shorter. -/
theorem Numbered.dropWhile (h : Numbered base l) :
    Numbered (base + (l.length - (l.dropWhile Option.isNone).length : ℕ))
      (l.dropWhile Option.isNone) := by
  have e := List.takeWhile_append_dropWhile (p := Option.isNone) (l := l)
  have hlen : l.length - (l.dropWhile Option.isNone).length = (l.takeWhile Option.isNone).length := by
    have := congrArg List.length e
    rw [List.length_append] at this
    omega
  have hd : l.dropWhile Option.isNone = l.drop (l.takeWhile Option.isNone).length := by
    have := congrArg (List.drop (l.takeWhile Option.isNone).length) e
    rwa [List.drop_left] at this
  rw [hlen, hd]
  exact h.drop _

end Numbered

/-! ## The loop of `Remove` -/

/-- How many skipped packets stand directly before slot `idx`. -/
def skippedRun (packets : List (Option Packet)) : ℕ → ℕ
  | 0 => 0
  | idx + 1 =>
    match packets[idx]? with
    | some (some p) => if p.skippedPacket then skippedRun packets idx + 1 else 0
    | _ => 0

theorem skippedRun_le (packets : List (Option Packet)) (idx : ℕ) :
    skippedRun packets idx ≤ idx := by
  induction idx with
  | zero => rfl
  | succ idx ih =>
    simp only [skippedRun]
    split
    · split_ifs <;> omega
    · omega

/-- Writing a slot at or after `idx` leaves the run before `idx` as it is. -/
theorem skippedRun_set {packets : List (Option Packet)} {i idx : ℕ} (x : Option Packet)
    (h : idx ≤ i) : skippedRun (packets.set i x) idx = skippedRun packets idx := by
  induction idx with
  | zero => rfl
  | succ idx ih =>
    simp only [skippedRun, List.getElem?_set_ne (by omega : i ≠ idx), ih (by omega)]

/-- **The loop clears the run.** It sets the skipped packets directly before slot `idx` to
`nil` and stops at the slot below them, or at `0` when they reach down to it. -/
theorem clearSkipped_spec {l : List (Option Packet)} {idx : ℕ} (hidx : idx ≤ l.length) :
    ∃ l', clearSkipped l idx = some (l', if skippedRun l idx = idx then 0
        else idx - skippedRun l idx - 1) ∧ l'.length = l.length ∧
      ∀ m : ℕ, l'[m]? = if idx - skippedRun l idx ≤ m ∧ m < idx then some none else l[m]? := by
  induction idx generalizing l with
  | zero => exact ⟨l, rfl, rfl, fun m => by simp⟩
  | succ idx ih =>
    obtain ⟨x, hx⟩ : ∃ x, l[idx]? = some x := ⟨_, List.getElem?_eq_getElem (by omega)⟩
    -- the loop stops at slot `idx` unless it holds a skipped packet
    have hstop : skippedRun l (idx + 1) = 0 → clearSkipped l (idx + 1) = some (l, idx) →
        ∃ l', clearSkipped l (idx + 1) = some (l', if skippedRun l (idx + 1) = idx + 1 then 0
          else idx + 1 - skippedRun l (idx + 1) - 1) ∧ l'.length = l.length ∧
        ∀ m : ℕ, l'[m]? = if idx + 1 - skippedRun l (idx + 1) ≤ m ∧ m < idx + 1 then some none
          else l[m]? := by
      intro hrun hc
      refine ⟨l, by rw [hc, hrun]; rfl, rfl, fun m => ?_⟩
      rw [hrun, if_neg (by omega)]
    rcases x with _ | p
    · exact hstop (by simp [skippedRun, hx]) (by simp [clearSkipped, hx])
    cases hp : p.skippedPacket
    · exact hstop (by simp [skippedRun, hx, hp]) (by simp [clearSkipped, hx, hp])
    -- a skipped packet: cleared, and the loop goes on below it
    obtain ⟨l', hc, hlen, hl'⟩ := ih (l := l.set idx none) (by simp; omega)
    have hrun : skippedRun l (idx + 1) = skippedRun l idx + 1 := by
      simp [skippedRun, hx, hp]
    rw [skippedRun_set none (Nat.le_refl _)] at hc hl'
    have hle := skippedRun_le l idx
    refine ⟨l', ?_, by simpa using hlen, fun m => ?_⟩
    · simp only [clearSkipped, hx, hp, Bool.not_true, Bool.false_eq_true, ↓reduceIte, hc, hrun]
      congr 2
      split_ifs <;> omega
    · rw [hl', hrun, List.getElem?_set]
      by_cases hm : m = idx
      · subst hm
        simp [show m < l.length by omega]
      · rw [if_neg (Ne.symm hm)]
        split_ifs <;> first | rfl | omega


/-- The run before slot `idx` holds skipped packets, and the slot below it does not. -/
theorem skippedRun_spec (l : List (Option Packet)) (idx : ℕ) :
    (∀ j, idx - skippedRun l idx ≤ j → j < idx →
      ∃ p, l[j]? = some (some p) ∧ p.skippedPacket = true) ∧
    (skippedRun l idx < idx → ∀ p, l[idx - skippedRun l idx - 1]? = some (some p) →
      p.skippedPacket = false) := by
  induction idx with
  | zero => exact ⟨fun j _ hj => absurd hj (Nat.not_lt_zero j), fun h => absurd h (Nat.lt_irrefl 0)⟩
  | succ idx ih =>
    have hle := skippedRun_le l idx
    -- the run stops at slot `idx` unless it holds a skipped packet
    have hstop : skippedRun l (idx + 1) = 0 →
        (∀ p, l[idx]? = some (some p) → p.skippedPacket = false) →
        (∀ j, idx + 1 - skippedRun l (idx + 1) ≤ j → j < idx + 1 →
          ∃ p, l[j]? = some (some p) ∧ p.skippedPacket = true) ∧
        (skippedRun l (idx + 1) < idx + 1 → ∀ p,
          l[idx + 1 - skippedRun l (idx + 1) - 1]? = some (some p) → p.skippedPacket = false) := by
      intro hrun hs
      rw [hrun]
      exact ⟨fun j h₁ h₂ => absurd h₂ (by omega), fun _ p hp => hs p (by simpa using hp)⟩
    cases hx : l[idx]? with
    | none => exact hstop (by simp [skippedRun, hx]) (by simp [hx])
    | some x =>
      cases x with
      | none => exact hstop (by simp [skippedRun, hx]) (by simp [hx])
      | some p =>
        cases hp : p.skippedPacket
        · exact hstop (by simp [skippedRun, hx, hp]) fun p' hp' => by
            rw [hx] at hp'
            cases hp'
            exact hp
        · have hrun : skippedRun l (idx + 1) = skippedRun l idx + 1 := by
            simp [skippedRun, hx, hp]
          rw [hrun]
          refine ⟨fun j h₁ h₂ => ?_, fun hlt p' hp' => ?_⟩
          · rcases Nat.lt_or_ge j idx with hj | hj
            · exact ih.1 j (by omega) hj
            · exact ⟨p, by rw [show j = idx by omega, hx], hp⟩
          · exact ih.2 (by omega) p' (by rwa [show idx + 1 - (skippedRun l idx + 1) - 1 =
              idx - skippedRun l idx - 1 by omega] at hp')

/-- The `k` numbers directly below `pn` are skipped packets of `ps`, and the number below them
is not one. -/
def SkippedBelow (ps : List Packet) (pn : ℤ) (k : ℕ) : Prop :=
  (∀ m, pn - k ≤ m → m < pn → ∃ r ∈ ps, r.PacketNumber = m ∧ r.skippedPacket = true) ∧
    ¬ ∃ r ∈ ps, r.PacketNumber = pn - k - 1 ∧ r.skippedPacket = true

/-- In a list of increasing numbers, one packet has the number of `q`. -/
theorem filter_number_eq {ps : List Packet} (hps : ps.Pairwise fun a b => a.PacketNumber < b.PacketNumber)
    {q : Packet} (hq : q ∈ ps) : ps.filter (fun r => decide (r.PacketNumber = q.PacketNumber)) = [q] := by
  induction ps with
  | nil => cases hq
  | cons a ps ih =>
    obtain ⟨ha, hps'⟩ := List.pairwise_cons.mp hps
    rcases List.mem_cons.mp hq with rfl | hq'
    · -- the later packets have larger numbers
      rw [List.filter_cons_of_pos (by simp), List.filter_eq_nil_iff.mpr]
      intro r hr
      have := ha r hr
      simp only [decide_eq_true_eq]
      omega
    · have := ha q hq'
      rw [List.filter_cons_of_neg (by simp; omega), ih hps' hq']

/-- In a list of increasing numbers, a number names one packet. -/
theorem eq_of_number_eq {ps : List Packet}
    (hps : ps.Pairwise fun a b => a.PacketNumber < b.PacketNumber) {a b : Packet} (ha : a ∈ ps)
    (hb : b ∈ ps) (hab : a.PacketNumber = b.PacketNumber) : a = b := by
  have hb' : b ∈ ps.filter (fun r => decide (r.PacketNumber = a.PacketNumber)) :=
    List.mem_filter.mpr ⟨hb, by simp [hab]⟩
  rw [filter_number_eq hps ha, List.mem_singleton] at hb'
  exact hb'.symm

/-- Clearing a packet that is not skipped, and a run below it, keeps what is skipped below a
higher number: the run below that number stops above the packet. -/
theorem SkippedBelow.of_filter {ps : List Packet}
    (hps : ps.Pairwise fun a b => a.PacketNumber < b.PacketNumber) {r : Packet} (hr : r ∈ ps)
    (hrs : r.skippedPacket = false) {k₀ : ℕ} {pn : ℤ} (hlt : r.PacketNumber < pn) {k : ℕ}
    (h : SkippedBelow (ps.filter fun x => !decide (r.PacketNumber - k₀ ≤ x.PacketNumber ∧
      x.PacketNumber ≤ r.PacketNumber)) pn k) :
    SkippedBelow ps pn k := by
  obtain ⟨hrun, hstop⟩ := h
  -- `r` is not skipped, so the run below `pn` stops above it
  have hrk : r.PacketNumber < pn - k := by
    by_contra hle
    obtain ⟨y, hy, hyn, hys⟩ := hrun r.PacketNumber (by omega) hlt
    rw [eq_of_number_eq hps (List.mem_filter.mp hy).1 hr hyn, hrs] at hys
    cases hys
  refine ⟨fun m h₁ h₂ => ?_, ?_⟩
  · obtain ⟨y, hy, hyn, hys⟩ := hrun m h₁ h₂
    exact ⟨y, (List.mem_filter.mp hy).1, hyn, hys⟩
  · rintro ⟨x, hx, hxn, hxs⟩
    refine hstop ⟨x, List.mem_filter.mpr ⟨hx, ?_⟩, hxn, hxs⟩
    -- `x` lies at or above `r`, and is not `r`
    have hne : x.PacketNumber ≠ r.PacketNumber := fun he => by
      rw [eq_of_number_eq hps hx hr he, hrs] at hxs
      cases hxs
    simp only [Bool.not_eq_eq_eq_not, Bool.not_true, decide_eq_false_iff_not, not_and, Int.not_le]
    omega

/-! ## The invariant -/

/-- The number of the first slot: the slots end at the highest packet number sent. -/
def firstNumber (h : SentPacketHistory) : ℤ := h.highestPacketNumber + 1 - h.packets.length

/-- The invariant of the histories the sender builds. -/
structure Inv (h : SentPacketHistory) : Prop where
  /-- `packets` is empty or starts with a packet -/
  front : h.packets = [] ∨ ∃ p rest, h.packets = some p :: rest
  /-- slot `i` holds the packet of number `firstNumber + i` -/
  numbered : Numbered h.firstNumber h.packets
  /-- nothing is in the history before the first packet number -/
  fresh : h.highestPacketNumber = InvalidPacketNumber → h.packets = []
  /-- `numOutstanding` counts the outstanding packets -/
  outstanding : h.numOutstanding = (h.Packets.filter Packet.outstanding).length

theorem inv_newSentPacketHistory : Inv newSentPacketHistory where
  front := .inl rfl
  numbered := numbered_nil _
  fresh := fun _ => rfl
  outstanding := rfl

variable {h : SentPacketHistory}

/-- **What `getIndex` computes.** The offset of `pn` from the first slot, when `pn` has a
slot. -/
theorem Inv.getIndex_eq (hi : Inv h) (pn : ℤ) :
    h.getIndex pn = if h.firstNumber ≤ pn ∧ pn < h.firstNumber + h.packets.length then
      some ((pn - h.firstNumber).toNat, true) else some (0, false) := by
  have hnum := hi.numbered
  rcases hi.front with he | ⟨p, rest, he⟩
  · rw [if_neg (by rw [he]; simp)]
    simp [getIndex, he]
  · rw [he] at hnum
    simp only [getIndex, he, List.length_cons]
    rw [← hnum.head]
    split_ifs <;> first | rfl | omega

/-- `getIndex` finds the slot of every packet. -/
theorem Inv.getIndex_of_mem (hi : Inv h) {q : Packet} {i : ℕ} (hil : i < h.packets.length)
    (hpn : q.PacketNumber = h.firstNumber + i) : h.getIndex q.PacketNumber = some (i, true) := by
  rw [hi.getIndex_eq, if_pos (by omega), hpn]
  simp

/-- Slot `i` holds the packet `i` numbers after the one in slot `0`. -/
theorem Inv.slot_number (hi : Inv h) {i : ℕ} {p : Packet} (hp : h.packets[i]? = some (some p)) :
    ∃ p₀, h.packets[0]? = some (some p₀) ∧ p.PacketNumber = p₀.PacketNumber + i := by
  have hne : h.packets ≠ [] := by
    rintro he
    rw [he] at hp
    cases hp
  obtain ⟨p₀, rest, he⟩ := hi.front.resolve_left hne
  have h0 : h.packets[0]? = some (some p₀) := by rw [he]; rfl
  refine ⟨p₀, h0, ?_⟩
  rw [hi.numbered i p hp, hi.numbered 0 p₀ h0]
  omega

/-- `getIndex` gives a slot only to its own number. -/
theorem Inv.getIndex_slot (hi : Inv h) {pn : ℤ} {i : ℕ} (hidx : h.getIndex pn = some (i, true)) :
    i < h.packets.length ∧ ∀ p, h.packets[i]? = some (some p) → p.PacketNumber = pn := by
  rw [hi.getIndex_eq] at hidx
  split_ifs at hidx with hin
  · rw [Option.some.injEq, Prod.mk.injEq] at hidx
    rw [← hidx.1]
    refine ⟨by omega, fun p hp => ?_⟩
    rw [hi.numbered _ p hp]
    omega
  · cases hidx

/-- `getIndex` finds every packet in its slot. -/
theorem Inv.getIndex_mem (hi : Inv h) {q : Packet} (hq : q ∈ h.Packets) :
    ∃ i, h.getIndex q.PacketNumber = some (i, true) ∧ h.packets[i]? = some (some q) := by
  obtain ⟨i, hil, hslot, hpn⟩ := hi.numbered.mem hq
  exact ⟨i, hi.getIndex_of_mem hil hpn, hslot⟩

/-- Appending a slot for the next packet number keeps the invariant. -/
theorem Inv.append (hi : Inv h) {pn : ℤ} (hpn : 0 ≤ pn)
    (hnext : h.highestPacketNumber = InvalidPacketNumber ∨ pn = h.highestPacketNumber + 1)
    {x : Option Packet} (hx : ∀ p, x = some p → p.PacketNumber = pn)
    (hne : x = none → h.packets ≠ []) (probes : List Packet) :
    Inv { h with
      packets := h.packets ++ [x]
      highestPacketNumber := pn
      pathProbePackets := probes
      numOutstanding := (((h.packets ++ [x]).filterMap id).filter Packet.outstanding).length } where
  front := by
    rcases hi.front with he | ⟨p, rest, he⟩
    · cases x with
      | none => exact absurd he (hne rfl)
      | some p => exact .inr ⟨p, [], by simp [he]⟩
    · exact .inr ⟨p, rest ++ [x], by simp [he]⟩
  numbered := by
    simp only [firstNumber, List.length_append, List.length_singleton]
    by_cases he : h.packets = []
    · intro i p hp
      rw [he, List.nil_append, List.getElem?_singleton] at hp
      split_ifs at hp with h0
      subst h0
      simp [hx p (Option.some.inj hp), he]
    -- a non-empty history has a highest number, and `pn` comes right after it
    have hpn' : pn = h.highestPacketNumber + 1 := hnext.resolve_left (mt hi.fresh he)
    have hbase : pn + 1 - ((h.packets.length + 1 : ℕ) : ℤ) = h.firstNumber := by
      rw [firstNumber, hpn']
      push_cast
      omega
    rw [hbase]
    refine hi.numbered.append fun p hp => ?_
    rw [hx p hp, firstNumber, hpn']
    omega
  fresh := by
    intro hinv
    simp only at hinv
    unfold InvalidPacketNumber at hinv
    omega
  outstanding := rfl

theorem checkSequentialPacketNumberUse_eq {pn : ℤ}
    (hnext : h.highestPacketNumber = InvalidPacketNumber ∨ pn = h.highestPacketNumber + 1) :
    h.checkSequentialPacketNumberUse pn = some { h with highestPacketNumber := pn } := by
  unfold checkSequentialPacketNumberUse
  rw [if_neg (by omega)]

/-- The count of outstanding packets after appending `x`. -/
theorem outstanding_append (hi : Inv h) (x : Option Packet) :
    (((h.packets ++ [x]).filterMap id).filter Packet.outstanding).length =
      if (x.map Packet.outstanding).getD false then h.numOutstanding + 1 else h.numOutstanding := by
  rw [hi.outstanding, Packets]
  cases x with
  | none => simp
  | some p => cases hp : p.outstanding <;> simp [hp]

section Send

variable (hi : Inv h) {pn : ℤ} (hpn : 0 ≤ pn)
  (hnext : h.highestPacketNumber = InvalidPacketNumber ∨ pn = h.highestPacketNumber + 1)
include hi hpn hnext

theorem Inv.SentAckElicitingPacket {p : Packet} (hp : p.PacketNumber = pn) :
    ∃ h', h.SentAckElicitingPacket p = some h' ∧ Inv h' ∧ h'.Packets = h.Packets ++ [p] ∧
      h'.pathProbePackets = h.pathProbePackets := by
  subst hp
  have h' := hi.append hpn hnext (x := some p) (fun _ e => by cases e; rfl) (by simp)
    h.pathProbePackets
  rw [outstanding_append hi] at h'
  rw [SentPacketHistory.SentAckElicitingPacket, checkSequentialPacketNumberUse_eq hnext,
    Option.map_some]
  refine ⟨_, rfl, by simpa using h', by simp [Packets], rfl⟩

theorem Inv.SkippedPacket :
    ∃ h', h.SkippedPacket pn = some h' ∧ Inv h' ∧
      h'.Packets = h.Packets ++ [{ PacketNumber := pn, skippedPacket := true }] ∧
      h'.pathProbePackets = h.pathProbePackets := by
  have h' := hi.append hpn hnext (x := some { PacketNumber := pn, skippedPacket := true })
    (fun _ e => by cases e; rfl) (by simp) h.pathProbePackets
  rw [outstanding_append hi] at h'
  rw [SentPacketHistory.SkippedPacket, checkSequentialPacketNumberUse_eq hnext, Option.map_some]
  refine ⟨_, rfl, by simpa [Packet.outstanding] using h', by simp [Packets], rfl⟩

theorem Inv.SentNonAckElicitingPacket :
    ∃ h', h.SentNonAckElicitingPacket pn = some h' ∧ Inv h' ∧ h'.Packets = h.Packets ∧
      h'.pathProbePackets = h.pathProbePackets := by
  rw [SentPacketHistory.SentNonAckElicitingPacket, checkSequentialPacketNumberUse_eq hnext,
    Option.map_some]
  refine ⟨_, rfl, ?_, ?_, ?_⟩ <;> dsimp only
  · split_ifs with hne
    · have h' := hi.append hpn hnext (x := none) (fun _ e => by cases e)
        (fun _ => List.ne_nil_of_length_pos hne) h.pathProbePackets
      rw [outstanding_append hi] at h'
      simpa using h'
    -- an empty history stays empty
    · have he : h.packets = [] := List.eq_nil_of_length_eq_zero (by omega)
      exact ⟨.inl he, by intro i p hp; simp [he] at hp, fun _ => he,
        by rw [hi.outstanding]; rfl⟩
  · split_ifs <;> simp [Packets]
  · split_ifs <;> rfl

theorem Inv.SentPathProbePacket {p : Packet} (hp : p.PacketNumber = pn) :
    ∃ h', h.SentPathProbePacket p = some h' ∧ Inv h' ∧
      h'.Packets = h.Packets ++ [{ PacketNumber := pn, isPathProbePacket := true }] ∧
      h'.pathProbePackets = h.pathProbePackets ++ [p] := by
  subst hp
  have h' := hi.append hpn hnext
    (x := some { PacketNumber := p.PacketNumber, isPathProbePacket := true })
    (fun _ e => by cases e; rfl) (by simp) (h.pathProbePackets ++ [p])
  rw [outstanding_append hi] at h'
  rw [SentPacketHistory.SentPathProbePacket, checkSequentialPacketNumberUse_eq hnext,
    Option.map_some]
  refine ⟨_, rfl, by simpa [Packet.outstanding] using h', by simp [Packets], rfl⟩

end Send

/-- The skipped packets directly before the slot of `q`, by number: the run of `skippedRun`. -/
theorem Inv.skippedBelow (hi : Inv h) {q : Packet} {i : ℕ} (hpn : q.PacketNumber = h.firstNumber + i) :
    SkippedBelow h.Packets q.PacketNumber (skippedRun h.packets i) ∧
      ∀ r ∈ h.Packets, q.PacketNumber - skippedRun h.packets i ≤ r.PacketNumber →
        r.PacketNumber < q.PacketNumber → r.skippedPacket = true := by
  obtain ⟨hrun, hbelow⟩ := skippedRun_spec h.packets i
  have hle := skippedRun_le h.packets i
  refine ⟨⟨fun m h₁ h₂ => ?_, ?_⟩, fun r hr h₁ h₂ => ?_⟩
  · -- the number `m` is the one of slot `m - firstNumber`
    obtain ⟨p, hp, hs⟩ := hrun (m - h.firstNumber).toNat (by omega) (by omega)
    refine ⟨p, mem_filterMap_id.mpr (List.mem_of_getElem? hp), ?_, hs⟩
    rw [hi.numbered _ p hp]
    omega
  · rintro ⟨r, hr, hrn, hrs⟩
    obtain ⟨j, -, hj, hjn⟩ := hi.numbered.mem hr
    have hlt : skippedRun h.packets i < i := by omega
    have := hbelow hlt r (by rwa [show i - skippedRun h.packets i - 1 = j by omega])
    rw [hrs] at this
    cases this
  · obtain ⟨j, -, hj, hjn⟩ := hi.numbered.mem hr
    obtain ⟨p, hp, hs⟩ := hrun j (by omega) (by omega)
    rw [hj] at hp
    cases hp
    exact hs

/-- The outstanding packets left when the packets `P` holds of are cleared, where `P` holds of
`q` and of no other outstanding packet: all but `q`. -/
theorem count_outstanding_clear {ps : List Packet}
    (hps : ps.Pairwise fun a b => a.PacketNumber < b.PacketNumber) {q : Packet} (hq : q ∈ ps)
    (P : Packet → Bool) (hPq : P q = true)
    (hP : ∀ r ∈ ps, P r = true → r.PacketNumber ≠ q.PacketNumber → r.outstanding = false) :
    ((ps.filter fun r => !P r).filter Packet.outstanding).length +
      (if q.outstanding then 1 else 0) = (ps.filter Packet.outstanding).length := by
  have hcomm : ∀ (f g : Packet → Bool) (l : List Packet), (l.filter f).filter g = (l.filter g).filter f :=
    fun f g l => by
      rw [List.filter_filter, List.filter_filter]
      exact List.filter_congr fun x _ => Bool.and_comm _ _
  -- among the outstanding packets `P` holds of `q` only, the one packet with its number
  have hin : (ps.filter Packet.outstanding).filter P = [q].filter Packet.outstanding := by
    rw [← filter_number_eq hps hq,
      hcomm (fun r => decide (r.PacketNumber = q.PacketNumber)) Packet.outstanding ps]
    refine List.filter_congr fun r hr => ?_
    obtain ⟨hr, ho⟩ := List.mem_filter.mp hr
    by_cases hn : r.PacketNumber = q.PacketNumber
    · rw [eq_of_number_eq hps hr hq hn, hPq]
      simp
    · have hPr : P r = false := by
        by_contra hPr
        rw [hP r hr (by simpa using hPr) hn] at ho
        cases ho
      simp [hPr, hn]
  have := List.length_eq_length_filter_add (l := ps.filter Packet.outstanding) P
  rw [hin, hcomm Packet.outstanding] at this
  cases ho : q.outstanding <;> simp [ho] at this ⊢ <;> omega

/-- A packet's outstanding flag counts in `numOutstanding`, so removing it does not panic. -/
theorem Inv.not_negative (hi : Inv h) {q : Packet} (hq : q ∈ h.Packets) :
    ¬ (q.outstanding ∧ h.numOutstanding - 1 < 0) := by
  rintro ⟨ho, hneg⟩
  have := List.length_pos_of_mem (List.mem_filter.mpr ⟨hq, ho⟩)
  rw [hi.outstanding] at hneg
  omega

/-- Slots numbered back from `hp` stay so after an optional `cleanupStart`. -/
theorem Numbered.cleanup {hp : ℤ} {l : List (Option Packet)} (hl : Numbered (hp + 1 - l.length) l)
    (c : Prop) [Decidable c] :
    Numbered (hp + 1 - (if c then l.dropWhile Option.isNone else l).length)
      (if c then l.dropWhile Option.isNone else l) := by
  split_ifs
  · have := hl.dropWhile
    have hle : (l.dropWhile Option.isNone).length ≤ l.length := (List.dropWhile_suffix _).length_le
    rwa [show hp + 1 - (l.length : ℤ) + ((l.length - (l.dropWhile Option.isNone).length : ℕ) : ℤ) =
      hp + 1 - ((l.dropWhile Option.isNone).length : ℤ) by omega] at this
  · exact hl

theorem filterMap_cleanup (l : List (Option Packet)) (c : Prop) [Decidable c] :
    (if c then l.dropWhile Option.isNone else l).filterMap id = l.filterMap id := by
  split_ifs
  · exact filterMap_dropWhile l
  · rfl

/-- After slots are cleared the front is a packet again: `cleanupStart` makes it one, or slot `0`
is left as it was. -/
theorem front_cleanup {l l' : List (Option Packet)} (hl : l = [] ∨ ∃ p rest, l = some p :: rest)
    (c : Prop) [Decidable c] (h0 : ¬ c → l'[0]? = l[0]? ∧ l ≠ []) :
    (if c then l'.dropWhile Option.isNone else l') = [] ∨
      ∃ p rest, (if c then l'.dropWhile Option.isNone else l') = some p :: rest := by
  by_cases hc : c
  · rw [if_pos hc]
    exact dropWhile_front l'
  · rw [if_neg hc]
    obtain ⟨hl0, hne⟩ := h0 hc
    obtain ⟨p, rest, rfl⟩ := hl.resolve_left hne
    cases l' with
    | nil => cases hl0
    | cons x rest' =>
      simp only [List.getElem?_cons_zero, Option.some.injEq] at hl0
      exact .inr ⟨p, rest', by rw [hl0]⟩

/-- `Remove` of a packet in slot `i`, once its loop has cleared the slots to `l'` and stopped at
`j`, and the front is not `nil`. -/
theorem Remove_eq {q : Packet} {i : ℕ} (hidx : h.getIndex q.PacketNumber = some (i, true))
    (hslot : h.packets[i]? = some (some q)) (hneg : ¬ (q.outstanding ∧ h.numOutstanding - 1 < 0))
    {l' : List (Option Packet)} {j : ℕ} (hc : clearSkipped (h.packets.set i none) i = some (l', j))
    (hfront : (if j = 0 then l'.dropWhile Option.isNone else l') = [] ∨
      ∃ p rest, (if j = 0 then l'.dropWhile Option.isNone else l') = some p :: rest) :
    h.Remove q.PacketNumber = some ({ h with
      packets := if j = 0 then l'.dropWhile Option.isNone else l'
      numOutstanding := if q.outstanding then h.numOutstanding - 1 else h.numOutstanding }, none) := by
  unfold Remove
  rw [hidx, Option.bind_some]
  simp only [Bool.not_true, Bool.false_eq_true, ↓reduceIte, hslot]
  rw [if_neg hneg, hc, Option.bind_some]
  by_cases hj : j = 0
  · simp only [hj, ↓reduceIte, cleanupStart] at hfront ⊢
    rcases hfront with he | ⟨p, rest, he⟩ <;> rw [he]
  · simp only [hj, ↓reduceIte] at hfront ⊢
    rcases hfront with he | ⟨p, rest, he⟩ <;> rw [he]

/-- **What `Remove` of a packet does.** It neither panics nor fails. It clears the packets with
numbers from `pn - k` to `pn`, where the `k` numbers below `pn` are skipped packets and the
next one down is not, and keeps the invariant and everything else. -/
theorem Inv.Remove_spec (hi : Inv h) {q : Packet} (hq : q ∈ h.Packets) :
    ∃ (h' : SentPacketHistory) (k : ℕ), h.Remove q.PacketNumber = some (h', none) ∧ Inv h' ∧
      h'.Packets = h.Packets.filter (fun r => !decide (q.PacketNumber - k ≤ r.PacketNumber ∧
        r.PacketNumber ≤ q.PacketNumber)) ∧
      SkippedBelow h.Packets q.PacketNumber k ∧
      h'.pathProbePackets = h.pathProbePackets ∧ h'.highestPacketNumber = h.highestPacketNumber := by
  obtain ⟨i, hil, hslot, hpn⟩ := hi.numbered.mem hq
  obtain ⟨hbelow, hskip⟩ := hi.skippedBelow hpn
  have hki := skippedRun_le h.packets i
  obtain ⟨l', hc, hlen, hl'⟩ :=
    clearSkipped_spec (show i ≤ (h.packets.set i none).length by simp; omega)
  rw [skippedRun_set none (Nat.le_refl _)] at hc hl'
  generalize hk : skippedRun h.packets i = k at hc hl' hbelow hskip hki
  generalize hj : (if k = i then 0 else i - k - 1) = j at hc
  have hj0 : j ≠ 0 → 0 < i - k := by
    intro h0
    rw [← hj] at h0
    split_ifs at h0 <;> omega
  rw [List.length_set] at hlen
  -- the slots after the loop: the slot of `q` and the run before it cleared
  have hclear : ∀ m : ℕ, l'[m]? = if q.PacketNumber - k ≤ h.firstNumber + m ∧
      h.firstNumber + m ≤ q.PacketNumber then some none else h.packets[m]? := by
    intro m
    rw [hl']
    by_cases hm : m = i
    · subst hm
      rw [if_neg (by omega), List.getElem?_set_self hil, if_pos (by omega)]
    · rw [List.getElem?_set_ne (Ne.symm hm), hpn]
      split_ifs <;> first | rfl | omega
  have hnum' : Numbered h.firstNumber l' :=
    hi.numbered.of_clear fun m => by rw [hclear]; split_ifs <;> simp
  have hpackets : l'.filterMap id = h.Packets.filter (fun r => !decide (q.PacketNumber - k ≤
      r.PacketNumber ∧ r.PacketNumber ≤ q.PacketNumber)) :=
    hi.numbered.filterMap_clear (fun n => q.PacketNumber - k ≤ n ∧ n ≤ q.PacketNumber) hlen hclear
  -- after the loop the front is a packet: `cleanupStart` makes it one, or the loop stopped above
  -- slot `0`, which still holds the first packet
  have hfront := front_cleanup hi.front (j = 0) fun h0 => by
    refine ⟨?_, List.ne_nil_of_length_pos (by omega)⟩
    rw [hclear 0, if_neg (by have := hj0 h0; omega)]
  have hP := filterMap_cleanup l' (j = 0)
  refine ⟨_, k, Remove_eq (hi.getIndex_of_mem hil hpn) hslot (hi.not_negative hq) hc hfront,
    ⟨hfront, ?_, ?_, ?_⟩, by rw [Packets, hP, hpackets], hbelow, rfl, rfl⟩
  · -- the numbering: `cleanupStart` moves the first number up by the slots it cuts off
    have hfirst : h.firstNumber = h.highestPacketNumber + 1 - l'.length := by
      rw [firstNumber, hlen]
    rw [hfirst] at hnum'
    exact hnum'.cleanup (j = 0)
  · intro hinv
    have := hi.fresh hinv
    rw [this] at hil
    exact absurd hil (Nat.not_lt_zero i)
  · -- `q` was counted if it was outstanding, and the skipped packets were not
    have hcount := count_outstanding_clear (hi.numbered.pairwise) hq
      (fun r => decide (q.PacketNumber - k ≤ r.PacketNumber ∧ r.PacketNumber ≤ q.PacketNumber))
      (by simp only [decide_eq_true_eq]; omega) fun r hr hPr hne => by
        have hr' := of_decide_eq_true hPr
        simp [Packet.outstanding, hskip r hr hr'.1 (by omega)]
    simp only [Packets, hP, hpackets]
    rw [hi.outstanding]
    simp only [Packets] at hcount ⊢
    split_ifs at hcount ⊢ <;> omega

/-- `DeclareLost` of a packet in slot `i`. -/
theorem DeclareLost_eq {q : Packet} {i : ℕ} (hidx : h.getIndex q.PacketNumber = some (i, true))
    (hslot : h.packets[i]? = some (some q)) (hneg : ¬ (q.outstanding ∧ h.numOutstanding - 1 < 0)) :
    h.DeclareLost q.PacketNumber = some { h with
      packets := if i = 0 then (h.packets.set i none).dropWhile Option.isNone else h.packets.set i none
      numOutstanding := if q.outstanding then h.numOutstanding - 1 else h.numOutstanding } := by
  unfold DeclareLost
  rw [hidx, Option.bind_some]
  simp only [Bool.not_true, Bool.false_eq_true, ↓reduceIte, hslot]
  rw [if_neg hneg]
  split_ifs <;> rfl

/-- **What `DeclareLost` of a packet does.** It does not panic, clears the packet's slot and
keeps the invariant and everything else. -/
theorem Inv.DeclareLost_spec (hi : Inv h) {q : Packet} (hq : q ∈ h.Packets) :
    ∃ h', h.DeclareLost q.PacketNumber = some h' ∧ Inv h' ∧
      h'.Packets = h.Packets.filter (fun r => !decide (r.PacketNumber = q.PacketNumber)) ∧
      h'.pathProbePackets = h.pathProbePackets ∧ h'.highestPacketNumber = h.highestPacketNumber := by
  obtain ⟨i, hil, hslot, hpn⟩ := hi.numbered.mem hq
  -- the slots with `q`'s cleared
  have hclear : ∀ m : ℕ, (h.packets.set i none)[m]? =
      if h.firstNumber + m = q.PacketNumber then some none else h.packets[m]? := by
    intro m
    by_cases hm : m = i
    · subst hm
      rw [List.getElem?_set_self hil, if_pos hpn.symm]
    · rw [List.getElem?_set_ne (Ne.symm hm), if_neg (by omega)]
  have hlen : (h.packets.set i none).length = h.packets.length := List.length_set
  have hpackets := hi.numbered.filterMap_clear (fun n => n = q.PacketNumber) hlen hclear
  have hfront := front_cleanup hi.front (i = 0) fun h0 =>
    ⟨by rw [hclear 0, if_neg (by omega)], List.ne_nil_of_length_pos (by omega)⟩
  have hP := filterMap_cleanup (h.packets.set i none) (i = 0)
  refine ⟨_, DeclareLost_eq (hi.getIndex_of_mem hil hpn) hslot (hi.not_negative hq),
    ⟨hfront, ?_, ?_, ?_⟩, by rw [Packets, hP, hpackets]; rfl, rfl, rfl⟩
  · -- the numbering, as for `Remove`
    have hnum' : Numbered (h.highestPacketNumber + 1 - (h.packets.set i none).length)
        (h.packets.set i none) := by
      rw [hlen]
      exact hi.numbered.of_clear fun m => by rw [hclear]; split_ifs <;> simp
    exact hnum'.cleanup (i = 0)
  · intro hinv
    rw [hi.fresh hinv] at hil
    exact absurd hil (Nat.not_lt_zero i)
  · -- only `q` itself has its number
    have hcount := count_outstanding_clear (hi.numbered.pairwise) hq
      (fun r => decide (r.PacketNumber = q.PacketNumber)) (by simp)
      fun r _ hPr hne => absurd (of_decide_eq_true hPr) hne
    simp only [Packets, hP, hpackets]
    rw [hi.outstanding]
    simp only [Packets] at hcount ⊢
    split_ifs at hcount ⊢ <;> omega

/-- **Every call of `Remove`.** A number out of range gives the error; a number in range whose
slot is `nil` panics (the `nil` packet is read); otherwise the number is a packet's. The other
panics of `Remove`, "remove failed" among them, are out of reach. -/
theorem Inv.Remove_cases (hi : Inv h) (pn : ℤ) :
    (h.getIndex pn = some (0, false) ∧
      h.Remove pn = some (h, some ("packet " ++ toString pn ++ " not found in sent packet history")) ∧
      ∀ p ∈ h.Packets, p.PacketNumber ≠ pn) ∨
    (∃ i, h.getIndex pn = some (i, true) ∧ h.packets[i]? = some none ∧ h.Remove pn = none) ∨
    ∃ q ∈ h.Packets, q.PacketNumber = pn := by
  by_cases hin : h.firstNumber ≤ pn ∧ pn < h.firstNumber + h.packets.length
  · -- in range: the slot of `pn` holds a packet, which has number `pn`, or is `nil`
    have hidx : h.getIndex pn = some ((pn - h.firstNumber).toNat, true) := by
      rw [hi.getIndex_eq, if_pos hin]
    have hlt : (pn - h.firstNumber).toNat < h.packets.length := by omega
    rcases hslot : h.packets[(pn - h.firstNumber).toNat]? with _ | x
    · rw [List.getElem?_eq_none_iff] at hslot
      omega
    cases x with
    | none =>
      refine .inr (.inl ⟨_, hidx, hslot, ?_⟩)
      simp [Remove, hidx, hslot]
    | some q =>
      refine .inr (.inr ⟨q, mem_filterMap_id.mpr (List.mem_of_getElem? hslot), ?_⟩)
      rw [hi.numbered _ q hslot]
      omega
  · -- out of range: no packet has the number
    refine .inl ⟨by rw [hi.getIndex_eq, if_neg hin], by simp [Remove, hi.getIndex_eq, hin],
      fun p hp hpn => hin ?_⟩
    obtain ⟨i, hil, -, hpi⟩ := hi.numbered.mem hp
    omega

/-- `Remove` of a number succeeds exactly when a packet of the history has it. -/
theorem Inv.Remove_ok_iff (hi : Inv h) (pn : ℤ) :
    (∃ h', h.Remove pn = some (h', none)) ↔ ∃ p ∈ h.Packets, p.PacketNumber = pn := by
  constructor
  · rintro ⟨h', hr⟩
    rcases hi.Remove_cases pn with ⟨-, he, -⟩ | ⟨i, -, -, he⟩ | hp
    · rw [he, Option.some.injEq, Prod.mk.injEq] at hr
      cases hr.2
    · rw [he] at hr
      cases hr
    · exact hp
  · rintro ⟨q, hq, rfl⟩
    obtain ⟨h', -, hr, -⟩ := hi.Remove_spec hq
    exact ⟨h', hr⟩

/-- `Remove` panics only on a `nil` slot in range. -/
theorem Inv.Remove_none_iff (hi : Inv h) (pn : ℤ) :
    h.Remove pn = none ↔ ∃ i, h.getIndex pn = some (i, true) ∧ h.packets[i]? = some none := by
  rcases hi.Remove_cases pn with ⟨hidx, he, -⟩ | ⟨i, hidx, hslot, he⟩ | ⟨q, hq, rfl⟩
  · -- out of range: `getIndex` gives no slot
    rw [he, hidx]
    exact ⟨fun hn => (by cases hn), fun ⟨i, hi, _⟩ => (by cases hi)⟩
  · exact ⟨fun _ => ⟨i, hidx, hslot⟩, fun _ => he⟩
  · obtain ⟨h', -, hr, -⟩ := hi.Remove_spec hq
    obtain ⟨i, hil, hslot, hpn⟩ := hi.numbered.mem hq
    rw [hr]
    refine ⟨fun hn => (by cases hn), ?_⟩
    rintro ⟨j, hidx, hj⟩
    rw [hi.getIndex_of_mem hil hpn, Option.some.injEq, Prod.mk.injEq] at hidx
    rw [← hidx.1, hslot] at hj
    cases hj

/-- `RemovePathProbe` leaves the slots as they are. -/
theorem Inv.RemovePathProbe (hi : Inv h) (pn : ℤ) : Inv (h.RemovePathProbe pn).1 := by
  unfold SentPacketHistory.RemovePathProbe
  split
  · exact hi
  · exact ⟨hi.front, hi.numbered, hi.fresh, hi.outstanding⟩

theorem find?_eraseP_of_imp {α : Type} {p q : α → Bool} (l : List α)
    (hpq : ∀ x, p x = true → q x = false) : (l.eraseP p).find? q = l.find? q := by
  induction l with
  | nil => rfl
  | cons x l ih =>
    by_cases hx : p x = true
    · rw [List.eraseP_cons_of_pos hx, List.find?_cons_of_neg (by simp [hpq x hx])]
    · rw [List.eraseP_cons_of_neg hx, List.find?_cons, List.find?_cons, ih]

/-- `RemovePathProbe` is `find?` and `eraseP` on the probes. -/
theorem RemovePathProbe_eq (pn : ℤ) :
    h.RemovePathProbe pn =
      ({ h with pathProbePackets := h.pathProbePackets.eraseP fun p => decide (p.PacketNumber = pn) },
        h.pathProbePackets.find? fun p => decide (p.PacketNumber = pn)) := by
  unfold SentPacketHistory.RemovePathProbe
  rw [List.eraseP_eq_eraseIdx, List.find?_eq_getElem?_findIdx]
  cases hidx : h.pathProbePackets.findIdx? (fun p => decide (p.PacketNumber = pn)) with
  | none =>
    rw [List.findIdx?_eq_none_iff_findIdx_eq.mp hidx, List.getElem?_length]
  | some i =>
    rw [(List.findIdx?_eq_some_iff_findIdx_eq.mp hidx).2]

/-! ## Deleting while iterating -/

/-- What the body of a loop over `Packets` does at a packet: go on, remove the packet or declare
it lost and go on, or break. -/
inductive LoopAction
  | keep
  | remove
  | declareLost
  | stop
  deriving DecidableEq, Repr

/-- Slot `k` of the slice that a loop over `Packets` begun on `n` slots ranges over. The loop
evaluates `h.packets` once. `Remove` and `DeclareLost` write `nil` into the same backing array,
and `cleanupStart` reslices it further on, so the slots of the history now are the last ones of
the array and the ones before them are `nil`. -/
def rangeSlot (h : SentPacketHistory) (n k : ℕ) : Option Packet :=
  ((List.replicate (n - h.packets.length) none ++ h.packets)[k]?).getD none

/-- A loop `for p := range h.Packets()` of the sent packet handler over `n` slots, with `k` of
them to go, whose body may remove the packet it is at or declare it lost. -/
def rangePackets (body : Packet → LoopAction) (n : ℕ) :
    ℕ → SentPacketHistory → Option SentPacketHistory
  | 0, h => some h
  | k + 1, h =>
    match rangeSlot h n (n - (k + 1)) with
    | none => rangePackets body n k h
    | some p =>
      match body p with
      | .keep => rangePackets body n k h
      | .stop => some h
      -- the handler ignores the error of `Remove`
      | .remove => (h.Remove p.PacketNumber).bind fun r => rangePackets body n k r.1
      | .declareLost => (h.DeclareLost p.PacketNumber).bind (rangePackets body n k)

/-- The loop reaches packets of the history as it is now. -/
theorem rangeSlot_mem {n k : ℕ} {p : Packet} (hp : h.rangeSlot n k = some p) : p ∈ h.Packets := by
  unfold rangeSlot at hp
  rcases hk : (List.replicate (n - h.packets.length) none ++ h.packets)[k]? with _ | x
  · rw [hk] at hp
    cases hp
  · rw [hk, Option.getD_some] at hp
    subst hp
    have hmem := List.mem_append.mp (List.mem_of_getElem? hk)
    rcases hmem with hrep | hmem
    · cases List.eq_of_mem_replicate hrep
    · exact mem_filterMap_id.mpr hmem

/-- **Deleting while iterating keeps the invariant.** The loop does not panic, and every state it
passes through is a history of the invariant, since it removes or declares lost only packets of
the history as it is then. -/
theorem Inv.rangePackets (hi : Inv h) (body : Packet → LoopAction) (n k : ℕ) :
    ∃ h', SentPacketHistory.rangePackets body n k h = some h' ∧ Inv h' ∧
      h'.highestPacketNumber = h.highestPacketNumber := by
  induction k generalizing h with
  | zero => exact ⟨h, rfl, hi, rfl⟩
  | succ k ih =>
    unfold SentPacketHistory.rangePackets
    rcases hp : h.rangeSlot n (n - (k + 1)) with _ | p
    · exact ih hi
    have hmem := rangeSlot_mem hp
    dsimp only
    cases body p with
    | keep => exact ih hi
    | stop => exact ⟨h, rfl, hi, rfl⟩
    | remove =>
      obtain ⟨h₁, -, hr, hi₁, -, -, -, hhigh₁⟩ := hi.Remove_spec hmem
      obtain ⟨h', hrun, hi', hhigh'⟩ := ih hi₁
      exact ⟨h', by rw [hr, Option.bind_some, hrun], hi', hhigh'.trans hhigh₁⟩
    | declareLost =>
      obtain ⟨h₁, hd, hi₁, -, -, hhigh₁⟩ := hi.DeclareLost_spec hmem
      obtain ⟨h', hrun, hi', hhigh'⟩ := ih hi₁
      exact ⟨h', by rw [hd, Option.bind_some, hrun], hi', hhigh'.trans hhigh₁⟩

-- `TestSentPacketHistoryDeleteWhileIterating`: removing `0` and then the skipped `4` while
-- iterating leaves `1`, the skipped `2`, `3` and `5`
example :
    (rangePackets (fun p => if p.PacketNumber = 0 ∨ p.PacketNumber = 4 then .remove else .keep) 6 6
      ⟨[some { PacketNumber := 0 }, some { PacketNumber := 1 },
        some { PacketNumber := 2, skippedPacket := true }, some { PacketNumber := 3 },
        some { PacketNumber := 4, skippedPacket := true }, some { PacketNumber := 5 }], [], 4, 5⟩).map
      (fun h => h.Packets.map fun p => (p.PacketNumber, p.skippedPacket)) =
      some [(1, false), (2, true), (3, false), (5, false)] := by
  decide

/-! ## The history as the handler drives it -/

/-- The calls the sent packet handler makes on a history. -/
inductive Call
  | SentAckElicitingPacket (p : Packet)
  | SentNonAckElicitingPacket (pn : ℤ)
  | SkippedPacket (pn : ℤ)
  | SentPathProbePacket (p : Packet)
  | Remove (pn : ℤ)
  | DeclareLost (pn : ℤ)
  | RemovePathProbe (pn : ℤ)
  /-- a loop over `Packets` -/
  | Packets (body : Packet → LoopAction)

/-- What a call returns: the error of `Remove`, the probe `RemovePathProbe` takes out. -/
inductive Out
  | unit
  | error (e : Option String)
  | probe (p : Option Packet)
  deriving DecidableEq, Repr

/-- One call on the history. -/
def step (h : SentPacketHistory) : Call → Option (SentPacketHistory × Out)
  | .SentAckElicitingPacket p => (h.SentAckElicitingPacket p).map (·, .unit)
  | .SentNonAckElicitingPacket pn => (h.SentNonAckElicitingPacket pn).map (·, .unit)
  | .SkippedPacket pn => (h.SkippedPacket pn).map (·, .unit)
  | .SentPathProbePacket p => (h.SentPathProbePacket p).map (·, .unit)
  | .Remove pn => (h.Remove pn).map fun r => (r.1, .error r.2)
  | .DeclareLost pn => (h.DeclareLost pn).map (·, .unit)
  | .RemovePathProbe pn => some ((h.RemovePathProbe pn).1, .probe (h.RemovePathProbe pn).2)
  | .Packets body =>
    (rangePackets body h.packets.length h.packets.length h).map (·, .unit)

/-- `pn` may be sent next: packet numbers are not negative and go up one by one. -/
def Next (h : SentPacketHistory) (pn : ℤ) : Prop :=
  0 ≤ pn ∧ (h.highestPacketNumber = InvalidPacketNumber ∨ pn = h.highestPacketNumber + 1)

instance (pn : ℤ) : Decidable (h.Next pn) := inferInstanceAs (Decidable (_ ∧ _))

/-- The calls the handler makes: the next packet number for a packet sent, and `Remove` and
`DeclareLost` of a packet of the history. -/
def Allowed (h : SentPacketHistory) : Call → Prop
  | .SentAckElicitingPacket p => h.Next p.PacketNumber
  | .SentNonAckElicitingPacket pn => h.Next pn
  | .SkippedPacket pn => h.Next pn
  | .SentPathProbePacket p => h.Next p.PacketNumber
  | .Remove pn => ∃ p ∈ h.Packets, p.PacketNumber = pn
  | .DeclareLost pn => ∃ p ∈ h.Packets, p.PacketNumber = pn
  | .RemovePathProbe _ => True
  | .Packets _ => True

instance : ∀ c, Decidable (h.Allowed c)
  | .SentAckElicitingPacket p => inferInstanceAs (Decidable (h.Next p.PacketNumber))
  | .SentNonAckElicitingPacket pn => inferInstanceAs (Decidable (h.Next pn))
  | .SkippedPacket pn => inferInstanceAs (Decidable (h.Next pn))
  | .SentPathProbePacket p => inferInstanceAs (Decidable (h.Next p.PacketNumber))
  | .Remove pn => inferInstanceAs (Decidable (∃ p ∈ h.Packets, p.PacketNumber = pn))
  | .DeclareLost pn => inferInstanceAs (Decidable (∃ p ∈ h.Packets, p.PacketNumber = pn))
  | .RemovePathProbe _ => instDecidableTrue
  | .Packets _ => instDecidableTrue

/-- **One call.** A call the handler makes does not panic and keeps the invariant. -/
theorem Inv.step_spec (hi : Inv h) {c : Call} (hc : h.Allowed c) :
    ∃ r, step h c = some r ∧ Inv r.1 := by
  cases c with
  | SentAckElicitingPacket p =>
    obtain ⟨h', he, hi', -⟩ := hi.SentAckElicitingPacket hc.1 hc.2 rfl
    exact ⟨_, by rw [step, he]; rfl, hi'⟩
  | SentNonAckElicitingPacket pn =>
    obtain ⟨h', he, hi', -⟩ := hi.SentNonAckElicitingPacket hc.1 hc.2
    exact ⟨_, by rw [step, he]; rfl, hi'⟩
  | SkippedPacket pn =>
    obtain ⟨h', he, hi', -⟩ := hi.SkippedPacket hc.1 hc.2
    exact ⟨_, by rw [step, he]; rfl, hi'⟩
  | SentPathProbePacket p =>
    obtain ⟨h', he, hi', -⟩ := hi.SentPathProbePacket hc.1 hc.2 rfl
    exact ⟨_, by rw [step, he]; rfl, hi'⟩
  | Remove pn =>
    obtain ⟨q, hq, rfl⟩ := hc
    obtain ⟨h', -, he, hi', -⟩ := hi.Remove_spec hq
    exact ⟨_, by rw [step, he]; rfl, hi'⟩
  | DeclareLost pn =>
    obtain ⟨q, hq, rfl⟩ := hc
    obtain ⟨h', he, hi', -⟩ := hi.DeclareLost_spec hq
    exact ⟨_, by rw [step, he]; rfl, hi'⟩
  | RemovePathProbe pn => exact ⟨_, rfl, hi.RemovePathProbe pn⟩
  | Packets body =>
    obtain ⟨h', he, hi', -⟩ := hi.rangePackets body h.packets.length h.packets.length
    exact ⟨_, by rw [step, he]; rfl, hi'⟩

theorem Inv.of_step (hi : Inv h) {c : Call} (hc : h.Allowed c) {r : SentPacketHistory × Out}
    (hs : step h c = some r) : Inv r.1 := by
  obtain ⟨r', hs', hi'⟩ := hi.step_spec hc
  rw [hs, Option.some.injEq] at hs'
  rwa [hs']

/-- Every history the handler reaches has the invariant. -/
theorem inv_of_run {calls : List Call} {h : SentPacketHistory} {outs : List Out}
    (hrun : Machine.run (Machine.guard Allowed step) newSentPacketHistory calls = some (h, outs)) :
    Inv h := by
  have hr : Machine.Reachable (Machine.guard Allowed step) newSentPacketHistory (fun _ => True)
      (fun _ => True) h := ⟨calls, outs, hrun, fun _ _ => trivial, fun _ _ => trivial⟩
  refine hr.induction Inv inv_newSentPacketHistory fun _ _ _ _ hi _ _ hs => ?_
  obtain ⟨hc, hs⟩ := Machine.guard_eq_some.mp hs
  exact hi.of_step hc hs

/-- **The index of the history.** In every history the handler reaches, the slots are empty or
start with a packet, and each packet sits as many slots after the first as its number is above
the first one's. `getIndex` finds every packet in its slot and gives a slot only to its own
number. `Remove` of a number succeeds exactly when a packet has it and panics only on a `nil`
slot, so "remove failed" is out of reach; it also clears the skipped packets directly below the
number. No call the handler makes panics. -/
theorem sentPacketHistory_index {calls : List Call} {h : SentPacketHistory} {outs : List Out}
    (hrun : Machine.run (Machine.guard Allowed step) newSentPacketHistory calls = some (h, outs)) :
    (h.packets = [] ∨ ∃ p rest, h.packets = some p :: rest) ∧
    (∀ (i : ℕ) (p : Packet), h.packets[i]? = some (some p) →
      ∃ p₀, h.packets[0]? = some (some p₀) ∧ p.PacketNumber = p₀.PacketNumber + i) ∧
    (∀ q ∈ h.Packets, ∃ i, h.getIndex q.PacketNumber = some (i, true) ∧
      h.packets[i]? = some (some q)) ∧
    (∀ (pn : ℤ) (i : ℕ), h.getIndex pn = some (i, true) → i < h.packets.length ∧
      ∀ p, h.packets[i]? = some (some p) → p.PacketNumber = pn) ∧
    (∀ pn, (∃ h', h.Remove pn = some (h', none)) ↔ ∃ p ∈ h.Packets, p.PacketNumber = pn) ∧
    (∀ pn, h.Remove pn = none ↔ ∃ i, h.getIndex pn = some (i, true) ∧ h.packets[i]? = some none) ∧
    (∀ q ∈ h.Packets, ∃ (h' : SentPacketHistory) (k : ℕ), h.Remove q.PacketNumber = some (h', none) ∧
      h'.Packets = h.Packets.filter (fun r => !decide (q.PacketNumber - k ≤ r.PacketNumber ∧
        r.PacketNumber ≤ q.PacketNumber)) ∧
      SkippedBelow h.Packets q.PacketNumber k) ∧
    ∀ c, h.Allowed c → ∃ r, step h c = some r := by
  have hi := inv_of_run hrun
  refine ⟨hi.front, fun i p hp => hi.slot_number hp, fun q hq => hi.getIndex_mem hq,
    fun pn i hidx => hi.getIndex_slot hidx, hi.Remove_ok_iff, hi.Remove_none_iff,
    fun q hq => ?_, fun c hc => ?_⟩
  · obtain ⟨h', k, hr, -, hpk, hbelow, -⟩ := hi.Remove_spec hq
    exact ⟨h', k, hr, hpk, hbelow⟩
  · obtain ⟨r, hs, -⟩ := hi.step_spec hc
    exact ⟨r, hs⟩

/-- The handler's run of `TestSentPacketHistoryDeleteWhileIterating`. -/
theorem sentPacketHistory_index_deleteWhileIterating :
    ∃ h outs, Machine.run (Machine.guard Allowed step) newSentPacketHistory
      [.SentAckElicitingPacket { PacketNumber := 0 }, .SentAckElicitingPacket { PacketNumber := 1 },
        .SkippedPacket 2, .SentAckElicitingPacket { PacketNumber := 3 }, .SkippedPacket 4,
        .SentAckElicitingPacket { PacketNumber := 5 },
        .Packets fun p => if p.PacketNumber = 0 ∨ p.PacketNumber = 4 then .remove else .keep] =
      some (h, outs) ∧
    (h.packets = [] ∨ ∃ p rest, h.packets = some p :: rest) ∧
    (∀ (i : ℕ) (p : Packet), h.packets[i]? = some (some p) →
      ∃ p₀, h.packets[0]? = some (some p₀) ∧ p.PacketNumber = p₀.PacketNumber + i) ∧
    (∀ q ∈ h.Packets, ∃ i, h.getIndex q.PacketNumber = some (i, true) ∧
      h.packets[i]? = some (some q)) ∧
    (∀ (pn : ℤ) (i : ℕ), h.getIndex pn = some (i, true) → i < h.packets.length ∧
      ∀ p, h.packets[i]? = some (some p) → p.PacketNumber = pn) ∧
    (∀ pn, (∃ h', h.Remove pn = some (h', none)) ↔ ∃ p ∈ h.Packets, p.PacketNumber = pn) ∧
    (∀ pn, h.Remove pn = none ↔ ∃ i, h.getIndex pn = some (i, true) ∧ h.packets[i]? = some none) ∧
    (∀ q ∈ h.Packets, ∃ (h' : SentPacketHistory) (k : ℕ), h.Remove q.PacketNumber = some (h', none) ∧
      h'.Packets = h.Packets.filter (fun r => !decide (q.PacketNumber - k ≤ r.PacketNumber ∧
        r.PacketNumber ≤ q.PacketNumber)) ∧
      SkippedBelow h.Packets q.PacketNumber k) ∧
    ∀ c, h.Allowed c → ∃ r, step h c = some r := by
  have hrun : Machine.run (Machine.guard Allowed step) newSentPacketHistory
      [.SentAckElicitingPacket { PacketNumber := 0 }, .SentAckElicitingPacket { PacketNumber := 1 },
        .SkippedPacket 2, .SentAckElicitingPacket { PacketNumber := 3 }, .SkippedPacket 4,
        .SentAckElicitingPacket { PacketNumber := 5 },
        .Packets fun p => if p.PacketNumber = 0 ∨ p.PacketNumber = 4 then .remove else .keep] =
      some (⟨[some { PacketNumber := 1 }, some { PacketNumber := 2, skippedPacket := true },
        some { PacketNumber := 3 }, none, some { PacketNumber := 5 }], [], 3, 5⟩,
        [.unit, .unit, .unit, .unit, .unit, .unit, .unit]) := by
    decide
  exact ⟨_, _, hrun, sentPacketHistory_index hrun⟩

/-- `Remove` clears the skipped packets below a packet, not those above it: once the packet
before a skipped one is removed, the skipped one is the first entry, before a packet that is not
skipped. -/
theorem Remove_keeps_skipped_front :
    Machine.run (Machine.guard Allowed step) newSentPacketHistory
      [.SentAckElicitingPacket { PacketNumber := 6 }, .SkippedPacket 7,
        .SentAckElicitingPacket { PacketNumber := 8 }, .Remove 6] =
      some (⟨[some { PacketNumber := 7, skippedPacket := true }, some { PacketNumber := 8 }], [], 1, 8⟩,
        [.unit, .unit, .unit, .error none]) := by
  decide

end SentPacketHistory

end AckHandler

end QuicGo
