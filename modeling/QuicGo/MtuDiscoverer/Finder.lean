import Mathlib.Data.List.Sort
import QuicGo.Protocol

/-!
# QuicGo — the path MTU finder (`mtu_discoverer.go`)

`mtuFinder` searches for the largest datagram size the path carries, between a size known to
work (`min`) and a bound. A probe packet of a size in between is sent now and then; an
acknowledged probe raises `min`, and a lost probe is recorded in `lost`: the sizes lost so far in
increasing order, the first `maxLostMTUProbes` of them, with `InvalidByteCount` in the slots not
in use. The bound of the search, `max()`, is the largest size recorded, so that a size counts as
unsupported only once `maxLostMTUProbes` probes at or below it are lost. The next probe halves
the interval up to `max()`, or up to the smallest lost size after a loss.

Each probe's ack handler carries the finder's `generation`, which `Reset` (on path migration)
increments, so that the outcome of a probe sent before the reset is ignored. The generation is a
`uint8`.

The model keeps the finder's fields and methods. `lost` is a list (of length
`maxLostMTUProbes` in every state the finder reaches), and the loops over it are `findIdx?` and
maps over its indices. A panic is `none`. Times are nanoseconds after Go's zero time, and the
smoothed RTT that `ShouldSendProbe` reads from the RTT statistics is an argument. `GetPing`
returns the generation of the ack handler and the probe's size; the PING frame is left out, and
so is the tracer.

The second half of the module says what the loops compute on slots that hold a sorted list of
sizes followed by `InvalidByteCount`s: `max()` is the last size, `OnAcked` drops the sizes up to
the acknowledged one, and `OnLost` inserts the lost size after those not above it.
-/

namespace QuicGo

namespace MtuDiscoverer

/-- `maxMTUDiff`: the search stops within this many bytes (and one) of the path MTU. -/
def maxMTUDiff : ℤ := 20

/-- `mtuProbeDelay`: a probe is sent at most every `mtuProbeDelay` RTTs. -/
def mtuProbeDelay : ℤ := 5

/-- `maxLostMTUProbes`: the number of lost probes at or below a size that make it unsupported. -/
def maxLostMTUProbes : ℕ := 3

/-- `mtuFinder`. -/
structure MtuFinder where
  lastProbeTime : ℤ
  /-- the size of the probe in flight, `InvalidByteCount` if none is -/
  inFlight : ℤ
  min : ℤ
  lost : List ℤ
  lastProbeWasLost : Bool
  generation : UInt8
  deriving DecidableEq, Repr

namespace MtuFinder

/-- `init`: the search starts at `start`, and `max` counts as the first lost size. -/
def init (f : MtuFinder) (start max : ℤ) : MtuFinder :=
  { f with
    min := start
    lost := (List.range maxLostMTUProbes).map fun i => if i = 0 then max else InvalidByteCount }

/-- The loop of `max`: the size before the first `InvalidByteCount`, `prev` being the one before
the list; `none` where Go reads `lost[-1]`. -/
def maxFrom (prev : Option ℤ) : List ℤ → Option ℤ
  | [] => prev
  | v :: vs => if v = InvalidByteCount then prev else maxFrom (some v) vs

/-- `max`: the largest lost size, the bound of the search. -/
def max (f : MtuFinder) : Option ℤ := maxFrom none f.lost

/-- `done`: the search interval is down to `maxMTUDiff + 1` bytes. -/
def done (f : MtuFinder) : Option Bool :=
  f.max.map fun m => decide (m - f.min ≤ maxMTUDiff + 1)

/-- `Start`: the first probe waits `mtuProbeDelay` RTTs from `now`. -/
def Start (f : MtuFinder) (now : ℤ) : MtuFinder := { f with lastProbeTime := now }

/-- `ShouldSendProbe`, with the smoothed RTT `srtt`. -/
def ShouldSendProbe (f : MtuFinder) (now srtt : ℤ) : Option Bool :=
  if f.lastProbeTime = 0 then some false
  else if f.inFlight ≠ InvalidByteCount then some false
  else f.done.map fun d => !d && decide (f.lastProbeTime + mtuProbeDelay * srtt ≤ now)

/-- `GetPing`: the finder with the probe in flight, the generation of the probe's ack handler,
and the probe's size. -/
def GetPing (f : MtuFinder) (now : ℤ) : Option (MtuFinder × UInt8 × ℤ) := do
  let bound ← if f.lastProbeWasLost then f.lost.head? else f.max
  -- `(f.min + bound) / 2` in `int64`
  let size := (Int.bmod (f.min + bound) (2 ^ 64)).tdiv 2
  pure ({ f with lastProbeTime := now, inFlight := size }, f.generation, size)

/-- `CurrentSize`. -/
def CurrentSize (f : MtuFinder) : ℤ := f.min

/-- `Reset`: a new search from `start` to `max`, in the next generation. -/
def Reset (f : MtuFinder) (now start max : ℤ) : MtuFinder :=
  MtuFinder.init
    { f with
      generation := f.generation + 1
      lastProbeTime := now
      lastProbeWasLost := false
      inFlight := InvalidByteCount }
    start max

/-- The first loop of `OnAcked`: the index of the first lost size above `size`, `0` if there is
none. -/
def firstAbove (size : ℤ) (lost : List ℤ) : ℕ :=
  (lost.findIdx? fun v => decide (size < v)).getD 0

/-- The second loop of `OnAcked`: the lost sizes move `j` slots to the front, and the slots
freed at the end get `InvalidByteCount`. -/
def shiftLost (lost : List ℤ) (j : ℕ) : List ℤ :=
  (List.range lost.length).map fun i =>
    if h : i + j < lost.length then lost[i + j] else InvalidByteCount

/-- `mtuFinderAckHandler.OnAcked`, for a handler of generation `generation`. -/
def OnAcked (f : MtuFinder) (generation : UInt8) : Option MtuFinder :=
  -- ACK for probe sent before reset
  if generation ≠ f.generation then some f
  -- "OnAcked callback called although there's no MTU probe packet in flight"
  else if f.inFlight = InvalidByteCount then none
  else
    let size := f.inFlight
    -- remove all values smaller than size from the lost array
    let j := firstAbove size f.lost
    some { f with
      inFlight := InvalidByteCount
      min := size
      lastProbeWasLost := false
      lost := if j > 0 then shiftLost f.lost j else f.lost }

/-- The loop of `OnLost`: `size` goes into the slot of the first lost size above it, which
moves up with those after it (`copy(lost[i+1:], lost[i:])`), and the last one falls off. -/
def insertLost (size : ℤ) (lost : List ℤ) : List ℤ :=
  match lost.findIdx? fun v => decide (size < v) with
  | none => lost
  | some i => (lost.take i ++ size :: lost.drop i).take lost.length

/-- `mtuFinderAckHandler.OnLost`, for a handler of generation `generation`. -/
def OnLost (f : MtuFinder) (generation : UInt8) : Option MtuFinder :=
  -- probe sent before reset received
  if generation ≠ f.generation then some f
  -- "OnLost callback called although there's no MTU probe packet in flight"
  else if f.inFlight = InvalidByteCount then none
  else
    some { f with
      lastProbeWasLost := true
      inFlight := InvalidByteCount
      lost := insertLost f.inFlight f.lost }

end MtuFinder

/-- `newMTUDiscoverer`: no probe in flight, and the zero time as the time of the last probe. -/
def newMTUDiscoverer (start max : ℤ) : MtuFinder :=
  MtuFinder.init ⟨0, InvalidByteCount, 0, List.replicate maxLostMTUProbes 0, false, 0⟩ start max

/-! ## The loops on slots holding a sorted list of sizes -/

/-- The slots of `lost` holding the sizes `vs`, in order, and `InvalidByteCount` after them. -/
def slots (vs : List ℤ) : List ℤ :=
  vs ++ List.replicate (maxLostMTUProbes - vs.length) InvalidByteCount

namespace MtuFinder

theorem maxFrom_append_invalid (prev : Option ℤ) {vs : List ℤ} (hvs : ∀ v ∈ vs, 0 ≤ v) (k : ℕ) :
    maxFrom prev (vs ++ List.replicate k InvalidByteCount) = vs.getLast?.or prev := by
  induction vs generalizing prev with
  | nil =>
    cases k <;> simp [maxFrom, List.replicate_succ]
  | cons v vs ih =>
    have hv : v ≠ InvalidByteCount := by
      have := hvs v (by simp)
      unfold InvalidByteCount
      omega
    rw [List.cons_append, maxFrom, if_neg hv, ih _ (fun w hw => hvs w (by simp [hw]))]
    -- the last size is that of the tail, or `v` itself
    cases vs with
    | nil => simp
    | cons w ws =>
      rw [List.getLast?_cons_cons, List.getLast?_eq_some_getLast (List.cons_ne_nil w ws)]
      rfl

/-- No slot holding `InvalidByteCount` is above a size that is not negative. -/
theorem findIdx?_append_invalid {vs : List ℤ} {size : ℤ} (hsize : 0 ≤ size) (k : ℕ) :
    (vs ++ List.replicate k InvalidByteCount).findIdx? (fun v => decide (size < v)) =
      vs.findIdx? fun v => decide (size < v) := by
  have : ¬ size < InvalidByteCount := by unfold InvalidByteCount; omega
  simp [List.findIdx?_append, List.findIdx?_replicate, this]

theorem shiftLost_eq (lost : List ℤ) (j : ℕ) :
    shiftLost lost j =
      lost.drop j ++ List.replicate (lost.length - (lost.length - j)) InvalidByteCount := by
  apply List.ext_getElem
  · simp [shiftLost]
  · intro i h₁ h₂
    simp only [shiftLost, List.getElem_map, List.getElem_range]
    -- the slot reads `lost[i + j]` while there is one, and `InvalidByteCount` after
    by_cases hi : i + j < lost.length
    · rw [dif_pos hi, List.getElem_append_left (by simp; omega), List.getElem_drop]
      simp only [Nat.add_comm]
    · rw [dif_neg hi, List.getElem_append_right (by simp; omega), List.getElem_replicate]

/-- Where a size in `vs` is above `size`, the first loop of `OnAcked` finds the first such slot
among the sizes. -/
theorem firstAbove_slots {vs : List ℤ} {size : ℤ} (hsize : 0 ≤ size) (hex : ∃ v ∈ vs, size < v) :
    firstAbove size (slots vs) = vs.findIdx (fun v => decide (size < v)) ∧
      vs.findIdx (fun v => decide (size < v)) < vs.length := by
  obtain ⟨v, hv, hlt⟩ := hex
  have hlt' : vs.findIdx (fun v => decide (size < v)) < vs.length :=
    List.findIdx_lt_length_of_exists ⟨v, hv, by simpa using hlt⟩
  refine ⟨?_, hlt'⟩
  rw [firstAbove, slots, findIdx?_append_invalid hsize, List.findIdx?_eq_some_of_exists
    ⟨v, hv, by simpa using hlt⟩]
  rfl

/-- **`OnAcked` on slots**: the sizes up to the acknowledged one go, and those above it move to
the front. -/
theorem ackedLost_slots {vs : List ℤ} {size : ℤ} (hlen : vs.length ≤ maxLostMTUProbes)
    (hsize : 0 ≤ size) (hex : ∃ v ∈ vs, size < v) :
    (if firstAbove size (slots vs) > 0 then shiftLost (slots vs) (firstAbove size (slots vs))
      else slots vs) = slots (vs.dropWhile fun v => decide (v ≤ size)) := by
  obtain ⟨hj, hjlt⟩ := firstAbove_slots hsize hex
  have hdrop : vs.dropWhile (fun v => decide (v ≤ size)) =
      vs.drop (vs.findIdx fun v => decide (size < v)) := by
    rw [List.dropWhile_eq_drop_findIdx_not]
    congr 2
    funext v
    rw [← decide_not]
    exact decide_eq_decide.mpr Int.not_le
  rw [hj, hdrop]
  split_ifs with hpos
  · -- the sizes move `j` slots up, and `j` more slots hold `InvalidByteCount`
    rw [shiftLost_eq, slots, List.drop_append_of_le_length (Nat.le_of_lt hjlt), List.append_assoc,
      List.replicate_append_replicate]
    simp only [slots, List.length_append, List.length_replicate, List.length_drop]
    congr 2
    omega
  · rw [Nat.eq_zero_of_not_pos hpos, List.drop_zero]

/-- **`OnLost` on slots**: the lost size goes in after the sizes not above it, and the slots keep
the first `maxLostMTUProbes` sizes. -/
theorem insertLost_slots {vs : List ℤ} {size : ℤ} (hlen : vs.length ≤ maxLostMTUProbes)
    (hsize : 0 ≤ size) (hex : ∃ v ∈ vs, size < v) :
    insertLost size (slots vs) =
      slots ((vs.orderedInsert (· < ·) size).take maxLostMTUProbes) := by
  obtain ⟨v, hv, hlt⟩ := hex
  obtain ⟨hj, hjlt⟩ := firstAbove_slots hsize ⟨v, hv, hlt⟩
  set i := vs.findIdx fun v => decide (size < v)
  have hfind : (slots vs).findIdx? (fun v => decide (size < v)) = some i := by
    rw [slots, findIdx?_append_invalid hsize, List.findIdx?_eq_some_of_exists
      ⟨v, hv, by simpa using hlt⟩]
  -- the insertion the loop makes is `orderedInsert` at the first size above `size`
  have hins : vs.orderedInsert (· < ·) size = vs.take i ++ size :: vs.drop i := by
    rw [List.orderedInsert_eq_take_drop, List.takeWhile_eq_take_findIdx_not,
      List.dropWhile_eq_drop_findIdx_not]
    simp only [decide_not, Bool.not_not, i]
  have hslots : (slots vs).take i ++ size :: (slots vs).drop i =
      (vs.take i ++ size :: vs.drop i) ++
        List.replicate (maxLostMTUProbes - vs.length) InvalidByteCount := by
    rw [slots, List.take_append_of_le_length (Nat.le_of_lt hjlt),
      List.drop_append_of_le_length (Nat.le_of_lt hjlt)]
    simp
  have hlenX : (vs.take i ++ size :: vs.drop i).length = vs.length + 1 := by
    simp
    omega
  rw [insertLost, hfind, hins]
  dsimp only
  rw [hslots, List.take_append, List.take_replicate]
  -- the slots cut back to their number, and those left after the sizes
  have hM : vs.length + (maxLostMTUProbes - vs.length) = maxLostMTUProbes := by omega
  simp only [slots, List.length_append, List.length_replicate, List.length_take, hlenX, hM]
  congr 2
  omega

end MtuFinder

end MtuDiscoverer

end QuicGo
