import Mathlib.Data.List.AList
import QuicGo.Protocol

/-!
# QuicGo — the frame sorter (`frame_sorter.go`)

The frame sorter reassembles the data of a receive stream from STREAM frames that arrive in
any order, duplicated and overlapping. It keeps

* `queue` — the frames it holds, by offset (a Go map, here a Mathlib `AList`, which carries
  the uniqueness of its keys);
* `readPos` — the offset up to which the data was handed out by `Pop`;
* `gaps` — the byte ranges not yet received, a linked list of intervals in the code, here a
  list.

`push` keeps pointers `startGap`, `endGap` into the gap list and edits the list through them
in up to four places. The model names a gap by its index and builds the new list in one
pass (`editGaps`): the edit of `startGap`, the gap inserted after it, the gaps the middle
loop swallowed, and the edit of `endGap`. Each element of the list is touched by at most one
of these edits, so doing them in one pass is the code's own order. The two loops over the
queue (`push`'s replace loop and `deleteConsecutive`) delete one entry per iteration and are
defined by recursion on the size of the queue.

Every `panic` of the code, explicit (`"no gap found"`, the read-position check of `Pop`) or a
`nil` dereference, is the value `none`. A `DoneCb` is the identity of a callback (`Cb`); the
calls the sorter makes are returned as a list, in the order the code makes them.
-/

namespace QuicGo

/-- `byteInterval`: an interval from one `ℕ` to the other. -/
structure ByteInterval where
  Start : ℕ
  End : ℕ
  deriving DecidableEq, Repr

/-- `frameSorterEntry`: the data of a queued frame and the callback that releases its
buffer. -/
structure FrameSorterEntry (Cb : Type) where
  Data : List UInt8
  DoneCb : Option Cb
  deriving DecidableEq, Repr

/-- The queue of a frame sorter: queued frames by offset. -/
abbrev FrameQueue (Cb : Type) := AList (fun _ : ℕ => FrameSorterEntry Cb)

/-- `frameSorter`. -/
structure FrameSorter (Cb : Type) where
  queue : FrameQueue Cb
  readPos : ℕ
  gaps : List ByteInterval

/-- The errors `push` returns: `errDuplicateStreamData`, and the one created for too many
gaps. -/
inductive PushError
  | duplicateStreamData
  | tooManyGaps
  deriving DecidableEq, Repr

/-- The text of each error. -/
def PushError.message : PushError → String
  | .duplicateStreamData => "duplicate stream data"
  | .tooManyGaps => "too many gaps in received data"

/-- What a call of `push` or `Push` leaves behind: the error it returns, the sorter after its
edits (also when it returns an error), and the callbacks it called, in order. -/
structure PushResult (Cb : Type) where
  err : Option PushError
  sorter : FrameSorter Cb
  released : List Cb

/-- What `Pop` returns (`offset`, `data`, `doneCb`), with the sorter it leaves. -/
structure PopResult (Cb : Type) where
  offset : ℕ
  data : Option (List UInt8)
  doneCb : Option Cb
  sorter : FrameSorter Cb

variable {Cb : Type}

/-- `newFrameSorter`: nothing received, one gap over all offsets. -/
def newFrameSorter : FrameSorter Cb where
  queue := ∅
  readPos := 0
  gaps := [⟨0, MaxByteCount⟩]

namespace FrameSorter

/-- Erasing a key that is present shrinks a queue; the two loops over the queue recurse on
this measure. -/
theorem keys_length_erase_lt {q : FrameQueue Cb} {k : ℕ} {e : FrameSorterEntry Cb}
    (h : q.lookup k = some e) : (q.erase k).keys.length < q.keys.length := by
  have hk : k ∈ q.keys := AList.mem_keys.mp (AList.lookup_isSome.mp (by simp [h]))
  rw [AList.keys_erase, List.length_erase_of_mem hk]
  have : 0 < q.keys.length := List.length_pos_of_mem hk
  omega

/-- `findStartGap`: the index of the first gap that contains `offset` (its end included) or
lies after it, and whether it contains it. -/
def findStartGap : List ByteInterval → ℕ → Option (Nat × Bool)
  | [], _ => none
  | gap :: gaps, offset =>
    if offset ≥ gap.Start ∧ offset ≤ gap.End then some (0, true)
    else if offset < gap.Start then some (0, false)
    else (findStartGap gaps offset).map fun (i, b) => (i + 1, b)

/-- The loop of `findEndGap` from the gap at index `i`: the gap that contains `offset`, or
the one before the first gap after `offset` (`gap.Prev()`, `nil` before the front). -/
def findEndGapFrom : List ByteInterval → Nat → ℕ → Option (Option Nat × Bool)
  | [], _, _ => none
  | gap :: gaps, i, offset =>
    if offset ≥ gap.Start ∧ offset < gap.End then some (some i, true)
    else if offset < gap.Start then
      some ((match i with | 0 => none | j + 1 => some j), false)
    else findEndGapFrom gaps (i + 1) offset

/-- `findEndGap`, started at `startGap`. -/
def findEndGap (gaps : List ByteInterval) (startGap : Nat) (offset : ℕ) :
    Option (Option Nat × Bool) :=
  findEndGapFrom (gaps.drop startGap) startGap offset

-- `h` is used by `decreasing_by` only, which the unused-variable linter does not see.
set_option linter.unusedVariables false in
/-- `deleteConsecutive`: delete the queued frames that follow each other from `pos` on,
calling their callbacks. -/
def deleteConsecutive (queue : FrameQueue Cb) (pos : ℕ) :
    FrameQueue Cb × List Cb :=
  match h : queue.lookup pos with
  | none => (queue, [])
  | some oldEntry =>
    let r := deleteConsecutive (queue.erase pos) (pos + oldEntry.Data.length)
    (r.1, oldEntry.DoneCb.toList ++ r.2)
termination_by queue.keys.length
decreasing_by exact keys_length_erase_lt h

theorem deleteConsecutive_of_lookup_none {queue : FrameQueue Cb} {pos : ℕ}
    (h : queue.lookup pos = none) : deleteConsecutive queue pos = (queue, []) := by
  rw [deleteConsecutive]
  split <;> simp_all

theorem deleteConsecutive_of_lookup_some {queue : FrameQueue Cb} {pos : ℕ}
    {e : FrameSorterEntry Cb} (h : queue.lookup pos = some e) :
    deleteConsecutive queue pos =
      ((deleteConsecutive (queue.erase pos) (pos + e.Data.length)).1,
        e.DoneCb.toList ++ (deleteConsecutive (queue.erase pos) (pos + e.Data.length)).2) := by
  rw [deleteConsecutive]
  split <;> simp_all

/-- `deleteConsecutive` at each of the positions, in order. -/
def deleteConsecutiveAll (queue : FrameQueue Cb) : List ℕ → FrameQueue Cb × List Cb
  | [] => (queue, [])
  | pos :: rest =>
    let r := deleteConsecutive queue pos
    let r' := deleteConsecutiveAll r.1 rest
    (r'.1, r.2 ++ r'.2)

/-- How the replace loop of `push` ends: the frame is a duplicate, or the loop stops at
`pos` (having cut the new frame there when `wasCut`), with the queue it leaves and the
callbacks of the frames it replaced. -/
inductive ReplaceResult (Cb : Type)
  | duplicate
  | done (queue : FrameQueue Cb) (pos : ℕ) (hasReplacedAtLeastOne wasCut : Bool)
      (released : List Cb)

set_option linter.unusedVariables false in
/-- The replace loop of `push` (lines 87-112): a queued frame at `pos` that is shorter than
the rest of the new frame is replaced; a longer one makes the new frame a duplicate if it is
the first, and cuts the new frame at `pos` otherwise. -/
def replaceLoop (end_ : ℕ) (queue : FrameQueue Cb) (pos : ℕ)
    (hasReplacedAtLeastOne : Bool) : ReplaceResult Cb :=
  match h : queue.lookup pos with
  | none => .done queue pos hasReplacedAtLeastOne false []
  | some oldEntry =>
    let oldEntryLen := oldEntry.Data.length
    if end_ - pos > oldEntryLen ∨ (hasReplacedAtLeastOne ∧ end_ - pos = oldEntryLen) then
      match replaceLoop end_ (queue.erase pos) (pos + oldEntryLen) true with
      | .duplicate => .duplicate
      | .done q p r c released => .done q p r c (oldEntry.DoneCb.toList ++ released)
    else if ¬hasReplacedAtLeastOne then .duplicate
    else .done queue pos true true []
termination_by queue.keys.length
decreasing_by exact keys_length_erase_lt h

theorem replaceLoop_of_lookup_none {end_ : ℕ} {queue : FrameQueue Cb} {pos : ℕ} {hr : Bool}
    (h : queue.lookup pos = none) :
    replaceLoop end_ queue pos hr = .done queue pos hr false [] := by
  rw [replaceLoop]
  split <;> simp_all

/-- A queued frame that does not reach past the end of the new frame is replaced. -/
theorem replaceLoop_of_replace {end_ : ℕ} {queue : FrameQueue Cb} {pos : ℕ} {hr : Bool}
    {e : FrameSorterEntry Cb} (h : queue.lookup pos = some e)
    (hlen : end_ - pos > e.Data.length ∨ (hr = true ∧ end_ - pos = e.Data.length)) :
    replaceLoop end_ queue pos hr =
      match replaceLoop end_ (queue.erase pos) (pos + e.Data.length) true with
      | .duplicate => .duplicate
      | .done q p r c released => .done q p r c (e.DoneCb.toList ++ released) := by
  rw [replaceLoop]
  split
  · simp_all
  · rename_i e' h'
    rw [h] at h'
    cases h'
    simp only [hlen, if_true]

/-- A first queued frame that reaches past the end of the new frame makes it a duplicate. -/
theorem replaceLoop_of_duplicate {end_ : ℕ} {queue : FrameQueue Cb} {pos : ℕ}
    {e : FrameSorterEntry Cb} (h : queue.lookup pos = some e) (hlen : end_ - pos ≤ e.Data.length) :
    replaceLoop end_ queue pos false = .duplicate := by
  rw [replaceLoop]
  split
  · simp_all
  · rename_i e' h'
    rw [h] at h'
    cases h'
    simp [show ¬(end_ - pos > e.Data.length) by omega]

/-- A later queued frame that reaches past the end of the new frame cuts it. -/
theorem replaceLoop_of_cut {end_ : ℕ} {queue : FrameQueue Cb} {pos : ℕ}
    {e : FrameSorterEntry Cb} (h : queue.lookup pos = some e) (hlen : end_ - pos < e.Data.length) :
    replaceLoop end_ queue pos true = .done queue pos true true [] := by
  rw [replaceLoop]
  split
  · simp_all
  · rename_i e' h'
    rw [h] at h'
    cases h'
    simp [show ¬(end_ - pos > e.Data.length) by omega, show end_ - pos ≠ e.Data.length by omega]

/-- The middle loop of `push` (lines 135-139), from `startGap.Next()`: the gaps that end
before `endGapStart`; `none` when it runs past the last gap (a `nil` dereference). -/
def swallowedGaps : List ByteInterval → ℕ → Option (List ByteInterval)
  | [], _ => none
  | gap :: gaps, endGapStart =>
    if gap.End < endGapStart then (swallowedGaps gaps endGapStart).map (gap :: ·)
    else some []

/-- What `push` makes of the gap at index `i`: the gap at `startGap` becomes `startGapEdit`
followed by `inserted`, the `swallowed` gaps after it are removed, the gap at `endGap` becomes
`endGapEdit`, and every other gap stays. -/
def gapEdit (startGap : ℕ) (startGapEdit inserted : List ByteInterval) (swallowed endGap : ℕ)
    (endGapEdit : List ByteInterval) (i : ℕ) (gap : ByteInterval) : List ByteInterval :=
  if i = startGap then startGapEdit ++ inserted
  else if startGap < i ∧ i ≤ startGap + swallowed then []
  else if i = endGap then endGapEdit
  else [gap]

/-- The gap list after `push`, every gap edited in place. -/
def editGaps (gaps : List ByteInterval) (startGap : ℕ)
    (startGapEdit inserted : List ByteInterval) (swallowed endGap : ℕ)
    (endGapEdit : List ByteInterval) : List ByteInterval :=
  (gaps.mapIdx (gapEdit startGap startGapEdit inserted swallowed endGap endGapEdit)).flatten

/-- The result of a `push` that finds the data already received. -/
def duplicate (s : FrameSorter Cb) : PushResult Cb :=
  ⟨some .duplicateStreamData, s, []⟩

/-- Where `push` (lines 64-76) places a new frame in the gap list: the frame is a duplicate,
or it starts in or before the gap at `startGapIdx` and ends in or after the gap at
`endGapIdx`. -/
inductive Location
  | duplicate
  | found (startGapIdx : ℕ) (startsInGap : Bool) (endGapIdx : ℕ) (endsInGap : Bool)
      (startGap endGap : ByteInterval)

/-- Lines 64-76 of `push`: find `startGap` and `endGap` for the frame `[start, end_)`;
`none` when the code panics. -/
def locate (gaps : List ByteInterval) (start end_ : ℕ) : Option Location := do
  let front ← gaps.head?
  if end_ ≤ front.Start then return .duplicate
  let (startGapIdx, startsInGap) ← findStartGap gaps start
  let (endGapIdx?, endsInGap) ← findEndGap gaps startGapIdx end_
  let startGap ← gaps[startGapIdx]?
  -- a `nil` `endGap` is dereferenced in the check below
  let endGapIdx ← endGapIdx?
  let endGap ← gaps[endGapIdx]?
  if (startGapIdx = endGapIdx ∧ end_ ≤ startGap.Start) ∨
      (startGapIdx ≠ endGapIdx ∧ startGap.End ≥ endGap.Start ∧ end_ ≤ startGap.Start) then
    return .duplicate
  return .found startGapIdx startsInGap endGapIdx endsInGap startGap endGap

/-- The new frame while `push` cuts it: its data, the offsets `[start, end_)` it covers, and
whether it was cut (`wasCut`). -/
structure NewFrame where
  data : List UInt8
  start : ℕ
  end_ : ℕ
  wasCut : Bool

/-- Lines 107-109: the replace loop cut the frame where a longer queued frame starts. -/
def NewFrame.cutAt (fr : NewFrame) (pos : ℕ) : NewFrame :=
  ⟨fr.data.take (pos - fr.start), fr.start, pos, true⟩

/-- Lines 114-130: a frame that starts before `startGap` without having replaced a queued frame
is cut to start at the gap; then `startGap` is removed, shortened at its start, or shortened at
its end (`adjustedStartGapEnd`). Returns the frame, what becomes of `startGap`, and
`adjustedStartGapEnd`. -/
def cutFront (startGap : ByteInterval) (startsInGap hasReplacedAtLeastOne : Bool)
    (fr : NewFrame) : NewFrame × List ByteInterval × Bool :=
  let fr := if !startsInGap && !hasReplacedAtLeastOne then
    ⟨fr.data.drop (startGap.Start - fr.start), startGap.Start, fr.end_, true⟩ else fr
  if fr.start ≤ startGap.Start then
    if fr.end_ ≥ startGap.End then (fr, [], false)
    else (fr, [{ startGap with Start := fr.end_ }], false)
  else if !hasReplacedAtLeastOne then (fr, [{ startGap with End := fr.start }], true)
  else (fr, [startGap], false)

/-- Lines 132-140: when the frame spans several gaps, the frames queued after `startGap` and
after each gap the middle loop swallows are deleted. Returns the queue, the callbacks called
and the number of swallowed gaps; `none` when the loop runs past the last gap. -/
def deleteSwallowed (gaps : List ByteInterval) (startGapIdx : ℕ) (startGapEnd endGapStart : ℕ)
    (queue : FrameQueue Cb) : Option (FrameQueue Cb × List Cb × ℕ) := do
  let swallowed ← swallowedGaps (gaps.drop (startGapIdx + 1)) endGapStart
  let r := deleteConsecutiveAll queue (startGapEnd :: swallowed.map (·.End))
  return (r.1, r.2, swallowed.length)

/-- Lines 142-160: a frame that ends after `endGap` is cut to end with it (unless it starts
there); then `endGap` is removed or shortened at its start, or, when the frame lies inside
`startGap = endGap`, the rest of the split gap is inserted. Returns the frame, what becomes of
`endGap`, and the gap inserted after `startGap`. -/
def cutBack (endGap : ByteInterval) (startGapEnd : ℕ)
    (endsInGap startGapEqualsEndGap adjustedStartGapEnd : Bool) (fr : NewFrame) :
    NewFrame × List ByteInterval × List ByteInterval :=
  let fr := if !endsInGap && fr.start ≠ endGap.End && fr.end_ > endGap.End then
    ⟨fr.data.take (endGap.End - fr.start), fr.start, endGap.End, true⟩ else fr
  if fr.end_ = endGap.End then
    if !startGapEqualsEndGap then (fr, [], []) else (fr, [endGap], [])
  else if startGapEqualsEndGap ∧ adjustedStartGapEnd then (fr, [endGap], [⟨fr.end_, startGapEnd⟩])
  else if !startGapEqualsEndGap then (fr, [{ endGap with Start := fr.end_ }], [])
  else (fr, [endGap], [])

/-- Lines 162-176: a short frame that was cut is copied and its buffer released at once; the
gap count is checked and the frame stored. -/
def store (s : FrameSorter Cb) (queue : FrameQueue Cb) (gaps : List ByteInterval)
    (fr : NewFrame) (doneCb : Option Cb) (released : List Cb) : PushResult Cb :=
  let copied := fr.wasCut ∧ fr.data.length < MinStreamFrameBufferSize
  let released := if copied then released ++ doneCb.toList else released
  let doneCb := if copied then none else doneCb
  if gaps.length > MaxStreamFrameSorterGaps then
    ⟨some .tooManyGaps, { s with queue := queue, gaps := gaps }, released⟩
  else ⟨none, { s with queue := queue.insert fr.start ⟨fr.data, doneCb⟩, gaps := gaps }, released⟩

/-- `frameSorter.push`. -/
def push (s : FrameSorter Cb) (data : List UInt8) (offset : ℕ) (doneCb : Option Cb) :
    Option (PushResult Cb) := do
  if data.length = 0 then return duplicate s
  let fr : NewFrame := ⟨data, offset, offset + data.length, false⟩
  match ← locate s.gaps fr.start fr.end_ with
  | .duplicate => return duplicate s
  | .found startGapIdx startsInGap endGapIdx endsInGap startGap endGap =>
    let startGapEqualsEndGap := decide (startGapIdx = endGapIdx)
    match replaceLoop fr.end_ s.queue fr.start false with
    | .duplicate => return duplicate s
    | .done queue pos hasReplacedAtLeastOne cutInLoop released =>
      let fr := if cutInLoop then fr.cutAt pos else fr
      let (fr, startGapEdit, adjustedStartGapEnd) :=
        cutFront startGap startsInGap hasReplacedAtLeastOne fr
      let (queue, released, swallowed) ←
        if startGapEqualsEndGap then pure (queue, released, 0) else do
          let r ← deleteSwallowed s.gaps startGapIdx startGap.End endGap.Start queue
          pure (r.1, released ++ r.2.1, r.2.2)
      let (fr, endGapEdit, inserted) :=
        cutBack endGap startGap.End endsInGap startGapEqualsEndGap adjustedStartGapEnd fr
      let gaps := editGaps s.gaps startGapIdx startGapEdit inserted swallowed endGapIdx endGapEdit
      return store s queue gaps fr doneCb released

/-- `frameSorter.Push`: a duplicate is not an error, but its buffer is released. -/
def Push (s : FrameSorter Cb) (data : List UInt8) (offset : ℕ) (doneCb : Option Cb) :
    Option (PushResult Cb) := do
  let r ← s.push data offset doneCb
  if r.err = some .duplicateStreamData then
    return { r with err := none, released := r.released ++ doneCb.toList }
  return r

/-- `frameSorter.Pop`: the frame queued at the read position, if any. -/
def Pop (s : FrameSorter Cb) : Option (PopResult Cb) :=
  match s.queue.lookup s.readPos with
  | none => some ⟨s.readPos, none, none, s⟩
  | some entry =>
    let readPos := s.readPos + entry.Data.length
    match s.gaps.head? with
    | none => none
    | some front =>
      -- "frame sorter BUG: read position higher than a gap"
      if front.End ≤ readPos then none
      else some ⟨s.readPos, some entry.Data, entry.DoneCb,
        { s with queue := s.queue.erase s.readPos, readPos := readPos }⟩

/-- `frameSorter.HasMoreData`: is any data queued, at any offset. -/
def HasMoreData (s : FrameSorter Cb) : Bool :=
  decide (0 < s.queue.entries.length)

end FrameSorter

end QuicGo
