import QuicGo.FrameSorter.Machine
import QuicGo.FlowControl.Basic

/-!
# QuicGo — the receive stream (`receive_stream.go`)

A `ReceiveStream` hands the data of the peer's STREAM frames to the application. The frames go
into its frame sorter, and `Read` copies them out through a cursor into the current frame. It
counts what was read at its flow controller, which forwards the count to the connection. The
stream ends in one of three ways: the application reads `io.EOF`, a RESET_STREAM frame comes
in and its error is read, or the application cancels reading.

The model keeps every field these calls read. The stream's flow controller and the connection
flow controller it forwards to are two fields; in the code the one holds a pointer to the
other. Callbacks are identities `Cb`, as in the frame sorter. A call returns the callbacks it
invoked, and its calls to the `streamSender` as flags.

Left out: the mutex and the `readOnce` channel, which serialize calls that the model makes one
after the other anyway; the read deadline, so every `Read` runs with a zero deadline; and
`closeForShutdown`, so `closeForShutdownErr` is `nil`. A `Read` that has to wait for a frame
returns `blocked` with nothing read. In the code it waits on `readChan` at that point, before
any byte was copied, and when it wakes up it does what a new `Read` does. The one difference
is a wake-up by a cancellation: the code takes the next frame out of the sorter before it
returns the cancellation error, and the model leaves that frame in the sorter.
-/

namespace QuicGo

open FlowControl

/-- `StreamError`: the error `Read` returns on a cancelled stream. -/
structure StreamError where
  StreamID : ℤ
  ErrorCode : ℕ
  Remote : Bool
  deriving DecidableEq, Repr

/-- `wire.StreamFrame`, with the fields the receive stream reads; `PutBack` returns the frame's
buffer to its pool. -/
structure StreamFrame (Cb : Type) where
  Offset : ℕ
  Data : List UInt8
  Fin : Bool
  PutBack : Cb
  deriving DecidableEq, Repr

/-- `wire.ResetStreamFrame`, with the fields the receive stream reads. -/
structure ResetStreamFrame where
  ErrorCode : ℕ
  FinalSize : ℕ
  deriving DecidableEq, Repr

/-- `ReceiveStream`, with the connection flow controller beside the stream's. -/
structure ReceiveStream (Cb : Type) where
  streamID : ℤ
  frameQueue : FrameSorter Cb
  finalOffset : ℕ
  currentFrame : Option (List UInt8)
  currentFrameDone : Option Cb
  readPosInFrame : ℕ
  currentFrameIsLast : Bool
  queuedStopSending : Bool
  queuedMaxStreamData : Bool
  errorRead : Bool
  completed : Bool
  cancelledRemotely : Bool
  cancelledLocally : Bool
  cancelErr : Option StreamError
  flowController : StreamFlowController
  connection : ConnectionFlowController

namespace ReceiveStream

variable {Cb : Type}

/-- `newReceiveStream`: the final offset is unknown, `MaxByteCount`. -/
def newReceiveStream (streamID : ℤ) (flowController : StreamFlowController)
    (connection : ConnectionFlowController) : ReceiveStream Cb where
  streamID := streamID
  frameQueue := newFrameSorter
  finalOffset := MaxByteCount
  currentFrame := none
  currentFrameDone := none
  readPosInFrame := 0
  currentFrameIsLast := false
  queuedStopSending := false
  queuedMaxStreamData := false
  errorRead := false
  completed := false
  cancelledRemotely := false
  cancelledLocally := false
  cancelErr := none
  flowController := flowController
  connection := connection

/-- `isNewlyCompleted`: the stream is done once its final offset is known and it was cancelled
locally or its error was read. -/
def isNewlyCompleted (s : ReceiveStream Cb) : ReceiveStream Cb × Bool :=
  if s.completed then (s, false)
  else if s.finalOffset = MaxByteCount then (s, false)
  else if s.cancelledLocally then ({ s with completed := true }, true)
  else if s.errorRead then ({ s with completed := true }, true)
  else (s, false)

/-- `s.flowController.Abandon()`: the bytes received and not read count as read. -/
def abandon (s : ReceiveStream Cb) : ReceiveStream Cb :=
  let r := s.flowController.Abandon s.connection
  { s with flowController := r.1, connection := r.2 }

/-- `s.flowController.UpdateHighestReceived(offset, final)`, at the stream's flow controller and
the connection it forwards to; the error, if any. -/
def updateHighestReceived (s : ReceiveStream Cb) (offset : ℕ) (final : Bool) :
    ReceiveStream Cb × Option TransportError :=
  let r := s.flowController.UpdateHighestReceived s.connection offset final
  ({ s with flowController := r.1, connection := r.2.1 }, r.2.2)

/-! ## `Read` -/

/-- `dequeueNextFrame`: release the current frame's buffer and take the next frame out of the
sorter; it is the last one if it reaches the final offset. `none` if `Pop` panics. -/
def dequeueNextFrame (s : ReceiveStream Cb) : Option (ReceiveStream Cb × List Cb) :=
  (s.frameQueue.Pop).map fun r =>
    ({ s with
        frameQueue := r.sorter, currentFrame := r.data, currentFrameDone := r.doneCb,
        currentFrameIsLast := decide (s.finalOffset ≤ r.offset + (r.data.getD []).length),
        readPosInFrame := 0 }, s.currentFrameDone.toList)

/-- The bytes of the current frame that `Read` has not copied out yet. -/
def remainder (s : ReceiveStream Cb) : List UInt8 :=
  (s.currentFrame.getD []).drop s.readPosInFrame

/-- Lines 197-211 of `readImpl`: copy what fits into the `room` bytes left of the buffer, and
count it at the flow controller, unless a RESET_STREAM already counted the whole stream. The
new state, the bytes copied, and the window updates the flow controllers ask for. -/
def copyCurrentFrame (s : ReceiveStream Cb) (room : ℕ) :
    ReceiveStream Cb × List UInt8 × Bool × Bool :=
  let chunk := ((s.currentFrame.getD []).drop s.readPosInFrame).take room
  let s := { s with readPosInFrame := s.readPosInFrame + chunk.length }
  if s.cancelledRemotely then (s, chunk, false, false)
  else
    let r := s.flowController.AddBytesRead s.connection chunk.length
    ({ s with
        flowController := r.1, connection := r.2.1,
        queuedMaxStreamData := s.queuedMaxStreamData || r.2.2.1 }, chunk, r.2.2.1, r.2.2.2)

/-- What the loop of `readImpl` has done so far: the bytes copied into the buffer, the
callbacks it invoked, and the window updates it queued. -/
structure ReadAcc (Cb : Type) where
  data : List UInt8
  released : List Cb
  hasStreamWindowUpdate : Bool
  hasConnWindowUpdate : Bool

/-- The accumulator of a `Read` that has done nothing yet. -/
def ReadAcc.empty : ReadAcc Cb := ⟨[], [], false, false⟩

@[simp] theorem ReadAcc.empty_data : (ReadAcc.empty : ReadAcc Cb).data = [] := rfl

/-- How `readImpl` ends. -/
inductive ReadEnd
  | ok
  | eof
  | cancelled (err : Option StreamError)
  | bug (msg : String)
  | blocked
  deriving DecidableEq, Repr

/-- The current frame is used up, so the loop takes the next one. -/
def frameUsedUp (s : ReceiveStream Cb) : Bool :=
  s.currentFrame.isNone || decide ((s.currentFrame.getD []).length ≤ s.readPosInFrame)

/-- The loop of `readImpl` for a buffer of `n` bytes. Each iteration that goes on copies a
byte or takes a frame out of the sorter, which `fuel` bounds.

The waiting loop's checks of a cancellation are left out: `readImpl` returns before the loop
when the stream is cancelled, and nothing in the loop cancels it. Its check
`bytesRead > len(p)` is left out too: the loop's guard refutes it. -/
def readLoop (n : ℕ) : ℕ → ReceiveStream Cb → ReadAcc Cb →
    Option (ReceiveStream Cb × ReadAcc Cb × ReadEnd)
  | 0, _, _ => none
  | fuel + 1, s, acc =>
    if acc.data.length < n then
      match (if s.frameUsedUp then s.dequeueNextFrame else some (s, [])) with
      | none => none
      | some (s, released) =>
        let acc := { acc with released := acc.released ++ released }
        if s.currentFrame.isNone && decide (0 < acc.data.length) then some (s, acc, .ok)
        -- no frame to read from and the stream goes on: wait for a frame
        else if s.currentFrame.isNone && !s.currentFrameIsLast then some (s, acc, .blocked)
        else if (s.currentFrame.getD []).length < s.readPosInFrame then
          some (s, acc, .bug ("BUG: readPosInFrame (" ++ toString s.readPosInFrame ++
            ") > frame.DataLen (" ++ toString (s.currentFrame.getD []).length ++
            ") in stream.Read"))
        else
          let r := s.copyCurrentFrame (n - acc.data.length)
          let s := r.1
          let acc := { acc with
            data := acc.data ++ r.2.1,
            hasStreamWindowUpdate := acc.hasStreamWindowUpdate || r.2.2.1,
            hasConnWindowUpdate := acc.hasConnWindowUpdate || r.2.2.2 }
          if decide ((s.currentFrame.getD []).length ≤ s.readPosInFrame) && s.currentFrameIsLast
          then
            some ({ s with currentFrame := none, errorRead := true },
              { acc with released := acc.released ++ s.currentFrameDone.toList }, .eof)
          else readLoop n fuel s acc
    else some (s, acc, .ok)

/-- `readImpl` for a buffer of `n` bytes: `io.EOF` once the last frame was read, the
cancellation error once the stream was cancelled, and the loop otherwise. -/
def readImpl (s : ReceiveStream Cb) (n : ℕ) : Option (ReceiveStream Cb × ReadAcc Cb × ReadEnd) :=
  if s.currentFrameIsLast && s.currentFrame.isNone then
    some ({ s with errorRead := true }, .empty, .eof)
  else if s.cancelledRemotely || s.cancelledLocally then
    some ({ s with errorRead := true }, .empty, .cancelled s.cancelErr)
  else readLoop n (n + s.frameQueue.queue.keys.length + 1) s .empty

/-- What `Read` returns, with the callbacks it invoked and its calls to the `streamSender`. -/
structure ReadOut (Cb : Type) where
  data : List UInt8
  result : ReadEnd
  released : List Cb
  completed : Bool
  hasStreamWindowUpdate : Bool
  hasConnWindowUpdate : Bool

/-- `Read` into a buffer of `n` bytes. A `Read` that waits has not returned, so it does not
check for completion yet. -/
def Read (s : ReceiveStream Cb) (n : ℕ) : Option (ReceiveStream Cb × ReadOut Cb) :=
  (s.readImpl n).map fun r =>
    if r.2.2 = .blocked then
      (r.1, ⟨r.2.1.data, r.2.2, r.2.1.released, false, r.2.1.hasStreamWindowUpdate,
        r.2.1.hasConnWindowUpdate⟩)
    else
      let c := r.1.isNewlyCompleted
      (c.1, ⟨r.2.1.data, r.2.2, r.2.1.released, c.2, r.2.1.hasStreamWindowUpdate,
        r.2.1.hasConnWindowUpdate⟩)

/-! ## Cancellation and frames -/

/-- `cancelReadImpl`: whether a STOP_SENDING frame was queued. -/
def cancelReadImpl (s : ReceiveStream Cb) (errorCode : ℕ) : ReceiveStream Cb × Bool :=
  if s.cancelledLocally then (s, false)
  else
    let s := { s with cancelledLocally := true }
    if s.errorRead || s.cancelledRemotely then (s, false)
    else ({ s with
      queuedStopSending := true, cancelErr := some ⟨s.streamID, errorCode, false⟩ }, true)

/-- `CancelRead`: whether a STOP_SENDING frame was queued, and whether the stream completed. -/
def CancelRead (s : ReceiveStream Cb) (errorCode : ℕ) : ReceiveStream Cb × Bool × Bool :=
  let r := s.cancelReadImpl errorCode
  let c := r.1.isNewlyCompleted
  (if c.2 then c.1.abandon else c.1, r.2, c.2)

/-- The errors of `handleStreamFrame`: from the flow controller or from the frame sorter. -/
inductive FrameError
  | flowControl (e : TransportError)
  | frameSorter (e : PushError)
  deriving DecidableEq, Repr

/-- `handleStreamFrameImpl`: the flow controller checks the frame's end first; after a local
cancellation the data is dropped. The error, and the callbacks the sorter invoked. -/
def handleStreamFrameImpl (s : ReceiveStream Cb) (frame : StreamFrame Cb) :
    Option (ReceiveStream Cb × Option FrameError × List Cb) :=
  let maxOffset := frame.Offset + frame.Data.length
  let r := s.updateHighestReceived maxOffset frame.Fin
  match r.2 with
  | some e => some (r.1, some (.flowControl e), [])
  | none =>
    let s := if frame.Fin then { r.1 with finalOffset := maxOffset } else r.1
    if s.cancelledLocally then some (s, none, [])
    else (s.frameQueue.Push frame.Data frame.Offset (some frame.PutBack)).map fun p =>
      ({ s with frameQueue := p.sorter }, p.err.map .frameSorter, p.released)

/-- `handleStreamFrame`: a frame that completes the stream abandons the rest of it. -/
def handleStreamFrame (s : ReceiveStream Cb) (frame : StreamFrame Cb) :
    Option (ReceiveStream Cb × Option FrameError × List Cb × Bool) :=
  (s.handleStreamFrameImpl frame).map fun r =>
    let c := r.1.isNewlyCompleted
    (if c.2 then c.1.abandon else c.1, r.2.1, r.2.2, c.2)

/-- `handleResetStreamFrameImpl`: the final size goes through the flow controller, and the
first RESET_STREAM abandons the stream and, unless it was cancelled locally, saves the
error. -/
def handleResetStreamFrameImpl (s : ReceiveStream Cb) (frame : ResetStreamFrame) :
    ReceiveStream Cb × Option TransportError :=
  let r := s.updateHighestReceived frame.FinalSize true
  match r.2 with
  | some e => (r.1, some e)
  | none =>
    let s := { r.1 with finalOffset := frame.FinalSize }
    if s.cancelledRemotely then (s, none)
    else
      let s := s.abandon
      if s.cancelledLocally then (s, none)
      else ({ s with
        cancelledRemotely := true, cancelErr := some ⟨s.streamID, frame.ErrorCode, true⟩ }, none)

/-- `handleResetStreamFrame`: the error, and whether the stream completed. -/
def handleResetStreamFrame (s : ReceiveStream Cb) (frame : ResetStreamFrame) :
    ReceiveStream Cb × Option TransportError × Bool :=
  let r := s.handleResetStreamFrameImpl frame
  let c := r.1.isNewlyCompleted
  (c.1, r.2, c.2)

/-! ## The stream driven by calls -/

/-- A call on a receive stream: a frame from the peer, or a call of the application. -/
inductive Call (Cb : Type)
  | handleStreamFrame (frame : StreamFrame Cb)
  | handleResetStreamFrame (frame : ResetStreamFrame)
  | read (n : ℕ)
  | cancelRead (errorCode : ℕ)

/-- What each call returns. -/
inductive Output (Cb : Type)
  | handleStreamFrame (err : Option FrameError) (released : List Cb) (completed : Bool)
  | handleResetStreamFrame (err : Option TransportError) (completed : Bool)
  | read (out : ReadOut Cb)
  | cancelRead (queuedStopSending completed : Bool)

/-- One call on the stream; `none` when the code panics. -/
def step (s : ReceiveStream Cb) : Call Cb → Option (ReceiveStream Cb × Output Cb)
  | .handleStreamFrame frame =>
    (s.handleStreamFrame frame).map fun r => (r.1, .handleStreamFrame r.2.1 r.2.2.1 r.2.2.2)
  | .handleResetStreamFrame frame =>
    let r := s.handleResetStreamFrame frame
    some (r.1, .handleResetStreamFrame r.2.1 r.2.2)
  | .read n => (s.Read n).map fun r => (r.1, .read r.2)
  | .cancelRead errorCode =>
    let r := s.CancelRead errorCode
    some (r.1, .cancelRead r.2.1 r.2.2)

/-- The outputs of calls that succeed: no frame is rejected. -/
def Output.Ok : Output Cb → Prop
  | .handleStreamFrame err _ _ => err = none
  | .handleResetStreamFrame err _ => err = none
  | _ => True

instance : DecidablePred (@Output.Ok Cb) := fun o =>
  match o with
  | .handleStreamFrame err _ _ => inferInstanceAs (Decidable (err = none))
  | .handleResetStreamFrame err _ => inferInstanceAs (Decidable (err = none))
  | .read _ => inferInstanceAs (Decidable True)
  | .cancelRead _ _ => inferInstanceAs (Decidable True)

/-- The bytes a call hands to the application. -/
def Output.readData : Output Cb → List UInt8
  | .read out => out.data
  | _ => []

@[simp] theorem Output.readData_read (out : ReadOut Cb) : (Output.read out).readData = out.data :=
  rfl

/-- The call is a `Read` that returned `io.EOF`. -/
def Output.IsEOF : Output Cb → Prop
  | .read out => out.result = .eof
  | _ => False

/-! ## What each function does -/

section Spec

variable (s : ReceiveStream Cb)

/-- `isNewlyCompleted` completes a stream that is not completed, whose final offset is known,
and that was cancelled locally or whose error was read. -/
theorem isNewlyCompleted_snd :
    s.isNewlyCompleted.2 = (!s.completed && decide (s.finalOffset ≠ MaxByteCount) &&
      (s.cancelledLocally || s.errorRead)) := by
  unfold isNewlyCompleted
  split_ifs <;> simp_all

/-- `isNewlyCompleted` changes nothing but the `completed` flag. -/
theorem isNewlyCompleted_fst :
    s.isNewlyCompleted.1 = { s with completed := s.completed || s.isNewlyCompleted.2 } := by
  cases s
  unfold isNewlyCompleted
  split_ifs <;> simp_all

/-- The stream completes now exactly when it is not completed, its final offset is known, and
it was cancelled locally or its error was read. -/
theorem isNewlyCompleted_snd_eq_true :
    s.isNewlyCompleted.2 = true ↔ s.completed = false ∧ s.finalOffset ≠ MaxByteCount ∧
      (s.cancelledLocally = true ∨ s.errorRead = true) := by
  rw [isNewlyCompleted_snd]
  simp [and_assoc]

/-- A stream that does not complete now is left as it is. -/
theorem isNewlyCompleted_of_snd (h : s.isNewlyCompleted.2 = false) : s.isNewlyCompleted.1 = s := by
  rw [isNewlyCompleted_fst, h, Bool.or_false]

@[simp] theorem abandon_flowController :
    s.abandon.flowController =
      { s.flowController with bytesRead := s.flowController.highestReceived } := by
  simp [abandon]

/-- `abandon` forwards to the connection exactly the bytes the stream had not read. -/
@[simp] theorem abandon_connection :
    s.abandon.connection = { s.connection with
      bytesRead := s.connection.bytesRead +
        (s.flowController.highestReceived - s.flowController.bytesRead) } := by
  simp only [abandon]
  exact congrArg ConnectionFlowController.mk
    (StreamFlowController.Abandon_conn s.flowController s.connection)

@[simp] theorem abandon_cancelledLocally : s.abandon.cancelledLocally = s.cancelledLocally := rfl

@[simp] theorem abandon_cancelledRemotely :
    s.abandon.cancelledRemotely = s.cancelledRemotely := rfl

@[simp] theorem abandon_completed : s.abandon.completed = s.completed := rfl

@[simp] theorem abandon_finalOffset : s.abandon.finalOffset = s.finalOffset := rfl

@[simp] theorem abandon_errorRead : s.abandon.errorRead = s.errorRead := rfl

/-- `updateHighestReceived` changes the two flow controllers only. -/
theorem updateHighestReceived_eq (offset : ℕ) (final : Bool) :
    s.updateHighestReceived offset final =
      ({ s with
        flowController := (s.flowController.UpdateHighestReceived s.connection offset final).1,
        connection := (s.flowController.UpdateHighestReceived s.connection offset final).2.1 },
       (s.flowController.UpdateHighestReceived s.connection offset final).2.2) := rfl

/-- Once the final offset is known, an offset the flow controller accepts changes nothing. -/
theorem updateHighestReceived_of_final (hf : s.flowController.receivedFinalOffset = true)
    (offset : ℕ) (final : Bool) : (s.updateHighestReceived offset final).1 = s := by
  rw [updateHighestReceived_eq, (StreamFlowController.UpdateHighestReceived_of_final hf).1,
    (StreamFlowController.UpdateHighestReceived_of_final hf).2]

/-- An offset the flow controller accepts is at most its highest received offset. -/
theorem updateHighestReceived_highestReceived {offset : ℕ} {final : Bool}
    (h : (s.updateHighestReceived offset final).2 = none) :
    offset ≤ (s.updateHighestReceived offset final).1.flowController.highestReceived :=
  (StreamFlowController.UpdateHighestReceived_le h).1

/-- A final offset the flow controller accepts is its highest received offset from then on. -/
theorem updateHighestReceived_final {offset : ℕ}
    (h : (s.updateHighestReceived offset true).2 = none) :
    (s.updateHighestReceived offset true).1.flowController.highestReceived = offset ∧
      (s.updateHighestReceived offset true).1.flowController.receivedFinalOffset = true :=
  StreamFlowController.UpdateHighestReceived_final h

/-- `abandon` leaves every field but the two flow controllers. -/
theorem abandon_eq :
    s.abandon = { s with
      flowController := s.abandon.flowController, connection := s.abandon.connection } := rfl

/-- What `dequeueNextFrame` does: `Pop` the sorter and make its frame the current one. -/
theorem dequeueNextFrame_eq_some {s' : ReceiveStream Cb} {released : List Cb}
    (h : s.dequeueNextFrame = some (s', released)) :
    ∃ r, s.frameQueue.Pop = some r ∧ released = s.currentFrameDone.toList ∧
      s' = { s with
        frameQueue := r.sorter, currentFrame := r.data, currentFrameDone := r.doneCb,
        currentFrameIsLast := decide (s.finalOffset ≤ r.offset + (r.data.getD []).length),
        readPosInFrame := 0 } := by
  obtain ⟨r, hr, h⟩ := Option.map_eq_some_iff.mp h
  simp only [Prod.mk.injEq] at h
  exact ⟨r, hr, h.2.symm, h.1.symm⟩

/-- `copyCurrentFrame` copies the start of the rest of the frame. -/
@[simp] theorem copyCurrentFrame_chunk (room : ℕ) :
    (s.copyCurrentFrame room).2.1 = s.remainder.take room := by
  unfold copyCurrentFrame
  dsimp only
  split <;> rfl

/-- What `copyCurrentFrame` leaves: the cursor moves past the bytes copied, which the flow
controllers count unless the stream was reset. -/
theorem copyCurrentFrame_fst (room : ℕ) :
    (s.copyCurrentFrame room).1 =
      { s with
        readPosInFrame := s.readPosInFrame + (s.remainder.take room).length,
        flowController := if s.cancelledRemotely then s.flowController else
          { s.flowController with
            bytesRead := s.flowController.bytesRead + (s.remainder.take room).length },
        connection := if s.cancelledRemotely then s.connection else
          { s.connection with
            bytesRead := s.connection.bytesRead + (s.remainder.take room).length },
        queuedMaxStreamData := s.queuedMaxStreamData ||
          (!s.cancelledRemotely && (s.flowController.AddBytesRead s.connection
            (s.remainder.take room).length).2.2.1) } := by
  unfold copyCurrentFrame remainder
  cases s.cancelledRemotely <;> simp

/-- What `handleStreamFrameImpl` does when it returns no error: the flow controller accepts the
frame's end, a FIN records the final offset, and the sorter takes the frame unless the stream
was cancelled locally. -/
theorem handleStreamFrameImpl_eq_some {frame : StreamFrame Cb} {s' : ReceiveStream Cb}
    {released : List Cb} (h : s.handleStreamFrameImpl frame = some (s', none, released)) :
    ∃ s₁, s.updateHighestReceived (frame.Offset + frame.Data.length) frame.Fin = (s₁, none) ∧
      ((s₁.cancelledLocally = true ∧ released = [] ∧
          s' = { s₁ with
            finalOffset := if frame.Fin then frame.Offset + frame.Data.length else s₁.finalOffset }) ∨
        (s₁.cancelledLocally = false ∧ ∃ r, s₁.frameQueue.Push frame.Data frame.Offset
          (some frame.PutBack) = some r ∧ r.err = none ∧ released = r.released ∧
          s' = { s₁ with
            finalOffset := if frame.Fin then frame.Offset + frame.Data.length else s₁.finalOffset,
            frameQueue := r.sorter })) := by
  unfold handleStreamFrameImpl at h
  rcases hu : s.updateHighestReceived (frame.Offset + frame.Data.length) frame.Fin with
    ⟨s₁, _ | e⟩
  · refine ⟨s₁, rfl, ?_⟩
    simp only [hu] at h
    -- the final offset first, then the local cancellation decides the branch
    cases hfin : frame.Fin <;> simp only [hfin, Bool.false_eq_true, if_true, if_false] at h ⊢ <;>
      split at h
    all_goals rename_i hcl
    · cases h
      exact .inl ⟨hcl, rfl, rfl⟩
    · obtain ⟨r, hr, h⟩ := Option.map_eq_some_iff.mp h
      simp only [Prod.mk.injEq, Option.map_eq_none_iff] at h
      obtain ⟨rfl, herr, rfl⟩ := h
      exact .inr ⟨by simpa using hcl, r, hr, herr, rfl, rfl⟩
    · cases h
      exact .inl ⟨hcl, rfl, rfl⟩
    · obtain ⟨r, hr, h⟩ := Option.map_eq_some_iff.mp h
      simp only [Prod.mk.injEq, Option.map_eq_none_iff] at h
      obtain ⟨rfl, herr, rfl⟩ := h
      exact .inr ⟨by simpa using hcl, r, hr, herr, rfl, rfl⟩
  · simp [hu] at h

/-- What `handleStreamFrame` does: the frame, then the completion check, which abandons a
completed stream. -/
theorem handleStreamFrame_eq_some {frame : StreamFrame Cb} {s' : ReceiveStream Cb}
    {err : Option FrameError} {released : List Cb} {completed : Bool}
    (h : s.handleStreamFrame frame = some (s', err, released, completed)) :
    ∃ s₁, s.handleStreamFrameImpl frame = some (s₁, err, released) ∧
      completed = s₁.isNewlyCompleted.2 ∧
      s' = if s₁.isNewlyCompleted.2 then s₁.isNewlyCompleted.1.abandon
        else s₁.isNewlyCompleted.1 := by
  obtain ⟨⟨s₁, err₁, rel₁⟩, hi, h⟩ := Option.map_eq_some_iff.mp h
  simp only [Prod.mk.injEq] at h
  obtain ⟨rfl, rfl, rfl, rfl⟩ := h
  exact ⟨s₁, hi, rfl, rfl⟩

/-- What `handleResetStreamFrameImpl` does when it returns no error: the flow controller
accepts the final size, which becomes the final offset; the first RESET_STREAM abandons the
stream and, unless it was cancelled locally, saves the error. -/
theorem handleResetStreamFrameImpl_eq {frame : ResetStreamFrame}
    (h : (s.handleResetStreamFrameImpl frame).2 = none) :
    ∃ s₁, s.updateHighestReceived frame.FinalSize true = (s₁, none) ∧
      (s.handleResetStreamFrameImpl frame).1 =
        if s₁.cancelledRemotely then { s₁ with finalOffset := frame.FinalSize }
        else if { s₁ with finalOffset := frame.FinalSize }.abandon.cancelledLocally then
          { s₁ with finalOffset := frame.FinalSize }.abandon
        else { { s₁ with finalOffset := frame.FinalSize }.abandon with
          cancelledRemotely := true, cancelErr := some ⟨s₁.streamID, frame.ErrorCode, true⟩ } := by
  unfold handleResetStreamFrameImpl at h ⊢
  dsimp only at h ⊢
  rcases hu : s.updateHighestReceived frame.FinalSize true with ⟨s₁, _ | e⟩
  · refine ⟨s₁, rfl, ?_⟩
    dsimp only
    split_ifs <;> rfl
  · rw [hu] at h
    cases h

end Spec

end ReceiveStream

end QuicGo
