import QuicGo.Protocol

/-!
# QuicGo — flow controllers (`internal/flowcontrol`)

A `baseFlowController` counts the bytes sent against the peer's send window and the bytes
received and read against the receive window. A `streamFlowController` embeds one and forwards
what it counts to the `connectionFlowController` that all streams of a connection share: the
increments of its highest received offset, the bytes read, the bytes sent.

The model keeps the counters and windows; the auto-tuning of the receive window (its epoch,
the RTT, the maximum window size) and the logger are left out, since none of the calls
modelled here reads them. A `protocol.ByteCount` is a `ℕ`: every offset and count is
non-negative, and where the code subtracts, the model either compares first, as the code does,
or truncates where the code would go negative and then tests `> 0`.

The bricks:

* `UpdateHighestReceived_of_final` — once the final offset is known, `UpdateHighestReceived`
  changes neither the stream nor the connection, whatever it returns;
* `UpdateHighestReceived_eq_none` — a call that returns no error either leaves the counters
  alone or raises the highest received offset of the stream, within its window, and that of
  the connection by the same increment, within its window.
-/

namespace QuicGo

namespace FlowControl

/-- `baseFlowController`, without the auto-tuning state. -/
structure BaseFlowController where
  bytesSent : ℕ
  sendWindow : ℕ
  lastBlockedAt : ℕ
  bytesRead : ℕ
  highestReceived : ℕ
  receiveWindow : ℕ
  receiveWindowSize : ℕ
  deriving DecidableEq, Repr

namespace BaseFlowController

/-- `baseFlowController.SendWindowSize`. -/
def SendWindowSize (c : BaseFlowController) : ℕ :=
  if c.bytesSent > c.sendWindow then 0 else c.sendWindow - c.bytesSent

/-- `baseFlowController.IsNewlyBlocked`. -/
def IsNewlyBlocked (c : BaseFlowController) : BaseFlowController × Bool × ℕ :=
  if c.SendWindowSize ≠ 0 ∨ c.sendWindow = c.lastBlockedAt then (c, false, 0)
  else ({ c with lastBlockedAt := c.sendWindow }, true, c.sendWindow)

/-- `baseFlowController.AddBytesSent`. -/
def AddBytesSent (c : BaseFlowController) (n : ℕ) : BaseFlowController :=
  { c with bytesSent := c.bytesSent + n }

/-- `baseFlowController.UpdateSendWindow`. -/
def UpdateSendWindow (c : BaseFlowController) (offset : ℕ) : BaseFlowController × Bool :=
  if offset > c.sendWindow then ({ c with sendWindow := offset }, true) else (c, false)

/-- `baseFlowController.addBytesRead`. -/
def addBytesRead (c : BaseFlowController) (n : ℕ) : BaseFlowController :=
  { c with bytesRead := c.bytesRead + n }

/-- `baseFlowController.hasWindowUpdate`: more than `WindowUpdateThreshold = 0.25` of the
window size was consumed. The code computes the threshold as
`ByteCount(float64(receiveWindowSize) * 0.75)`, which is `receiveWindowSize * 3 / 4` for every
window size below `2 ^ 51`. -/
def hasWindowUpdate (c : BaseFlowController) : Bool :=
  decide (c.receiveWindow - c.bytesRead ≤ c.receiveWindowSize * 3 / 4)

/-- `baseFlowController.checkFlowControlViolation`. -/
def checkFlowControlViolation (c : BaseFlowController) : Bool :=
  decide (c.highestReceived > c.receiveWindow)

end BaseFlowController

/-- `connectionFlowController`. -/
structure ConnectionFlowController extends BaseFlowController
  deriving DecidableEq, Repr

/-- `streamFlowController`; its `connection` is the one the system of flow controllers holds. -/
structure StreamFlowController extends BaseFlowController where
  streamID : ℕ
  receivedFinalOffset : Bool
  deriving DecidableEq, Repr

/-- `NewConnectionFlowController`: it starts with a send window of 0. -/
def NewConnectionFlowController (receiveWindow : ℕ) : ConnectionFlowController :=
  ⟨⟨0, 0, 0, 0, 0, receiveWindow, receiveWindow⟩⟩

/-- `NewStreamFlowController`. -/
def NewStreamFlowController (streamID receiveWindow initialSendWindow : ℕ) :
    StreamFlowController :=
  ⟨⟨0, initialSendWindow, 0, 0, 0, receiveWindow, receiveWindow⟩, streamID, false⟩

namespace ConnectionFlowController

/-- `connectionFlowController.IncrementHighestReceived`. -/
def IncrementHighestReceived (c : ConnectionFlowController) (increment : ℕ) :
    ConnectionFlowController × Option TransportError :=
  let c : ConnectionFlowController :=
    { c with highestReceived := c.highestReceived + increment }
  if c.checkFlowControlViolation then
    (c, some ⟨.FlowControlError, "received " ++ toString c.highestReceived ++
      " bytes for the connection, allowed " ++ toString c.receiveWindow ++ " bytes"⟩)
  else (c, none)

/-- `connectionFlowController.AddBytesRead`: the new state, and whether the window should be
updated. -/
def AddBytesRead (c : ConnectionFlowController) (n : ℕ) : ConnectionFlowController × Bool :=
  let c : ConnectionFlowController := ⟨c.addBytesRead n⟩
  (c, c.hasWindowUpdate)

@[simp] theorem IncrementHighestReceived_fst (c : ConnectionFlowController) (increment : ℕ) :
    (c.IncrementHighestReceived increment).1 =
      { c with highestReceived := c.highestReceived + increment } := by
  unfold IncrementHighestReceived
  dsimp only
  split <;> rfl

/-- The connection returns no error exactly when the increment stays within its window. -/
theorem IncrementHighestReceived_snd_eq_none (c : ConnectionFlowController) (increment : ℕ) :
    (c.IncrementHighestReceived increment).2 = none ↔
      c.highestReceived + increment ≤ c.receiveWindow := by
  unfold IncrementHighestReceived BaseFlowController.checkFlowControlViolation
  dsimp only
  split <;> simp_all

@[simp] theorem AddBytesRead_fst (c : ConnectionFlowController) (n : ℕ) :
    (c.AddBytesRead n).1 = { c with bytesRead := c.bytesRead + n } := rfl

end ConnectionFlowController

namespace StreamFlowController

/-- `streamFlowController.UpdateHighestReceived`, with the connection it forwards to: the
final-size checks first, then the flow-control check of the stream, then the increment goes
to the connection. -/
def UpdateHighestReceived (c : StreamFlowController) (conn : ConnectionFlowController)
    (offset : ℕ) (final : Bool) :
    StreamFlowController × ConnectionFlowController × Option TransportError :=
  -- the final offset for this stream is already known: check for consistency
  if c.receivedFinalOffset && final && offset != c.highestReceived then
    (c, conn, some ⟨.FinalSizeError, "received inconsistent final offset for stream " ++
      toString c.streamID ++ " (old: " ++ toString c.highestReceived ++ ", new: " ++
      toString offset ++ " bytes)"⟩)
  else if c.receivedFinalOffset && decide (offset > c.highestReceived) then
    (c, conn, some ⟨.FinalSizeError, "received offset " ++ toString offset ++ " for stream " ++
      toString c.streamID ++ ", but final offset was already received at " ++
      toString c.highestReceived⟩)
  else
    let c := if final then { c with receivedFinalOffset := true } else c
    if offset = c.highestReceived then (c, conn, none)
    -- a higher offset was received before: reordering
    else if offset < c.highestReceived then
      if final then
        (c, conn, some ⟨.FinalSizeError, "received final offset " ++ toString offset ++
          " for stream " ++ toString c.streamID ++ ", but already received offset " ++
          toString c.highestReceived ++ " before"⟩)
      else (c, conn, none)
    else
      let increment := offset - c.highestReceived
      let c := { c with highestReceived := offset }
      if c.checkFlowControlViolation then
        (c, conn, some ⟨.FlowControlError, "received " ++ toString offset ++ " bytes on stream " ++
          toString c.streamID ++ ", allowed " ++ toString c.receiveWindow ++ " bytes"⟩)
      else
        let r := conn.IncrementHighestReceived increment
        (c, r.1, r.2)

/-- `streamFlowController.shouldQueueWindowUpdate`. -/
def shouldQueueWindowUpdate (c : StreamFlowController) : Bool :=
  !c.receivedFinalOffset && c.hasWindowUpdate

/-- `streamFlowController.AddBytesRead`: both flow controllers count the bytes; it returns
whether the stream and the connection should update their windows. -/
def AddBytesRead (c : StreamFlowController) (conn : ConnectionFlowController) (n : ℕ) :
    StreamFlowController × ConnectionFlowController × Bool × Bool :=
  let c := { c with toBaseFlowController := c.addBytesRead n }
  let hasStreamWindowUpdate := c.shouldQueueWindowUpdate
  let r := conn.AddBytesRead n
  (c, r.1, hasStreamWindowUpdate, r.2)

/-- `streamFlowController.Abandon`: the bytes received but never read are counted as read, at
the stream and at the connection. -/
def Abandon (c : StreamFlowController) (conn : ConnectionFlowController) :
    StreamFlowController × ConnectionFlowController :=
  let unread := c.highestReceived - c.bytesRead
  let c := { c with bytesRead := c.highestReceived }
  if unread > 0 then (c, (conn.AddBytesRead unread).1) else (c, conn)

/-- `streamFlowController.AddBytesSent`. -/
def AddBytesSent (c : StreamFlowController) (conn : ConnectionFlowController) (n : ℕ) :
    StreamFlowController × ConnectionFlowController :=
  ({ c with toBaseFlowController := c.toBaseFlowController.AddBytesSent n },
    ⟨conn.toBaseFlowController.AddBytesSent n⟩)

/-- `streamFlowController.SendWindowSize`: the smaller of the two windows. -/
def SendWindowSize (c : StreamFlowController) (conn : ConnectionFlowController) : ℕ :=
  min c.toBaseFlowController.SendWindowSize conn.toBaseFlowController.SendWindowSize

/-! ## `UpdateHighestReceived` -/

variable {c : StreamFlowController} {conn : ConnectionFlowController} {offset : ℕ} {final : Bool}

/-- **Once the final offset is known**, `UpdateHighestReceived` leaves both controllers as they
are: an offset past the final one or a different final offset is an error, anything else is
a reordered or repeated frame. -/
theorem UpdateHighestReceived_of_final (hf : c.receivedFinalOffset = true) :
    (c.UpdateHighestReceived conn offset final).1 = c ∧
      (c.UpdateHighestReceived conn offset final).2.1 = conn := by
  -- setting the flag again changes nothing
  have hset : { c with receivedFinalOffset := true } = c := by
    cases c
    simp_all
  unfold UpdateHighestReceived
  simp only [hf, Bool.true_and, hset]
  split_ifs <;> simp_all <;> omega

/-- **A call that returns no error** either leaves the counters alone, at most recording that
the final offset is known, or raises the highest received offset of the stream within its
window and that of the connection by the same increment within its window. -/
theorem UpdateHighestReceived_eq_none
    (h : (c.UpdateHighestReceived conn offset final).2.2 = none) :
    ((c.UpdateHighestReceived conn offset final).1 =
        { c with receivedFinalOffset := c.receivedFinalOffset || final } ∧
      (c.UpdateHighestReceived conn offset final).2.1 = conn) ∨
    (c.receivedFinalOffset = false ∧ c.highestReceived < offset ∧ offset ≤ c.receiveWindow ∧
      conn.highestReceived + (offset - c.highestReceived) ≤ conn.receiveWindow ∧
      (c.UpdateHighestReceived conn offset final).1 =
        { c with highestReceived := offset, receivedFinalOffset := c.receivedFinalOffset || final } ∧
      (c.UpdateHighestReceived conn offset final).2.1 =
        { conn with highestReceived := conn.highestReceived + (offset - c.highestReceived) }) := by
  obtain ⟨⟨bs, sw, lb, br, hr, rw, rws⟩, id, rfo⟩ := c
  unfold UpdateHighestReceived BaseFlowController.checkFlowControlViolation at h ⊢
  dsimp only at h ⊢
  -- the branches that return an error are refuted by `h`; those that return early leave the
  -- counters; the last one forwards the increment, which the connection accepted
  split_ifs at h ⊢ <;>
    simp_all [ConnectionFlowController.IncrementHighestReceived_snd_eq_none] <;>
    cases rfo <;> simp_all <;> omega

/-- A call that returns no error leaves the highest received offset at or above the offset,
and never lowers it. -/
theorem UpdateHighestReceived_le
    (h : (c.UpdateHighestReceived conn offset final).2.2 = none) :
    offset ≤ (c.UpdateHighestReceived conn offset final).1.highestReceived ∧
      c.highestReceived ≤ (c.UpdateHighestReceived conn offset final).1.highestReceived := by
  obtain ⟨⟨bs, sw, lb, br, hr, rw, rws⟩, id, rfo⟩ := c
  unfold UpdateHighestReceived BaseFlowController.checkFlowControlViolation at h ⊢
  dsimp only at h ⊢
  split_ifs at h ⊢ <;> (simp_all; try omega)

/-- A final offset that returns no error is the highest received offset from then on. -/
theorem UpdateHighestReceived_final
    (h : (c.UpdateHighestReceived conn offset true).2.2 = none) :
    (c.UpdateHighestReceived conn offset true).1.highestReceived = offset ∧
      (c.UpdateHighestReceived conn offset true).1.receivedFinalOffset = true := by
  obtain ⟨⟨bs, sw, lb, br, hr, rw, rws⟩, id, rfo⟩ := c
  unfold UpdateHighestReceived BaseFlowController.checkFlowControlViolation at h ⊢
  dsimp only at h ⊢
  split_ifs at h ⊢ <;> simp_all

@[simp] theorem UpdateHighestReceived_bytesRead :
    (c.UpdateHighestReceived conn offset final).1.bytesRead = c.bytesRead := by
  unfold UpdateHighestReceived
  dsimp only
  split_ifs <;> rfl

@[simp] theorem UpdateHighestReceived_conn_bytesRead :
    (c.UpdateHighestReceived conn offset final).2.1.bytesRead = conn.bytesRead := by
  unfold UpdateHighestReceived
  dsimp only
  split_ifs <;> simp

/-! ## `AddBytesRead` and `Abandon` -/

@[simp] theorem AddBytesRead_fst (c : StreamFlowController) (conn : ConnectionFlowController)
    (n : ℕ) : (c.AddBytesRead conn n).1 = { c with bytesRead := c.bytesRead + n } := rfl

@[simp] theorem AddBytesRead_conn (c : StreamFlowController) (conn : ConnectionFlowController)
    (n : ℕ) : (c.AddBytesRead conn n).2.1 = { conn with bytesRead := conn.bytesRead + n } := rfl

@[simp] theorem Abandon_fst (c : StreamFlowController) (conn : ConnectionFlowController) :
    (c.Abandon conn).1 = { c with bytesRead := c.highestReceived } := by
  unfold Abandon
  dsimp only
  split <;> rfl

/-- `Abandon` forwards to the connection exactly the bytes the stream had not read. -/
@[simp] theorem Abandon_conn (c : StreamFlowController) (conn : ConnectionFlowController) :
    (c.Abandon conn).2.1 =
      { conn with bytesRead := conn.bytesRead + (c.highestReceived - c.bytesRead) } := by
  unfold Abandon
  dsimp only
  split
  · rfl
  · -- nothing was unread, and adding nothing leaves the connection as it is
    rename_i h
    rw [Nat.eq_zero_of_not_pos h]
    rfl

end StreamFlowController

end FlowControl

end QuicGo
