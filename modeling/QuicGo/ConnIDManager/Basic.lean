import Mathlib.Data.List.AList
import QuicGo.Protocol
import QuicGo.Lib.Run

/-!
# QuicGo — the connection IDs of the peer (`conn_id_manager.go`)

The `connIDManager` of a connection holds the connection IDs that the peer issued in
NEW_CONNECTION_ID frames: the active one, which packets are sent with; a queue of spare ones,
ordered by sequence number; and one for each path being probed. It retires connection IDs by
queueing RETIRE_CONNECTION_ID frames: when the peer asks for it (`RetirePriorTo`), when it
changes the active connection ID, and when a path is abandoned. It registers the stateless
reset token of every connection ID it uses with the packet handler, and removes it again.

The callbacks `addStatelessResetToken`, `removeStatelessResetToken` and `queueControlFrame`
are the manager's effects on the rest of the connection: each function returns them, in the
order it makes them, as a list of `Event`s. The number `rand.Int31n` draws for the next
rotation is the argument `draw` of the calls that may rotate. Go's map `pathProbing` is an
`AList`, iterated in its own order (Go iterates a map in a random order; nothing below depends
on it), and the map that Go creates lazily is the empty `AList` from the start. A panic
(`assertNotClosed`, the empty queue in `updateConnectionID`, the sequence-number checks of
`ChangeInitialConnID` and `SetStatelessResetToken`) is `none`.
-/

namespace QuicGo

namespace Wire

/-- `wire.NewConnectionIDFrame`. -/
structure NewConnectionIDFrame where
  SequenceNumber : ℕ
  RetirePriorTo : ℕ
  ConnectionID : ConnectionID
  StatelessResetToken : StatelessResetToken
  deriving DecidableEq, Repr

/-- The checks of `parseNewConnectionIDFrame` on the frames it returns: `RetirePriorTo` is at
most the sequence number, and the connection ID is not empty (`ParseConnectionID` bounds its
length by `MaxConnIDLen`, which `ConnectionID` carries). -/
def NewConnectionIDFrame.Parsed (f : NewConnectionIDFrame) : Prop :=
  f.RetirePriorTo ≤ f.SequenceNumber ∧ 0 < f.ConnectionID.Len

instance : DecidablePred NewConnectionIDFrame.Parsed :=
  fun f => inferInstanceAs (Decidable (f.RetirePriorTo ≤ f.SequenceNumber ∧ 0 < f.ConnectionID.Len))

/-- `wire.RetireConnectionIDFrame`. -/
structure RetireConnectionIDFrame where
  SequenceNumber : ℕ
  deriving DecidableEq, Repr

end Wire

open Wire

/-- `newConnID`: a connection ID of the peer, with its sequence number and its stateless reset
token. -/
structure NewConnID where
  SequenceNumber : ℕ
  ConnectionID : ConnectionID
  StatelessResetToken : StatelessResetToken
  deriving DecidableEq, Repr

/-- The calls the manager makes to its callbacks. -/
inductive Event
  | addStatelessResetToken (token : StatelessResetToken)
  | removeStatelessResetToken (token : StatelessResetToken)
  | queueControlFrame (frame : RetireConnectionIDFrame)
  deriving DecidableEq, Repr

/-- `connIDManager`, without its callbacks (the `Event`s) and its random source (the `draw`
arguments). -/
structure ConnIDManager where
  queue : List NewConnID
  highestProbingID : ℕ
  pathProbing : AList (fun _ : ℤ => NewConnID)
  handshakeComplete : Bool
  activeSequenceNumber : ℕ
  highestRetired : ℕ
  activeConnectionID : ConnectionID
  activeStatelessResetToken : Option StatelessResetToken
  packetsSinceLastChange : UInt32
  packetsPerConnectionID : UInt32
  closed : Bool
  deriving DecidableEq

/-- `newConnIDManager`. -/
def newConnIDManager (initialDestConnID : ConnectionID) : ConnIDManager where
  queue := []
  highestProbingID := 0
  pathProbing := ∅
  handshakeComplete := false
  activeSequenceNumber := 0
  highestRetired := 0
  activeConnectionID := initialDestConnID
  activeStatelessResetToken := none
  packetsSinceLastChange := 0
  packetsPerConnectionID := 0
  closed := false

/-- The errors of `Add`: a `qerr.TransportError`, or the text of an `fmt.Errorf`. -/
inductive Error
  | transportError (e : TransportError)
  | errorf (msg : String)
  deriving DecidableEq, Repr

namespace ConnIDManager

/-! ## Adding a connection ID to the queue -/

/-- The loop of the slow path of `addConnectionID`: an entry with the sequence number is
checked against the new connection ID, or the new one is inserted before the first entry above
it. Running off the end is the loop's `unreachable` return. -/
def insertConnID (seq : ℕ) (connID : ConnectionID) (resetToken : StatelessResetToken) :
    List NewConnID → List NewConnID × Option Error
  | [] => ([], none)
  | entry :: queue =>
    if entry.SequenceNumber = seq then
      if entry.ConnectionID ≠ connID then
        (entry :: queue, some (.errorf
          ("received conflicting connection IDs for sequence number " ++ toString seq)))
      else if entry.StatelessResetToken ≠ resetToken then
        (entry :: queue, some (.errorf
          ("received conflicting stateless reset tokens for sequence number " ++ toString seq)))
      else (entry :: queue, none)
    else if entry.SequenceNumber > seq then
      (⟨seq, connID, resetToken⟩ :: entry :: queue, none)
    else
      let res := insertConnID seq connID resetToken queue
      (entry :: res.1, res.2)

/-- `connIDManager.addConnectionID`: appended when the queue is empty or its last entry is
below `seq` (the fast path), inserted in order otherwise. -/
def addConnectionID (h : ConnIDManager) (seq : ℕ) (connID : ConnectionID)
    (resetToken : StatelessResetToken) : ConnIDManager × Option Error :=
  if h.queue.getLast?.all (fun last => decide (last.SequenceNumber < seq)) then
    ({ h with queue := h.queue ++ [⟨seq, connID, resetToken⟩] }, none)
  else
    let res := insertConnID seq connID resetToken h.queue
    ({ h with queue := res.1 }, res.2)

/-! ## Changing the active connection ID -/

/-- `connIDManager.updateConnectionID`: retire the active connection ID and take the first one
of the queue, for a number of packets `PacketsPerConnectionID / 2 + draw`. -/
def updateConnectionID (h : ConnIDManager) (draw : Fin PacketsPerConnectionID) :
    Option (ConnIDManager × List Event) :=
  if h.closed then none
  else
    match h.queue with
    | [] => none
    | front :: queue =>
      some ({ h with
          queue := queue
          highestRetired := max h.highestRetired h.activeSequenceNumber
          activeSequenceNumber := front.SequenceNumber
          activeConnectionID := front.ConnectionID
          activeStatelessResetToken := some front.StatelessResetToken
          packetsSinceLastChange := 0
          packetsPerConnectionID := UInt32.ofNat (PacketsPerConnectionID / 2 + draw.val) },
        .queueControlFrame ⟨h.activeSequenceNumber⟩ ::
          (h.activeStatelessResetToken.toList.map .removeStatelessResetToken ++
            [.addStatelessResetToken front.StatelessResetToken]))

/-! ## `Add`: a NEW_CONNECTION_ID frame -/

/-- The loop of `add` over `pathProbing`: the paths whose connection ID is below
`RetirePriorTo` are deleted, each with a RETIRE_CONNECTION_ID frame and the removal of its
token. -/
def retirePaths (retirePriorTo : ℕ) :
    List (Σ _ : ℤ, NewConnID) → List (Σ _ : ℤ, NewConnID) × List Event
  | [] => ([], [])
  | ⟨id, entry⟩ :: rest =>
    let res := retirePaths retirePriorTo rest
    if entry.SequenceNumber < retirePriorTo then
      (res.1, .queueControlFrame ⟨entry.SequenceNumber⟩ ::
        .removeStatelessResetToken entry.StatelessResetToken :: res.2)
    else (⟨id, entry⟩ :: res.1, res.2)

theorem retirePaths_sublist (retirePriorTo : ℕ) (l : List (Σ _ : ℤ, NewConnID)) :
    (retirePaths retirePriorTo l).1.Sublist l := by
  induction l with
  | nil => simp [retirePaths]
  | cons e rest ih =>
    obtain ⟨id, entry⟩ := e
    simp only [retirePaths]
    split
    · exact ih.cons _
    · exact ih.cons_cons _

/-- The paths of `add` for `RetirePriorTo ≠ 0`. -/
def retirePathProbing (h : ConnIDManager) (retirePriorTo : ℕ) : ConnIDManager × List Event :=
  if retirePriorTo ≠ 0 then
    let res := retirePaths retirePriorTo h.pathProbing.entries
    ({ h with pathProbing := ⟨res.1, h.pathProbing.nodupKeys.sublist (retirePaths_sublist _ _)⟩ },
      res.2)
  else (h, [])

/-- The loop of `add` over the queue: the entries below `RetirePriorTo` are dropped, each with a
RETIRE_CONNECTION_ID frame. -/
def retireQueue (retirePriorTo : ℕ) : List NewConnID → List NewConnID × List Event
  | [] => ([], [])
  | entry :: rest =>
    let res := retireQueue retirePriorTo rest
    if entry.SequenceNumber ≥ retirePriorTo then (entry :: res.1, res.2)
    else (res.1, .queueControlFrame ⟨entry.SequenceNumber⟩ :: res.2)

/-- The queue of `add` for `RetirePriorTo > highestRetired`; the active connection ID is not
retired here. -/
def retireQueued (h : ConnIDManager) (retirePriorTo : ℕ) : ConnIDManager × List Event :=
  if retirePriorTo > h.highestRetired then
    let res := retireQueue retirePriorTo h.queue
    ({ h with queue := res.1, highestRetired := retirePriorTo }, res.2)
  else (h, [])

/-- `connIDManager.add`. A frame below the active or the last probing sequence number, or below
`highestRetired`, was reordered or is of a retired connection ID: it is retired at once. -/
def add (h : ConnIDManager) (f : NewConnectionIDFrame) (draw : Fin PacketsPerConnectionID) :
    Option (ConnIDManager × List Event × Option Error) :=
  if h.activeConnectionID.Len = 0 then
    some (h, [], some (.transportError ⟨.ProtocolViolation,
      "received NEW_CONNECTION_ID frame but zero-length connection IDs are in use"⟩))
  else if f.SequenceNumber < max h.activeSequenceNumber h.highestProbingID ∨
      f.SequenceNumber < h.highestRetired then
    some (h, [.queueControlFrame ⟨f.SequenceNumber⟩], none)
  else
    let r₁ := h.retirePathProbing f.RetirePriorTo
    let r₂ := r₁.1.retireQueued f.RetirePriorTo
    if f.SequenceNumber = r₂.1.activeSequenceNumber then some (r₂.1, r₁.2 ++ r₂.2, none)
    else
      let r₃ := r₂.1.addConnectionID f.SequenceNumber f.ConnectionID f.StatelessResetToken
      match r₃.2 with
      | some err => some (r₃.1, r₁.2 ++ r₂.2, some err)
      | none =>
        -- retire the active connection ID, if necessary
        if r₃.1.activeSequenceNumber < f.RetirePriorTo then
          (r₃.1.updateConnectionID draw).map fun r₄ => (r₄.1, r₁.2 ++ r₂.2 ++ r₄.2, none)
        else some (r₃.1, r₁.2 ++ r₂.2, none)

/-- `connIDManager.Add`: `add`, and a `ConnectionIDLimitError` when the queue is full
afterwards. -/
def Add (h : ConnIDManager) (f : NewConnectionIDFrame) (draw : Fin PacketsPerConnectionID) :
    Option (ConnIDManager × List Event × Option Error) :=
  match h.add f draw with
  | none => none
  | some (h', events, some err) => some (h', events, some err)
  | some (h', events, none) =>
    if h'.queue.length ≥ MaxActiveConnectionIDs then
      some (h', events, some (.transportError ⟨.ConnectionIDLimitError, ""⟩))
    else some (h', events, none)

/-- `connIDManager.AddFromPreferredAddress`: the connection ID of the server's preferred
address has sequence number 1. -/
def AddFromPreferredAddress (h : ConnIDManager) (connID : ConnectionID)
    (resetToken : StatelessResetToken) : ConnIDManager × Option Error :=
  h.addConnectionID 1 connID resetToken

/-! ## The other calls -/

/-- `connIDManager.Close`: remove the tokens of the active connection ID and of the paths. -/
def Close (h : ConnIDManager) : ConnIDManager × List Event :=
  ({ h with closed := true },
    h.activeStatelessResetToken.toList.map .removeStatelessResetToken ++
      h.pathProbing.entries.map fun entry => .removeStatelessResetToken entry.2.StatelessResetToken)

/-- `connIDManager.ChangeInitialConnID`, after a Retry or a new connection ID in the server's
first Initial. -/
def ChangeInitialConnID (h : ConnIDManager) (newConnID : ConnectionID) : Option ConnIDManager :=
  if h.activeSequenceNumber ≠ 0 then none
  else some { h with activeConnectionID := newConnID }

/-- `connIDManager.SetStatelessResetToken`, with the token of the server's transport
parameters. -/
def SetStatelessResetToken (h : ConnIDManager) (token : StatelessResetToken) :
    Option (ConnIDManager × List Event) :=
  if h.closed then none
  else if h.activeSequenceNumber ≠ 0 then none
  else some ({ h with activeStatelessResetToken := some token }, [.addStatelessResetToken token])

/-- `connIDManager.SentPacket`. -/
def SentPacket (h : ConnIDManager) : ConnIDManager :=
  { h with packetsSinceLastChange := h.packetsSinceLastChange + 1 }

/-- `connIDManager.shouldUpdateConnID`: after the handshake, the first change as early as
possible, later ones when the queue is at least half full and enough packets were sent. -/
def shouldUpdateConnID (h : ConnIDManager) : Bool :=
  if !h.handshakeComplete then false
  else if h.queue.length > 0 ∧ h.activeSequenceNumber = 0 then true
  else decide (2 * h.queue.length ≥ MaxActiveConnectionIDs) &&
    decide (h.packetsSinceLastChange ≥ h.packetsPerConnectionID)

/-- `connIDManager.Get`. -/
def Get (h : ConnIDManager) (draw : Fin PacketsPerConnectionID) :
    Option (ConnIDManager × List Event × ConnectionID) :=
  if h.closed then none
  else if h.shouldUpdateConnID then
    (h.updateConnectionID draw).map fun r => (r.1, r.2, r.1.activeConnectionID)
  else some (h, [], h.activeConnectionID)

/-- `connIDManager.SetHandshakeComplete`. -/
def SetHandshakeComplete (h : ConnIDManager) : ConnIDManager :=
  { h with handshakeComplete := true }

/-- `connIDManager.GetConnIDForPath`: the connection ID of a path, taken from the front of the
queue the first time; `false` when the queue is empty. -/
def GetConnIDForPath (h : ConnIDManager) (id : ℤ) :
    Option (ConnIDManager × List Event × ConnectionID × Bool) :=
  if h.closed then none
  else if h.activeConnectionID.Len = 0 then some (h, [], ConnectionID.empty, true)
  else
    match h.pathProbing.lookup id with
    | some entry => some (h, [], entry.ConnectionID, true)
    | none =>
      match h.queue with
      | [] => some (h, [], ConnectionID.empty, false)
      | front :: queue =>
        some ({ h with
            queue := queue
            pathProbing := h.pathProbing.insert id front
            highestProbingID := front.SequenceNumber },
          [.addStatelessResetToken front.StatelessResetToken], front.ConnectionID, true)

/-- `connIDManager.RetireConnIDForPath`. -/
def RetireConnIDForPath (h : ConnIDManager) (pathID : ℤ) : Option (ConnIDManager × List Event) :=
  if h.closed then none
  else if h.activeConnectionID.Len = 0 then some (h, [])
  else
    match h.pathProbing.lookup pathID with
    | none => some (h, [])
    | some entry =>
      some ({ h with pathProbing := h.pathProbing.erase pathID },
        [.queueControlFrame ⟨entry.SequenceNumber⟩,
          .removeStatelessResetToken entry.StatelessResetToken])

/-- `connIDManager.IsActiveStatelessResetToken`. -/
def IsActiveStatelessResetToken (h : ConnIDManager) (token : StatelessResetToken) : Bool :=
  h.activeStatelessResetToken = some token ||
    h.pathProbing.entries.any fun entry => entry.2.StatelessResetToken = token

/-! ## The manager as a machine -/

/-- The calls of the connection to its manager. -/
inductive Call
  | AddFromPreferredAddress (connID : ConnectionID) (resetToken : StatelessResetToken)
  | Add (f : NewConnectionIDFrame) (draw : Fin PacketsPerConnectionID)
  | Close
  | ChangeInitialConnID (newConnID : ConnectionID)
  | SetStatelessResetToken (token : StatelessResetToken)
  | SentPacket
  | Get (draw : Fin PacketsPerConnectionID)
  | SetHandshakeComplete
  | GetConnIDForPath (id : ℤ)
  | RetireConnIDForPath (pathID : ℤ)
  | IsActiveStatelessResetToken (token : StatelessResetToken)

/-- What a call returns. -/
inductive Result
  | error (err : Option Error)
  | connectionID (connID : ConnectionID)
  | connIDForPath (connID : ConnectionID) (ok : Bool)
  | isActive (b : Bool)
  | unit
  deriving DecidableEq, Repr

/-- A call's return value, and the callbacks it made. -/
structure Output where
  events : List Event
  result : Result
  deriving DecidableEq, Repr

/-- One call to the manager. -/
def step (h : ConnIDManager) : Call → Option (ConnIDManager × Output)
  | .AddFromPreferredAddress connID resetToken =>
    let r := h.AddFromPreferredAddress connID resetToken
    some (r.1, ⟨[], .error r.2⟩)
  | .Add f draw => (h.Add f draw).map fun r => (r.1, ⟨r.2.1, .error r.2.2⟩)
  | .Close => let r := h.Close; some (r.1, ⟨r.2, .unit⟩)
  | .ChangeInitialConnID newConnID =>
    (h.ChangeInitialConnID newConnID).map fun h' => (h', ⟨[], .unit⟩)
  | .SetStatelessResetToken token =>
    (h.SetStatelessResetToken token).map fun r => (r.1, ⟨r.2, .unit⟩)
  | .SentPacket => some (h.SentPacket, ⟨[], .unit⟩)
  | .Get draw => (h.Get draw).map fun r => (r.1, ⟨r.2.1, .connectionID r.2.2⟩)
  | .SetHandshakeComplete => some (h.SetHandshakeComplete, ⟨[], .unit⟩)
  | .GetConnIDForPath id =>
    (h.GetConnIDForPath id).map fun r => (r.1, ⟨r.2.1, .connIDForPath r.2.2.1 r.2.2.2⟩)
  | .RetireConnIDForPath pathID =>
    (h.RetireConnIDForPath pathID).map fun r => (r.1, ⟨r.2, .unit⟩)
  | .IsActiveStatelessResetToken token =>
    some (h, ⟨[], .isActive (h.IsActiveStatelessResetToken token)⟩)

end ConnIDManager

end QuicGo
