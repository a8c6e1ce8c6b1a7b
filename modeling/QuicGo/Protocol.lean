import Mathlib.Tactic.Common
import Mathlib.Data.Int.Notation
import Mathlib.Algebra.Group.Nat.Defs
import Mathlib.Algebra.Group.Int.Defs
import Mathlib.Algebra.GroupWithZero.Nat

/-!
# QuicGo — protocol types and constants

The numeric types and limits of `internal/protocol` that the modelled components read, the
stream IDs and their numbering, connection IDs and stateless reset tokens, and the transport
errors of `internal/qerr`.

`protocol.ByteCount` is an `int64`. Almost every byte count the modelled code stores is an
offset or a length of stream data, and the code only subtracts a smaller count from a larger
one, so byte counts are modelled by `ℕ`. The one negative value, `InvalidByteCount`, is stored
only by the initial crypto stream, whose byte counts are `ℤ`. Packet numbers and stream IDs do
take the value `-1` (`InvalidPacketNumber`, `InvalidStreamID`) and are modelled by `ℤ`. The model writes `ℕ` and
`ℤ` themselves rather than aliases, so that the arithmetic stays visible to `omega`.
-/

namespace QuicGo

/-- `protocol.MaxByteCount`, the maximum value of a `ByteCount` (`1<<62 - 1`). -/
def MaxByteCount : ℕ := 2 ^ 62 - 1

/-- `protocol.InvalidByteCount`. -/
def InvalidByteCount : ℤ := -1

/-- `protocol.MaxStreamFrameSorterGaps`: the maximum number of gaps between received
STREAM frames. -/
def MaxStreamFrameSorterGaps : Nat := 1000

/-- `protocol.MinStreamFrameBufferSize`: the minimum data length of a received STREAM frame
for the frame sorter to keep the frame's own buffer. -/
def MinStreamFrameBufferSize : Nat := 128

/-- `protocol.MaxNumAckRanges`: the maximum number of ACK ranges sent in an ACK frame. -/
def MaxNumAckRanges : Nat := 32

/-- `protocol.MaxConnIDLen`: the maximum length of a connection ID. -/
def MaxConnIDLen : Nat := 20

/-- `protocol.MaxActiveConnectionIDs`: the number of connection IDs of the peer that are
stored. -/
def MaxActiveConnectionIDs : Nat := 4

/-- `protocol.PacketsPerConnectionID`: the number of packets sent, on average, with one
connection ID. -/
def PacketsPerConnectionID : Nat := 10000

/-- `protocol.MaxPacketBufferSize`: the maximum size of a QUIC packet, and the capacity of the
pooled buffers of STREAM frames. -/
def MaxPacketBufferSize : ℕ := 1452

/-- `protocol.MaxAckFrameSize`: the maximum size of an ACK frame that is written. -/
def MaxAckFrameSize : ℕ := 1000

/-- `protocol.MaxAckDelay`: 25 ms, in nanoseconds. -/
def MaxAckDelay : ℤ := 25 * 1000000

/-- `protocol.InitialPacketSize`: the maximum packet size before path MTU discovery. -/
def InitialPacketSize : ℕ := 1280

/-- `protocol.MinPacingDelay`: 1 ms, in nanoseconds. -/
def MinPacingDelay : ℤ := 1000000

/-- `protocol.TimerGranularity`: 1 ms, in nanoseconds. -/
def TimerGranularity : ℤ := 1000000

/-- `protocol.ECN`: the ECN codepoint of a packet. -/
inductive ECN
  | ECNUnsupported
  | ECNNon
  | ECT1
  | ECT0
  | ECNCE
  deriving DecidableEq, Repr

/-- `protocol.EncryptionLevel`. -/
inductive EncryptionLevel
  | EncryptionInitial
  | EncryptionHandshake
  | Encryption0RTT
  | Encryption1RTT
  deriving DecidableEq, Repr

/-- `EncryptionLevel.String`. -/
def EncryptionLevel.String : EncryptionLevel → String
  | .EncryptionInitial => "Initial"
  | .EncryptionHandshake => "Handshake"
  | .Encryption0RTT => "0-RTT"
  | .Encryption1RTT => "1-RTT"

theorem maxByteCount_pos : 0 < MaxByteCount := by decide

/-! ## Stream IDs (`stream.go`, `perspective.go`) -/

/-- `protocol.StreamType`. -/
inductive StreamType
  | StreamTypeUni
  | StreamTypeBidi
  deriving DecidableEq, Repr

/-- `protocol.Perspective`. -/
inductive Perspective
  | PerspectiveServer
  | PerspectiveClient
  deriving DecidableEq, Repr

/-- `Perspective.Opposite`: the perspective of the peer. -/
def Perspective.Opposite : Perspective → Perspective
  | .PerspectiveServer => .PerspectiveClient
  | .PerspectiveClient => .PerspectiveServer

/-- `protocol.InvalidStreamID`. -/
def InvalidStreamID : ℤ := -1

/-- `protocol.MaxStreamCount`, the largest stream count a MAX_STREAMS frame can carry. -/
def MaxStreamCount : ℤ := 2 ^ 60

/-- `protocol.MaxStreamID`, `quicvarint.Max`. -/
def MaxStreamID : ℤ := 2 ^ 62 - 1

/-- The first stream IDs each side opens: `FirstOutgoingBidiStreamClient`, …; the first
incoming ones of a side are the first outgoing ones of its peer. -/
def FirstOutgoingBidiStreamClient : ℤ := 0
def FirstOutgoingUniStreamClient : ℤ := 2
def FirstOutgoingBidiStreamServer : ℤ := 1
def FirstOutgoingUniStreamServer : ℤ := 3
def FirstIncomingBidiStreamServer : ℤ := FirstOutgoingBidiStreamClient
def FirstIncomingUniStreamServer : ℤ := FirstOutgoingUniStreamClient
def FirstIncomingBidiStreamClient : ℤ := FirstOutgoingBidiStreamServer
def FirstIncomingUniStreamClient : ℤ := FirstOutgoingUniStreamServer

/-- `StreamNum.StreamID`: the ID of the `s`-th stream of a type that `pers` opens. -/
def StreamNum.StreamID (s : ℤ) (stype : StreamType) (pers : Perspective) : ℤ :=
  if s = 0 then InvalidStreamID
  else
    let first : ℤ :=
      match stype, pers with
      | .StreamTypeBidi, .PerspectiveClient => 0
      | .StreamTypeBidi, .PerspectiveServer => 1
      | .StreamTypeUni, .PerspectiveClient => 2
      | .StreamTypeUni, .PerspectiveServer => 3
    first + 4 * (s - 1)

/-- `StreamID.StreamNum`: how many streams of its type are at or below `s`; Go's division
truncates. -/
def StreamID.StreamNum (s : ℤ) : ℤ := s.tdiv 4 + 1

/-! ## Connection IDs and stateless reset tokens -/

/-- `protocol.ConnectionID`: at most `MaxConnIDLen` bytes. -/
structure ConnectionID where
  bytes : List UInt8
  length_le : bytes.length ≤ MaxConnIDLen
  deriving DecidableEq, Repr

/-- `ConnectionID.Len`. -/
def ConnectionID.Len (c : ConnectionID) : ℕ := c.bytes.length

/-- The zero value `protocol.ConnectionID{}`. -/
def ConnectionID.empty : ConnectionID := ⟨[], by decide⟩

/-- `protocol.StatelessResetToken`, a 16-byte array. -/
def StatelessResetToken := Vector UInt8 16

instance : DecidableEq StatelessResetToken := inferInstanceAs (DecidableEq (Vector UInt8 16))

instance : Repr StatelessResetToken := inferInstanceAs (Repr (Vector UInt8 16))

/-! ## Packets -/

/-- `protocol.PacketType`, the type of a long header packet. -/
inductive PacketType
  | PacketTypeInitial
  | PacketTypeRetry
  | PacketTypeHandshake
  | PacketType0RTT
  deriving DecidableEq, Repr

/-- `protocol.KeyPhaseBit`. -/
inductive KeyPhaseBit
  | KeyPhaseUndefined
  | KeyPhaseZero
  | KeyPhaseOne
  deriving DecidableEq, Repr

/-- `protocol.Version1`, `protocol.Version2`. -/
def Version1 : UInt32 := 0x1
def Version2 : UInt32 := 0x6b3343cf

/-- `protocol.SupportedVersions`. -/
def SupportedVersions : List UInt32 := [Version1, Version2]

/-- `protocol.IsSupportedVersion`. -/
def IsSupportedVersion (supported : List UInt32) (v : UInt32) : Bool := supported.contains v

/-! ## Transport errors (`internal/qerr`) -/

/-- The transport error codes the modelled code returns. -/
inductive TransportErrorCode
  | FlowControlError
  | StreamLimitError
  | StreamStateError
  | FinalSizeError
  | ProtocolViolation
  | ConnectionIDLimitError
  deriving DecidableEq, Repr

/-- `qerr.TransportError`. -/
structure TransportError where
  ErrorCode : TransportErrorCode
  ErrorMessage : String
  deriving DecidableEq, Repr

end QuicGo
