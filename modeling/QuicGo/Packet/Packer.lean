import QuicGo.Wire.Header
import QuicGo.Handshake.HeaderProtector

/-!
# QuicGo — packing a packet (`packet_packer.go`)

`appendShortHeaderPacket` and `appendLongHeaderPacket` write a packet: the header, the payload
padded so that the packet number and the payload together have at least four bytes (the
receiver samples the ciphertext four bytes after the packet number's offset), the payload
sealed in place, and then header protection applied to the first byte and the packet number
(`encryptPacket`).

The frames of the payload are given by the bytes their `Append` writes, the control frames in
the order `appendPacketPayload`'s shuffle leaves them. The check of the packet number against
the number the packet number manager pops is left out: the caller peeked that number.
-/

namespace QuicGo

namespace Packet

open Wire Handshake

/-- `payload`: the ACK frame, the control frames and the STREAM frames, each as its encoding,
and the length of them all. -/
structure Payload where
  ack : Option (List UInt8)
  frames : List (List UInt8)
  streamFrames : List (List UInt8)
  length : ℕ
  deriving DecidableEq, Repr

/-- The padding both packers add: enough for four bytes of packet number and payload, and the
padding asked for. -/
def paddingLength (pl : Payload) (pnLen padding : ℕ) : ℕ :=
  (if pl.length < 4 - pnLen then 4 - pnLen - pl.length else 0) + padding

/-- `appendPacketPayload`: the ACK frame, the padding, and the frames, with a check that the
frames have the length the payload gives. -/
def appendPacketPayload (raw : List UInt8) (pl : Payload) (paddingLen : ℕ) :
    Except Wire.Error (List UInt8) :=
  let payloadOffset := raw.length
  let raw := raw ++ pl.ack.getD []
  let raw := if paddingLen > 0 then raw ++ List.replicate paddingLen 0 else raw
  let raw := raw ++ pl.frames.flatten ++ pl.streamFrames.flatten
  let payloadSize := raw.length - payloadOffset - paddingLen
  if payloadSize ≠ pl.length then
    .error (.errorf ("PacketPacker BUG: payload size inconsistent (expected " ++
      toString pl.length ++ ", got " ++ toString payloadSize ++ " bytes)"))
  else .ok raw

/-- `packetPacker.encryptPacket`: the payload sealed in place, then the header protected. -/
def encryptPacket (raw : List UInt8) (sealer : Sealer) (pn payloadOffset pnLen : ℕ) :
    Option (List UInt8) :=
  let raw := sealer.sealPacket raw pn payloadOffset
  -- apply header protection
  let pnOffset := payloadOffset - pnLen
  sealer.hp.applyAt raw pnOffset pnLen

/-- `shortHeaderPacket`. -/
structure ShortHeaderPacket where
  PacketNumber : ℕ
  PacketNumberLen : ℕ
  KeyPhase : KeyPhaseBit
  StreamFrames : List (List UInt8)
  Frames : List (List UInt8)
  Ack : Option (List UInt8)
  Length : ℕ
  DestConnID : ConnectionID
  IsPathMTUProbePacket : Bool

/-- `packetPacker.appendShortHeaderPacket`: the bytes of the packet, and the packet. -/
def appendShortHeaderPacket (connID : ConnectionID) (pn pnLen : ℕ) (kp : KeyPhaseBit)
    (pl : Payload) (padding maxPacketSize : ℕ) (sealer : Sealer) (isMTUProbePacket : Bool) :
    Option (Except Wire.Error (List UInt8 × ShortHeaderPacket)) :=
  let paddingLen := paddingLength pl pnLen padding
  match AppendShortHeader [] connID pn pnLen kp with
  | .error err => some (.error err)
  | .ok raw =>
    let payloadOffset := raw.length
    match appendPacketPayload raw pl paddingLen with
    | .error err => some (.error err)
    | .ok raw =>
      if !isMTUProbePacket ∧ raw.length + sealer.Overhead > maxPacketSize then
        some (.error (.errorf ("PacketPacker BUG: packet too large (" ++
          toString (raw.length + sealer.Overhead) ++ " bytes, allowed " ++
          toString maxPacketSize ++ " bytes)")))
      else
        (encryptPacket raw sealer pn payloadOffset pnLen).map fun raw =>
          .ok (raw, ⟨pn, pnLen, kp, pl.streamFrames, pl.frames, pl.ack, raw.length, connID,
            isMTUProbePacket⟩)

/-- `longHeaderPacket`. -/
structure LongHeaderPacket where
  header : ExtendedHeader
  ack : Option (List UInt8)
  frames : List (List UInt8)
  streamFrames : List (List UInt8)
  length : ℕ

/-- `packetPacker.appendLongHeaderPacket`: the header's length is set to what follows it, and
the packet written; the bytes of the packet, and the packet. `none` is a panic of `Append`. -/
def appendLongHeaderPacket (header : ExtendedHeader) (pl : Payload) (padding : ℕ)
    (sealer : Sealer) (v : UInt32) : Option (Except Wire.Error (List UInt8 × LongHeaderPacket)) :=
  let pnLen := header.PacketNumberLen
  let paddingLen := paddingLength pl pnLen padding
  let header := { header with
    Header.Length := pnLen + sealer.Overhead + pl.length + paddingLen }
  match header.Append [] v with
  | none => none
  | some (.error err) => some (.error err)
  | some (.ok raw) =>
    let payloadOffset := raw.length
    match appendPacketPayload raw pl paddingLen with
    | .error err => some (.error err)
    | .ok raw =>
      (encryptPacket raw sealer header.PacketNumber payloadOffset pnLen).map fun raw =>
        .ok (raw, ⟨header, pl.ack, pl.frames, pl.streamFrames, raw.length⟩)

end Packet

end QuicGo
