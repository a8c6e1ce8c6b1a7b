import QuicGo.Protocol
import QuicGo.Quicvarint

/-!
# QuicGo — packet headers (`internal/wire/short_header.go`, `header.go`, `extended_header.go`)

A short header is a first byte (the fixed bit `0x40`, the key phase bit `0x04`, and the packet
number length minus one in the low two bits), the destination connection ID, and the packet
number, truncated to its length. A long header is a first byte (`0xc0`, the packet type in bits
4–5, the packet number length), the version, both connection IDs with their lengths, the token
of an Initial packet, the length of the rest of the packet in a two-byte varint, and the packet
number.

The receiver parses a long header in two steps: `parseHeader` before header protection is
removed, up to the packet number, and `Header.ParseExtended` after, which reads the packet
number length from the first byte and the packet number. Go's `[]byte` is a list of bytes, so a
nil slice and an empty one are the same here. Packet numbers are the non-negative ones QUIC
sends, `ℕ`. An index out of range, a panic in Go, is `none`.
-/

namespace QuicGo

namespace Wire

/-- The errors of the header parsers: `io.EOF`, `io.ErrUnexpectedEOF`, the sentinel errors of
`wire` and `protocol`, and the text of an `errors.New` or a `fmt.Errorf`. -/
inductive Error
  | EOF
  | ErrUnexpectedEOF
  | ErrInvalidReservedBits
  | ErrUnsupportedVersion
  | ErrInvalidConnectionIDLen
  | errorf (msg : String)
  deriving DecidableEq, Repr

/-- The error of `quicvarint.Parse`, as the header parsers return it. -/
def Error.ofParseError : Quicvarint.ParseError → Error
  | .EOF => .EOF
  | .ErrUnexpectedEOF => .ErrUnexpectedEOF

/-! ## Packet numbers -/

/-- `appendPacketNumber`: the packet number in `pnLen` bytes, most significant first. -/
def appendPacketNumber (b : List UInt8) (pn pnLen : ℕ) : Except Error (List UInt8) :=
  if pnLen = 1 then .ok (b ++ [UInt8.ofNat pn])
  else if pnLen = 2 then .ok (b ++ [UInt8.ofNat (pn >>> 8), UInt8.ofNat pn])
  else if pnLen = 3 then
    .ok (b ++ [UInt8.ofNat (pn >>> 16), UInt8.ofNat (pn >>> 8), UInt8.ofNat pn])
  else if pnLen = 4 then
    .ok (b ++ [UInt8.ofNat (pn >>> 24), UInt8.ofNat (pn >>> 16), UInt8.ofNat (pn >>> 8),
      UInt8.ofNat pn])
  else .error (.errorf ("invalid packet number length: " ++ toString pnLen))

/-- `readPacketNumber`: the packet number in the first `pnLen` bytes of `data`. -/
def readPacketNumber (data : List UInt8) (pnLen : ℕ) : Option (Except Error ℕ) :=
  match pnLen, data with
  | 1, b0 :: _ => some (.ok b0.toNat)
  | 2, b0 :: b1 :: _ => some (.ok (b1.toNat + b0.toNat <<< 8))
  | 3, b0 :: b1 :: b2 :: _ => some (.ok (b2.toNat + b1.toNat <<< 8 + b0.toNat <<< 16))
  | 4, b0 :: b1 :: b2 :: b3 :: _ =>
    some (.ok (b3.toNat + b2.toNat <<< 8 + b1.toNat <<< 16 + b0.toNat <<< 24))
  | 1, _ | 2, _ | 3, _ | 4, _ => none
  | _, _ => some (.error (.errorf ("invalid packet number length: " ++ toString pnLen)))

/-! ## Short headers -/

/-- The first byte of a short header: the fixed bit, the key phase, the packet number length. -/
def shortHeaderTypeByte (pnLen : ℕ) (kp : KeyPhaseBit) : UInt8 :=
  let typeByte : UInt8 := 0x40 ||| UInt8.ofNat (pnLen - 1)
  if kp = .KeyPhaseOne then typeByte ||| 0b100 else typeByte

/-- `AppendShortHeader`. -/
def AppendShortHeader (b : List UInt8) (connID : ConnectionID) (pn pnLen : ℕ)
    (kp : KeyPhaseBit) : Except Error (List UInt8) :=
  appendPacketNumber (b ++ [shortHeaderTypeByte pnLen kp] ++ connID.bytes) pn pnLen

/-- `ShortHeaderLen`. -/
def ShortHeaderLen (dest : ConnectionID) (pnLen : ℕ) : ℕ := 1 + dest.Len + pnLen

/-- What `ParseShortHeader` returns besides its error: the length of the header, the packet
number, its length, and the key phase. -/
structure ShortHeader where
  length : ℕ
  PacketNumber : ℕ
  PacketNumberLen : ℕ
  KeyPhase : KeyPhaseBit
  deriving DecidableEq, Repr

/-- The zero values `ParseShortHeader` returns with an error. -/
def ShortHeader.zero : ShortHeader := ⟨0, 0, 0, .KeyPhaseUndefined⟩

/-- `ParseShortHeader`, after header protection was removed; the reserved bits are checked
last, and the header is returned with `ErrInvalidReservedBits`. -/
def ParseShortHeader (data : List UInt8) (connIDLen : ℕ) : Option (ShortHeader × Option Error) :=
  match data with
  | [] => some (.zero, some .EOF)
  | b0 :: _ =>
    if b0 &&& 0x80 > 0 then some (.zero, some (.errorf "not a short header packet"))
    else if b0 &&& 0x40 = 0 then some (.zero, some (.errorf "not a QUIC packet"))
    else
      let pnLen := (b0 &&& 0b11).toNat + 1
      if data.length < 1 + pnLen + connIDLen then some (.zero, some .EOF)
      else
        match readPacketNumber (data.drop (1 + connIDLen)) pnLen with
        | none => none
        | some (.error err) => some (.zero, some err)
        | some (.ok pn) =>
          let kp := if b0 &&& 0b100 > 0 then KeyPhaseBit.KeyPhaseOne else .KeyPhaseZero
          some (⟨1 + connIDLen + pnLen, pn, pnLen, kp⟩,
            if b0 &&& 0x18 ≠ 0 then some .ErrInvalidReservedBits else none)

/-! ## Long headers -/

/-- `wire.Header`, the part of a long header before the packet number. Its field `Type`, a
keyword of Lean, is `PacketType`; it is `none` for the zero value, which a version negotiation
packet keeps. -/
structure Header where
  typeByte : UInt8
  PacketType : Option PacketType
  Version : UInt32
  SrcConnectionID : ConnectionID
  DestConnectionID : ConnectionID
  Length : ℕ
  Token : List UInt8
  parsedLen : ℕ
  deriving DecidableEq, Repr

/-- `wire.ExtendedHeader`: the `Header`, and the first byte and the packet number after
header protection was removed. -/
structure ExtendedHeader where
  Header : Header
  typeByte : UInt8
  KeyPhase : KeyPhaseBit
  PacketNumberLen : ℕ
  PacketNumber : ℕ
  parsedLen : ℕ
  deriving DecidableEq, Repr

/-- `binary.BigEndian.PutUint32`. -/
def putUint32 (v : UInt32) : List UInt8 :=
  [(v >>> 24).toUInt8, (v >>> 16).toUInt8, (v >>> 8).toUInt8, v.toUInt8]

/-- `binary.BigEndian.Uint32`. -/
def uint32 (b0 b1 b2 b3 : UInt8) : UInt32 :=
  b3.toUInt32 ||| b2.toUInt32 <<< 8 ||| b1.toUInt32 <<< 16 ||| b0.toUInt32 <<< 24

/-- The two bits of the packet type in the first byte, in each version. -/
def packetTypeBits (v : UInt32) : Option PacketType → UInt8
  | some .PacketTypeInitial => if v = Version2 then 0b01 else 0b00
  | some .PacketType0RTT => if v = Version2 then 0b10 else 0b01
  | some .PacketTypeHandshake => if v = Version2 then 0b11 else 0b10
  | some .PacketTypeRetry => if v = Version2 then 0b00 else 0b11
  | none => 0

/-- The first byte of a long header. -/
def longHeaderFirstByte (v : UInt32) (t : Option PacketType) (pnLen : ℕ) : UInt8 :=
  let firstByte := (0xc0 : UInt8) ||| packetTypeBits v t <<< 4
  -- Retry packets don't have a packet number
  if t ≠ some .PacketTypeRetry then firstByte ||| UInt8.ofNat (pnLen - 1) else firstByte

/-- `ExtendedHeader.Append`; `none` is a panic of `quicvarint`. -/
def ExtendedHeader.Append (h : ExtendedHeader) (b : List UInt8) (v : UInt32) :
    Option (Except Error (List UInt8)) :=
  if h.Header.DestConnectionID.Len > MaxConnIDLen then
    some (.error (.errorf ("invalid connection ID length: " ++ toString h.Header.DestConnectionID.Len ++
      " bytes")))
  else if h.Header.SrcConnectionID.Len > MaxConnIDLen then
    some (.error (.errorf ("invalid connection ID length: " ++ toString h.Header.SrcConnectionID.Len ++
      " bytes")))
  else
    let firstByte := longHeaderFirstByte v h.Header.PacketType h.PacketNumberLen
    let b := b ++ [firstByte] ++ putUint32 h.Header.Version ++
      [UInt8.ofNat h.Header.DestConnectionID.Len] ++ h.Header.DestConnectionID.bytes ++
      [UInt8.ofNat h.Header.SrcConnectionID.Len] ++ h.Header.SrcConnectionID.bytes
    if h.Header.PacketType = some .PacketTypeRetry then some (.ok (b ++ h.Header.Token))
    else
      let b := if h.Header.PacketType = some .PacketTypeInitial then
          (Quicvarint.Append b h.Header.Token.length).map (· ++ h.Header.Token)
        else some b
      match b with
      | none => none
      | some b =>
        match Quicvarint.AppendWithLen b h.Header.Length 2 with
        | none => none
        | some b => some (appendPacketNumber b h.PacketNumber h.PacketNumberLen)

/-- `ExtendedHeader.GetLength`: the length of the header `Append` writes, of a type with a
packet number; `none` is a panic of `quicvarint.Len`. -/
def ExtendedHeader.GetLength (h : ExtendedHeader) : Option ℕ :=
  let length := 1 + 4 + 1 + h.Header.DestConnectionID.Len + 1 + h.Header.SrcConnectionID.Len +
    h.PacketNumberLen + 2
  if h.Header.PacketType = some .PacketTypeInitial then
    (Quicvarint.Len h.Header.Token.length).map fun l => length + (l + h.Header.Token.length)
  else some length

/-- The packet type of the first byte, in each version. -/
def packetTypeOf (v : UInt32) (typeByte : UInt8) : PacketType :=
  let bits := typeByte >>> 4 &&& 0b11
  if v = Version2 then
    if bits = 0b00 then .PacketTypeRetry else if bits = 0b01 then .PacketTypeInitial
    else if bits = 0b10 then .PacketType0RTT else .PacketTypeHandshake
  else
    if bits = 0b00 then .PacketTypeInitial else if bits = 0b01 then .PacketType0RTT
    else if bits = 0b10 then .PacketTypeHandshake else .PacketTypeRetry

/-- The end of `Header.parseLongHeader`, after the connection IDs: the token of an Initial
packet and the length, for a header `h` whose type is set; `consumed` bytes were read before
`b`. -/
def parseLengthAndToken (h : Header) (consumed : ℕ) (b : List UInt8) : Header × ℕ × Option Error :=
  if h.PacketType = some .PacketTypeRetry then
    if b.length ≤ 16 then (h, consumed, some .EOF)
    else ({ h with Token := b.take (b.length - 16) }, consumed + b.length, none)
  else
    -- the token, or the error with the bytes read before it
    let token : Except (ℕ × Error) (List UInt8 × List UInt8) :=
      if h.PacketType = some .PacketTypeInitial then
        match Quicvarint.Parse b with
        | .error err => .error (consumed, .ofParseError err)
        | .ok (tokenLen, n) =>
          if tokenLen > b.length - n then .error (consumed + n, .EOF)
          else .ok ((b.drop n).take tokenLen, (b.drop n).drop tokenLen)
      else .ok (h.Token, b)
    match token with
    | .error (l, err) => (h, l, some err)
    | .ok (tok, rest) =>
      let h := { h with Token := tok }
      match Quicvarint.Parse rest with
      | .error err => (h, 0, some (.ofParseError err))
      | .ok (pl, n) =>
        ({ h with Length := pl }, consumed + (b.length - rest.length) + n, none)

/-- `Header.parseLongHeader` on the bytes after the first: the header, the bytes it read, and
its error. -/
def parseLongHeader (h : Header) (b : List UInt8) : Header × ℕ × Option Error :=
  match b with
  | v0 :: v1 :: v2 :: v3 :: destConnIDLen :: b =>
    let h := { h with Version := uint32 v0 v1 v2 v3 }
    if h.Version ≠ 0 ∧ h.typeByte &&& 0x40 = 0 then
      (h, 0, some (.errorf "not a QUIC packet"))
    else if hdl : destConnIDLen.toNat > MaxConnIDLen then (h, 0, some .ErrInvalidConnectionIDLen)
    else
      match b.drop destConnIDLen.toNat with
      | [] => (h, 5, some .EOF)
      | srcConnIDLen :: b' =>
        have hdest : (b.take destConnIDLen.toNat).length ≤ MaxConnIDLen := by
          rw [List.length_take]; omega
        let h := { h with DestConnectionID := ⟨b.take destConnIDLen.toNat, hdest⟩ }
        if hsl : srcConnIDLen.toNat > MaxConnIDLen then (h, 5, some .ErrInvalidConnectionIDLen)
        else if b'.length < srcConnIDLen.toNat then
          (h, 5 + destConnIDLen.toNat + 1, some .EOF)
        else
          have hsrc : (b'.take srcConnIDLen.toNat).length ≤ MaxConnIDLen := by
            rw [List.length_take]; omega
          let h := { h with SrcConnectionID := ⟨b'.take srcConnIDLen.toNat, hsrc⟩ }
          let consumed := 5 + destConnIDLen.toNat + 1 + srcConnIDLen.toNat
          let b := b'.drop srcConnIDLen.toNat
          -- a version negotiation packet
          if h.Version = 0 then (h, consumed, none)
          else if !IsSupportedVersion SupportedVersions h.Version then
            (h, consumed, some .ErrUnsupportedVersion)
          else parseLengthAndToken { h with PacketType := some (packetTypeOf h.Version h.typeByte) }
            consumed b
  | _ => (h, 0, some .EOF)

/-- `parseHeader`: the header of a long header packet, up to the packet number, with the error
of `parseLongHeader`; only an empty packet has no header. -/
def parseHeader (b : List UInt8) : Except Error (Header × Option Error) :=
  match b with
  | [] => .error .EOF
  | typeByte :: rest =>
    let r := parseLongHeader ⟨typeByte, none, 0, .empty, .empty, 0, [], 0⟩ rest
    .ok ({ r.1 with parsedLen := r.2.1 + 1 }, r.2.2)

/-- `IsLongHeaderPacket`. -/
def IsLongHeaderPacket (firstByte : UInt8) : Bool := firstByte &&& 0x80 > 0

/-- `ParsePacket`: the header of a long header packet, the packet, and the packets coalesced
after it. With `ErrUnsupportedVersion` the header is returned, for version negotiation. -/
def ParsePacket (data : List UInt8) : Option Header × Except Error (List UInt8 × List UInt8) :=
  match data with
  | [] => (none, .error (.errorf "not a long header packet"))
  | b0 :: _ =>
    if !IsLongHeaderPacket b0 then (none, .error (.errorf "not a long header packet"))
    else
      match parseHeader data with
      | .error err => (none, .error err)
      | .ok (hdr, some err) =>
        if err = .ErrUnsupportedVersion then (some hdr, .error err) else (none, .error err)
      | .ok (hdr, none) =>
        if data.length < hdr.parsedLen + hdr.Length then
          (none, .error (.errorf ("packet length (" ++ toString (data.length - hdr.parsedLen) ++
            " bytes) is smaller than the expected length (" ++ toString hdr.Length ++ " bytes)")))
        else
          let packetLen := hdr.parsedLen + hdr.Length
          (some hdr, .ok (data.take packetLen, data.drop packetLen))

/-- `Header.ParseExtended`, after header protection was removed: the first byte and the packet
number; the reserved bits `0x0c` are checked, and the header is returned with
`ErrInvalidReservedBits`. -/
def Header.ParseExtended (h : Header) (data : List UInt8) :
    Option (Except Error (ExtendedHeader × Option Error)) :=
  match data with
  | [] => none
  | typeByte :: _ =>
    let pnLen := (typeByte &&& 0x3).toNat + 1
    if data.length < h.parsedLen + pnLen then some (.error .EOF)
    else
      match readPacketNumber (data.drop h.parsedLen) pnLen with
      | none => none
      | some (.error _) => some (.ok (⟨h, typeByte, .KeyPhaseUndefined, pnLen, 0, 0⟩, none))
      | some (.ok pn) =>
        some (.ok (⟨h, typeByte, .KeyPhaseUndefined, pnLen, pn, h.parsedLen + pnLen⟩,
          if typeByte &&& 0xc = 0 then none else some .ErrInvalidReservedBits))

end Wire

end QuicGo
