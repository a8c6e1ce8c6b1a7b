import QuicGo.Wire.Header
import QuicGo.Handshake.HeaderProtector

/-!
# QuicGo — removing header protection (`packet_unpacker.go`)

The receiver does not know the packet number's length before header protection is removed,
since the length sits in the masked bits of the first byte. `unpackShortHeader` and
`unpackLongHeader` therefore save the four bytes after the packet number's offset, unmask four
bytes, parse the header, and copy the saved bytes back over those beyond the packet number.
Both work on the packet buffer in place, and return it with what they parsed.

`unpackLongHeader` is the function of that name; the method of the same name wraps its errors
other than `ErrInvalidReservedBits` in a `headerParseError`.
-/

namespace QuicGo

namespace Packet

open Wire Handshake Buffer

/-- `packetUnpacker.unpackShortHeader`: the buffer, the parsed header, and the error. -/
def unpackShortHeader (hd : HeaderProtector) (shortHdrConnIDLen : ℕ) (data : List UInt8) :
    Option (List UInt8 × ShortHeader × Option Wire.Error) :=
  let hdrLen := 1 + shortHdrConnIDLen
  if data.length < hdrLen + 4 + 16 then
    some (data, .zero, some (.errorf
      ("packet too small, expected at least 20 bytes after the header, got " ++
        toString (data.length - hdrLen))))
  else
    let origPNBytes := slice data hdrLen 4
    -- decrypt the header, assuming a 4 byte packet number
    match hd.applyAt data hdrLen 4 with
    | none => none
    | some data =>
      match ParseShortHeader data shortHdrConnIDLen with
      | none => none
      | some (sh, parseErr) =>
        if parseErr ≠ none ∧ parseErr ≠ some .ErrInvalidReservedBits then
          some (data, sh, parseErr)
        -- restore the bytes after a packet number shorter than 4 bytes
        else if sh.PacketNumberLen ≠ 4 then
          some (write data (hdrLen + sh.PacketNumberLen) (origPNBytes.drop sh.PacketNumberLen),
            sh, parseErr)
        else some (data, sh, parseErr)

/-- `unpackLongHeader`: the buffer, and the extended header with its error or the error. -/
def unpackLongHeader (hd : HeaderProtector) (hdr : Header) (data : List UInt8) :
    Option (List UInt8 × Except Wire.Error (ExtendedHeader × Option Wire.Error)) :=
  let hdrLen := hdr.parsedLen
  if data.length < hdrLen + 4 + 16 then
    some (data, .error (.errorf
      ("packet too small, expected at least 20 bytes after the header, got " ++
        toString (data.length - hdrLen))))
  else
    let origPNBytes := slice data hdrLen 4
    -- decrypt the header, assuming a 4 byte packet number
    match hd.applyAt data hdrLen 4 with
    | none => none
    | some data =>
      match hdr.ParseExtended data with
      | none => none
      | some (.error err) => some (data, .error err)
      | some (.ok (extHdr, parseErr)) =>
        -- restore the bytes after a packet number shorter than 4 bytes
        if extHdr.PacketNumberLen ≠ 4 then
          some (write data extHdr.parsedLen (origPNBytes.drop extHdr.PacketNumberLen),
            .ok (extHdr, parseErr))
        else some (data, .ok (extHdr, parseErr))

end Packet

end QuicGo
