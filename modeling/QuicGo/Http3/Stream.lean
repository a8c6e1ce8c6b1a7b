import QuicGo.Http3.Frames
import QuicGo.Protocol
import QuicGo.Lib.Run

/-!
# QuicGo — reading the body of an HTTP/3 request stream (`http3/stream.go`)

`Stream.Read` hands out the payloads of the DATA frames of a request stream. Between two DATA
frames it parses frame headers: a DATA frame starts a new payload, whose length the stream
counts down in `bytesRemainingInFrame`; a HEADERS frame after the body carries the trailers,
which the client parses with its `parseTrailer` callback; the server, whose streams have no
callback, goes on parsing after the HEADERS frame; every other frame closes the connection.

The callback reads the trailers from the stream (`TrailerParser`); the client's is
`decodeTrailers`, around the QPACK decoder, which is a parameter here (`decodeFull`: its
error, if any). A call of the missing callback would be a panic, `none`.

The server never reads the payload of the HEADERS frame: it parses it as frames
(`trailers_parsed_as_frames`).
-/

namespace QuicGo

namespace Http3

/-- A `parseTrailer` callback: it reads the trailers of the given length from the stream, and
returns its error. -/
def TrailerParser := QuicStream → ℕ → QuicStream × Option Error

/-- `Conn.decodeTrailers` as the client's callback; `decodeFull` stands for the QPACK decoding
and `parseTrailers`. -/
def decodeTrailers (maxHeaderBytes : ℕ) (decodeFull : List UInt8 → Option Error) :
    TrailerParser := fun str l =>
  if l > maxHeaderBytes then
    (str, some (.errorf ("HEADERS frame too large: " ++ toString l ++ " bytes (max: " ++
      toString maxHeaderBytes ++ ")")))
  else
    let r := str.readFull l
    match r.2.2 with
    | some err => (r.1, some err)
    | none => (r.1, decodeFull r.2.1)

/-- `http3.Stream`, with the stream underneath and the state of its frames; the connection's
perspective and the callback are the parameters of its functions. -/
structure Stream where
  str : QuicStream
  bytesRemainingInFrame : ℕ
  parsedTrailer : Bool
  deriving DecidableEq, Repr

/-- `newStream`. -/
def newStream (str : QuicStream) : Stream := ⟨str, 0, false⟩

/-- How the loop of `Read` over the frame headers ends: at a DATA frame, whose payload is then
read, or with a return of no bytes and an error. -/
inductive LoopExit
  | readData
  | ret (err : Option Error)
  deriving DecidableEq, Repr

/-- What a step of `Read` leaves: the stream, how it goes on, and the `CloseWithError` calls. -/
structure LoopResult where
  stream : Stream
  exit : LoopExit
  closes : List ErrCode

section Read

variable (perspective : Perspective) (parseTrailer : Option TrailerParser)

/-- The loop `parseLoop` of `Stream.Read`. -/
def parseLoop : ℕ → Stream → Option LoopResult
  | 0, s => some ⟨s, .ret (some .EOF), []⟩
  | fuel + 1, s =>
    let p := parseNext s.str
    let s₁ := { s with str := p.str }
    match p.frame with
    | .error err => some ⟨s₁, .ret (some err), p.closes⟩
    | .ok (.dataFrame l) =>
      if s.parsedTrailer then
        some ⟨s₁, .ret (some (.errorf "DATA frame received after trailers")), p.closes⟩
      else some ⟨{ s₁ with bytesRemainingInFrame := l }, .readData, p.closes⟩
    | .ok (.headersFrame l) =>
      if perspective = .PerspectiveServer then
        -- `continue`: the next frame header is read where the HEADERS frame's payload begins
        (parseLoop fuel s₁).map fun r => { r with closes := p.closes ++ r.closes }
      else if s.parsedTrailer then
        some ⟨s₁, .ret (some (.errorf "additional HEADERS frame received after trailers")),
          p.closes⟩
      else
        match parseTrailer with
        | none => none
        | some parse =>
          let t := parse s₁.str l
          some ⟨{ s₁ with str := t.1, parsedTrailer := true }, .ret t.2, p.closes⟩
    | .ok (.settingsFrame _) =>
      some ⟨s₁, .ret (some (.errorf "peer sent an unexpected frame: *http3.settingsFrame")),
        p.closes ++ [.ErrCodeFrameUnexpected]⟩
    | .ok (.goAwayFrame _) =>
      some ⟨s₁, .ret (some (.errorf "peer sent an unexpected frame: *http3.goAwayFrame")),
        p.closes ++ [.ErrCodeFrameUnexpected]⟩

/-- What `Read` returns: the bytes, the error, and the `CloseWithError` calls. -/
structure ReadOut where
  data : List UInt8
  err : Option Error
  closes : List ErrCode
  deriving DecidableEq, Repr

/-- `Stream.Read` into a buffer of `n` bytes. -/
def Stream.Read (s : Stream) (n : ℕ) : Option (Stream × ReadOut) :=
  let loop := if s.bytesRemainingInFrame = 0 then
      parseLoop perspective parseTrailer (s.str.data.length + 1) s
    else some ⟨s, .readData, []⟩
  match loop with
  | none => none
  | some r =>
    match r.exit with
    | .ret err => some (r.stream, ⟨[], err, r.closes⟩)
    | .readData =>
      let s₁ := r.stream
      let m := if s₁.bytesRemainingInFrame < n then s₁.bytesRemainingInFrame else n
      let rd := s₁.str.Read m
      some ({ s₁ with
          str := rd.1
          bytesRemainingInFrame := s₁.bytesRemainingInFrame - rd.2.1.length },
        ⟨rd.2.1, rd.2.2, r.closes⟩)

/-- The stream as a machine: a call is a `Read` with its buffer size. -/
def step (s : Stream) (n : ℕ) : Option (Stream × ReadOut) :=
  s.Read perspective parseTrailer n

end Read

/-! ## The server parses the trailers as frames -/

/-- The bytes of `quicvarint.Append` for a number below 64. -/
def byte (i : ℕ) : UInt8 := UInt8.ofNat i

/-- A trailer field section in QPACK, with the static table only: the prefix (Required Insert
Count 0, Base 0), and one literal field line with a literal name of seven bytes, `0000000`,
whose value is 42 bytes `a`, a tab and two bytes `a`. -/
def trailerSection : List UInt8 :=
  [byte 0x00, byte 0x00, byte 0x27, byte 0x00] ++ List.replicate 7 (byte 0x30) ++ [byte 45] ++
    List.replicate 42 (byte 0x61) ++ [byte 0x09, byte 0x61, byte 0x61]

/-- The request body `a` in a DATA frame, then the trailers in a HEADERS frame, then the FIN. -/
def bodyWithTrailers : QuicStream :=
  ⟨[byte 0x00, byte 0x01, byte 0x61, byte 0x01, byte trailerSection.length] ++ trailerSection,
    false⟩

/-- On the server, the trailers' bytes are parsed as frame headers: the QPACK prefix reads as an
empty DATA frame, the field line as two unknown frames, and the tab in the value as a reserved
frame type, which closes the connection. The client parses the same bytes as trailers, and its
next read reaches the end of the body. -/
theorem trailers_parsed_as_frames :
    (Machine.run (step .PerspectiveServer none) (newStream bodyWithTrailers) [100, 100, 100]).map
        Prod.snd =
      some [⟨[byte 0x61], none, []⟩, ⟨[], none, []⟩,
        ⟨[], some (.errorf "http3: reserved frame type: 9"), [.ErrCodeFrameUnexpected]⟩] ∧
    (Machine.run (step .PerspectiveClient (some (decodeTrailers 100 fun _ => none)))
        (newStream bodyWithTrailers) [100, 100, 100]).map Prod.snd =
      some [⟨[byte 0x61], none, []⟩, ⟨[], none, []⟩, ⟨[], some .EOF, []⟩] := by
  refine ⟨by decide, by decide⟩

end Http3

end QuicGo
