import QuicGo.Quicvarint

/-!
# QuicGo — HTTP/3 frames on a request stream (`http3/frames.go`)

An HTTP/3 frame is a type and a length, each a variable-length integer, followed by a payload
of that length. `frameParser.ParseNext` reads the next frame from a stream: it returns a DATA
or a HEADERS frame with its length only (the payload stays in the stream for the caller),
parses SETTINGS and GOAWAY frames, closes the connection on the reserved types of HTTP/2, and
skips over the payload of every other type.

The stream underneath is the receiving side of a QUIC stream whose data and FIN have all
arrived (`QuicStream`): a read returns what is asked for, as far as the data goes, with
`io.EOF` on the read that reaches the FIN and on every read after it. The `io` helpers the
parser reads through are written against it: `readVarint` (`quicvarint.Read` through a
`byteReader`), `readFull` (`io.ReadFull`) and `discard` (`io.CopyN` into `io.Discard`). Reading a variable-
length integer byte by byte is `Quicvarint.Read` on the bytes not read yet.

The parser of a request stream has no `unknownFrameHandler`, and its `closeConn` calls are
returned as the list of error codes they pass.

The loops run on fuel: `parseNext` with one more than the number of bytes left, which is
enough since each pass consumes a byte (`parseNextLoop_fuel`).
-/

namespace QuicGo

namespace Http3

/-- The errors here: `io.EOF`, `io.ErrUnexpectedEOF`, and the text of an `errors.New` or a
`fmt.Errorf`. -/
inductive Error
  | EOF
  | ErrUnexpectedEOF
  | errorf (msg : String)
  deriving DecidableEq, Repr

/-- The HTTP/3 error codes the connection is closed with here. -/
inductive ErrCode
  | ErrCodeFrameUnexpected
  deriving DecidableEq, Repr

/-! ## The stream underneath -/

/-- The receiving side of a QUIC stream whose data and FIN have all arrived: the bytes not read
yet, and whether a read has reached the FIN. -/
structure QuicStream where
  data : List UInt8
  finRead : Bool
  deriving DecidableEq, Repr

namespace QuicStream

/-- `ReceiveStream.Read` of `n` bytes. -/
def Read (s : QuicStream) (n : ℕ) : QuicStream × List UInt8 × Option Error :=
  if s.finRead then (s, [], some .EOF)
  else if n = 0 then (s, [], none)
  else if s.data.length ≤ n then (⟨[], true⟩, s.data, some .EOF)
  else (⟨s.data.drop n, false⟩, s.data.take n, none)

/-- `quicvarint.Read` through `byteReader.ReadByte`, a read of one byte whose `io.EOF` is
dropped when the byte came with it: the bytes of the number are taken one by one, and the read
that takes the last byte of the stream reaches the FIN. -/
def readVarint (s : QuicStream) : QuicStream × Option ℕ :=
  if s.finRead then (s, none)
  else
    let r := Quicvarint.Read s.data
    (⟨r.2, r.2.isEmpty⟩, r.1)

/-- `io.ReadFull` of `l` bytes: `io.EOF` when nothing was read, `io.ErrUnexpectedEOF` when the
stream ended before `l` bytes. -/
def readFull (s : QuicStream) (l : ℕ) : QuicStream × List UInt8 × Option Error :=
  if l = 0 then (s, [], none)
  else if s.finRead then (s, [], some .EOF)
  else
    (⟨s.data.drop l, decide (s.data.length ≤ l)⟩, s.data.take l,
      if s.data.length = 0 then some .EOF
      else if s.data.length < l then some .ErrUnexpectedEOF
      else none)

/-- `io.CopyN(io.Discard, r, l)`: `io.EOF` when the stream ends before `l` bytes. -/
def discard (s : QuicStream) (l : ℕ) : QuicStream × Option Error :=
  if l = 0 then (s, none)
  else if s.finRead then (s, some .EOF)
  else
    (⟨s.data.drop l, decide (s.data.length ≤ l)⟩,
      if s.data.length < l then some .EOF else none)

end QuicStream

/-! ## SETTINGS and GOAWAY -/

/-- `settingExtendedConnect`, `settingDatagram`. -/
def settingExtendedConnect : ℕ := 0x8
def settingDatagram : ℕ := 0x33

/-- `settingsFrame`; the map `Other` is the list of its entries in the order they came. -/
structure SettingsFrame where
  Datagram : Bool
  ExtendedConnect : Bool
  Other : List (ℕ × ℕ)
  deriving DecidableEq, Repr

/-- The loop of `parseSettingsFrame` over the payload: pairs of an identifier and a value,
with duplicates rejected. -/
def parseSettingsLoop : ℕ → List UInt8 → Bool → Bool → SettingsFrame → Except Error SettingsFrame
  | 0, _, _, _, frame => .ok frame
  | fuel + 1, b, readDatagram, readExtendedConnect, frame =>
    if b.length = 0 then .ok frame
    else
      match Quicvarint.Read b with
      | (none, _) => .error .EOF
      | (some id, b) =>
        match Quicvarint.Read b with
        | (none, _) => .error .EOF
        | (some val, b) =>
          if id = settingExtendedConnect then
            if readExtendedConnect then .error (.errorf ("duplicate setting: " ++ toString id))
            else if val ≠ 0 ∧ val ≠ 1 then
              .error (.errorf ("invalid value for SETTINGS_ENABLE_CONNECT_PROTOCOL: " ++
                toString val))
            else parseSettingsLoop fuel b readDatagram true { frame with ExtendedConnect := val = 1 }
          else if id = settingDatagram then
            if readDatagram then .error (.errorf ("duplicate setting: " ++ toString id))
            else if val ≠ 0 ∧ val ≠ 1 then
              .error (.errorf ("invalid value for SETTINGS_H3_DATAGRAM: " ++ toString val))
            else parseSettingsLoop fuel b true readExtendedConnect { frame with Datagram := val = 1 }
          else if (frame.Other.lookup id).isSome then
            .error (.errorf ("duplicate setting: " ++ toString id))
          else
            parseSettingsLoop fuel b readDatagram readExtendedConnect
              { frame with Other := frame.Other ++ [(id, val)] }

/-- `parseSettingsFrame`: at most 8 KiB, read whole, then parsed. -/
def parseSettingsFrame (s : QuicStream) (l : ℕ) : QuicStream × Except Error SettingsFrame :=
  if l > 8 * (1 <<< 10) then
    (s, .error (.errorf ("unexpected size for SETTINGS frame: " ++ toString l)))
  else
    let r := s.readFull l
    match r.2.2 with
    | some .ErrUnexpectedEOF => (r.1, .error .EOF)
    | some err => (r.1, .error err)
    | none => (r.1, parseSettingsLoop (r.2.1.length + 1) r.2.1 false false ⟨false, false, []⟩)

/-- `parseGoAwayFrame`: the stream ID, whose encoding must be the frame's length. -/
def parseGoAwayFrame (s : QuicStream) (l : ℕ) : QuicStream × Except Error ℕ :=
  let r := s.readVarint
  match r.2 with
  | none => (r.1, .error .EOF)
  | some id =>
    -- `countingByteReader` counts the bytes of the number
    if s.data.length - r.1.data.length ≠ l then
      (r.1, .error (.errorf "GOAWAY frame: inconsistent length"))
    else (r.1, .ok id)

/-! ## `ParseNext` -/

/-- The frames `ParseNext` returns. -/
inductive Frame
  | dataFrame (Length : ℕ)
  | headersFrame (Length : ℕ)
  | settingsFrame (f : SettingsFrame)
  | goAwayFrame (StreamID : ℕ)
  deriving DecidableEq, Repr

/-- What `ParseNext` leaves: the stream, the frame or the error, and the `closeConn` calls. -/
structure Parsed where
  str : QuicStream
  frame : Except Error Frame
  closes : List ErrCode

/-- The loop of `frameParser.ParseNext`: a frame header, then the frame, or the payload skipped
and the next header. -/
def parseNextLoop : ℕ → QuicStream → Parsed
  | 0, s => ⟨s, .error .EOF, []⟩
  | fuel + 1, s =>
    let r₁ := s.readVarint
    match r₁.2 with
    | none => ⟨r₁.1, .error .EOF, []⟩
    | some t =>
      let r₂ := r₁.1.readVarint
      match r₂.2 with
      | none => ⟨r₂.1, .error .EOF, []⟩
      | some l =>
        if t = 0x0 then ⟨r₂.1, .ok (.dataFrame l), []⟩
        else if t = 0x1 then ⟨r₂.1, .ok (.headersFrame l), []⟩
        else if t = 0x4 then
          let r := parseSettingsFrame r₂.1 l
          ⟨r.1, r.2.map .settingsFrame, []⟩
        else if t = 0x7 then
          let r := parseGoAwayFrame r₂.1 l
          ⟨r.1, r.2.map .goAwayFrame, []⟩
        else if t = 0x2 ∨ t = 0x6 ∨ t = 0x8 ∨ t = 0x9 then
          ⟨r₂.1, .error (.errorf ("http3: reserved frame type: " ++ toString t)),
            [.ErrCodeFrameUnexpected]⟩
        else
          -- CANCEL_PUSH, PUSH_PROMISE, MAX_PUSH_ID and unknown frames: skip the payload
          let r₃ := r₂.1.discard l
          match r₃.2 with
          | some err => ⟨r₃.1, .error err, []⟩
          | none => parseNextLoop fuel r₃.1

/-- `frameParser.ParseNext`. -/
def parseNext (s : QuicStream) : Parsed :=
  parseNextLoop (s.data.length + 1) s

/-! ## The fuel is enough -/

/-- A number read from the stream takes at least one of its bytes. -/
theorem readVarint_length {s : QuicStream} {v : ℕ} (h : s.readVarint.2 = some v) :
    s.readVarint.1.data.length < s.data.length := by
  unfold QuicStream.readVarint at h ⊢
  by_cases hf : s.finRead = true
  · rw [if_pos hf] at h
    cases h
  rw [if_neg hf] at h ⊢
  exact (Quicvarint.Read_length (Prod.ext h rfl)).1

theorem discard_length_le (s : QuicStream) (l : ℕ) : (s.discard l).1.data.length ≤ s.data.length := by
  unfold QuicStream.discard
  split_ifs <;> simp

/-- With more fuel than bytes, `parseNextLoop` is `parseNext`: every skipped frame takes the
bytes of its header. -/
theorem parseNextLoop_fuel {fuel : ℕ} {s : QuicStream} (h : s.data.length < fuel) :
    parseNextLoop fuel s = parseNext s := by
  unfold parseNext
  -- any two amounts of fuel above the length give the same result
  suffices ∀ f₁ f₂ (s : QuicStream), s.data.length < f₁ → s.data.length < f₂ →
      parseNextLoop f₁ s = parseNextLoop f₂ s from this _ _ s h (by omega)
  intro f₁
  induction f₁ with
  | zero => intro _ _ h₁; omega
  | succ f₁ ih =>
    intro f₂ s h₁ h₂
    obtain ⟨f₂, rfl⟩ : ∃ f, f₂ = f + 1 := ⟨f₂ - 1, by omega⟩
    simp only [parseNextLoop]
    split
    · rfl
    rename_i t ht
    split
    · rfl
    rename_i l hl
    have hlen₁ := readVarint_length ht
    have hlen₂ := readVarint_length hl
    split_ifs
    all_goals try rfl
    split
    · rfl
    · apply ih
      · have := discard_length_le s.readVarint.1.readVarint.1 l
        omega
      · have := discard_length_le s.readVarint.1.readVarint.1 l
        omega

end Http3

end QuicGo
