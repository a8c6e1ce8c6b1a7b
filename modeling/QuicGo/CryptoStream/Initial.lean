import QuicGo.CryptoStream.Sni
import QuicGo.Wire.CryptoFrame
import QuicGo.Protocol

/-!
# QuicGo — the sending side of the initial crypto stream (`crypto_stream.go`)

The client's initial crypto stream sends the ClientHello out of order, so that a middlebox that
reads the SNI from the first CRYPTO frame does not find it whole. Once the whole ClientHello
is written, `Write` finds the SNI host name and the ECH extension (`findSNIAndECH`) and cuts
two intervals out of the ClientHello: the second half of the host name, and from the middle of
the ECH extension type sixteen bytes on. `PopCryptoFrame` sends the ClientHello up to `end`,
jumping over each cut when it reaches its start, then the cuts in pieces, and only then drops
the ClientHello from the write buffer and goes on as the base stream does. Until the cuts are
found, `HasData` holds the ClientHello back.

The state is the stream's sending side: `baseCryptoStream`'s `writeOffset` and `writeBuf`, and
`initialCryptoStream`'s `scramble`, `end` and `cuts`. The receiving side (`queue`,
`highestOffset`, `finished`) is not used here. Byte counts are `ℤ`, as a cut without data is
`InvalidByteCount`. The array of the two cuts is a list, and the loops over it are recursions
on the list. A slice expression out of range, a panic in Go, is `none`, and so is a slice into
the spare capacity beyond the buffer's length.
-/

namespace QuicGo

namespace CryptoStream

open Wire

/-- `clientHelloCut`. -/
structure ClientHelloCut where
  start : ℤ
  «end» : ℤ
  deriving DecidableEq, Repr, Inhabited

/-- A cut with both ends `InvalidByteCount`, as `newInitialCryptoStream` sets them and as
`PopCryptoFrame` leaves a cut it has sent. -/
def invalidCut : ClientHelloCut := ⟨InvalidByteCount, InvalidByteCount⟩

/-- `initialCryptoStream`, its sending side. -/
structure InitialCryptoStream where
  writeOffset : ℤ
  writeBuf : List UInt8
  scramble : Bool
  «end» : ℤ
  cuts : List ClientHelloCut
  deriving DecidableEq, Repr

/-- `newInitialCryptoStream`: `disabled` is `strconv.ParseBool` of the environment variable
`QUIC_GO_DISABLE_CLIENTHELLO_SCRAMBLING`, `none` when it does not parse. Scrambling is on for a
client unless the variable disables it. -/
def newInitialCryptoStream (isClient : Bool) (disabled : Option Bool) : InitialCryptoStream :=
  let scramble := isClient && match disabled with
    | none => true
    | some disabled => !disabled
  ⟨0, [], scramble, 0, [invalidCut, invalidCut]⟩

/-- Go's slice expression `b[lo:hi]` within the length of `b`. -/
def goSlice (b : List UInt8) (lo hi : ℤ) : Option (List UInt8) :=
  if 0 ≤ lo ∧ lo ≤ hi ∧ hi ≤ b.length then some ((b.drop lo.toNat).take (hi - lo).toNat)
  else none

/-! ## Sorting the cuts -/

/-- One step of Go's insertion sort: `x` moved left past the elements it compares below. The
elements to its left are given last first. -/
def insertLeft {α : Type*} (cmp : α → α → ℤ) (x : α) : List α → List α
  | [] => [x]
  | y :: ys => if cmp x y < 0 then y :: insertLeft cmp x ys else x :: y :: ys

/-- `slices.SortFunc` on fewer than twelve elements, which Go's pdqsort sorts by insertion:
each element in turn moved left while it compares below its left neighbour. -/
def sortFunc {α : Type*} (cmp : α → α → ℤ) (l : List α) : List α :=
  (l.foldl (fun acc x => insertLeft cmp x acc) []).reverse

/-- The comparison `Write` sorts the cuts with: a cut without data after every cut, and a cut
after one that starts earlier. -/
def cutCmp (a b : ClientHelloCut) : ℤ :=
  if a.start = InvalidByteCount then 1
  else if a.start > b.start then 1
  else -1

/-! ## `HasData` and `Write` -/

/-- `initialCryptoStream.HasData`: the ClientHello might be written in parts, so nothing is
sent before its cuts are found. -/
def InitialCryptoStream.HasData (s : InitialCryptoStream) : Bool :=
  if s.scramble ∧ s.writeOffset = 0 ∧ s.cuts[0]!.start = InvalidByteCount then false
  else s.writeBuf.length > 0

/-- `initialCryptoStream.Write`: the data appended, and the error it returns. While no cut is
found, the buffer is parsed as a ClientHello; one that is still incomplete is waited for. -/
def InitialCryptoStream.Write (s : InitialCryptoStream) (p : List UInt8) :
    InitialCryptoStream × Option Wire.Error :=
  let s := { s with writeBuf := s.writeBuf ++ p }
  if !s.scramble then (s, none)
  else if s.cuts[0]!.start = InvalidByteCount then
    match findSNIAndECH s.writeBuf with
    | .error .ErrUnexpectedEOF => (s, none)
    | .error err => (s, some err)
    | .ok (sniPos, sniLen, echPos) =>
      -- neither SNI nor ECH found: there's nothing to scramble
      if sniPos = -1 ∧ echPos = -1 then ({ s with scramble := false }, none)
      else
        let «end» : ℤ := s.writeBuf.length
        -- right in the middle of the host name
        let cuts := s.cuts.set 0 ⟨sniPos + (sniLen / 2 : ℕ), sniPos + sniLen⟩
        -- the ECH extension type cut in half, and sixteen bytes from there
        let cuts :=
          if echPos > 0 then cuts.set 1 ⟨echPos + 1, min (echPos + 1 + 16) «end»⟩ else cuts
        ({ s with «end» := «end», cuts := sortFunc cutCmp cuts }, none)
  else (s, none)

/-! ## `PopCryptoFrame` -/

/-- What the loop over the cuts that sends them out ends in: `return nil`, or the cuts, whether
one is left (`foundCuts`), and the frame. -/
inductive CutsLoop
  | returnNil
  | done (cuts : List ClientHelloCut) (foundCuts : Bool) (f : Option CryptoFrame)
  deriving DecidableEq, Repr

/-- The cut `c` in front of the cuts the loop ends with. -/
def CutsLoop.cons (c : ClientHelloCut) : CutsLoop → CutsLoop
  | .returnNil => .returnNil
  | .done cuts foundCuts f => .done (c :: cuts) foundCuts f

/-- The loop of `PopCryptoFrame` over the cuts once everything up to `end` is sent: the first
cut with data gives the frame, and the loop stops at the next cut with data. -/
def sendCuts (writeBuf : List UInt8) (maxLen : ℤ) :
    List ClientHelloCut → Bool → Option CryptoFrame → Option CutsLoop
  | [], foundCuts, f => some (.done [] foundCuts f)
  | c :: cs, foundCuts, f =>
    if c.start = InvalidByteCount then (sendCuts writeBuf maxLen cs foundCuts f).map (.cons c)
    else if f.isSome then some (.done (c :: cs) true f)
    else
      match (CryptoFrame.mk c.start []).MaxDataLen maxLen with
      | none => none
      | some m =>
        let n := min m (c.«end» - c.start)
        if n ≤ 0 then some .returnNil
        else
          match goSlice writeBuf c.start (c.start + n) with
          | none => none
          | some data =>
            let f : CryptoFrame := ⟨c.start, data⟩
            if c.start + n = c.«end» then
              (sendCuts writeBuf maxLen cs false (some f)).map (.cons invalidCut)
            else
              (sendCuts writeBuf maxLen cs true (some f)).map
                (.cons { c with start := c.start + n })

/-- The loop of `PopCryptoFrame` that finds `nextCut`: the first cut with data that starts after
`writeOffset`. -/
def nextCutAfter (writeOffset : ℤ) : List ClientHelloCut → ClientHelloCut
  | [] => invalidCut
  | c :: cs =>
    if c.start ≠ InvalidByteCount ∧ c.start > writeOffset then c else nextCutAfter writeOffset cs

/-- `baseCryptoStream.PopCryptoFrame`: as much of the write buffer as fits. -/
def InitialCryptoStream.basePopCryptoFrame (s : InitialCryptoStream) (maxLen : ℤ) :
    Option (InitialCryptoStream × Option CryptoFrame) :=
  ((CryptoFrame.mk s.writeOffset []).MaxDataLen maxLen).map fun m =>
    let n := min m (s.writeBuf.length : ℤ)
    if n ≤ 0 then (s, none)
    else
      ({ s with writeBuf := s.writeBuf.drop n.toNat, writeOffset := s.writeOffset + n },
        some ⟨s.writeOffset, s.writeBuf.take n.toNat⟩)

/-- `initialCryptoStream.PopCryptoFrame`: the next frame, if one fits, and the stream after it.
`none` is a panic. -/
def InitialCryptoStream.PopCryptoFrame (s : InitialCryptoStream) (maxLen : ℤ) :
    Option (InitialCryptoStream × Option CryptoFrame) :=
  if !s.scramble then s.basePopCryptoFrame maxLen
  -- send out the skipped parts
  else if s.writeOffset = s.«end» then
    match sendCuts s.writeBuf maxLen s.cuts false none with
    | none => none
    | some .returnNil => some (s, none)
    | some (.done cuts foundCuts f) =>
      if foundCuts then some ({ s with cuts }, f)
      else
        -- no more cuts: everything up to end has been sent
        (goSlice s.writeBuf s.«end» s.writeBuf.length).map fun writeBuf =>
          ({ s with cuts, writeBuf, «end» := InvalidByteCount, scramble := false }, f)
  else
    let nextCut := nextCutAfter s.writeOffset s.cuts
    let maxOffset := if nextCut.start = InvalidByteCount then s.«end» else nextCut.start
    match (CryptoFrame.mk s.writeOffset []).MaxDataLen maxLen with
    | none => none
    | some m =>
      let n := min m (maxOffset - s.writeOffset)
      if n ≤ 0 then some (s, none)
      else
        -- the write buffer is not resliced until all parts have been sent
        (goSlice s.writeBuf s.writeOffset (s.writeOffset + n)).map fun data =>
          let writeOffset := s.writeOffset + n
          let writeOffset := if writeOffset = nextCut.start then nextCut.«end» else writeOffset
          ({ s with writeOffset }, some ⟨s.writeOffset, data⟩)

end CryptoStream

end QuicGo
