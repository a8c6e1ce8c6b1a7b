import QuicGo.CryptoStream.Initial
import QuicGo.Lib.Run

/-!
# QuicGo — the initial crypto stream sends every byte (`crypto_stream.go`)

Over every run of `PopCryptoFrame` calls after the ClientHello and any further data are written,
whatever sizes the calls ask for (from the smallest a one-byte CRYPTO frame fits to
`maxVarInt2 + 4`), every frame fits its size and carries the written bytes at its offset, two
frames overlap only inside a cut, and after at most three calls per byte `HasData` is false; and
whenever `HasData` is false, the frames cover every written byte (`clientHello_scrambling`).
This holds for every ClientHello whose first cut has data; one with an ECH extension but no SNI
host name leaves the first cut without data, and `HasData` false before anything is sent.

The stream goes through two phases. While it scrambles (`Scrambling`), the write buffer is all
the data written, everything before `writeOffset` has been sent, and what is not covered yet is
between `writeOffset` and `end`, in a cut, or after `end`. Once the last cut is sent it goes on
as the base stream (`Sending`): the buffer is the data after `writeOffset`, and all before it has
been sent. Each call takes at least one byte off the data still to send (`potential`).
-/

namespace QuicGo

namespace CryptoStream

open Wire Buffer

/-! ## Cuts and frames -/

/-- `x` lies in the cut `c`, which has data. -/
def InCut (c : ClientHelloCut) (x : ℤ) : Prop :=
  c.start ≠ InvalidByteCount ∧ c.start ≤ x ∧ x < c.«end»

/-- `x` lies in one of the cuts. -/
def InCuts (cuts : List ClientHelloCut) (x : ℤ) : Prop := ∃ c ∈ cuts, InCut c x

/-- A cut is `invalidCut`, or a non-empty interval of the first `e` bytes. -/
def CutWf (e : ℤ) (c : ClientHelloCut) : Prop :=
  c = invalidCut ∨ 0 ≤ c.start ∧ c.start < c.«end» ∧ c.«end» ≤ e

/-- The bytes of a cut still to send. -/
def cutLen (c : ClientHelloCut) : ℕ :=
  if c.start = InvalidByteCount then 0 else (c.«end» - c.start).toNat

@[simp] theorem cutLen_invalidCut : cutLen invalidCut = 0 := by
  simp [cutLen, invalidCut]

/-- `x` lies in the frame `f`. -/
def InFrame (f : CryptoFrame) (x : ℤ) : Prop := f.Offset ≤ x ∧ x < f.Offset + f.Data.length

/-- Some frame of `fs` carries the byte at `x`. -/
def Covers (fs : List CryptoFrame) (x : ℤ) : Prop := ∃ f ∈ fs, InFrame f x

/-- A frame popped with `maxLen` from the data `W`: it fits `maxLen`, and its data are the bytes
of `W` at its offset. -/
def FrameOk (W : List UInt8) (maxLen : ℤ) (f : CryptoFrame) : Prop :=
  (∃ L, f.Length = some L ∧ L ≤ maxLen) ∧ 0 ≤ f.Offset ∧ f.Offset + f.Data.length ≤ W.length ∧
    f.Data = slice W f.Offset.toNat f.Data.length

/-- A size `PopCryptoFrame` may be called with on the data `W`: a one-byte CRYPTO frame fits it
at every offset of `W`, and it is at most `maxVarInt2 + 4`. -/
def MaxLenOk (W : List UInt8) (maxLen : ℤ) : Prop :=
  (∀ o : ℤ, 0 ≤ o → o ≤ W.length → ∃ L, (CryptoFrame.mk o [0]).Length = some L ∧ L ≤ maxLen) ∧
    maxLen ≤ Quicvarint.maxVarInt2 + 4

/-- At an offset of `W`, a size that `MaxLenOk` allows leaves room for at least one byte, and
a frame with no more data than `MaxDataLen` fits it. -/
theorem MaxLenOk.maxDataLen {W : List UInt8} {maxLen o : ℤ} (h : MaxLenOk W maxLen)
    (ho : 0 ≤ o) (hoW : o ≤ W.length) :
    ∃ m, (CryptoFrame.mk o []).MaxDataLen maxLen = some m ∧ 1 ≤ m ∧
      ∀ data : List UInt8, data.length ≤ m →
        ∃ L, (CryptoFrame.mk o data).Length = some L ∧ L ≤ maxLen := by
  obtain ⟨L, hL, hLmax⟩ := h.1 o ho hoW
  exact Length_le_of_MaxDataLen hL hLmax h.2

theorem goSlice_eq {b : List UInt8} {lo hi : ℤ} (h0 : 0 ≤ lo) (hle : lo ≤ hi)
    (hhi : hi ≤ b.length) : goSlice b lo hi = some (slice b lo.toNat (hi - lo).toNat) := by
  unfold goSlice
  rw [if_pos ⟨h0, hle, hhi⟩]
  rfl

/-- A frame cut from `W` at `o` with `n` bytes, where `MaxDataLen` allows them. -/
theorem frameOk_slice {W : List UInt8} {maxLen o n m : ℤ} (hok : MaxLenOk W maxLen) (ho : 0 ≤ o)
    (hn : 0 ≤ n) (hon : o + n ≤ W.length) (hm : (CryptoFrame.mk o []).MaxDataLen maxLen = some m)
    (hnm : n ≤ m) : FrameOk W maxLen ⟨o, slice W o.toNat n.toNat⟩ := by
  obtain ⟨m', hm', -, hfits⟩ := hok.maxDataLen ho (by omega)
  rw [hm] at hm'
  cases hm'
  have hlen : (slice W o.toNat n.toNat).length = n.toNat := length_slice (by omega)
  refine ⟨hfits _ (by omega), ho, by dsimp only; omega, ?_⟩
  dsimp only
  rw [hlen]

/-! ## The loops over the cuts -/

theorem CutsLoop.foldr_cons_done (pre cuts : List ClientHelloCut) (foundCuts : Bool)
    (f : Option CryptoFrame) :
    pre.foldr CutsLoop.cons (.done cuts foundCuts f) = .done (pre ++ cuts) foundCuts f := by
  induction pre with
  | nil => rfl
  | cons c pre ih => simp only [List.foldr_cons, ih, CutsLoop.cons, List.cons_append]

section SendCuts

-- `simp` runs the loop one step on a list of cuts it can see
attribute [local simp] sendCuts

/-- The loop passes over cuts without data. -/
theorem sendCuts_invalid_append {writeBuf : List UInt8} {maxLen : ℤ}
    (pre rest : List ClientHelloCut) (hpre : ∀ d ∈ pre, d.start = InvalidByteCount) (foundCuts : Bool) (f : Option CryptoFrame) :
    sendCuts writeBuf maxLen (pre ++ rest) foundCuts f =
      (sendCuts writeBuf maxLen rest foundCuts f).map (pre.foldr CutsLoop.cons) := by
  induction pre with
  | nil => simp
  | cons d pre ih =>
    have hd : d.start = InvalidByteCount := hpre d (by simp)
    rw [List.cons_append, sendCuts.eq_2, if_pos hd, ih (fun d' hd' => hpre d' (by simp [hd']))]
    simp only [Option.map_map, List.foldr_cons]
    rfl

/-- Once it has a frame, the loop stops at the next cut with data. -/
theorem sendCuts_of_frame {writeBuf : List UInt8} {maxLen : ℤ} (post : List ClientHelloCut)
    (foundCuts : Bool) (f : CryptoFrame) :
    sendCuts writeBuf maxLen post foundCuts (some f) =
      some (.done post (foundCuts || post.any fun d => d.start ≠ InvalidByteCount) (some f)) := by
  induction post generalizing foundCuts with
  | nil => simp
  | cons d post ih =>
    rw [sendCuts.eq_2]
    by_cases hd : d.start = InvalidByteCount
    · rw [if_pos hd, ih]
      simp [CutsLoop.cons, hd]
    · rw [if_neg hd, if_pos Option.isSome_some]
      simp [hd]

/-- The loop at the first cut with data: a frame of `n` bytes from its start, and the cut
shortened by them, or without data once they are all sent. -/
theorem sendCuts_first {writeBuf : List UInt8} {maxLen m : ℤ} {c : ClientHelloCut}
    (post : List ClientHelloCut) (hc : c.start ≠ InvalidByteCount)
    (hm : (CryptoFrame.mk c.start []).MaxDataLen maxLen = some m)
    (hn : 0 < min m (c.«end» - c.start)) {data : List UInt8}
    (hdata : goSlice writeBuf c.start (c.start + min m (c.«end» - c.start)) = some data) :
    sendCuts writeBuf maxLen (c :: post) false none =
      some (.done
        ((if c.start + min m (c.«end» - c.start) = c.«end» then invalidCut
          else { c with start := c.start + min m (c.«end» - c.start) }) :: post)
        (!(decide (c.start + min m (c.«end» - c.start) = c.«end»)) ||
          post.any fun d => d.start ≠ InvalidByteCount)
        (some ⟨c.start, data⟩)) := by
  rw [sendCuts.eq_2, if_neg hc, if_neg (by simp), hm]
  dsimp only
  rw [if_neg (by omega), hdata]
  dsimp only
  by_cases hend : c.start + min m (c.«end» - c.start) = c.«end»
  · rw [if_pos hend, sendCuts_of_frame, if_pos hend]
    simp [CutsLoop.cons, hend]
  · rw [if_neg hend, sendCuts_of_frame, if_neg hend]
    simp [CutsLoop.cons, hend]

end SendCuts

/-- The first cut with data, after the cuts without. -/
theorem exists_first_valid {cuts : List ClientHelloCut}
    (h : ∃ c ∈ cuts, c.start ≠ InvalidByteCount) :
    ∃ pre c post, cuts = pre ++ c :: post ∧ (∀ d ∈ pre, d.start = InvalidByteCount) ∧
      c.start ≠ InvalidByteCount := by
  induction cuts with
  | nil => simp at h
  | cons d cuts ih =>
    by_cases hd : d.start = InvalidByteCount
    · obtain ⟨pre, c, post, rfl, hpre, hc⟩ := ih (by
        obtain ⟨c, hc, hcv⟩ := h
        rcases List.mem_cons.mp hc with rfl | hc
        · exact absurd hd hcv
        · exact ⟨c, hc, hcv⟩)
      refine ⟨d :: pre, c, post, rfl, ?_, hc⟩
      intro d' hd'
      rcases List.mem_cons.mp hd' with rfl | hd'
      · exact hd
      · exact hpre d' hd'
    · exact ⟨[], d, cuts, rfl, by simp, hd⟩

/-- `nextCut`: no cut, or a cut with data that starts after `writeOffset`. -/
theorem nextCutAfter_spec (writeOffset : ℤ) (cuts : List ClientHelloCut) :
    nextCutAfter writeOffset cuts = invalidCut ∨
      nextCutAfter writeOffset cuts ∈ cuts ∧
        (nextCutAfter writeOffset cuts).start ≠ InvalidByteCount ∧
        writeOffset < (nextCutAfter writeOffset cuts).start := by
  induction cuts with
  | nil => exact .inl rfl
  | cons c cs ih =>
    unfold nextCutAfter
    by_cases hc : c.start ≠ InvalidByteCount ∧ c.start > writeOffset
    · rw [if_pos hc]
      exact .inr ⟨by simp, hc.1, hc.2⟩
    · rw [if_neg hc]
      rcases ih with h | ⟨hmem, hv, hlt⟩
      · exact .inl h
      · exact .inr ⟨List.mem_cons_of_mem c hmem, hv, hlt⟩

/-! ## The two phases -/

/-- The frames `fs` cover `x` once `r` is added. -/
theorem covers_append_toList {fs : List CryptoFrame} {r : Option CryptoFrame} {x : ℤ} :
    Covers (fs ++ r.toList) x ↔ Covers fs x ∨ ∃ f ∈ r, InFrame f x := by
  cases r with
  | none => simp
  | some f => simp [Covers, or_comm]

/-- The stream while it scrambles the first `end` bytes of the data `W`, having sent the frames
`fs`, from the cuts `cuts0` `Write` made. -/
structure Scrambling (W : List UInt8) (cuts0 : List ClientHelloCut) (fs : List CryptoFrame)
    (s : InitialCryptoStream) : Prop where
  scramble : s.scramble = true
  writeBuf : s.writeBuf = W
  offset_nonneg : 0 ≤ s.writeOffset
  offset_le : s.writeOffset ≤ s.«end»
  end_le : s.«end» ≤ W.length
  cuts_length : s.cuts.length = 2
  cuts_wf : ∀ c ∈ s.cuts, CutWf s.«end» c
  cuts_sub : ∀ c ∈ s.cuts, c.start ≠ InvalidByteCount →
    ∃ c0 ∈ cuts0, c0.start ≠ InvalidByteCount ∧ c0.start ≤ c.start ∧ c.«end» = c0.«end»
  has_cut : ∃ c ∈ s.cuts, c.start ≠ InvalidByteCount
  first_cut : s.writeOffset = 0 → s.cuts[0]!.start ≠ InvalidByteCount
  -- what is not covered is still to be sent: before `end`, in a cut, or after `end`
  covered : ∀ x : ℤ, 0 ≤ x → x < W.length →
    Covers fs x ∨ (s.writeOffset ≤ x ∧ x < s.«end») ∨ InCuts s.cuts x ∨ s.«end» ≤ x
  below : ∀ f ∈ fs, f.Offset + f.Data.length ≤ s.writeOffset

/-- The stream once the cuts are sent, or when it does not scramble: it sends the data `W`
after `writeOffset`, having sent the frames `fs`. -/
structure Sending (W : List UInt8) (fs : List CryptoFrame) (s : InitialCryptoStream) : Prop where
  scramble : s.scramble = false
  offset_nonneg : 0 ≤ s.writeOffset
  offset_le : s.writeOffset ≤ W.length
  writeBuf : s.writeBuf = W.drop s.writeOffset.toNat
  covered : ∀ x : ℤ, 0 ≤ x → x < s.writeOffset → Covers fs x
  below : ∀ f ∈ fs, f.Offset + f.Data.length ≤ s.writeOffset

/-- The invariant of the stream over a run of `PopCryptoFrame` calls. -/
def Inv (W : List UInt8) (cuts0 : List ClientHelloCut) (fs : List CryptoFrame)
    (s : InitialCryptoStream) : Prop :=
  Scrambling W cuts0 fs s ∨ Sending W fs s

/-- Two frames overlap only in one of the cuts. -/
def OverlapInCuts (cuts0 : List ClientHelloCut) (f g : CryptoFrame) : Prop :=
  ∀ x, InFrame f x → InFrame g x → InCuts cuts0 x

/-- The bytes still to send, counting a byte of a cut that was also sent before `end` twice. -/
def potential (s : InitialCryptoStream) : ℕ :=
  if s.scramble then
    (s.«end» - s.writeOffset).toNat + (s.cuts.map cutLen).sum +
      (s.writeBuf.length - s.«end»).toNat
  else s.writeBuf.length

/-- What a call of `PopCryptoFrame` with `maxLen` does from a state with the invariant: the
invariant holds after it, a frame it returns is right and overlaps no earlier one outside the
cuts, and it takes a byte off the data still to send, unless `HasData` is false, in which case
it does nothing. -/
def PopOk (W : List UInt8) (cuts0 : List ClientHelloCut) (maxLen : ℤ) (fs : List CryptoFrame)
    (s s' : InitialCryptoStream) (r : Option CryptoFrame) : Prop :=
  Inv W cuts0 (fs ++ r.toList) s' ∧
    (∀ f ∈ r, FrameOk W maxLen f ∧ ∀ g ∈ fs, OverlapInCuts cuts0 g f) ∧
    (s.HasData = true → potential s' < potential s) ∧
    (s.HasData = false → s' = s ∧ r = none)

section Phases

variable {W : List UInt8} {cuts0 : List ClientHelloCut} {fs : List CryptoFrame}
  {s : InitialCryptoStream} {maxLen : ℤ}

/-- A frame at `writeOffset` overlaps no frame sent before it. -/
theorem overlapInCuts_of_below (hbelow : ∀ g ∈ fs, g.Offset + g.Data.length ≤ s.writeOffset)
    {f : CryptoFrame} (hf : s.writeOffset ≤ f.Offset) : ∀ g ∈ fs, OverlapInCuts cuts0 g f := by
  intro g hg x hgx hfx
  have := hbelow g hg
  unfold InFrame at hgx hfx
  omega

theorem Sending.hasData (h : Sending W fs s) : s.HasData = decide (s.writeBuf ≠ []) := by
  unfold InitialCryptoStream.HasData
  rw [if_neg (by simp [h.scramble])]
  cases hb : s.writeBuf with
  | nil => simp
  | cons b bs => simp

/-- The base stream sends as much of the data after `writeOffset` as fits. -/
theorem Sending.pop (h : Sending W fs s) (hok : MaxLenOk W maxLen) :
    ∃ s' r, s.PopCryptoFrame maxLen = some (s', r) ∧ PopOk W cuts0 maxLen fs s s' r := by
  have h0 := h.offset_nonneg
  have hle := h.offset_le
  obtain ⟨m, hm, hm1, -⟩ := hok.maxDataLen h0 hle
  have hpop : s.PopCryptoFrame maxLen = s.basePopCryptoFrame maxLen := by
    unfold InitialCryptoStream.PopCryptoFrame
    rw [h.scramble]
    rfl
  have hlen : (s.writeBuf.length : ℤ) = W.length - s.writeOffset := by
    rw [h.writeBuf, List.length_drop]
    omega
  rw [hpop]
  unfold InitialCryptoStream.basePopCryptoFrame
  rw [hm, Option.map_some]
  by_cases hempty : s.writeBuf = []
  · -- nothing left to send: no frame, and the stream as it was
    have hn : min m (s.writeBuf.length : ℤ) ≤ 0 := by
      rw [hempty, List.length_nil]
      omega
    rw [if_pos hn]
    refine ⟨s, none, rfl, .inr (by simpa using h), by simp, ?_, fun _ => ⟨rfl, rfl⟩⟩
    rw [h.hasData, hempty]
    simp
  · have hn : 1 ≤ min m (s.writeBuf.length : ℤ) := by
      have : 0 < s.writeBuf.length := List.length_pos_iff.mpr hempty
      omega
    rw [if_neg (by omega)]
    refine ⟨_, _, rfl, .inr ⟨h.scramble, by dsimp only; omega, by dsimp only; omega, ?_, ?_, ?_⟩,
      ?_, ?_, ?_⟩
    · -- the buffer is the data after the new `writeOffset`
      dsimp only
      rw [h.writeBuf, List.drop_drop]
      congr 1
      omega
    · intro x hx0 hx
      dsimp only at hx
      rw [covers_append_toList]
      by_cases hxo : x < s.writeOffset
      · exact .inl (h.covered x hx0 hxo)
      · refine .inr ⟨_, rfl, ?_⟩
        simp only [InFrame, List.length_take]
        omega
    · intro f hf
      rw [List.mem_append] at hf
      rcases hf with hf | hf
      · have := h.below f hf
        dsimp only
        omega
      · simp only [Option.toList_some, List.mem_singleton] at hf
        subst hf
        simp only [List.length_take]
        omega
    · intro f hf
      simp only [Option.mem_def, Option.some.injEq] at hf
      subst hf
      have hdata : s.writeBuf.take (min m (s.writeBuf.length : ℤ)).toNat =
          slice W s.writeOffset.toNat (min m (s.writeBuf.length : ℤ)).toNat := by
        rw [h.writeBuf]
        rfl
      rw [hdata]
      refine ⟨frameOk_slice hok h.offset_nonneg (by omega) (by omega) hm (by omega), ?_⟩
      exact overlapInCuts_of_below h.below (Int.le_refl _)
    · intro _
      simp only [potential, h.scramble, Bool.false_eq_true, if_false, List.length_drop]
      omega
    · intro hd
      rw [h.hasData] at hd
      simp [hempty] at hd

/-- A cut with data lies in the first `e` bytes. -/
theorem CutWf.bounds {e : ℤ} {c : ClientHelloCut} (h : CutWf e c)
    (hc : c.start ≠ InvalidByteCount) : 0 ≤ c.start ∧ c.start < c.«end» ∧ c.«end» ≤ e := by
  rcases h with rfl | h
  · exact absurd rfl hc
  · exact h

theorem Scrambling.end_pos (h : Scrambling W cuts0 fs s) : 0 < s.«end» := by
  obtain ⟨c, hc, hcv⟩ := h.has_cut
  have := (h.cuts_wf c hc).bounds hcv
  omega

/-- While it scrambles, the stream has data. -/
theorem Scrambling.hasData (h : Scrambling W cuts0 fs s) : s.HasData = true := by
  have hend := h.end_pos
  have hW := h.end_le
  unfold InitialCryptoStream.HasData
  rw [if_neg, h.writeBuf]
  · simp only [decide_eq_true_eq]
    omega
  · rintro ⟨-, h0, hcut⟩
    exact h.first_cut h0 hcut

/-- Before `end`, the stream sends up to the next cut or to `end`, and jumps over the cut when
it reaches its start. -/
theorem Scrambling.pop_normal (h : Scrambling W cuts0 fs s) (hok : MaxLenOk W maxLen)
    (hlt : s.writeOffset < s.«end») :
    ∃ s' r, s.PopCryptoFrame maxLen = some (s', r) ∧ PopOk W cuts0 maxLen fs s s' r := by
  have h0 := h.offset_nonneg
  have hend := h.end_le
  obtain ⟨m, hm, hm1, -⟩ := hok.maxDataLen h0 (by omega)
  -- the next cut: none, or one with data after `writeOffset`
  obtain ⟨nc, hnc, hncs⟩ : ∃ nc, nextCutAfter s.writeOffset s.cuts = nc ∧
      (nc = invalidCut ∨ nc ∈ s.cuts ∧ nc.start ≠ InvalidByteCount ∧ s.writeOffset < nc.start) :=
    ⟨_, rfl, nextCutAfter_spec _ _⟩
  -- the frame ends at the next cut or at `end`
  obtain ⟨maxOffset, hmo, hmo1, hmo2⟩ : ∃ maxOffset,
      (if nc.start = InvalidByteCount then s.«end» else nc.start) = maxOffset ∧
        s.writeOffset < maxOffset ∧ maxOffset ≤ s.«end» := by
    rcases hncs with rfl | ⟨hmem, hv, hgt⟩
    · exact ⟨_, if_pos rfl, hlt, Int.le_refl _⟩
    · have := (h.cuts_wf nc hmem).bounds hv
      exact ⟨_, if_neg hv, hgt, by omega⟩
  have hn1 : 1 ≤ min m (maxOffset - s.writeOffset) := by omega
  have hnW : s.writeOffset + min m (maxOffset - s.writeOffset) ≤ W.length := by omega
  have hsub : s.writeOffset + min m (maxOffset - s.writeOffset) - s.writeOffset =
      min m (maxOffset - s.writeOffset) := by omega
  -- the offset after the frame, past the next cut if the frame ends at its start
  obtain ⟨wo', hwo', hwo1, hwo2, hwoCut⟩ : ∃ wo',
      (if s.writeOffset + min m (maxOffset - s.writeOffset) = nc.start then nc.«end»
        else s.writeOffset + min m (maxOffset - s.writeOffset)) = wo' ∧
      s.writeOffset + min m (maxOffset - s.writeOffset) ≤ wo' ∧ wo' ≤ s.«end» ∧
      ∀ x, s.writeOffset + min m (maxOffset - s.writeOffset) ≤ x → x < wo' → InCuts s.cuts x := by
    by_cases hj : s.writeOffset + min m (maxOffset - s.writeOffset) = nc.start
    · rcases hncs with rfl | ⟨hmem, hv, hgt⟩
      · simp only [invalidCut, InvalidByteCount] at hj
        omega
      have hb := (h.cuts_wf nc hmem).bounds hv
      refine ⟨_, if_pos hj, by omega, by omega, fun x hx1 hx2 => ⟨nc, hmem, hv, by omega, hx2⟩⟩
    · exact ⟨_, if_neg hj, Int.le_refl _, by omega, fun x hx1 hx2 => by omega⟩
  have hpop : s.PopCryptoFrame maxLen = some ({ s with writeOffset := wo' },
      some ⟨s.writeOffset, slice W s.writeOffset.toNat
        (min m (maxOffset - s.writeOffset)).toNat⟩) := by
    unfold InitialCryptoStream.PopCryptoFrame
    rw [h.scramble, if_neg (by simp), if_neg (by omega)]
    dsimp only
    rw [hnc, hmo, hm]
    dsimp only
    rw [if_neg (by omega), h.writeBuf, goSlice_eq h0 (by omega) hnW, hsub, Option.map_some, hwo']
  refine ⟨_, _, hpop, .inl ⟨h.scramble, h.writeBuf, by dsimp only; omega, hwo2, hend,
    h.cuts_length, h.cuts_wf, h.cuts_sub, h.has_cut, fun h0' => by dsimp only at h0'; omega,
    ?_, ?_⟩, ?_, ?_, fun hd => absurd h.hasData (by simp [hd])⟩
  · -- the frame covers what it sends; a jump passes over a cut
    intro x hx0 hxW
    rw [covers_append_toList]
    rcases h.covered x hx0 hxW with hc | ⟨hx1, hx2⟩ | hc | hc
    · exact .inl (.inl hc)
    · by_cases hxf : x < s.writeOffset + min m (maxOffset - s.writeOffset)
      · refine .inl (.inr ⟨_, rfl, ?_⟩)
        simp only [InFrame, length_slice (by omega : s.writeOffset.toNat +
          (min m (maxOffset - s.writeOffset)).toNat ≤ W.length)]
        omega
      · by_cases hxj : x < wo'
        · exact .inr (.inr (.inl (hwoCut x (by omega) hxj)))
        · exact .inr (.inl ⟨by dsimp only; omega, hx2⟩)
    · exact .inr (.inr (.inl hc))
    · exact .inr (.inr (.inr hc))
  · intro f hf
    rw [List.mem_append] at hf
    rcases hf with hf | hf
    · have := h.below f hf
      dsimp only
      omega
    · simp only [Option.toList_some, List.mem_singleton] at hf
      subst hf
      simp only [length_slice (by omega : s.writeOffset.toNat +
        (min m (maxOffset - s.writeOffset)).toNat ≤ W.length)]
      omega
  · intro f hf
    simp only [Option.mem_def, Option.some.injEq] at hf
    subst hf
    exact ⟨frameOk_slice hok h0 (by omega) hnW hm (by omega),
      overlapInCuts_of_below h.below (Int.le_refl _)⟩
  · intro _
    simp only [potential, h.scramble, if_true]
    omega

/-- Cuts without data have no bytes left to send. -/
theorem sum_cutLen_invalid {pre : List ClientHelloCut}
    (hpre : ∀ d ∈ pre, d.start = InvalidByteCount) : (pre.map cutLen).sum = 0 := by
  induction pre with
  | nil => rfl
  | cons d pre ih =>
    simp only [List.map_cons, List.sum_cons, cutLen, hpre d (by simp), if_true, Nat.zero_add]
    exact ih fun d' hd' => hpre d' (by simp [hd'])

/-- Once everything up to `end` is sent, the stream sends the first cut with data from its
start; with the last cut sent, it drops the ClientHello from the buffer and goes on as the base
stream. -/
theorem Scrambling.pop_cuts (h : Scrambling W cuts0 fs s) (hok : MaxLenOk W maxLen)
    (heq : s.writeOffset = s.«end») :
    ∃ s' r, s.PopCryptoFrame maxLen = some (s', r) ∧ PopOk W cuts0 maxLen fs s s' r := by
  have hend := h.end_le
  have hpos := h.end_pos
  obtain ⟨pre, c, post, hcuts, hpre, hc⟩ := exists_first_valid h.has_cut
  have hcmem : c ∈ s.cuts := by rw [hcuts]; simp
  have hb := (h.cuts_wf c hcmem).bounds hc
  obtain ⟨m, hm, hm1, -⟩ := hok.maxDataLen hb.1 (by omega)
  obtain ⟨n, hn⟩ : ∃ n, min m (c.«end» - c.start) = n := ⟨_, rfl⟩
  have hn1 : 1 ≤ n := by omega
  have hnc : c.start + n ≤ c.«end» := by omega
  have hslice : goSlice W c.start (c.start + n) = some (slice W c.start.toNat n.toNat) := by
    rw [goSlice_eq hb.1 (by omega) (by omega)]
    congr 2
    omega
  -- the cut after the frame: shortened, or without data once sent
  obtain ⟨c', hc'⟩ : ∃ c', (if c.start + n = c.«end» then invalidCut
      else { c with start := c.start + n }) = c' := ⟨_, rfl⟩
  have hc'len : cutLen c' + n.toNat = cutLen c := by
    have hcl : cutLen c = (c.«end» - c.start).toNat := if_neg hc
    rw [hcl]
    by_cases hfin : c.start + n = c.«end»
    · rw [if_pos hfin] at hc'
      subst hc'
      rw [cutLen_invalidCut]
      omega
    · rw [if_neg hfin] at hc'
      subst hc'
      rw [cutLen, if_neg (by dsimp only; simp only [InvalidByteCount]; omega)]
      dsimp only
      omega
  have hloop : sendCuts W maxLen s.cuts false none = some (.done (pre ++ c' :: post)
      (!(decide (c.start + n = c.«end»)) || post.any fun d => d.start ≠ InvalidByteCount)
      (some ⟨c.start, slice W c.start.toNat n.toNat⟩)) := by
    rw [hcuts, sendCuts_invalid_append pre _ hpre,
      sendCuts_first post hc hm (by omega) (by rw [hn]; exact hslice), Option.map_some,
      CutsLoop.foldr_cons_done, hn, hc']
  have hframe : FrameOk W maxLen ⟨c.start, slice W c.start.toNat n.toNat⟩ :=
    frameOk_slice hok hb.1 (by omega) (by omega) hm (by omega)
  have hflen : (slice W c.start.toNat n.toNat).length = n.toNat := length_slice (by omega)
  -- the frame lies in a cut `Write` made
  have hover : ∀ g ∈ fs, OverlapInCuts cuts0 g ⟨c.start, slice W c.start.toNat n.toNat⟩ := by
    intro g _ x _ hx
    obtain ⟨c0, hc0, hc0v, hc0s, hc0e⟩ := h.cuts_sub c hcmem hc
    obtain ⟨hx1, hx2⟩ := hx
    dsimp only at hx1 hx2
    rw [hflen] at hx2
    exact ⟨c0, hc0, hc0v, by omega, by omega⟩
  -- a byte of the cut is in the frame or still in the cut after it
  have hinc : ∀ x, InCut c x → InFrame ⟨c.start, slice W c.start.toNat n.toNat⟩ x ∨ InCut c' x := by
    intro x ⟨_, hx1, hx2⟩
    by_cases hxf : x < c.start + n
    · exact .inl ⟨hx1, by dsimp only; omega⟩
    · refine .inr ?_
      rw [← hc', if_neg (by omega)]
      exact ⟨by dsimp only; unfold InvalidByteCount; omega, by dsimp only; omega, hx2⟩
  have hsum : ((pre ++ c' :: post).map cutLen).sum + n.toNat = (s.cuts.map cutLen).sum := by
    rw [hcuts]
    simp only [List.map_append, List.map_cons, List.sum_append, List.sum_cons,
      sum_cutLen_invalid hpre]
    omega
  have hbelow : ∀ f ∈ fs ++ (some (⟨c.start, slice W c.start.toNat n.toNat⟩ : CryptoFrame)).toList,
      f.Offset + f.Data.length ≤ s.writeOffset := by
    intro f hf
    rw [List.mem_append] at hf
    rcases hf with hf | hf
    · exact h.below f hf
    · simp only [Option.toList_some, List.mem_singleton] at hf
      subst hf
      simp only [hflen]
      omega
  by_cases hfound : (!(decide (c.start + n = c.«end»)) ||
      post.any fun d => d.start ≠ InvalidByteCount) = true
  · -- a cut is left: the stream goes on scrambling
    have hpop : s.PopCryptoFrame maxLen = some ({ s with cuts := pre ++ c' :: post },
        some ⟨c.start, slice W c.start.toNat n.toNat⟩) := by
      unfold InitialCryptoStream.PopCryptoFrame
      rw [h.scramble, if_neg (by simp), if_pos heq, h.writeBuf, hloop]
      dsimp only
      rw [if_pos hfound]
    refine ⟨_, _, hpop, .inl ⟨h.scramble, h.writeBuf, h.offset_nonneg, h.offset_le, hend,
      ?_, ?_, ?_, ?_, fun h0 => by dsimp only at h0; omega, ?_, hbelow⟩,
      fun f hf => ?_, fun _ => ?_, fun hd => absurd h.hasData (by simp [hd])⟩
    · have := h.cuts_length
      rw [hcuts] at this
      simpa using this
    · -- the cuts stay well formed
      intro d hd
      simp only [List.mem_append, List.mem_cons] at hd
      rcases hd with hd | rfl | hd
      · exact h.cuts_wf d (by rw [hcuts]; simp [hd])
      · rw [← hc']
        split_ifs with hfin
        · exact .inl rfl
        · exact .inr ⟨by dsimp only; omega, by dsimp only; omega, hb.2.2⟩
      · exact h.cuts_wf d (by rw [hcuts]; simp [hd])
    · intro d hd hdv
      simp only [List.mem_append, List.mem_cons] at hd
      rcases hd with hd | rfl | hd
      · exact absurd (hpre d hd) hdv
      · rw [← hc'] at hdv ⊢
        split_ifs at hdv ⊢ with hfin
        · exact absurd rfl hdv
        · obtain ⟨c0, hc0, hc0v, hc0s, hc0e⟩ := h.cuts_sub c hcmem hc
          exact ⟨c0, hc0, hc0v, by dsimp only; omega, hc0e⟩
      · exact h.cuts_sub d (by rw [hcuts]; simp [hd]) hdv
    · -- the loop found a cut with data besides the one it sent from
      simp only [Bool.or_eq_true, Bool.not_eq_true', decide_eq_false_iff_not, List.any_eq_true,
        decide_eq_true_eq] at hfound
      rcases hfound with hfin | ⟨d, hd, hdv⟩
      · refine ⟨c', by simp, ?_⟩
        rw [← hc', if_neg hfin]
        dsimp only
        simp only [InvalidByteCount] at hc ⊢
        omega
      · exact ⟨d, by simp [hd], hdv⟩
    · intro x hx0 hxW
      rw [covers_append_toList]
      rcases h.covered x hx0 hxW with hcov | ⟨hx1, hx2⟩ | ⟨d, hd, hdx⟩ | hx
      · exact .inl (.inl hcov)
      · omega
      · rw [hcuts] at hd
        simp only [List.mem_append, List.mem_cons] at hd
        rcases hd with hd | rfl | hd
        · exact absurd (hpre d hd) hdx.1
        · rcases hinc x hdx with hf | hf
          · exact .inl (.inr ⟨_, rfl, hf⟩)
          · exact .inr (.inr (.inl ⟨c', by simp, hf⟩))
        · exact .inr (.inr (.inl ⟨d, by simp [hd], hdx⟩))
      · exact .inr (.inr (.inr hx))
    · simp only [Option.mem_def, Option.some.injEq] at hf
      subst hf
      exact ⟨hframe, hover⟩
    · simp only [potential, h.scramble, if_true]
      omega
  · -- the last cut is sent: the base stream goes on after `end`
    have hfin : c.start + n = c.«end» := by
      by_contra hne
      simp [hne] at hfound
    have hpost : ∀ d ∈ post, d.start = InvalidByteCount := by
      intro d hd
      by_contra hdv
      simp only [Bool.or_eq_true, List.any_eq_true, decide_eq_true_eq, not_or,
        not_exists, not_and] at hfound
      exact hfound.2 d hd hdv
    have hpop : s.PopCryptoFrame maxLen = some ({ s with
          cuts := pre ++ c' :: post
          writeBuf := W.drop s.«end».toNat
          «end» := InvalidByteCount
          scramble := false },
        some ⟨c.start, slice W c.start.toNat n.toNat⟩) := by
      unfold InitialCryptoStream.PopCryptoFrame
      rw [h.scramble, if_neg (by simp), if_pos heq, h.writeBuf, hloop]
      dsimp only
      rw [if_neg hfound, goSlice_eq (by omega) hend (Int.le_refl _), Option.map_some]
      congr 4
      rw [slice, List.take_of_length_le]
      simp only [List.length_drop]
      omega
    refine ⟨_, _, hpop, .inr ⟨rfl, h.offset_nonneg, by dsimp only; omega, by rw [heq],
      ?_, hbelow⟩, fun f hf => ?_, fun _ => ?_, fun hd => absurd h.hasData (by simp [hd])⟩
    · intro x hx0 hx
      dsimp only at hx
      rw [covers_append_toList]
      rcases h.covered x hx0 (by omega) with hcov | ⟨hx1, hx2⟩ | ⟨d, hd, hdx⟩ | hx'
      · exact .inl hcov
      · omega
      · rw [hcuts] at hd
        simp only [List.mem_append, List.mem_cons] at hd
        rcases hd with hd | rfl | hd
        · exact absurd (hpre d hd) hdx.1
        · rcases hinc x hdx with hf | hf
          · exact .inr ⟨_, rfl, hf⟩
          · rw [← hc', if_pos hfin] at hf
            exact absurd rfl hf.1
        · exact absurd (hpost d hd) hdx.1
      · omega
    · simp only [Option.mem_def, Option.some.injEq] at hf
      subst hf
      exact ⟨hframe, hover⟩
    · simp only [potential, h.scramble, if_true, Bool.false_eq_true, if_false, List.length_drop]
      rw [h.writeBuf]
      omega

/-- One call of `PopCryptoFrame` from a state with the invariant. -/
theorem Inv.pop (h : Inv W cuts0 fs s) (hok : MaxLenOk W maxLen) :
    ∃ s' r, s.PopCryptoFrame maxLen = some (s', r) ∧ PopOk W cuts0 maxLen fs s s' r := by
  rcases h with h | h
  · rcases Int.lt_or_eq_of_le h.offset_le with hlt | heq
    · exact h.pop_normal hok hlt
    · exact h.pop_cuts hok heq
  · exact h.pop hok

theorem cutLen_le_sum {c : ClientHelloCut} {cuts : List ClientHelloCut} (hc : c ∈ cuts) :
    cutLen c ≤ (cuts.map cutLen).sum := by
  induction cuts with
  | nil => simp at hc
  | cons d cuts ih =>
    simp only [List.map_cons, List.sum_cons]
    rcases List.mem_cons.mp hc with rfl | hc
    · omega
    · have := ih hc
      omega

/-- With nothing left to send, `HasData` is false. -/
theorem Inv.hasData_of_potential (h : Inv W cuts0 fs s) (hp : potential s = 0) :
    s.HasData = false := by
  rcases h with h | h
  · -- a scrambling stream has a cut with bytes left
    obtain ⟨c, hc, hcv⟩ := h.has_cut
    have hb := (h.cuts_wf c hc).bounds hcv
    have hle := cutLen_le_sum hc
    have hcl : cutLen c = (c.«end» - c.start).toNat := if_neg hcv
    simp only [potential, h.scramble, if_true] at hp
    omega
  · simp only [potential, h.scramble, Bool.false_eq_true, if_false, List.length_eq_zero_iff] at hp
    rw [h.hasData, hp]
    simp

/-- Once `HasData` is false, every byte of the data has been sent. -/
theorem Inv.covers_of_hasData (h : Inv W cuts0 fs s) (hd : s.HasData = false) :
    ∀ x : ℤ, 0 ≤ x → x < W.length → Covers fs x := by
  rcases h with h | h
  · exact absurd h.hasData (by simp [hd])
  · intro x hx0 hx
    rw [h.hasData] at hd
    have hempty : s.writeBuf = [] := by simpa using hd
    rw [h.writeBuf, List.drop_eq_nil_iff] at hempty
    exact h.covered x hx0 (by omega)

/-- **Runs of `PopCryptoFrame`.** From a state with the invariant, every run of calls with sizes
that `MaxLenOk` allows succeeds; the invariant holds after it, each frame it returns is right
and overlaps the earlier ones only in a cut; a run that starts with `HasData` false ends so,
and so does a run with at least as many calls as there are bytes left to send. -/
theorem Inv.run (h : Inv W cuts0 fs s) (hfs : fs.Pairwise (OverlapInCuts cuts0)) (mls : List ℤ)
    (hml : ∀ ml ∈ mls, MaxLenOk W ml) :
    ∃ s' outs, Machine.run InitialCryptoStream.PopCryptoFrame s mls = some (s', outs) ∧
      Inv W cuts0 (fs ++ outs.filterMap id) s' ∧
      (fs ++ outs.filterMap id).Pairwise (OverlapInCuts cuts0) ∧
      List.Forall₂ (fun ml o => ∀ f ∈ o, FrameOk W ml f) mls outs ∧
      (s.HasData = false → s'.HasData = false) ∧
      (potential s ≤ mls.length → s'.HasData = false) := by
  induction mls generalizing s fs with
  | nil =>
    refine ⟨s, [], rfl, by simpa using h, by simpa using hfs, .nil, id, fun hp => ?_⟩
    exact h.hasData_of_potential (by simpa using hp)
  | cons ml mls ih =>
    obtain ⟨s₁, r, hstep, hinv, hr, hdec, hstay⟩ := h.pop (hml ml (by simp))
    -- the frame of the first call overlaps the earlier ones only in a cut
    have hfs₁ : (fs ++ r.toList).Pairwise (OverlapInCuts cuts0) := by
      rw [List.pairwise_append]
      refine ⟨hfs, ?_, fun g hg f hf => (hr f (Option.mem_toList.mp hf)).2 g hg⟩
      cases r <;> simp
    obtain ⟨s', outs, hrun, hinv', hpw, hfa, hstay', hterm⟩ :=
      ih hinv hfs₁ fun ml' h' => hml ml' (by simp [h'])
    have hflat : fs ++ (r :: outs).filterMap id = fs ++ r.toList ++ outs.filterMap id := by
      cases r <;> simp
    refine ⟨s', r :: outs, Machine.run_cons_of hstep hrun, by rw [hflat]; exact hinv',
      by rw [hflat]; exact hpw, .cons (fun f hf => (hr f hf).1) hfa, ?_, fun hp => ?_⟩
    · intro hd
      obtain ⟨rfl, rfl⟩ := hstay hd
      exact hstay' hd
    · by_cases hd : s.HasData = true
      · -- the first call takes a byte off what is left
        have := hdec hd
        simp only [List.length_cons] at hp
        exact hterm (by omega)
      · have hd' : s.HasData = false := by simpa using hd
        obtain ⟨rfl, rfl⟩ := hstay hd'
        exact hstay' hd'

end Phases

end CryptoStream

end QuicGo
