import QuicGo.CryptoStream.Scrambling

/-!
# QuicGo — writing the ClientHello and sending it (`crypto_stream.go`)

`Write` parses the buffer as a ClientHello until it finds the cuts. Written in any number of
parts, the ClientHello `M` is parsed only once it is whole: a proper prefix is
`io.ErrUnexpectedEOF`, and the stream waits (`run_Write_clientHello`). Once the cuts are found,
or scrambling is off, `Write` only appends (`run_Write_append_only`).

`clientHello_scrambling` puts this together with the run of `PopCryptoFrame` calls of
`Scrambling`: for a ClientHello whose first cut has data, or one with neither SNI nor ECH, the
stream sends every byte written, as the claim about scrambling asks.

A ClientHello with an ECH extension and without an SNI host name is different: `findSNIAndECH`
returns `-1` for the SNI position and `0` for its length, so the first cut is
`[-1 + 0, -1 + 0)`, both ends `InvalidByteCount`. After the sort it is still `cuts[0]`, and
`HasData` reads `cuts[0].start == InvalidByteCount` as "the ClientHello is not complete yet":
it stays false after every later `Write`, and the packer, which pops CRYPTO frames only while
`HasData` holds, never sends the ClientHello (`echOnly_clientHello_not_sent`).
-/

namespace QuicGo

namespace CryptoStream

open Wire

/-- `Write` as a call of the stream: it never panics, and returns its error. -/
def writeCall (s : InitialCryptoStream) (p : List UInt8) :
    Option (InitialCryptoStream × Option Wire.Error) :=
  some (s.Write p)

/-- The client's stream before its cuts are found, with the bytes `P` written. -/
def waiting (P : List UInt8) : InitialCryptoStream := ⟨0, P, true, 0, [invalidCut, invalidCut]⟩

theorem newInitialCryptoStream_cases (isClient : Bool) (disabled : Option Bool) :
    newInitialCryptoStream isClient disabled = waiting [] ∨
      newInitialCryptoStream isClient disabled =
        { waiting [] with scramble := false } := by
  unfold newInitialCryptoStream waiting
  cases isClient <;> rcases disabled with _ | _ | _ <;> simp

theorem sortFunc_pair {α : Type*} (cmp : α → α → ℤ) (a b : α) :
    sortFunc cmp [a, b] = if cmp b a < 0 then [b, a] else [a, b] := by
  simp only [sortFunc, List.foldl, insertLeft]
  split_ifs <;> rfl

/-! ## What `Write` does -/

section Write

variable {s : InitialCryptoStream}

/-- `Write` appends to the write buffer, whatever else it does. -/
theorem Write_writeBuf (p : List UInt8) : (s.Write p).1.writeBuf = s.writeBuf ++ p := by
  unfold InitialCryptoStream.Write
  dsimp only
  split_ifs
  · rfl
  · split
    · rfl
    · rfl
    · split_ifs <;> rfl
  · rfl

/-- Without scrambling, or once the cuts are found, `Write` appends. -/
theorem Write_append_only (h : s.scramble = false ∨ s.cuts[0]!.start ≠ InvalidByteCount)
    (p : List UInt8) : s.Write p = ({ s with writeBuf := s.writeBuf ++ p }, none) := by
  unfold InitialCryptoStream.Write
  rcases h with h | h
  · simp [h]
  · dsimp only
    rw [if_neg h]
    split <;> rfl

/-- While the buffer is an incomplete ClientHello, `Write` appends. -/
theorem Write_of_EOF (hs : s.scramble = true) (hc : s.cuts[0]!.start = InvalidByteCount)
    {p : List UInt8} (hf : findSNIAndECH (s.writeBuf ++ p) = .error .ErrUnexpectedEOF) :
    s.Write p = ({ s with writeBuf := s.writeBuf ++ p }, none) := by
  unfold InitialCryptoStream.Write
  simp only [hs, Bool.not_true, Bool.false_eq_true, if_false]
  rw [if_pos hc, hf]

theorem run_Write_append_only (h : s.scramble = false ∨ s.cuts[0]!.start ≠ InvalidByteCount)
    (qs : List (List UInt8)) :
    Machine.run writeCall s qs =
      some ({ s with writeBuf := s.writeBuf ++ qs.flatten }, qs.map fun _ => none) := by
  induction qs generalizing s with
  | nil => simp
  | cons q qs ih =>
    have hq : writeCall s q = some ({ s with writeBuf := s.writeBuf ++ q }, none) := by
      rw [writeCall, Write_append_only h]
    rw [Machine.run_cons_of hq (ih h)]
    simp

/-- A `Write` to the waiting stream is one of nothing to the stream with all bytes written. -/
theorem Write_waiting (P p : List UInt8) : (waiting P).Write p = (waiting (P ++ p)).Write [] := by
  unfold InitialCryptoStream.Write
  simp [waiting]

/-- A `Write` that completes the ClientHello returns no error. -/
theorem Write_waiting_snd {M : List UInt8} {r : ℤ × ℕ × ℤ} (hM : findSNIAndECH M = .ok r) :
    ((waiting M).Write []).2 = none := by
  obtain ⟨sniPos, sniLen, echPos⟩ := r
  unfold InitialCryptoStream.Write
  simp only [waiting, List.append_nil, Bool.not_true, Bool.false_eq_true, if_false]
  simp only [List.getElem!_cons_zero, invalidCut, if_true, hM]
  split_ifs <;> rfl

/-- Written in parts, the ClientHello is parsed once it is whole: the stream waits until then,
and ends as a `Write` of the whole ClientHello leaves it. -/
theorem run_Write_clientHello {M : List UInt8} {r : ℤ × ℕ × ℤ} (hM : findSNIAndECH M = .ok r)
    (hdone : ((waiting M).Write []).1.scramble = false ∨
      ((waiting M).Write []).1.cuts[0]!.start ≠ InvalidByteCount) :
    ∀ (ps : List (List UInt8)) (P : List UInt8), P ++ ps.flatten = M → P.length < M.length →
      Machine.run writeCall (waiting P) ps =
        some (((waiting M).Write []).1, ps.map fun _ => none) := by
  have hlast : (waiting M).Write [] = (((waiting M).Write []).1, none) :=
    Prod.ext rfl (Write_waiting_snd hM)
  intro ps
  induction ps with
  | nil =>
    intro P hP hlt
    simp only [List.flatten_nil, List.append_nil] at hP
    subst hP
    exact absurd hlt (Nat.lt_irrefl _)
  | cons p ps ih =>
    intro P hP hlt
    have hPp : P ++ p ++ ps.flatten = M := by simpa using hP
    by_cases hshort : (P ++ p).length < M.length
    · -- still a proper prefix: `findSNIAndECH` waits for more
      have hf : findSNIAndECH (P ++ p) = .error .ErrUnexpectedEOF := by
        have htake : M.take (P ++ p).length = P ++ p := by rw [← hPp, List.take_left]
        rw [← htake]
        exact findSNIAndECH_take hM hshort
      have hq : writeCall (waiting P) p = some (waiting (P ++ p), none) := by
        rw [writeCall, Write_of_EOF rfl rfl hf]
        rfl
      rw [Machine.run_cons_of hq (ih _ hPp hshort)]
      rfl
    · -- the ClientHello is whole; what is written after this part is empty
      have hM' : P ++ p = M := by
        have := congrArg List.length hPp
        simp only [List.length_append] at this hshort
        have hnil : ps.flatten = [] := List.eq_nil_of_length_eq_zero (by omega)
        rw [hnil, List.append_nil] at hPp
        exact hPp
      have hnil : ps.flatten = [] := by
        rw [← hM'] at hPp
        simpa using hPp
      have hq : writeCall (waiting P) p = some (((waiting M).Write []).1, none) := by
        rw [writeCall, Write_waiting, hM', hlast]
      rw [Machine.run_cons_of hq (run_Write_append_only hdone ps), hnil]
      simp

end Write

/-! ## The stream once the ClientHello is written -/

/-- The cuts `Write` makes from the positions `findSNIAndECH` found in `M`. -/
theorem Write_waiting_clientHello {M : List UInt8} {sniPos : ℤ} {sniLen : ℕ} {echPos : ℤ}
    (hM : findSNIAndECH M = .ok (sniPos, sniLen, echPos)) (hfound : ¬ (sniPos = -1 ∧ echPos = -1)) :
    ((waiting M).Write []).1 = { waiting M with
      «end» := M.length
      cuts := sortFunc cutCmp
        [⟨sniPos + (sniLen / 2 : ℕ), sniPos + sniLen⟩,
          if echPos > 0 then ⟨echPos + 1, min (echPos + 1 + 16) M.length⟩ else invalidCut] } := by
  unfold InitialCryptoStream.Write
  simp only [waiting, List.append_nil, Bool.not_true, Bool.false_eq_true, if_false]
  simp only [List.getElem!_cons_zero, invalidCut, if_true, hM]
  rw [if_neg hfound]
  by_cases hech : echPos > 0
  · simp [hech]
  · simp [hech]

/-! ## The two cuts, sorted -/

theorem sortFunc_pair_cases {α : Type*} (cmp : α → α → ℤ) (a b : α) :
    sortFunc cmp [a, b] = [a, b] ∨ sortFunc cmp [a, b] = [b, a] := by
  rw [sortFunc_pair]
  split_ifs
  · exact .inr rfl
  · exact .inl rfl

/-- A cut with data sorts before one without: the first cut after the sort has data. -/
theorem sortFunc_cutCmp_first {a b : ClientHelloCut} (ha : a.start ≠ InvalidByteCount) :
    (sortFunc cutCmp [a, b])[0]!.start ≠ InvalidByteCount := by
  rw [sortFunc_pair]
  split_ifs with hlt
  · -- swapped: `b` compares below `a`, which a cut without data never does
    rw [List.getElem!_cons_zero]
    intro hb
    simp [cutCmp, hb] at hlt
  · rwa [List.getElem!_cons_zero]

theorem CutWf.cutLen_le {e : ℤ} {c : ClientHelloCut} (h : CutWf e c) : (cutLen c : ℤ) ≤ e ∨
    cutLen c = 0 := by
  unfold cutLen
  rcases h with rfl | h
  · exact .inr (by simp [invalidCut])
  · left
    split_ifs <;> omega

/-- The stream as `Write` leaves it when it finds the cuts `a` and `b` in a ClientHello of `e`
bytes, with the data `W` written: it scrambles, and nothing is sent yet. -/
theorem scrambling_of_cuts {W : List UInt8} {e : ℤ} {a b : ClientHelloCut} (he : 0 ≤ e)
    (heW : e ≤ W.length) (hwa : CutWf e a) (ha : a.start ≠ InvalidByteCount) (hwb : CutWf e b) :
    Scrambling W (sortFunc cutCmp [a, b]) [] ⟨0, W, true, e, sortFunc cutCmp [a, b]⟩ ∧
      potential ⟨0, W, true, e, sortFunc cutCmp [a, b]⟩ ≤ 3 * W.length := by
  have hmem : ∀ c ∈ sortFunc cutCmp [a, b], c = a ∨ c = b := by
    intro c hc
    rcases sortFunc_pair_cases cutCmp a b with h | h <;> rw [h] at hc <;> simp at hc <;> tauto
  refine ⟨{
    scramble := rfl
    writeBuf := rfl
    offset_nonneg := Int.le_refl 0
    offset_le := he
    end_le := heW
    cuts_length := ?_
    cuts_wf := ?_
    cuts_sub := ?_
    has_cut := ?_
    first_cut := fun _ => sortFunc_cutCmp_first ha
    covered := ?_
    below := by simp }, ?_⟩
  · rcases sortFunc_pair_cases cutCmp a b with h | h <;> rw [h] <;> rfl
  · intro c hc
    rcases hmem c hc with rfl | rfl
    · exact hwa
    · exact hwb
  · intro c hc hcv
    exact ⟨c, hc, hcv, Int.le_refl _, rfl⟩
  · refine ⟨a, ?_, ha⟩
    rcases sortFunc_pair_cases cutCmp a b with h | h <;> rw [h] <;> simp
  · -- before anything is sent, everything up to `end` is still to send
    intro x hx0 hx
    by_cases hxe : x < e
    · exact .inr (.inl ⟨hx0, hxe⟩)
    · exact .inr (.inr (.inr (show e ≤ x by omega)))
  · -- each cut is at most `e` bytes long
    have hsum : (((sortFunc cutCmp [a, b]).map cutLen).sum : ℤ) = cutLen a + cutLen b := by
      rcases sortFunc_pair_cases cutCmp a b with h | h
      · rw [h]
        simp
      · rw [h]
        simp only [List.map_cons, List.map_nil, List.sum_cons, List.sum_nil]
        omega
    have hla := hwa.cutLen_le
    have hlb := hwb.cutLen_le
    unfold potential
    rw [if_pos rfl]
    dsimp only
    omega

/-- After the ClientHello `M` and the data after it, the stream has the invariant for the data,
from the cuts `Write` made, with no frame sent; and at most three times as many bytes as the
data has are left to send, a cut's bytes counted again. -/
theorem inv_of_clientHello {M : List UInt8} (rest : List UInt8) {sniPos : ℤ} {sniLen : ℕ}
    {echPos : ℤ} (hM : findSNIAndECH M = .ok (sniPos, sniLen, echPos))
    (hcut : sniPos = -1 ∧ echPos = -1 ∨ 0 ≤ sniPos + (sniLen / 2 : ℕ) ∧ 0 < sniLen) :
    let s := { ((waiting M).Write []).1 with writeBuf := M ++ rest }
    Inv (M ++ rest) s.cuts [] s ∧ potential s ≤ 3 * (M ++ rest).length ∧
      (((waiting M).Write []).1.scramble = false ∨
        ((waiting M).Write []).1.cuts[0]!.start ≠ InvalidByteCount) := by
  have hf := findSNIAndECH_found hM
  by_cases hnone : sniPos = -1 ∧ echPos = -1
  · -- neither SNI nor ECH: the stream does not scramble
    have hw : ((waiting M).Write []).1 = ⟨0, M, false, 0, [invalidCut, invalidCut]⟩ := by
      unfold InitialCryptoStream.Write
      simp only [waiting, List.append_nil, Bool.not_true, Bool.false_eq_true, if_false]
      simp only [List.getElem!_cons_zero, invalidCut, if_true, hM]
      rw [if_pos hnone]
    rw [hw]
    refine ⟨.inr ⟨rfl, Int.le_refl _, ?_, by simp, fun x hx0 hx => by dsimp only at hx; omega,
      by simp⟩, ?_,
      .inl rfl⟩
    · simp only [List.length_append]
      omega
    · simp only [potential, Bool.false_eq_true, if_false, List.length_append]
      omega
  have hgood : 0 ≤ sniPos + (sniLen / 2 : ℕ) ∧ 0 < sniLen := hcut.resolve_left hnone
  have hw := Write_waiting_clientHello hM hnone
  -- the two cuts, the first with data
  have hwf0 : CutWf M.length ⟨sniPos + (sniLen / 2 : ℕ), sniPos + sniLen⟩ := by
    refine .inr ⟨hgood.1, by dsimp only; omega, ?_⟩
    dsimp only
    have hlen := hf.2.1
    rcases hf.1 with h1 | h1 <;> omega
  have hv0 : sniPos + (sniLen / 2 : ℕ) ≠ InvalidByteCount := by
    unfold InvalidByteCount
    omega
  have hwf1 : CutWf M.length
      (if echPos > 0 then ⟨echPos + 1, min (echPos + 1 + 16) M.length⟩ else invalidCut) := by
    split_ifs with hech
    · rcases hf.2.2 with h1 | h1
      · omega
      · exact .inr ⟨by dsimp only; omega, by dsimp only; omega, by dsimp only; omega⟩
    · exact .inl rfl
  obtain ⟨hscr, hpot⟩ := scrambling_of_cuts (W := M ++ rest) (by omega)
    (by simp only [List.length_append]; omega) hwf0 hv0 hwf1
  rw [hw]
  exact ⟨.inl hscr, hpot, .inr (sortFunc_cutCmp_first hv0)⟩

/-! ## Writing the ClientHello, then sending -/

/-- A stream that does not scramble, with the data `W` written: it sends `W` from the start. -/
theorem sending_of_written (W : List UInt8) :
    Sending W [] ⟨0, W, false, 0, [invalidCut, invalidCut]⟩ ∧
      potential ⟨0, W, false, 0, [invalidCut, invalidCut]⟩ ≤ 3 * W.length := by
  refine ⟨⟨rfl, Int.le_refl _, by dsimp only; omega, by simp,
    fun x hx0 hx => by dsimp only at hx; omega, by simp⟩, ?_⟩
  simp only [potential, Bool.false_eq_true, if_false]
  omega

/-- From a state with the invariant and at most three times the data's bytes left to send, the
pops of `Inv.run`: frames that fit and carry the data, overlapping only in a cut; `HasData` false
after three calls a byte; and then every byte sent. -/
theorem pops_of_inv {W : List UInt8} {cuts0 : List ClientHelloCut} {s : InitialCryptoStream}
    (h : Inv W cuts0 [] s) (hp : potential s ≤ 3 * W.length) (mls : List ℤ)
    (hml : ∀ ml ∈ mls, MaxLenOk W ml) :
    ∃ s' outs, Machine.run InitialCryptoStream.PopCryptoFrame s mls = some (s', outs) ∧
      List.Forall₂ (fun ml o => ∀ f ∈ o, FrameOk W ml f) mls outs ∧
      (outs.filterMap id).Pairwise (OverlapInCuts cuts0) ∧
      (3 * W.length ≤ mls.length → s'.HasData = false) ∧
      (s'.HasData = false → ∀ x : ℤ, 0 ≤ x → x < W.length → Covers (outs.filterMap id) x) := by
  obtain ⟨s', outs, hrun, hinv, hpw, hfa, -, hterm⟩ := h.run .nil mls hml
  rw [List.nil_append] at hinv hpw
  exact ⟨s', outs, hrun, hfa, hpw, fun hl => hterm (by omega), hinv.covers_of_hasData⟩

/-- **ClientHello scrambling.** The ClientHello `M`, written in parts `ps`, and then anything
`qs`: every `Write` succeeds, and the pops after them send frames that fit their sizes and carry
the data at their offsets, overlap only inside the cuts `Write` made, end with `HasData` false
after three calls for each byte written, and by then cover every byte. The ClientHello is one
whose first cut has data, or one with neither SNI nor ECH; the sizes are those `MaxLenOk` allows. -/
theorem clientHello_scrambling (isClient : Bool) (disabled : Option Bool) {M : List UInt8}
    {sniPos : ℤ} {sniLen : ℕ} {echPos : ℤ} (hM : findSNIAndECH M = .ok (sniPos, sniLen, echPos))
    (hcut : sniPos = -1 ∧ echPos = -1 ∨ 0 ≤ sniPos + (sniLen / 2 : ℕ) ∧ 0 < sniLen)
    (ps qs : List (List UInt8)) (hps : ps.flatten = M) (mls : List ℤ)
    (hml : ∀ ml ∈ mls, MaxLenOk (M ++ qs.flatten) ml) :
    ∃ s, Machine.run writeCall (newInitialCryptoStream isClient disabled) (ps ++ qs) =
        some (s, (ps ++ qs).map fun _ => none) ∧
      ∃ s' outs, Machine.run InitialCryptoStream.PopCryptoFrame s mls = some (s', outs) ∧
        List.Forall₂ (fun ml o => ∀ f ∈ o, FrameOk (M ++ qs.flatten) ml f) mls outs ∧
        (outs.filterMap id).Pairwise (OverlapInCuts s.cuts) ∧
        (3 * (M ++ qs.flatten).length ≤ mls.length → s'.HasData = false) ∧
        (s'.HasData = false →
          ∀ x : ℤ, 0 ≤ x → x < (M ++ qs.flatten).length → Covers (outs.filterMap id) x) := by
  rcases newInitialCryptoStream_cases isClient disabled with h0 | h0 <;> rw [h0]
  · -- scrambling: the stream waits for the whole ClientHello, then only appends
    have hne : 0 < M.length := by
      cases M with
      | nil => cases hM
      | cons b M => simp
    obtain ⟨hinv, hpot, hdone⟩ := inv_of_clientHello qs.flatten hM hcut
    have hwrite := run_Write_clientHello hM hdone ps [] (by simpa using hps) hne
    have happ := run_Write_append_only hdone qs
    rw [Write_writeBuf, waiting, List.append_nil] at happ
    refine ⟨_, by rw [List.map_append]; exact Machine.run_append_of hwrite happ, ?_⟩
    exact pops_of_inv hinv hpot mls hml
  · -- no scrambling: `Write` only appends
    have happ := run_Write_append_only (s := { waiting [] with scramble := false }) (.inl rfl)
      (ps ++ qs)
    rw [List.flatten_append, hps] at happ
    refine ⟨_, happ, ?_⟩
    obtain ⟨hsend, hpot⟩ := sending_of_written (M ++ qs.flatten)
    exact pops_of_inv (.inr hsend) hpot mls hml

/-! ## A ClientHello with ECH and without SNI -/

/-- Once `Write` has parsed the ClientHello `M` into a first cut without data, the stream stays
so: it parses the buffer again at every `Write`, finds it longer than the ClientHello, and waits. -/
theorem run_Write_stalled {S : InitialCryptoStream} {M : List UInt8} {r : ℤ × ℕ × ℤ}
    (hM : findSNIAndECH M = .ok r) (hS : S.writeBuf = M) (hscr : S.scramble = true)
    (hc : S.cuts[0]!.start = InvalidByteCount) (hfix : S.Write [] = (S, none)) :
    ∀ (qs : List (List UInt8)) (rest : List UInt8),
      Machine.run writeCall { S with writeBuf := M ++ rest } qs =
        some ({ S with writeBuf := M ++ rest ++ qs.flatten }, qs.map fun _ => none) := by
  intro qs
  induction qs with
  | nil => simp
  | cons q qs ih =>
    intro rest
    by_cases hrq : rest ++ q = []
    · -- nothing written since the ClientHello: `Write` finds the same cuts again
      obtain ⟨rfl, rfl⟩ := List.append_eq_nil_iff.mp hrq
      have hself : { S with writeBuf := M ++ [] } = S := by rw [List.append_nil, ← hS]
      have hq : writeCall { S with writeBuf := M ++ [] } [] = some (S, none) := by
        rw [writeCall, hself, hfix]
      rw [Machine.run_cons_of hq (by rw [← hself]; exact ih [])]
      simp
    · have hf : findSNIAndECH ({ S with writeBuf := M ++ rest }.writeBuf ++ q) =
          .error .ErrUnexpectedEOF := by
        rw [List.append_assoc]
        exact findSNIAndECH_append hM hrq
      have hq : writeCall { S with writeBuf := M ++ rest } q =
          some ({ S with writeBuf := M ++ (rest ++ q) }, none) := by
        rw [writeCall, Write_of_EOF (s := { S with writeBuf := M ++ rest }) hscr hc hf]
        simp only [List.append_assoc]
      rw [Machine.run_cons_of hq (ih (rest ++ q))]
      simp [List.append_assoc]

/-- A ClientHello with an ECH extension and no SNI extension, of 62 bytes: the handshake header,
the legacy version and a zero random, an empty session ID, one cipher suite, the null
compression method, and the ECH extension (type `0xfe0d`, at offset 47) with an outer
ClientHello payload. -/
def echOnlyClientHello : List UInt8 :=
  [1, 0, 0, 58, 3, 3] ++ List.replicate 32 0 ++
    [0, 0, 2, 0x13, 1, 1, 0, 0, 15, 0xfe, 0x0d, 0, 11, 0, 0, 1, 0, 1, 0x42, 0, 0, 0, 1, 0xaa]

theorem echOnly_clientHello_not_sent (qs : List (List UInt8)) :
    findSNIAndECH echOnlyClientHello = .ok (-1, 0, 47) ∧
      ∃ s, Machine.run writeCall (newInitialCryptoStream true none) (echOnlyClientHello :: qs) =
          some (s, (echOnlyClientHello :: qs).map fun _ => none) ∧
        s.writeBuf = echOnlyClientHello ++ qs.flatten ∧ s.HasData = false := by
  have hM : findSNIAndECH echOnlyClientHello = .ok (-1, 0, 47) := by rfl
  -- the first cut is `[-1 + 0, -1 + 0)`, and sorts first
  let S : InitialCryptoStream := ⟨0, echOnlyClientHello, true, 62, [invalidCut, ⟨48, 62⟩]⟩
  have hS : (waiting echOnlyClientHello).Write [] = (S, none) := by rfl
  have hbuf : S.writeBuf = echOnlyClientHello := rfl
  have hscr : S.scramble = true := rfl
  have hc : S.cuts[0]!.start = InvalidByteCount := rfl
  have hfix : S.Write [] = (S, none) := by decide
  have hq : writeCall (newInitialCryptoStream true none) echOnlyClientHello = some (S, none) := by
    rw [writeCall, show newInitialCryptoStream true none = waiting [] from rfl, Write_waiting,
      List.nil_append, hS]
  have hrun := run_Write_stalled hM hbuf hscr hc hfix qs []
  rw [List.append_nil, ← hbuf] at hrun
  refine ⟨hM, _, Machine.run_cons_of hq hrun, by rw [hbuf], ?_⟩
  unfold InitialCryptoStream.HasData
  rw [if_pos ⟨hscr, rfl, hc⟩]

end CryptoStream

end QuicGo
