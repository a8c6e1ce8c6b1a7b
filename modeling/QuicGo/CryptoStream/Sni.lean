import QuicGo.Wire.Header
import QuicGo.Lib.Buffer

/-!
# QuicGo — the SNI and ECH extensions of a ClientHello (`sni.go`)

`findSNIAndECH` parses a TLS ClientHello as far as its extensions: the handshake header, whose
length must be that of the whole buffer, the version and the random, the session ID, the cipher
suites and the compression methods, each after its length, and the extensions after theirs. It
walks the extensions to the first host_name of the SNI extension and to the ECH extension, and
returns their positions in the buffer (`-1` for one it does not find) and the length of the
last server name it read, host_name or not.

Both loops walk positions that grow by at least three bytes a round. They are recursions on a
fuel of the bytes they walk, which the loop's own bound stops before it runs out. Every read of
the source is guarded by a length check before it, so the reads here are `getD`.

The bricks: a proper prefix of a buffer `findSNIAndECH` accepts, and that buffer followed by
more bytes, are `io.ErrUnexpectedEOF` (`findSNIAndECH_take`, `findSNIAndECH_append`), and what
it returns lies in the buffer (`findSNIAndECH_found`).
-/

namespace QuicGo

namespace CryptoStream

open Wire Buffer

/-- `extTypeSNI`, `extTypeECH`. -/
def extTypeSNI : ℕ := 0
def extTypeECH : ℕ := 0xfe0d

/-- `binary.BigEndian.Uint16(b[i:])`. -/
def bigEndianUint16 (b : List UInt8) (i : ℕ) : ℕ :=
  (b.getD (i + 1) 0).toNat ||| (b.getD i 0).toNat <<< 8

/-- One of the fields of the ClientHello that `findSNIAndECH` skips: a length in `lenBytes`
bytes at `parsePos`, then as many bytes. The position after them. -/
def skipField (data : List UInt8) (parsePos lenBytes : ℕ) : Except Wire.Error ℕ :=
  if parsePos + lenBytes > data.length then .error .ErrUnexpectedEOF
  else
    let fieldLen :=
      if lenBytes = 1 then (data.getD parsePos 0).toNat else bigEndianUint16 data parsePos
    let parsePos := parsePos + lenBytes
    if parsePos + fieldLen > data.length then .error .ErrUnexpectedEOF
    else .ok (parsePos + fieldLen)

/-- The loop over the server name list of the SNI extension's data `sniData`, which starts at
`sniStart` in the buffer: the position of the first host_name, and the length of the last name
read. -/
def findHostName (sniData : List UInt8) (nameListLen sniStart : ℕ) :
    ℕ → ℕ → ℤ → ℕ → Except Wire.Error (ℤ × ℕ)
  | 0, _, sniPos, sniLen => .ok (sniPos, sniLen)
  | fuel + 1, listPos, sniPos, sniLen =>
    if listPos + 3 > nameListLen + 2 then .ok (sniPos, sniLen)
    else
      let nameType := sniData.getD listPos 0
      let sniLen := bigEndianUint16 sniData (listPos + 1)
      if listPos + 3 + sniLen > sniData.length then .error .ErrUnexpectedEOF
      -- stop after the first host_name
      else if nameType = 0 then .ok (sniStart + listPos + 3, sniLen)
      else findHostName sniData nameListLen sniStart fuel (listPos + 3 + sniLen) sniPos sniLen

/-- The `switch` on the type of the extension at `extPos`, from the positions found so far. -/
def readExtension (extensions : List UInt8) (extensionsStart extPos extType extLen : ℕ)
    (sniPos : ℤ) (sniLen : ℕ) (echPos : ℤ) : Except Wire.Error (ℤ × ℕ × ℤ) :=
  if extType = extTypeSNI then
    if sniPos ≠ -1 then .error (.errorf "multiple SNI extensions")
    else
      let sniData := slice extensions (extPos + 4) extLen
      if sniData.length < 2 then .error .ErrUnexpectedEOF
      else
        let nameListLen := bigEndianUint16 sniData 0
        if sniData.length ≠ 2 + nameListLen then .error .ErrUnexpectedEOF
        else
          match findHostName sniData nameListLen (extensionsStart + extPos + 4) sniData.length 2
              sniPos sniLen with
          | .error err => .error err
          | .ok (sniPos, sniLen) =>
            if sniPos = 0 then .error (.errorf "SNI host_name not found")
            else .ok (sniPos, sniLen, echPos)
  else if extType = extTypeECH then
    if echPos ≠ -1 then .error (.errorf "multiple ECH extensions")
    else .ok (sniPos, sniLen, extensionsStart + extPos)
  else .ok (sniPos, sniLen, echPos)

/-- The loop over the extensions, from `extPos`, until both are found. -/
def parseExtensions (extensions : List UInt8) (extensionsStart : ℕ) :
    ℕ → ℕ → ℤ → ℕ → ℤ → Except Wire.Error (ℤ × ℕ × ℤ)
  | 0, _, sniPos, sniLen, echPos => .ok (sniPos, sniLen, echPos)
  | fuel + 1, extPos, sniPos, sniLen, echPos =>
    if extPos + 4 > extensions.length then .ok (sniPos, sniLen, echPos)
    else
      let extType := bigEndianUint16 extensions extPos
      let extLen := bigEndianUint16 extensions (extPos + 2)
      if extPos + 4 + extLen > extensions.length then .error .ErrUnexpectedEOF
      else
        match readExtension extensions extensionsStart extPos extType extLen sniPos sniLen
            echPos with
        | .error err => .error err
        | .ok (sniPos, sniLen, echPos) =>
          if sniPos ≠ -1 ∧ echPos ≠ -1 then .ok (sniPos, sniLen, echPos)
          else
            parseExtensions extensions extensionsStart fuel (extPos + 4 + extLen) sniPos sniLen
              echPos

/-- `findSNIAndECH`: the position and length of the SNI host name and the position of the ECH
extension. -/
def findSNIAndECH (data : List UInt8) : Except Wire.Error (ℤ × ℕ × ℤ) :=
  if data.length < 4 then .error .ErrUnexpectedEOF
  else if data.getD 0 0 ≠ 1 then .error (.errorf "not a ClientHello")
  else
    let handshakeLen :=
      (data.getD 1 0).toNat <<< 16 ||| (data.getD 2 0).toNat <<< 8 ||| (data.getD 3 0).toNat
    if data.length ≠ 4 + handshakeLen then .error .ErrUnexpectedEOF
    -- the protocol version (2 bytes), then the random (32 bytes)
    else if 4 + 2 > data.length then .error .ErrUnexpectedEOF
    else if 6 + 32 > data.length then .error .ErrUnexpectedEOF
    else do
      -- the session ID, the cipher suites, the compression methods
      let parsePos ← skipField data 38 1
      let parsePos ← skipField data parsePos 2
      let parsePos ← skipField data parsePos 1
      if parsePos + 2 > data.length then .error .ErrUnexpectedEOF
      else
        let extensionsLen := bigEndianUint16 data parsePos
        let extensionsStart := parsePos + 2
        if extensionsStart + extensionsLen > data.length then .error .ErrUnexpectedEOF
        else
          let extensions := slice data extensionsStart extensionsLen
          parseExtensions extensions extensionsStart extensions.length 0 (-1) 0 (-1)

/-! ## A prefix or an extension of a ClientHello -/

/-- A buffer of another length than one `findSNIAndECH` accepts, with the same first four
bytes, is `io.ErrUnexpectedEOF`: its handshake header announces the length of the other. -/
theorem findSNIAndECH_of_header {M D : List UInt8} {r : ℤ × ℕ × ℤ}
    (h : findSNIAndECH M = .ok r) (hD : 4 ≤ D.length)
    (hhead : ∀ i, i < 4 → D.getD i 0 = M.getD i 0) (hlen : D.length ≠ M.length) :
    findSNIAndECH D = .error .ErrUnexpectedEOF := by
  unfold findSNIAndECH at h ⊢
  rw [if_neg (by omega)]
  have hM4 : ¬ M.length < 4 := by
    intro hM
    rw [if_pos hM] at h
    cases h
  rw [if_neg hM4] at h
  rw [hhead 0 (by omega), hhead 1 (by omega), hhead 2 (by omega), hhead 3 (by omega)]
  by_cases h1 : M.getD 0 0 ≠ 1
  · rw [if_pos h1] at h
    cases h
  rw [if_neg h1] at h ⊢
  dsimp only at h ⊢
  have hMlen : M.length = 4 + ((M.getD 1 0).toNat <<< 16 ||| (M.getD 2 0).toNat <<< 8 |||
      (M.getD 3 0).toNat) := by
    by_contra hne
    rw [if_pos hne] at h
    cases h
  rw [if_pos (by omega)]

/-- A proper prefix of a buffer that `findSNIAndECH` accepts is `io.ErrUnexpectedEOF`. -/
theorem findSNIAndECH_take {M : List UInt8} {r : ℤ × ℕ × ℤ} (h : findSNIAndECH M = .ok r)
    {k : ℕ} (hk : k < M.length) : findSNIAndECH (M.take k) = .error .ErrUnexpectedEOF := by
  by_cases h4 : k < 4
  · unfold findSNIAndECH
    rw [if_pos (by simp only [List.length_take]; omega)]
  · apply findSNIAndECH_of_header h (by simp only [List.length_take]; omega) _
      (by simp only [List.length_take]; omega)
    intro i hi
    simp only [List.getD_eq_getElem?_getD, List.getElem?_take]
    rw [if_pos (by omega)]

/-- So is a buffer that `findSNIAndECH` accepts followed by more bytes. -/
theorem findSNIAndECH_append {M q : List UInt8} {r : ℤ × ℕ × ℤ} (h : findSNIAndECH M = .ok r)
    (hq : q ≠ []) : findSNIAndECH (M ++ q) = .error .ErrUnexpectedEOF := by
  have hM4 : 4 ≤ M.length := by
    by_contra hM
    unfold findSNIAndECH at h
    rw [if_pos (by omega)] at h
    cases h
  have hq0 : 0 < q.length := List.length_pos_iff.mpr hq
  apply findSNIAndECH_of_header h (by simp only [List.length_append]; omega) _
    (by simp only [List.length_append]; omega)
  intro i hi
  simp only [List.getD_eq_getElem?_getD, List.getElem?_append_left (by omega : i < M.length)]

/-! ## What `findSNIAndECH` returns lies in the buffer -/

/-- The positions `findSNIAndECH` returns lie in a buffer of `n` bytes: a host name it finds
ends in it, the last name it reads is no longer, and an ECH extension's type and length are in
it. -/
def Found (n : ℕ) (sniPos : ℤ) (sniLen : ℕ) (echPos : ℤ) : Prop :=
  (sniPos = -1 ∨ 0 < sniPos ∧ sniPos + sniLen ≤ n) ∧ sniLen ≤ n ∧
    (echPos = -1 ∨ 0 < echPos ∧ echPos + 4 ≤ n)

theorem findHostName_found {sniData : List UInt8} {nameListLen sniStart n : ℕ}
    (hn : sniStart + sniData.length ≤ n) (fuel listPos : ℕ) {sniLen : ℕ} (hlen : sniLen ≤ n)
    {p : ℤ} {l : ℕ}
    (h : findHostName sniData nameListLen sniStart fuel listPos (-1) sniLen = .ok (p, l)) :
    (p = -1 ∨ 0 < p ∧ p + l ≤ n) ∧ l ≤ n := by
  induction fuel generalizing listPos sniLen with
  | zero =>
    simp only [findHostName, Except.ok.injEq, Prod.mk.injEq] at h
    obtain ⟨rfl, rfl⟩ := h
    exact ⟨.inl rfl, hlen⟩
  | succ fuel ih =>
    unfold findHostName at h
    by_cases hend : listPos + 3 > nameListLen + 2
    · rw [if_pos hend] at h
      simp only [Except.ok.injEq, Prod.mk.injEq] at h
      obtain ⟨rfl, rfl⟩ := h
      exact ⟨.inl rfl, hlen⟩
    rw [if_neg hend] at h
    dsimp only at h
    by_cases hbig : listPos + 3 + bigEndianUint16 sniData (listPos + 1) > sniData.length
    · rw [if_pos hbig] at h
      cases h
    rw [if_neg hbig] at h
    by_cases hhost : sniData.getD listPos 0 = 0
    · -- the first host_name, which lies in the SNI data
      rw [if_pos hhost] at h
      simp only [Except.ok.injEq, Prod.mk.injEq] at h
      obtain ⟨rfl, rfl⟩ := h
      exact ⟨.inr ⟨by omega, by omega⟩, by omega⟩
    · rw [if_neg hhost] at h
      exact ih _ (by omega) h

theorem readExtension_found {extensions : List UInt8} {extensionsStart extPos extType extLen n : ℕ}
    (hstart : 0 < extensionsStart) (hn : extensionsStart + extensions.length ≤ n)
    (hext : extPos + 4 + extLen ≤ extensions.length) {sniPos : ℤ} {sniLen : ℕ} {echPos : ℤ}
    (hf : Found n sniPos sniLen echPos) {r : ℤ × ℕ × ℤ}
    (h : readExtension extensions extensionsStart extPos extType extLen sniPos sniLen echPos =
      .ok r) :
    Found n r.1 r.2.1 r.2.2 := by
  unfold readExtension at h
  by_cases hsni : extType = extTypeSNI
  · rw [if_pos hsni] at h
    by_cases hmult : sniPos ≠ -1
    · rw [if_pos hmult] at h
      cases h
    rw [if_neg hmult] at h
    rw [not_not] at hmult
    subst hmult
    dsimp only at h
    -- the SNI data is the extension's value, within the extensions
    have hdata : (slice extensions (extPos + 4) extLen).length = extLen :=
      length_slice (by omega)
    split_ifs at h
    split at h
    · cases h
    · rename_i p l hp
      split_ifs at h
      simp only [Except.ok.injEq] at h
      subst h
      obtain ⟨hp, hl⟩ := findHostName_found (n := n) (by omega) _ _ hf.2.1 hp
      exact ⟨hp, hl, hf.2.2⟩
  rw [if_neg hsni] at h
  by_cases hech : extType = extTypeECH
  · rw [if_pos hech] at h
    split_ifs at h with hmult
    simp only [Except.ok.injEq] at h
    subst h
    show Found n sniPos sniLen (extensionsStart + extPos)
    exact ⟨hf.1, hf.2.1, .inr ⟨by omega, by omega⟩⟩
  · rw [if_neg hech] at h
    simp only [Except.ok.injEq] at h
    subst h
    exact hf

theorem parseExtensions_found {extensions : List UInt8} {extensionsStart n : ℕ}
    (hstart : 0 < extensionsStart) (hn : extensionsStart + extensions.length ≤ n) (fuel extPos : ℕ)
    {sniPos : ℤ} {sniLen : ℕ} {echPos : ℤ} (hf : Found n sniPos sniLen echPos)
    {r : ℤ × ℕ × ℤ}
    (h : parseExtensions extensions extensionsStart fuel extPos sniPos sniLen echPos = .ok r) :
    Found n r.1 r.2.1 r.2.2 := by
  induction fuel generalizing extPos sniPos sniLen echPos with
  | zero =>
    simp only [parseExtensions, Except.ok.injEq] at h
    subst h
    exact hf
  | succ fuel ih =>
    unfold parseExtensions at h
    by_cases hend : extPos + 4 > extensions.length
    · rw [if_pos hend] at h
      simp only [Except.ok.injEq] at h
      subst h
      exact hf
    rw [if_neg hend] at h
    dsimp only at h
    split_ifs at h with hbig
    split at h
    · cases h
    · rename_i p l e hread
      have hf' := readExtension_found hstart hn (by omega) hf hread
      split_ifs at h
      · simp only [Except.ok.injEq] at h
        subst h
        exact hf'
      · exact ih _ hf' h

/-- What `findSNIAndECH` returns lies in the buffer. -/
theorem findSNIAndECH_found {data : List UInt8} {sniPos : ℤ} {sniLen : ℕ} {echPos : ℤ}
    (h : findSNIAndECH data = .ok (sniPos, sniLen, echPos)) :
    Found data.length sniPos sniLen echPos := by
  unfold findSNIAndECH at h
  -- past the header, the version and the random
  split at h
  · cases h
  split at h
  · cases h
  dsimp only at h
  split at h
  · cases h
  split at h
  · cases h
  split at h
  · cases h
  cases h₁ : skipField data 38 1 with
  | error e => rw [h₁] at h; cases h
  | ok p₁ =>
  cases h₂ : skipField data p₁ 2 with
  | error e => simp only [h₁, h₂, bind, Except.bind] at h; cases h
  | ok p₂ =>
  cases h₃ : skipField data p₂ 1 with
  | error e => simp only [h₁, h₂, h₃, bind, Except.bind] at h; cases h
  | ok p₃ =>
  simp only [h₁, h₂, h₃, bind, Except.bind] at h
  split_ifs at h with hext hlen
  -- the extensions lie in the buffer
  have hslice : (slice data (p₃ + 2) (bigEndianUint16 data p₃)).length =
      bigEndianUint16 data p₃ := length_slice (by omega)
  exact parseExtensions_found (by omega) (by omega) _ 0
    ⟨.inl rfl, Nat.zero_le _, .inl rfl⟩ h

/-! ## An SNI extension without a host name -/

/-- A ClientHello of 57 bytes whose SNI extension holds one server name, of type `1`, not
host_name: the handshake header, the legacy version and a zero random, an empty session ID, one
cipher suite, the null compression method, and the SNI extension (type `0`, length `6`) with a
name list of four bytes. -/
def noHostNameClientHello : List UInt8 :=
  [1, 0, 0, 53, 3, 3] ++ List.replicate 32 0 ++
    [0, 0, 2, 0x13, 1, 1, 0, 0, 10, 0, 0, 0, 6, 0, 4, 1, 0, 1, 0x61]

/-- The check for a missing host_name compares `sniPos` with `0`, but the loop leaves it at `-1`:
the ClientHello is accepted with no SNI position, and the length of the other name. -/
theorem hostNameMissing_not_reported :
    findSNIAndECH noHostNameClientHello = .ok (-1, 1, -1) := by
  rfl

end CryptoStream

end QuicGo
