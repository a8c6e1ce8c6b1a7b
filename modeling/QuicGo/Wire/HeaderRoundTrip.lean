import QuicGo.Wire.Header

/-!
# QuicGo — headers parse back

What `AppendShortHeader` and `ExtendedHeader.Append` write, the parsers read back: the packet
number truncated to its length (`appendPacketNumber_spec`), the short header with its key phase
(`ParseShortHeader_AppendShortHeader`), and the long header of every type with a packet number
in a supported version, first up to the packet number (`parseHeader_Append`) and then with it
(`ParseExtended_Append`). `ParsePacket` splits the packet off the ones coalesced after it
(`ParsePacket_of_parseHeader_le`), and `GetLength` is the length of what `Append` writes
(`GetLength_Append`). A short header written with `KeyPhaseUndefined` parses back with key
phase zero.

`parseHeader` runs before header protection is removed, on a first byte whose low four bits
are masked: it reads only the bits above them, and the bytes before the packet number.
-/

namespace QuicGo

namespace Wire

/-! ## Packet numbers -/

theorem appendPacketNumber_eq (b : List UInt8) (pn pnLen : ℕ) :
    appendPacketNumber b pn pnLen = (appendPacketNumber [] pn pnLen).map (b ++ ·) := by
  unfold appendPacketNumber
  split_ifs <;> simp [Except.map]

/-- A packet number of one to four bytes reads back truncated to its length. -/
theorem appendPacketNumber_spec (pn pnLen : ℕ) (h1 : 1 ≤ pnLen) (h4 : pnLen ≤ 4) :
    ∃ e, appendPacketNumber [] pn pnLen = .ok e ∧ e.length = pnLen ∧
      ∀ rest, readPacketNumber (e ++ rest) pnLen = some (.ok (pn % 2 ^ (8 * pnLen))) := by
  obtain rfl | rfl | rfl | rfl : pnLen = 1 ∨ pnLen = 2 ∨ pnLen = 3 ∨ pnLen = 4 := by omega
  all_goals
    refine ⟨_, rfl, rfl, fun rest => ?_⟩
    -- the bytes are the digits of the number in base 256
    simp only [readPacketNumber, List.cons_append, List.nil_append, UInt8.toNat_ofNat',
      Nat.shiftLeft_eq, Nat.shiftRight_eq_div_pow, Nat.reducePow, Nat.reduceMul,
      Option.some.injEq, Except.ok.injEq] <;> omega

theorem appendPacketNumber_bounds {e : List UInt8} {pn pnLen : ℕ}
    (h : appendPacketNumber [] pn pnLen = .ok e) : 1 ≤ pnLen ∧ pnLen ≤ 4 := by
  unfold appendPacketNumber at h
  split_ifs at h
  all_goals omega

/-! ## The first byte -/

theorem shortHeaderTypeByte_bits {pnLen : ℕ} {kp : KeyPhaseBit} (h1 : 1 ≤ pnLen) (h4 : pnLen ≤ 4)
    (hkp : kp ≠ .KeyPhaseUndefined) :
    ¬ shortHeaderTypeByte pnLen kp &&& 0x80 > 0 ∧ ¬ shortHeaderTypeByte pnLen kp &&& 0x40 = 0 ∧
      (shortHeaderTypeByte pnLen kp &&& 0b11).toNat + 1 = pnLen ∧
      (if shortHeaderTypeByte pnLen kp &&& 0b100 > 0 then KeyPhaseBit.KeyPhaseOne
        else .KeyPhaseZero) = kp ∧
      ¬ shortHeaderTypeByte pnLen kp &&& 0x18 ≠ 0 := by
  obtain rfl | rfl | rfl | rfl : pnLen = 1 ∨ pnLen = 2 ∨ pnLen = 3 ∨ pnLen = 4 := by omega
  all_goals
    cases kp
    · exact absurd rfl hkp
    all_goals decide

theorem longHeaderFirstByte_bits {v : UInt32} {pt : PacketType} {pnLen : ℕ}
    (hv : v ∈ SupportedVersions) (hpt : pt ≠ .PacketTypeRetry) (h1 : 1 ≤ pnLen) (h4 : pnLen ≤ 4) :
    IsLongHeaderPacket (longHeaderFirstByte v (some pt) pnLen) = true ∧
      ¬ longHeaderFirstByte v (some pt) pnLen &&& 0x40 = 0 ∧
      packetTypeOf v (longHeaderFirstByte v (some pt) pnLen) = pt ∧
      (longHeaderFirstByte v (some pt) pnLen &&& 0x3).toNat + 1 = pnLen ∧
      longHeaderFirstByte v (some pt) pnLen &&& 0xc = 0 := by
  obtain rfl | rfl : v = Version1 ∨ v = Version2 := by simpa [SupportedVersions] using hv
  all_goals
    obtain rfl | rfl | rfl | rfl : pnLen = 1 ∨ pnLen = 2 ∨ pnLen = 3 ∨ pnLen = 4 := by omega
    all_goals
      cases pt
      case PacketTypeRetry => exact absurd rfl hpt
      all_goals decide

/-- The mask of a long header reaches the low four bits of the first byte only. -/
theorem xor_low_and_high (b m : UInt8) : (b ^^^ (m &&& 0xf)) &&& 0xf0 = b &&& 0xf0 := by
  apply UInt8.toBitVec_inj.mp
  simp only [UInt8.toBitVec_xor, UInt8.toBitVec_and]
  ext i hi
  obtain rfl | rfl | rfl | rfl | rfl | rfl | rfl | rfl :
    i = 0 ∨ i = 1 ∨ i = 2 ∨ i = 3 ∨ i = 4 ∨ i = 5 ∨ i = 6 ∨ i = 7 := by omega
  all_goals simp

theorem xor_low_and_of (b m : UInt8) {c : UInt8} (hc : 0xf0 &&& c = c) :
    (b ^^^ (m &&& 0xf)) &&& c = b &&& c := by
  rw [← hc, ← UInt8.and_assoc, xor_low_and_high, UInt8.and_assoc]

theorem xor_low_shiftRight (b m : UInt8) : (b ^^^ (m &&& 0xf)) >>> 4 = b >>> 4 := by
  apply UInt8.toBitVec_inj.mp
  simp only [UInt8.toBitVec_shiftRight, UInt8.toBitVec_xor, UInt8.toBitVec_and]
  ext i hi
  obtain rfl | rfl | rfl | rfl | rfl | rfl | rfl | rfl :
    i = 0 ∨ i = 1 ∨ i = 2 ∨ i = 3 ∨ i = 4 ∨ i = 5 ∨ i = 6 ∨ i = 7 := by omega
  all_goals simp

/-- The packet type does not depend on the masked bits. -/
theorem packetTypeOf_xor_low (v : UInt32) (b m : UInt8) :
    packetTypeOf v (b ^^^ (m &&& 0xf)) = packetTypeOf v b := by
  unfold packetTypeOf
  rw [xor_low_shiftRight]

/-! ## Short headers -/

/-- A short header parses back, with its packet number truncated to its length. -/
theorem ParseShortHeader_AppendShortHeader (connID : ConnectionID) (pn pnLen : ℕ)
    (kp : KeyPhaseBit) (h1 : 1 ≤ pnLen) (h4 : pnLen ≤ 4) (hkp : kp ≠ .KeyPhaseUndefined) :
    ∃ e, AppendShortHeader [] connID pn pnLen kp =
        .ok (shortHeaderTypeByte pnLen kp :: connID.bytes ++ e) ∧ e.length = pnLen ∧
      ∀ rest, ParseShortHeader (shortHeaderTypeByte pnLen kp :: connID.bytes ++ e ++ rest)
          connID.Len = some (⟨1 + connID.Len + pnLen, pn % 2 ^ (8 * pnLen), pnLen, kp⟩, none) := by
  obtain ⟨hlong, hfixed, hlen, hkp', hres⟩ := shortHeaderTypeByte_bits h1 h4 hkp
  obtain ⟨e, he, hel, hread⟩ := appendPacketNumber_spec pn pnLen h1 h4
  refine ⟨e, ?_, hel, fun rest => ?_⟩
  · rw [AppendShortHeader, appendPacketNumber_eq, he]
    simp [Except.map]
  have hdrop : (shortHeaderTypeByte pnLen kp :: connID.bytes ++ e ++ rest).drop (1 + connID.Len) =
      e ++ rest := by
    simp [ConnectionID.Len, Nat.add_comm]
  have hlength : ¬ (shortHeaderTypeByte pnLen kp :: connID.bytes ++ e ++ rest).length <
      1 + pnLen + connID.Len := by
    simp only [List.length_cons, List.length_append, hel, ConnectionID.Len]
    omega
  simp only [ParseShortHeader, List.cons_append, if_neg hlong, if_neg hfixed, hlen]
  rw [← List.cons_append, ← List.cons_append, if_neg hlength, hdrop, hread, hkp', if_neg hres,
    Nat.add_right_comm]

/-! ## Long headers -/

/-- What `Append` writes for a header whose type has a packet number. -/
theorem Append_eq_ok {h : ExtendedHeader} {v : UInt32} {raw : List UInt8}
    (hpt : h.Header.PacketType ≠ some .PacketTypeRetry) (hok : h.Append [] v = some (.ok raw)) :
    ∃ tok lenBytes e,
      raw = longHeaderFirstByte v h.Header.PacketType h.PacketNumberLen ::
        (putUint32 h.Header.Version ++ UInt8.ofNat h.Header.DestConnectionID.Len ::
          h.Header.DestConnectionID.bytes ++ UInt8.ofNat h.Header.SrcConnectionID.Len ::
          h.Header.SrcConnectionID.bytes ++ tok ++ lenBytes ++ e) ∧
      (if h.Header.PacketType = some .PacketTypeInitial then
          (Quicvarint.Append [] h.Header.Token.length).map (· ++ h.Header.Token) = some tok
        else tok = []) ∧
      Quicvarint.AppendWithLen [] h.Header.Length 2 = some lenBytes ∧
      appendPacketNumber [] h.PacketNumber h.PacketNumberLen = .ok e := by
  have hd := h.Header.DestConnectionID.length_le
  have hs := h.Header.SrcConnectionID.length_le
  unfold ExtendedHeader.Append at hok
  rw [if_neg (by unfold ConnectionID.Len; omega), if_neg (by unfold ConnectionID.Len; omega)]
    at hok
  dsimp only at hok
  rw [if_neg hpt] at hok
  simp only [List.nil_append] at hok
  set pre := [longHeaderFirstByte v h.Header.PacketType h.PacketNumberLen] ++
    putUint32 h.Header.Version ++ [UInt8.ofNat h.Header.DestConnectionID.Len] ++
    h.Header.DestConnectionID.bytes ++ [UInt8.ofNat h.Header.SrcConnectionID.Len] ++
    h.Header.SrcConnectionID.bytes with hpre
  -- the token, then the length, then the packet number, each after what came before
  obtain ⟨tok, htok, hb⟩ : ∃ tok,
      (if h.Header.PacketType = some .PacketTypeInitial then
          (Quicvarint.Append [] h.Header.Token.length).map (· ++ h.Header.Token) = some tok
        else tok = []) ∧
      (if h.Header.PacketType = some .PacketTypeInitial then
          (Quicvarint.Append pre h.Header.Token.length).map (· ++ h.Header.Token)
        else some pre) = some (pre ++ tok) := by
    by_cases hi : h.Header.PacketType = some .PacketTypeInitial
    · simp only [if_pos hi, Quicvarint.Append_eq pre] at hok ⊢
      cases ha : Quicvarint.Append [] h.Header.Token.length with
      | none => simp [ha] at hok
      | some tl => exact ⟨tl ++ h.Header.Token, rfl, by simp⟩
    · simp only [if_neg hi]
      exact ⟨[], rfl, by simp⟩
  rw [hb] at hok
  dsimp only at hok
  rw [Quicvarint.AppendWithLen_eq] at hok
  cases hl : Quicvarint.AppendWithLen [] h.Header.Length 2 with
  | none => rw [hl] at hok; cases hok
  | some lenBytes =>
    simp only [hl, Option.map_some] at hok
    rw [appendPacketNumber_eq] at hok
    cases hp : appendPacketNumber [] h.PacketNumber h.PacketNumberLen with
    | error err => rw [hp] at hok; cases hok
    | ok e =>
      rw [hp] at hok
      refine ⟨tok, lenBytes, e, ?_, htok, rfl, rfl⟩
      simp only [Except.map, Option.some.injEq, Except.ok.injEq] at hok
      rw [← hok, hpre]
      simp

/-- The length of a connection ID fits in its byte. -/
theorem toNat_ofNat_len (c : ConnectionID) : (UInt8.ofNat c.Len).toNat = c.Len := by
  have := c.length_le
  unfold ConnectionID.Len MaxConnIDLen at *
  rw [UInt8.toNat_ofNat']
  omega

/-- The version and the connection IDs parse back; the rest is `parseLengthAndToken`'s. -/
theorem parseLongHeader_spec (h0 : Header) (dest src : ConnectionID) (V : UInt32)
    (b : List UInt8) (hV : V ∈ SupportedVersions) (hfixed : ¬ h0.typeByte &&& 0x40 = 0) :
    parseLongHeader h0 (putUint32 V ++ UInt8.ofNat dest.Len :: dest.bytes ++
        UInt8.ofNat src.Len :: src.bytes ++ b) =
      parseLengthAndToken
        { h0 with
          Version := V, DestConnectionID := dest, SrcConnectionID := src,
          PacketType := some (packetTypeOf V h0.typeByte) }
        (5 + dest.Len + 1 + src.Len) b := by
  have hver : uint32 (V >>> 24).toUInt8 (V >>> 16).toUInt8 (V >>> 8).toUInt8 V.toUInt8 = V ∧
      V ≠ 0 ∧ IsSupportedVersion SupportedVersions V = true := by
    obtain rfl | rfl : V = Version1 ∨ V = Version2 := by simpa [SupportedVersions] using hV
    all_goals decide
  obtain ⟨hver, hne, hsup⟩ := hver
  have hd := toNat_ofNat_len dest
  have hs := toNat_ofNat_len src
  have hdl := dest.length_le
  have hsl := src.length_le
  have hdrop : (dest.bytes ++ UInt8.ofNat src.Len :: (src.bytes ++ b)).drop dest.Len =
      UInt8.ofNat src.Len :: (src.bytes ++ b) := List.drop_left' rfl
  have htake : (dest.bytes ++ UInt8.ofNat src.Len :: (src.bytes ++ b)).take dest.Len =
      dest.bytes := List.take_left' rfl
  have hdl' : ¬ dest.Len > MaxConnIDLen := Nat.not_lt.mpr hdl
  have hsl' : ¬ src.Len > MaxConnIDLen := Nat.not_lt.mpr hsl
  have hlen : ¬ (src.bytes ++ b).length < src.Len := by
    simp [ConnectionID.Len]
  have hsrc : (src.bytes ++ b).take src.Len = src.bytes := List.take_left' rfl
  have hrest : (src.bytes ++ b).drop src.Len = b := List.drop_left' rfl
  simp only [parseLongHeader, putUint32, List.cons_append, List.nil_append, List.append_assoc, hver,
    hd, hs, hfixed, and_false, if_false, dif_neg hdl', hdrop, dif_neg hsl', if_neg hlen, hne,
    hsup, Bool.not_true, Bool.false_eq_true, htake, hsrc, hrest]

/-- The `Length` field in two bytes parses back. -/
theorem Parse_AppendWithLen_two {L : ℕ} {lenBytes : List UInt8}
    (hlen : Quicvarint.AppendWithLen [] L 2 = some lenBytes) (rest : List UInt8) :
    lenBytes.length = 2 ∧ Quicvarint.Parse (lenBytes ++ rest) = .ok (L, 2) := by
  obtain ⟨e, he, hel, hread⟩ :=
    Quicvarint.Read_AppendWithLen_two L (Quicvarint.le_maxVarInt2_of_AppendWithLen hlen) rest
  obtain rfl : e = lenBytes := Option.some.inj (he.symm.trans hlen)
  refine ⟨hel, ?_⟩
  rw [Quicvarint.Parse_of_Read hread, List.length_append, hel, Nat.add_sub_cancel_right]

/-- After the connection IDs: the token of an Initial packet, and the length in two bytes. -/
theorem parseLengthAndToken_spec {h : Header} {pt : PacketType} (hpt : h.PacketType = some pt)
    (hretry : pt ≠ .PacketTypeRetry) (consumed : ℕ) {token tok lenBytes : List UInt8} {L : ℕ}
    (htok : if pt = .PacketTypeInitial then
        (Quicvarint.Append [] token.length).map (· ++ token) = some tok else tok = [])
    (hlen : Quicvarint.AppendWithLen [] L 2 = some lenBytes) (rest : List UInt8) :
    parseLengthAndToken h consumed (tok ++ lenBytes ++ rest) =
      ({ h with
          Token := if pt = .PacketTypeInitial then token else h.Token
          Length := L }, consumed + tok.length + 2, none) := by
  obtain ⟨hlen2, hparse⟩ := Parse_AppendWithLen_two hlen rest
  have hnr : h.PacketType ≠ some .PacketTypeRetry := by
    rw [hpt]; exact fun e => hretry (Option.some.inj e)
  unfold parseLengthAndToken
  rw [if_neg hnr]
  by_cases hi : pt = .PacketTypeInitial
  · -- the token's length, then the token
    rw [if_pos hi] at htok ⊢
    obtain ⟨tl, htl, rfl⟩ := Option.map_eq_some_iff.mp htok
    obtain ⟨e, he, hparseTok⟩ := Quicvarint.Parse_Append token.length
      (Quicvarint.le_Max_of_Append htl) (token ++ lenBytes ++ rest)
    obtain rfl : tl = e := Option.some.inj (htl.symm.trans he)
    simp only [hpt, hi, if_true, List.append_assoc] at hparseTok ⊢
    simp only [hparseTok, List.drop_left, List.take_left, List.length_append]
    rw [if_neg (by omega)]
    simp only [hparse, List.length_append, Prod.mk.injEq, and_true, true_and]
    omega
  · rw [if_neg hi] at htok ⊢
    subst htok
    simp only [hpt, Option.some.injEq, hi, if_false, List.nil_append, hparse, List.length_nil, Nat.sub_self]

theorem parseHeader_cons (b : UInt8) (rest : List UInt8) :
    parseHeader (b :: rest) =
      .ok ({ (parseLongHeader ⟨b, none, 0, .empty, .empty, 0, [], 0⟩ rest).1 with
          parsedLen := (parseLongHeader ⟨b, none, 0, .empty, .empty, 0, [], 0⟩ rest).2.1 + 1 },
        (parseLongHeader ⟨b, none, 0, .empty, .empty, 0, [], 0⟩ rest).2.2) := rfl

/-- A long header of a type with a packet number, in a supported version, parses back up to the
packet number, whatever the low four bits of its first byte, which header protection masks. The
token is kept for an Initial packet only. -/
theorem parseHeader_Append {h : ExtendedHeader} {v : UInt32} {pt : PacketType} {raw : List UInt8}
    (hv : h.Header.Version = v) (hsup : v ∈ SupportedVersions)
    (hpt : h.Header.PacketType = some pt) (hretry : pt ≠ .PacketTypeRetry)
    (hok : h.Append [] v = some (.ok raw)) :
    ∃ mid e, raw = longHeaderFirstByte v (some pt) h.PacketNumberLen :: mid ++ e ∧
      appendPacketNumber [] h.PacketNumber h.PacketNumberLen = .ok e ∧
      ∀ m rest, parseHeader
          ((longHeaderFirstByte v (some pt) h.PacketNumberLen ^^^ (m &&& 0xf)) :: mid ++ rest) =
        .ok ({ h.Header with
            typeByte := longHeaderFirstByte v (some pt) h.PacketNumberLen ^^^ (m &&& 0xf)
            Token := if pt = .PacketTypeInitial then h.Header.Token else []
            parsedLen := mid.length + 1 }, none) := by
  have hnr : h.Header.PacketType ≠ some .PacketTypeRetry := by
    rw [hpt]; exact fun e => hretry (Option.some.inj e)
  obtain ⟨tok, lenBytes, e, hraw, htok, hlen, hpn⟩ := Append_eq_ok hnr hok
  obtain ⟨h1, h4⟩ := appendPacketNumber_bounds hpn
  obtain ⟨-, hfixed, htype, -, -⟩ := longHeaderFirstByte_bits hsup hretry h1 h4
  rw [hpt, hv] at hraw
  simp only [hpt, Option.some.injEq] at htok
  set dest := h.Header.DestConnectionID
  set src := h.Header.SrcConnectionID
  refine ⟨putUint32 v ++ UInt8.ofNat dest.Len :: dest.bytes ++ UInt8.ofNat src.Len ::
    src.bytes ++ tok ++ lenBytes, e, by rw [hraw]; simp, hpn, fun m rest => ?_⟩
  set fb := longHeaderFirstByte v (some pt) h.PacketNumberLen
  -- the masked first byte keeps the fixed bit and the type
  have hfixed' : ¬ (fb ^^^ (m &&& 0xf)) &&& 0x40 = 0 := by
    rw [xor_low_and_of _ _ (by decide)]; exact hfixed
  have htype' : some (packetTypeOf v (fb ^^^ (m &&& 0xf))) = some pt := by
    rw [packetTypeOf_xor_low, htype]
  have hb : putUint32 v ++ UInt8.ofNat dest.Len :: dest.bytes ++ UInt8.ofNat src.Len ::
      src.bytes ++ tok ++ lenBytes ++ rest = putUint32 v ++ UInt8.ofNat dest.Len :: dest.bytes ++
      UInt8.ofNat src.Len :: src.bytes ++ (tok ++ lenBytes ++ rest) := by simp
  rw [List.cons_append, parseHeader_cons, hb, parseLongHeader_spec _ dest src v _ hsup hfixed',
    parseLengthAndToken_spec htype' hretry _ htok hlen rest]
  obtain ⟨hlen2, -⟩ := Parse_AppendWithLen_two hlen rest
  simp only [List.length_append, List.length_cons, hlen2, ConnectionID.Len, Header.mk.injEq,
    Except.ok.injEq, Prod.mk.injEq, and_true, true_and]
  refine ⟨htype'.trans hpt.symm, hv.symm, rfl, rfl, ?_⟩
  simp only [putUint32, List.length_cons, List.length_nil]
  omega

/-- After header protection is removed, the packet number parses back, truncated to its
length. -/
theorem ParseExtended_Append (hdr : Header) {fb : UInt8} {pn pnLen : ℕ} {pre e : List UInt8}
    (hpre : hdr.parsedLen = (fb :: pre).length) (hlen : (fb &&& 0x3).toNat + 1 = pnLen)
    (hres : fb &&& 0xc = 0) (he : appendPacketNumber [] pn pnLen = .ok e) (rest : List UInt8) :
    hdr.ParseExtended (fb :: pre ++ e ++ rest) = some (.ok
      (⟨hdr, fb, .KeyPhaseUndefined, pnLen, pn % 2 ^ (8 * pnLen), hdr.parsedLen + pnLen⟩, none)) := by
  obtain ⟨h1, h4⟩ := appendPacketNumber_bounds he
  obtain ⟨e', he', hel, hread⟩ := appendPacketNumber_spec pn pnLen h1 h4
  obtain rfl : e = e' := Except.ok.inj (he.symm.trans he')
  have hdrop : (fb :: pre ++ e ++ rest).drop hdr.parsedLen = e ++ rest := by
    rw [hpre, List.append_assoc]; exact List.drop_left' rfl
  have hlength : ¬ (fb :: pre ++ e ++ rest).length < hdr.parsedLen + pnLen := by
    simp only [hpre, List.length_append, List.length_cons, hel]; omega
  simp only [Header.ParseExtended, List.cons_append]
  rw [← List.cons_append, ← List.cons_append, hlen, if_neg hlength, hdrop, hread, if_pos hres]

/-- A long header packet whose header parses without error, and that is at least as long as its
header says: `ParsePacket` returns the header, the packet, and the packets coalesced after it. -/
theorem ParsePacket_of_parseHeader_le {b0 : UInt8} {rest : List UInt8} {hdr : Header}
    (hlong : IsLongHeaderPacket b0 = true) (hp : parseHeader (b0 :: rest) = .ok (hdr, none))
    (hlen : hdr.parsedLen + hdr.Length ≤ (b0 :: rest).length) :
    ParsePacket (b0 :: rest) = (some hdr, .ok ((b0 :: rest).take (hdr.parsedLen + hdr.Length),
      (b0 :: rest).drop (hdr.parsedLen + hdr.Length))) := by
  unfold ParsePacket
  dsimp only
  rw [if_neg (by simp [hlong]), hp]
  dsimp only
  rw [if_neg (by omega)]

/-- A long header packet whose header parses without error, and as long as its header says:
`ParsePacket` returns the header and the whole packet, with nothing coalesced after it. -/
theorem ParsePacket_of_parseHeader {b0 : UInt8} {rest : List UInt8} {hdr : Header}
    (hlong : IsLongHeaderPacket b0 = true) (hp : parseHeader (b0 :: rest) = .ok (hdr, none))
    (hlen : (b0 :: rest).length = hdr.parsedLen + hdr.Length) :
    ParsePacket (b0 :: rest) = (some hdr, .ok (b0 :: rest, [])) := by
  rw [ParsePacket_of_parseHeader_le hlong hp (by omega), ← hlen, List.take_length, List.drop_length]

/-! ## The length of a long header -/

/-- The packet number takes its length. -/
theorem length_appendPacketNumber {e : List UInt8} {pn pnLen : ℕ}
    (h : appendPacketNumber [] pn pnLen = .ok e) : e.length = pnLen := by
  obtain ⟨h1, h4⟩ := appendPacketNumber_bounds h
  obtain ⟨e', he', hel, -⟩ := appendPacketNumber_spec pn pnLen h1 h4
  rw [Except.ok.inj (h.symm.trans he'), hel]

/-- `Append` writes a header of a type with a packet number if its length fits in two bytes,
its packet number in one to four, and the length of its token in a varint. -/
theorem Append_isSome {h : ExtendedHeader} (v : UInt32)
    (hpt : h.Header.PacketType ≠ some .PacketTypeRetry) (h1 : 1 ≤ h.PacketNumberLen)
    (h4 : h.PacketNumberLen ≤ 4) (hL : h.Header.Length ≤ Quicvarint.maxVarInt2)
    (htok : h.Header.Token.length ≤ Quicvarint.Max) : ∃ raw, h.Append [] v = some (.ok raw) := by
  have hd := h.Header.DestConnectionID.length_le
  have hs := h.Header.SrcConnectionID.length_le
  obtain ⟨lb, hlb, -⟩ := Quicvarint.Read_AppendWithLen_two _ hL []
  obtain ⟨e, he, -⟩ := appendPacketNumber_spec h.PacketNumber _ h1 h4
  obtain ⟨t, ht⟩ := Quicvarint.Append_isSome htok []
  unfold ExtendedHeader.Append
  rw [if_neg (by unfold ConnectionID.Len; omega), if_neg (by unfold ConnectionID.Len; omega)]
  dsimp only
  rw [if_neg hpt]
  split
  · -- the token's length is written whenever it is at most `Max`
    next hnone =>
    split_ifs at hnone
    rw [Quicvarint.Append_eq, ht] at hnone
    cases hnone
  · rw [Quicvarint.AppendWithLen_eq, hlb, Option.map_some]
    dsimp only
    rw [appendPacketNumber_eq, he]
    exact ⟨_, rfl⟩

/-- `GetLength` is the length of what `Append` writes. -/
theorem GetLength_Append {h : ExtendedHeader} {v : UInt32} {raw : List UInt8}
    (hpt : h.Header.PacketType ≠ some .PacketTypeRetry) (hok : h.Append [] v = some (.ok raw)) :
    h.GetLength = some raw.length := by
  obtain ⟨tok, lenBytes, e, rfl, htok, hlen, hpn⟩ := Append_eq_ok hpt hok
  have hl2 := (Parse_AppendWithLen_two hlen []).1
  have hel := length_appendPacketNumber hpn
  unfold ExtendedHeader.GetLength
  by_cases hi : h.Header.PacketType = some .PacketTypeInitial
  · -- the token, after its length
    rw [if_pos hi] at htok ⊢
    obtain ⟨tl, htl, rfl⟩ := Option.map_eq_some_iff.mp htok
    rw [Quicvarint.length_Append _ htl]
    simp only [putUint32, ConnectionID.Len, List.length_cons, List.length_append, hl2, hel,
      List.length_nil, Option.map_some, Option.some.injEq]
    omega
  · rw [if_neg hi] at htok ⊢
    subst htok
    simp only [putUint32, ConnectionID.Len, List.length_cons, List.length_append, hl2, hel,
      List.length_nil, Option.some.injEq]
    omega

/-! ## Round trips -/

/-- **A long header parses back**, from a packet as long as its `Length` field says followed by
any coalesced packets: `ParsePacket` finds the header's type, version, connection IDs, token and
length and splits the packet off, and `ParseExtended` then reads the packet number, with the
header as long as `GetLength` says and `Append` writes. A token is written for an Initial packet
only. -/
theorem longHeader_roundTrip (h : ExtendedHeader) {pt : PacketType} (payload rest : List UInt8)
    (hv : h.Header.Version ∈ SupportedVersions) (hpt : h.Header.PacketType = some pt)
    (hretry : pt ≠ .PacketTypeRetry) (h1 : 1 ≤ h.PacketNumberLen) (h4 : h.PacketNumberLen ≤ 4)
    (hpn : h.PacketNumber < 2 ^ (8 * h.PacketNumberLen))
    (hlen : h.PacketNumberLen ≤ h.Header.Length) (hL : h.Header.Length ≤ Quicvarint.maxVarInt2)
    (htok : h.Header.Token.length ≤ Quicvarint.Max)
    (hpay : payload.length = h.Header.Length - h.PacketNumberLen) :
    ∃ raw, h.Append [] h.Header.Version = some (.ok raw) ∧ h.GetLength = some raw.length ∧
      ∃ hdr, ParsePacket (raw ++ payload ++ rest) = (some hdr, .ok (raw ++ payload, rest)) ∧
        hdr.PacketType = h.Header.PacketType ∧ hdr.Version = h.Header.Version ∧
        hdr.DestConnectionID = h.Header.DestConnectionID ∧
        hdr.SrcConnectionID = h.Header.SrcConnectionID ∧
        hdr.Token = (if h.Header.PacketType = some .PacketTypeInitial then h.Header.Token else []) ∧
        hdr.Length = h.Header.Length ∧
        ∃ eh, hdr.ParseExtended (raw ++ payload) = some (.ok (eh, none)) ∧
          eh.PacketNumberLen = h.PacketNumberLen ∧ eh.PacketNumber = h.PacketNumber ∧
          eh.parsedLen = raw.length := by
  have htoken : (if pt = .PacketTypeInitial then h.Header.Token else []) =
      if h.Header.PacketType = some .PacketTypeInitial then h.Header.Token else [] := by
    simp [hpt]
  have hnr : h.Header.PacketType ≠ some .PacketTypeRetry := by
    rw [hpt]; exact fun e => hretry (Option.some.inj e)
  obtain ⟨raw, hraw⟩ := Append_isSome h.Header.Version hnr h1 h4 hL htok
  obtain ⟨mid, e, rfl, hpnBytes, hparse⟩ := parseHeader_Append rfl hv hpt hretry hraw
  obtain ⟨hlong, -, -, hlenBits, hres⟩ := longHeaderFirstByte_bits hv hretry h1 h4
  have hel := length_appendPacketNumber hpnBytes
  set fb := longHeaderFirstByte h.Header.Version (some pt) h.PacketNumberLen
  -- the receiver parses the first byte as it was sent, its mask being zero
  have hp := hparse 0 (e ++ payload ++ rest)
  rw [show (0 : UInt8) &&& 0xf = 0 from rfl, UInt8.xor_zero] at hp
  set hdr : Header := { h.Header with
    typeByte := fb, Token := if pt = .PacketTypeInitial then h.Header.Token else [],
    parsedLen := mid.length + 1 }
  have hpacket : (fb :: mid ++ e ++ payload).length = hdr.parsedLen + hdr.Length := by
    simp only [hdr, List.length_cons, List.length_append, hel, hpay]
    omega
  refine ⟨fb :: mid ++ e, hraw, GetLength_Append hnr hraw, hdr, ?_, rfl, rfl, rfl, rfl, htoken,
    rfl, ?_⟩
  · -- the packet ends where its length says
    have hsplit := ParsePacket_of_parseHeader_le hlong (by simpa using hp)
      (by simp only [List.length_cons, List.length_append] at hpacket ⊢; omega)
    simp only [List.cons_append, List.append_assoc] at hsplit hpacket ⊢
    rw [hsplit, ← hpacket, show fb :: (mid ++ (e ++ (payload ++ rest))) =
      fb :: (mid ++ (e ++ payload)) ++ rest by simp, List.take_left, List.drop_left]
  · -- after the header, the packet number
    refine ⟨_, ParseExtended_Append hdr rfl hlenBits hres hpnBytes payload, rfl,
      Nat.mod_eq_of_lt hpn, ?_⟩
    simp only [hdr, List.length_cons, List.length_append, hel]

/-- **A short header parses back**, for a key phase that is set: the header's length is
`ShortHeaderLen`, and the packet number, its length and the key phase are those written. -/
theorem shortHeader_roundTrip (connID : ConnectionID) (pn pnLen : ℕ) (kp : KeyPhaseBit)
    (h1 : 1 ≤ pnLen) (h4 : pnLen ≤ 4) (hpn : pn < 2 ^ (8 * pnLen))
    (hkp : kp ≠ .KeyPhaseUndefined) :
    ∃ e, AppendShortHeader [] connID pn pnLen kp = .ok e ∧
      ParseShortHeader e connID.Len = some (⟨ShortHeaderLen connID pnLen, pn, pnLen, kp⟩, none) := by
  obtain ⟨e, he, -, hparse⟩ := ParseShortHeader_AppendShortHeader connID pn pnLen kp h1 h4 hkp
  refine ⟨_, he, ?_⟩
  rw [← List.append_nil (_ :: connID.bytes ++ e), hparse [], Nat.mod_eq_of_lt hpn]
  rfl

/-- **Headers parse back.** A long header of a type with a packet number, in either version,
with a packet number that its length holds and a length field that two bytes hold, parses back
from a packet of that length followed by any bytes, and its length is `GetLength`; a short
header parses back for a key phase that is set. -/
theorem header_roundTrip :
    (∀ (h : ExtendedHeader) (payload rest : List UInt8),
      (h.Header.Version = Version1 ∨ h.Header.Version = Version2) →
      (h.Header.PacketType = some .PacketTypeInitial ∨ h.Header.PacketType = some .PacketType0RTT ∨
        h.Header.PacketType = some .PacketTypeHandshake) →
      1 ≤ h.PacketNumberLen → h.PacketNumberLen ≤ 4 →
      h.PacketNumber < 2 ^ (8 * h.PacketNumberLen) → h.PacketNumberLen ≤ h.Header.Length →
      h.Header.Length ≤ 16383 → h.Header.Token.length ≤ Quicvarint.Max →
      payload.length = h.Header.Length - h.PacketNumberLen →
      ∃ raw, h.Append [] h.Header.Version = some (.ok raw) ∧ h.GetLength = some raw.length ∧
        ∃ hdr, ParsePacket (raw ++ payload ++ rest) = (some hdr, .ok (raw ++ payload, rest)) ∧
          hdr.PacketType = h.Header.PacketType ∧ hdr.Version = h.Header.Version ∧
          hdr.DestConnectionID = h.Header.DestConnectionID ∧
          hdr.SrcConnectionID = h.Header.SrcConnectionID ∧
          hdr.Token =
            (if h.Header.PacketType = some .PacketTypeInitial then h.Header.Token else []) ∧
          hdr.Length = h.Header.Length ∧
          ∃ eh, hdr.ParseExtended (raw ++ payload) = some (.ok (eh, none)) ∧
            eh.PacketNumberLen = h.PacketNumberLen ∧ eh.PacketNumber = h.PacketNumber ∧
            eh.parsedLen = raw.length) ∧
    ∀ (connID : ConnectionID) (pn pnLen : ℕ) (kp : KeyPhaseBit), 1 ≤ pnLen → pnLen ≤ 4 →
      pn < 2 ^ (8 * pnLen) → kp ≠ .KeyPhaseUndefined →
      ∃ e, AppendShortHeader [] connID pn pnLen kp = .ok e ∧
        ParseShortHeader e connID.Len =
          some (⟨ShortHeaderLen connID pnLen, pn, pnLen, kp⟩, none) := by
  refine ⟨fun h payload rest hv htype h1 h4 hpn hlen hL htok hpay => ?_, shortHeader_roundTrip⟩
  -- the three types with a packet number are those other than Retry
  obtain ⟨pt, hpt, hretry⟩ : ∃ pt, h.Header.PacketType = some pt ∧ pt ≠ .PacketTypeRetry := by
    rcases htype with h' | h' | h' <;> exact ⟨_, h', by decide⟩
  have hv' : h.Header.Version ∈ SupportedVersions := by
    rcases hv with h' | h' <;> simp [SupportedVersions, h']
  exact longHeader_roundTrip h payload rest hv' hpt hretry h1 h4 hpn hlen hL htok hpay

/-- A short header with an undefined key phase is written as one with key phase zero, and parses
back so. -/
theorem undefinedKeyPhase_parsed_as_zero :
    AppendShortHeader [] .empty 7 1 .KeyPhaseUndefined = .ok [0x40, 7] ∧
      ParseShortHeader [0x40, 7] ConnectionID.empty.Len =
        some (⟨ShortHeaderLen .empty 1, 7, 1, .KeyPhaseZero⟩, none) := by
  decide

end Wire

end QuicGo
