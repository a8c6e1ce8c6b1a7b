import QuicGo.Wire.HeaderRoundTrip
import QuicGo.Packet.Packer
import QuicGo.Packet.Unpacker

/-!
# QuicGo — header protection round trip between the packer and the unpacker

A packet the packer writes, the unpacker takes back: it removes header protection, parses the
header, and leaves the buffer as it was when the payload had been sealed, before header
protection was applied. The argument has three parts.

* The padding gives the packet number and the payload at least four bytes, so the sample at four
  bytes after the packet number's offset lies within the sealed packet, and it is the same
  sample for the sender, which masks only the packet number, and for the receiver, which
  unmasks four bytes (`protect_unprotect`): no byte of the sample is masked.
* XOR with the same mask is an involution: the receiver's first byte and packet number are the
  sender's, and the bytes unmasked beyond the packet number are the ciphertext XORed with the
  mask, which the receiver overwrites with the four bytes it saved (`restore_saved`).
* The header parsers read back what the header writers wrote (`Wire.HeaderRoundTrip`); the long
  header is parsed before header protection is removed, which masks only bits it does not
  read.
-/

namespace QuicGo

namespace Packet

open Wire Handshake Buffer

/-! ## The pieces of a packet -/

/-- What `appendPacketPayload` adds: the frames and the padding. -/
theorem appendPacketPayload_eq_ok {raw raw' : List UInt8} {pl : Payload} {paddingLen : ℕ}
    (h : appendPacketPayload raw pl paddingLen = .ok raw') :
    ∃ P, raw' = raw ++ P ∧ P.length = pl.length + paddingLen := by
  have hpad : ∀ b : List UInt8, (if paddingLen > 0 then b ++ List.replicate paddingLen 0 else b) =
      b ++ List.replicate paddingLen 0 := by
    intro b
    by_cases hp : paddingLen > 0
    · rw [if_pos hp]
    · rw [if_neg hp, Nat.eq_zero_of_not_pos hp, List.replicate_zero, List.append_nil]
  unfold appendPacketPayload at h
  simp only [hpad] at h
  by_cases hsize : (raw ++ pl.ack.getD [] ++ List.replicate paddingLen 0 ++ pl.frames.flatten ++
      pl.streamFrames.flatten).length - raw.length - paddingLen ≠ pl.length
  · rw [if_pos hsize] at h
    cases h
  rw [if_neg hsize] at h
  cases h
  refine ⟨pl.ack.getD [] ++ List.replicate paddingLen 0 ++ pl.frames.flatten ++
    pl.streamFrames.flatten, by simp, ?_⟩
  simp only [List.length_append, List.length_replicate, not_not] at hsize ⊢
  omega

/-- The padding gives the packet number and the payload four bytes at least. -/
theorem le_paddingLength (pl : Payload) (pnLen padding : ℕ) :
    4 - pnLen ≤ pl.length + paddingLength pl pnLen padding := by
  unfold paddingLength
  split_ifs <;> omega

theorem sealPacket_append (sealer : Sealer) (hdr P : List UInt8) (pn : ℕ) :
    sealer.sealPacket (hdr ++ P) pn hdr.length = hdr ++ sealer.Seal P pn hdr := by
  rw [Sealer.sealPacket, List.take_left, List.drop_left]

theorem appendShortHeaderPacket_eq_ok {connID : ConnectionID} {pn pnLen : ℕ} {kp : KeyPhaseBit}
    {pl : Payload} {padding maxPacketSize : ℕ} {sealer : Sealer} {isMTUProbePacket : Bool}
    {raw : List UInt8} {pkt : ShortHeaderPacket}
    (hbuilt : appendShortHeaderPacket connID pn pnLen kp pl padding maxPacketSize sealer
      isMTUProbePacket = some (.ok (raw, pkt))) :
    ∃ hdr plain, AppendShortHeader [] connID pn pnLen kp = .ok hdr ∧
      appendPacketPayload hdr pl (paddingLength pl pnLen padding) = .ok plain ∧
      encryptPacket plain sealer pn hdr.length pnLen = some raw := by
  unfold appendShortHeaderPacket at hbuilt
  cases hh : AppendShortHeader [] connID pn pnLen kp with
  | error err => rw [hh] at hbuilt; cases hbuilt
  | ok hdr =>
    rw [hh] at hbuilt
    dsimp only at hbuilt
    cases hp : appendPacketPayload hdr pl (paddingLength pl pnLen padding) with
    | error err => rw [hp] at hbuilt; cases hbuilt
    | ok plain =>
      rw [hp] at hbuilt
      dsimp only at hbuilt
      -- the size check passed
      by_cases hbig : (!isMTUProbePacket) = true ∧ plain.length + sealer.Overhead > maxPacketSize
      · rw [if_pos hbig] at hbuilt; cases hbuilt
      rw [if_neg hbig] at hbuilt
      obtain ⟨r, hr, he⟩ := Option.map_eq_some_iff.mp hbuilt
      cases he
      exact ⟨hdr, plain, rfl, hp, hr⟩

theorem appendLongHeaderPacket_eq_ok {header : ExtendedHeader} {pl : Payload} {padding : ℕ}
    {sealer : Sealer} {v : UInt32} {raw : List UInt8} {pkt : LongHeaderPacket}
    (hbuilt : appendLongHeaderPacket header pl padding sealer v = some (.ok (raw, pkt))) :
    ∃ hdr plain, pkt.header.Append [] v = some (.ok hdr) ∧
      pkt.header = { header with
        Header.Length := header.PacketNumberLen + sealer.Overhead + pl.length +
          paddingLength pl header.PacketNumberLen padding } ∧
      appendPacketPayload hdr pl (paddingLength pl header.PacketNumberLen padding) = .ok plain ∧
      encryptPacket plain sealer header.PacketNumber hdr.length header.PacketNumberLen =
        some raw := by
  unfold appendLongHeaderPacket at hbuilt
  dsimp only at hbuilt
  split at hbuilt
  · cases hbuilt
  · cases hbuilt
  rename_i hdr hh
  cases hp : appendPacketPayload hdr pl (paddingLength pl header.PacketNumberLen padding) with
  | error err => rw [hp] at hbuilt; cases hbuilt
  | ok plain =>
    rw [hp] at hbuilt
    dsimp only at hbuilt
    obtain ⟨r, hr, he⟩ := Option.map_eq_some_iff.mp hbuilt
    cases he
    exact ⟨hdr, plain, hh, rfl, hp, hr⟩

/-! ## Protecting `pnLen` bytes, unprotecting four -/

/-- Header protection of a packet number of one to four bytes, then its removal assuming four
bytes: the sample is the same both times, so the first byte and the packet number come back,
and the bytes after the packet number up to four are left XORed with the rest of the mask. -/
theorem protect_unprotect (p : HeaderProtector) (b0 : UInt8) (pre e c : List UInt8)
    (pnOffset : ℕ) (hoff : pnOffset = pre.length + 1) (he4 : e.length ≤ 4)
    (hc : 4 - e.length + 16 ≤ c.length) :
    ∃ m0 mask, p.applyAt (b0 :: pre ++ e ++ c) pnOffset e.length =
        some ((b0 ^^^ (m0 &&& p.firstByteBits)) :: pre ++ xorWith e mask ++ c) ∧
      4 ≤ mask.length ∧
      p.applyAt ((b0 ^^^ (m0 &&& p.firstByteBits)) :: pre ++ xorWith e mask ++ c) pnOffset 4 =
        some (b0 :: pre ++ e ++ (xorWith (c.take (4 - e.length)) (mask.drop e.length) ++
          c.drop (4 - e.length))) := by
  subst hoff
  obtain ⟨m0, mask, hm, hm4, happ⟩ := applyAt_spec p b0 pre e c he4 (by omega)
  refine ⟨m0, mask, happ, hm4, ?_⟩
  have hml : e.length ≤ mask.length := by omega
  set b0' := b0 ^^^ (m0 &&& p.firstByteBits)
  -- the receiver's four bytes: the masked packet number and the first bytes of the ciphertext
  have hsplit : b0' :: pre ++ xorWith e mask ++ c =
      b0' :: pre ++ (xorWith e mask ++ c.take (4 - e.length)) ++ c.drop (4 - e.length) := by
    simp
  have hxl : (xorWith e mask).length = e.length := length_xorWith hml
  have hfour : (xorWith e mask ++ c.take (4 - e.length)).length = 4 := by
    rw [List.length_append, hxl, List.length_take]; omega
  obtain ⟨m0', mask', hm', -, happ'⟩ := applyAt_spec p b0' pre
    (xorWith e mask ++ c.take (4 - e.length)) (c.drop (4 - e.length)) (by omega)
    (by rw [hfour, List.length_drop]; omega)
  -- no byte of the sample was masked
  have hsample : slice (b0' :: pre ++ (xorWith e mask ++ c.take (4 - e.length)) ++
      c.drop (4 - e.length)) (pre.length + 1 + 4) 16 = slice (b0 :: pre ++ e ++ c)
      (pre.length + 1 + 4) 16 := by
    have h₁ := slice_append_beyond (b0' :: pre) (xorWith e mask ++ c.take (4 - e.length))
      (c.drop (4 - e.length)) 0 16
    have h₂ := slice_append_beyond (b0 :: pre) e c (4 - e.length) 16
    rw [hfour, List.length_cons] at h₁
    rw [List.length_cons] at h₂
    rw [h₁, show pre.length + 1 + 4 = pre.length + 1 + e.length + (4 - e.length) by omega, h₂]
    simp [slice]
  rw [hsample, hm, List.cons.injEq] at hm'
  obtain ⟨rfl, rfl⟩ := hm'
  rw [hfour] at happ'
  rw [hsplit, happ', xor_xor_cancel, xorWith_append, xorWith_xorWith xor_xor_cancel hml,
    hxl]
  simp

/-- The unpacker's restore, after removing the protection of four bytes from a packet number
of `n` bytes: the four bytes it saved, beyond the packet number, are copied back over those it
unmasked there, and the buffer is the sealed packet again. -/
theorem restore_saved {β : Type*} (b0 b0' : UInt8) (pre e c mask : List UInt8) {n : ℕ}
    (hdrLen : ℕ) (x : β) (hn : e.length = n) (hhdr : hdrLen = pre.length + 1) (he4 : n ≤ 4)
    (hm4 : 4 ≤ mask.length) (hc : 4 - n ≤ c.length) :
    (if n ≠ 4 then
        some (write (b0 :: pre ++ e ++ (xorWith (c.take (4 - e.length)) (mask.drop e.length) ++
            c.drop (4 - e.length))) (hdrLen + n)
          ((slice (b0' :: pre ++ xorWith e mask ++ c) hdrLen 4).drop n), x)
      else
        some (b0 :: pre ++ e ++ (xorWith (c.take (4 - e.length)) (mask.drop e.length) ++
          c.drop (4 - e.length)), x)) =
      some (b0 :: pre ++ e ++ c, x) := by
  subst hn hhdr
  have hml : e.length ≤ mask.length := by omega
  by_cases hfull : e.length = 4
  · -- a four-byte packet number: nothing was unmasked beyond it
    rw [if_neg (not_not.mpr hfull)]
    have hk : 4 - e.length = 0 := by omega
    simp [hk, xorWith]
  rw [if_pos hfull]
  -- the saved bytes beyond the packet number are the first bytes of the ciphertext
  have hfour : (xorWith e mask ++ c.take (4 - e.length)).length = 4 := by
    rw [List.length_append, length_xorWith hml, List.length_take]; omega
  have hsplit : b0' :: pre ++ xorWith e mask ++ c =
      b0' :: pre ++ (xorWith e mask ++ c.take (4 - e.length)) ++ c.drop (4 - e.length) := by
    simp
  have hsaved : (slice (b0' :: pre ++ xorWith e mask ++ c) (pre.length + 1) 4).drop e.length =
      c.take (4 - e.length) := by
    rw [hsplit, show pre.length + 1 = (b0' :: pre).length from rfl,
      slice_append_of_le _ _ _ (Nat.le_of_eq hfour.symm),
      List.take_of_length_le (Nat.le_of_eq hfour), List.drop_left' (length_xorWith hml)]
  have hlen : pre.length + 1 + e.length = (b0 :: pre ++ e).length := by
    simp only [List.length_append, List.length_cons]
  have hx : (xorWith (c.take (4 - e.length)) (mask.drop e.length)).length =
      (c.take (4 - e.length)).length :=
    length_xorWith (by simp only [List.length_take, List.length_drop]; omega)
  rw [hsaved, hlen, ← List.append_assoc, write_append _ _ _ _ hx.symm, List.append_assoc,
    List.take_append_drop]

/-! ## Short headers -/

/-- A short header packet the packer writes, with a packet number of one to four bytes and the
key phase zero or one, sealed with an overhead of 16 bytes: the sample lies within the sealed
packet, and `unpackShortHeader` with the same protector returns the packet number truncated to
its length, that length and the key phase, without an error, and the buffer as it was after
sealing. -/
theorem unpackShortHeader_appendShortHeaderPacket {connID : ConnectionID} {pn pnLen : ℕ}
    {kp : KeyPhaseBit} {pl : Payload} {padding maxPacketSize : ℕ} {sealer : Sealer}
    {isMTUProbePacket : Bool} {raw : List UInt8} {pkt : ShortHeaderPacket}
    (h1 : 1 ≤ pnLen) (h4 : pnLen ≤ 4) (hkp : kp ≠ .KeyPhaseUndefined)
    (hov : sealer.Overhead = 16)
    (hbuilt : appendShortHeaderPacket connID pn pnLen kp pl padding maxPacketSize sealer
      isMTUProbePacket = some (.ok (raw, pkt))) :
    ∃ hdr plain, AppendShortHeader [] connID pn pnLen kp = .ok hdr ∧
      appendPacketPayload hdr pl (paddingLength pl pnLen padding) = .ok plain ∧
      hdr.length - pnLen + 4 + 16 ≤ (sealer.sealPacket plain pn hdr.length).length ∧
      unpackShortHeader sealer.hp connID.Len raw = some (sealer.sealPacket plain pn hdr.length,
        ⟨1 + connID.Len + pnLen, pn % 2 ^ (8 * pnLen), pnLen, kp⟩, none) := by
  obtain ⟨hdr, plain, hh, hp, he⟩ := appendShortHeaderPacket_eq_ok hbuilt
  obtain ⟨e, hh', hel, hparse⟩ := ParseShortHeader_AppendShortHeader connID pn pnLen kp h1 h4 hkp
  obtain rfl : hdr = _ := Except.ok.inj (hh.symm.trans hh')
  obtain ⟨P, rfl, hP⟩ := appendPacketPayload_eq_ok hp
  refine ⟨_, _, hh, hp, ?_⟩
  set tb := shortHeaderTypeByte pnLen kp
  have hroom := le_paddingLength pl pnLen padding
  have hc : (sealer.Seal P pn (tb :: connID.bytes ++ e)).length = P.length + 16 := by
    rw [sealer.seal_length, hov]
  rw [sealPacket_append]
  set c := sealer.Seal P pn (tb :: connID.bytes ++ e)
  have hoff : (tb :: connID.bytes ++ e).length - pnLen = connID.bytes.length + 1 := by
    simp only [List.length_append, List.length_cons, hel]; omega
  refine ⟨by simp only [List.length_append, List.length_cons, hel, hc]; omega, ?_⟩
  obtain ⟨m0, mask, hprot, hm4, hunprot⟩ := protect_unprotect sealer.hp tb connID.bytes e c
    (1 + connID.Len) (by unfold ConnectionID.Len; omega) (by omega) (by omega)
  have hml : e.length ≤ mask.length := by omega
  -- the bytes sent
  have hraw : raw = (tb ^^^ (m0 &&& sealer.hp.firstByteBits)) :: connID.bytes ++
      xorWith e mask ++ c := by
    unfold encryptPacket at he
    rw [sealPacket_append, hoff, ← hel, show connID.bytes.length + 1 = 1 + connID.Len by
      unfold ConnectionID.Len; omega, hprot] at he
    exact (Option.some.inj he).symm
  subst hraw
  have hsize : ¬ ((tb ^^^ (m0 &&& sealer.hp.firstByteBits)) :: connID.bytes ++ xorWith e mask ++
      c).length < 1 + connID.Len + 4 + 16 := by
    simp only [List.length_append, List.length_cons, length_xorWith hml, hel, hc,
      ConnectionID.Len]
    omega
  unfold unpackShortHeader
  rw [if_neg hsize, hunprot]
  dsimp only
  rw [hparse]
  dsimp only
  rw [if_neg (by simp)]
  exact restore_saved tb _ connID.bytes e c mask (1 + connID.Len) _ hel
    (by unfold ConnectionID.Len; omega) h4 hm4 (by omega)

/-! ## Long headers -/

/-- A long header packet the packer writes, of a type with a packet number, in the supported
version it is written for, sealed with an overhead of 16 bytes by a long-header protector: the
sample lies within the sealed packet; `ParsePacket` finds the whole packet and its header, with
the header's type, version, connection IDs and length, and the token of an Initial packet; and
`unpackLongHeader` with that header and the same protector returns, without an error, the
packet number length and the packet number truncated to it, and the buffer as it was after
sealing. -/
theorem unpackLongHeader_appendLongHeaderPacket {header : ExtendedHeader} {pl : Payload}
    {padding : ℕ} {sealer : Sealer} {v : UInt32} {pt : PacketType} {raw : List UInt8}
    {pkt : LongHeaderPacket} (hv : header.Header.Version = v) (hsup : v ∈ SupportedVersions)
    (hpt : header.Header.PacketType = some pt) (hretry : pt ≠ .PacketTypeRetry)
    (hov : sealer.Overhead = 16) (hlong : sealer.hp.isLongHeader = true)
    (hbuilt : appendLongHeaderPacket header pl padding sealer v = some (.ok (raw, pkt))) :
    ∃ hdrBytes plain, pkt.header.Append [] v = some (.ok hdrBytes) ∧
      appendPacketPayload hdrBytes pl (paddingLength pl pkt.header.PacketNumberLen padding) =
        .ok plain ∧
      hdrBytes.length - pkt.header.PacketNumberLen + 4 + 16 ≤
        (sealer.sealPacket plain pkt.header.PacketNumber hdrBytes.length).length ∧
      ∃ hdr, ParsePacket raw = (some hdr, .ok (raw, [])) ∧
        hdr.PacketType = pkt.header.Header.PacketType ∧ hdr.Version = pkt.header.Header.Version ∧
        hdr.SrcConnectionID = pkt.header.Header.SrcConnectionID ∧
        hdr.DestConnectionID = pkt.header.Header.DestConnectionID ∧
        hdr.Length = pkt.header.Header.Length ∧
        hdr.Token = (if pt = .PacketTypeInitial then pkt.header.Header.Token else []) ∧
        ∃ firstByte, unpackLongHeader sealer.hp hdr raw =
          some (sealer.sealPacket plain pkt.header.PacketNumber hdrBytes.length,
            .ok (⟨hdr, firstByte, .KeyPhaseUndefined, pkt.header.PacketNumberLen,
              pkt.header.PacketNumber % 2 ^ (8 * pkt.header.PacketNumberLen),
              hdr.parsedLen + pkt.header.PacketNumberLen⟩, none)) := by
  obtain ⟨hdrBytes, plain, hA, hpkt, hp, he⟩ := appendLongHeaderPacket_eq_ok hbuilt
  -- the packet's header is the one given, with its length set
  have hv' : pkt.header.Header.Version = v := by rw [hpkt]; exact hv
  have hpt' : pkt.header.Header.PacketType = some pt := by rw [hpkt]; exact hpt
  have hpnLen : pkt.header.PacketNumberLen = header.PacketNumberLen := by rw [hpkt]
  have hpn : pkt.header.PacketNumber = header.PacketNumber := by rw [hpkt]
  have hlen : pkt.header.Header.Length = pkt.header.PacketNumberLen + 16 + pl.length +
      paddingLength pl pkt.header.PacketNumberLen padding := by rw [hpkt, hov]
  rw [← hpnLen] at hp he
  rw [← hpn] at he
  set pnLen := pkt.header.PacketNumberLen
  set pn := pkt.header.PacketNumber
  obtain ⟨mid, e, hraw, hpnBytes, hparse⟩ := parseHeader_Append hv' hsup hpt' hretry hA
  obtain ⟨h1, h4⟩ := appendPacketNumber_bounds hpnBytes
  obtain ⟨e', he', hel, -⟩ := appendPacketNumber_spec pn pnLen h1 h4
  obtain rfl : e = e' := Except.ok.inj (hpnBytes.symm.trans he')
  obtain ⟨hlongBit, -, -, hpl, hres⟩ := longHeaderFirstByte_bits hsup hretry h1 h4
  obtain ⟨P, rfl, hP⟩ := appendPacketPayload_eq_ok hp
  subst hraw
  set fb := longHeaderFirstByte v (some pt) pnLen
  have hroom := le_paddingLength pl pnLen padding
  have hc : (sealer.Seal P pn (fb :: mid ++ e)).length = P.length + 16 := by
    rw [sealer.seal_length, hov]
  refine ⟨_, _, hA, hp, ?_⟩
  rw [sealPacket_append]
  set c := sealer.Seal P pn (fb :: mid ++ e)
  have hoff : (fb :: mid ++ e).length - pnLen = mid.length + 1 := by
    simp only [List.length_append, List.length_cons, hel]; omega
  refine ⟨by simp only [List.length_append, List.length_cons, hel, hc]; omega, ?_⟩
  obtain ⟨m0, mask, hprot, hm4, hunprot⟩ := protect_unprotect sealer.hp fb mid e c
    (mid.length + 1) rfl (by omega) (by omega)
  -- the bytes sent
  have hraw : raw = (fb ^^^ (m0 &&& sealer.hp.firstByteBits)) :: mid ++ xorWith e mask ++ c := by
    unfold encryptPacket at he
    rw [sealPacket_append, hoff, ← hel, hprot] at he
    exact (Option.some.inj he).symm
  subst hraw
  have hbits : sealer.hp.firstByteBits = 0xf := by
    rw [HeaderProtector.firstByteBits, if_pos hlong]
  have hml : e.length ≤ mask.length := by omega
  -- the receiver parses the header before removing header protection
  have hparse' := hparse m0 (xorWith e mask ++ c)
  rw [← hbits] at hparse'
  set hdr := { pkt.header.Header with
    typeByte := fb ^^^ (m0 &&& sealer.hp.firstByteBits)
    Token := if pt = PacketType.PacketTypeInitial then pkt.header.Header.Token else []
    parsedLen := mid.length + 1 } with hhdr
  have hbuf : (fb ^^^ (m0 &&& sealer.hp.firstByteBits)) :: mid ++ xorWith e mask ++ c =
      (fb ^^^ (m0 &&& sealer.hp.firstByteBits)) :: (mid ++ xorWith e mask ++ c) := by simp
  have hxl : (xorWith e mask).length = e.length := length_xorWith hml
  refine ⟨hdr, ?_, rfl, rfl, rfl, rfl, rfl, rfl, fb, ?_⟩
  · -- the header says how long the packet is: nothing is coalesced after it
    rw [hbuf]
    apply ParsePacket_of_parseHeader
    · unfold IsLongHeaderPacket at hlongBit ⊢
      rw [hbits, xor_low_and_of _ _ (by decide)]
      exact hlongBit
    · rw [← hparse']
      simp
    · simp only [hhdr, hlen, List.length_cons, List.length_append, hxl, hel, hc, hP]
      omega
  · -- header protection removed, the header parsed, the saved bytes restored
    have hsize : ¬ ((fb ^^^ (m0 &&& sealer.hp.firstByteBits)) :: mid ++ xorWith e mask ++
        c).length < hdr.parsedLen + 4 + 16 := by
      simp only [hhdr, List.length_append, List.length_cons, hxl, hel, hc]
      omega
    unfold unpackLongHeader
    rw [if_neg hsize, show hdr.parsedLen = mid.length + 1 from rfl, hunprot]
    dsimp only
    rw [ParseExtended_Append hdr rfl hpl hres hpnBytes]
    dsimp only
    exact restore_saved fb _ mid e c mask (mid.length + 1) _ hel rfl h4 hm4 (by omega)

/-! ## Both kinds of packets -/

/-- Header protection round trip between the packer and the unpacker. A short header packet
with a packet number of one to four bytes and the key phase zero or one, and a long header
packet of a type with a packet number in the supported version it is written for, sealed with
an overhead of 16 bytes (by a long-header protector for a long header): the sample is within the
sealed packet, and the unpacker with the same protector returns the header without an error,
with the packet number truncated to its length, and the buffer as it was after sealing. -/
theorem headerProtection_roundTrip :
    (∀ (connID : ConnectionID) (pn pnLen : ℕ) (kp : KeyPhaseBit) (pl : Payload)
      (padding maxPacketSize : ℕ) (sealer : Sealer) (isMTUProbePacket : Bool) (raw : List UInt8)
      (pkt : ShortHeaderPacket),
      1 ≤ pnLen → pnLen ≤ 4 → kp ≠ .KeyPhaseUndefined → sealer.Overhead = 16 →
      appendShortHeaderPacket connID pn pnLen kp pl padding maxPacketSize sealer
        isMTUProbePacket = some (.ok (raw, pkt)) →
      ∃ hdr plain, AppendShortHeader [] connID pn pnLen kp = .ok hdr ∧
        appendPacketPayload hdr pl (paddingLength pl pnLen padding) = .ok plain ∧
        hdr.length - pnLen + 4 + 16 ≤ (sealer.sealPacket plain pn hdr.length).length ∧
        unpackShortHeader sealer.hp connID.Len raw = some (sealer.sealPacket plain pn hdr.length,
          ⟨1 + connID.Len + pnLen, pn % 2 ^ (8 * pnLen), pnLen, kp⟩, none)) ∧
    (∀ (header : ExtendedHeader) (pl : Payload) (padding : ℕ) (sealer : Sealer) (v : UInt32)
      (pt : PacketType) (raw : List UInt8) (pkt : LongHeaderPacket),
      header.Header.Version = v → v ∈ SupportedVersions → header.Header.PacketType = some pt →
      pt ≠ .PacketTypeRetry → sealer.Overhead = 16 → sealer.hp.isLongHeader = true →
      appendLongHeaderPacket header pl padding sealer v = some (.ok (raw, pkt)) →
      ∃ hdrBytes plain, pkt.header.Append [] v = some (.ok hdrBytes) ∧
        appendPacketPayload hdrBytes pl (paddingLength pl pkt.header.PacketNumberLen padding) =
          .ok plain ∧
        hdrBytes.length - pkt.header.PacketNumberLen + 4 + 16 ≤
          (sealer.sealPacket plain pkt.header.PacketNumber hdrBytes.length).length ∧
        ∃ hdr, ParsePacket raw = (some hdr, .ok (raw, [])) ∧
          hdr.PacketType = pkt.header.Header.PacketType ∧
          hdr.Version = pkt.header.Header.Version ∧
          hdr.SrcConnectionID = pkt.header.Header.SrcConnectionID ∧
          hdr.DestConnectionID = pkt.header.Header.DestConnectionID ∧
          hdr.Length = pkt.header.Header.Length ∧
          hdr.Token = (if pt = .PacketTypeInitial then pkt.header.Header.Token else []) ∧
          ∃ firstByte, unpackLongHeader sealer.hp hdr raw =
            some (sealer.sealPacket plain pkt.header.PacketNumber hdrBytes.length,
              .ok (⟨hdr, firstByte, .KeyPhaseUndefined, pkt.header.PacketNumberLen,
                pkt.header.PacketNumber % 2 ^ (8 * pkt.header.PacketNumberLen),
                hdr.parsedLen + pkt.header.PacketNumberLen⟩, none))) := by
  constructor
  · intro connID pn pnLen kp pl padding maxPacketSize sealer isMTUProbePacket raw pkt h1 h4 hkp
      hov hbuilt
    exact unpackShortHeader_appendShortHeaderPacket h1 h4 hkp hov hbuilt
  · intro header pl padding sealer v pt raw pkt hv hsup hpt hretry hov hlong hbuilt
    exact unpackLongHeader_appendLongHeaderPacket hv hsup hpt hretry hov hlong hbuilt

/-- A sealer whose AEAD appends sixteen bytes `0xaa`, and whose header protector's mask is the
first five bytes of the sample. -/
def exampleSealer : Sealer where
  Seal src _ _ := src ++ List.replicate 16 0xaa
  Overhead := 16
  seal_length src _ _ := by simp
  hp := ⟨fun sample => (sample ++ List.replicate 5 0).take 5, true, fun sample => by simp⟩

def exampleConnID : ConnectionID := ⟨[1, 2], by decide⟩

/-- A payload of one frame of one byte. -/
def examplePayload : Payload := ⟨none, [[1]], [], 1⟩

/-- An Initial header with packet number 7 in one byte, in version 1. -/
def exampleHeader : ExtendedHeader :=
  ⟨⟨0, some .PacketTypeInitial, Version1, exampleConnID, exampleConnID, 0, [3], 0⟩, 0,
    .KeyPhaseUndefined, 1, 7, 0⟩

theorem headerProtection_roundTrip_examples :
    (∃ raw pkt, appendShortHeaderPacket exampleConnID 7 1 .KeyPhaseOne examplePayload 0 1500
        exampleSealer false = some (.ok (raw, pkt)) ∧
      ∃ hdr plain, AppendShortHeader [] exampleConnID 7 1 .KeyPhaseOne = .ok hdr ∧
        appendPacketPayload hdr examplePayload (paddingLength examplePayload 1 0) = .ok plain ∧
        hdr.length - 1 + 4 + 16 ≤ (exampleSealer.sealPacket plain 7 hdr.length).length ∧
        unpackShortHeader exampleSealer.hp exampleConnID.Len raw =
          some (exampleSealer.sealPacket plain 7 hdr.length,
            ⟨1 + exampleConnID.Len + 1, 7 % 2 ^ (8 * 1), 1, .KeyPhaseOne⟩, none)) ∧
    (∃ raw pkt, appendLongHeaderPacket exampleHeader examplePayload 0 exampleSealer Version1 =
        some (.ok (raw, pkt)) ∧
      ∃ hdrBytes plain, pkt.header.Append [] Version1 = some (.ok hdrBytes) ∧
        appendPacketPayload hdrBytes examplePayload
          (paddingLength examplePayload pkt.header.PacketNumberLen 0) = .ok plain ∧
        hdrBytes.length - pkt.header.PacketNumberLen + 4 + 16 ≤
          (exampleSealer.sealPacket plain pkt.header.PacketNumber hdrBytes.length).length ∧
        ∃ hdr, ParsePacket raw = (some hdr, .ok (raw, [])) ∧
          hdr.PacketType = pkt.header.Header.PacketType ∧
          hdr.Version = pkt.header.Header.Version ∧
          hdr.SrcConnectionID = pkt.header.Header.SrcConnectionID ∧
          hdr.DestConnectionID = pkt.header.Header.DestConnectionID ∧
          hdr.Length = pkt.header.Header.Length ∧
          hdr.Token = (if PacketType.PacketTypeInitial = .PacketTypeInitial then
            pkt.header.Header.Token else []) ∧
          ∃ firstByte, unpackLongHeader exampleSealer.hp hdr raw =
            some (exampleSealer.sealPacket plain pkt.header.PacketNumber hdrBytes.length,
              .ok (⟨hdr, firstByte, .KeyPhaseUndefined, pkt.header.PacketNumberLen,
                pkt.header.PacketNumber % 2 ^ (8 * pkt.header.PacketNumberLen),
                hdr.parsedLen + pkt.header.PacketNumberLen⟩, none))) :=
  ⟨⟨_, _, rfl, headerProtection_roundTrip.1 exampleConnID 7 1 .KeyPhaseOne examplePayload 0 1500
      exampleSealer false _ _ (by decide) (by decide) (by decide) rfl rfl⟩,
    ⟨_, _, rfl, headerProtection_roundTrip.2 exampleHeader examplePayload 0 exampleSealer Version1
      .PacketTypeInitial _ _ rfl (by decide) rfl (by decide) rfl rfl rfl⟩⟩

/-- A header `ExtendedHeader.Append` accepts, in a version that is not supported: the packer
writes the packet, and the receiver's `ParsePacket` rejects it with `ErrUnsupportedVersion`,
with no header to unpack. -/
theorem unsupportedVersion_not_unpacked :
    ∃ raw pkt, appendLongHeaderPacket
        { exampleHeader with Header.Version := 0x1a2a3a4a } examplePayload 0 exampleSealer
        0x1a2a3a4a = some (.ok (raw, pkt)) ∧
      (ParsePacket raw).2 = .error .ErrUnsupportedVersion :=
  ⟨_, _, rfl, by decide⟩

end Packet

end QuicGo
