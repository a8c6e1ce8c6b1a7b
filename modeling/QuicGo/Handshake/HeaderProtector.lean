import QuicGo.Lib.Buffer

/-!
# QuicGo — header protection (`internal/handshake/header_protector.go`)

A header protector computes a mask from a 16-byte sample of the packet's ciphertext: the AES
protector encrypts the sample as one block, the ChaCha20 protector takes five bytes of key
stream with the sample as counter and nonce. `apply` XORs the first byte of the mask into the
low bits of the packet's first byte (four bits of a long header, five of a short one), and the
following bytes into the packet number. `EncryptHeader` and `DecryptHeader` are both `apply`.

The mask is a function of the sample (`HeaderProtector.mask`), with at least the five bytes
`apply` reads. The packer and the unpacker pass the sample four bytes after the packet number's
offset, and the packet number's bytes, as slices of the packet; `HeaderProtector.applyAt` is
that call on the packet buffer, written in place.

A `Sealer` (`handshake.LongHeaderSealer`) seals the payload with the packet number and the header
as associated data; its ciphertext is longer than the plaintext by `Overhead`, as an AEAD's is.
-/

namespace QuicGo

namespace Handshake

open Buffer

/-- `headerProtector`: the mask it computes from a sample, and whether it protects long
headers. -/
structure HeaderProtector where
  mask : List UInt8 → List UInt8
  isLongHeader : Bool
  mask_length : ∀ sample, 5 ≤ (mask sample).length

/-- The bits of the first byte that header protection masks. -/
def HeaderProtector.firstByteBits (p : HeaderProtector) : UInt8 :=
  if p.isLongHeader then 0xf else 0x1f

/-- `apply`, of `EncryptHeader` and `DecryptHeader`, on a buffer: the mask of the sample,
XORed into the low bits of the first byte, then into the `n` bytes from `pnOffset`. `none` is a
panic: a sample of another size, or an index beyond the mask. -/
def HeaderProtector.apply (p : HeaderProtector) (sample buf : List UInt8) (pnOffset n : ℕ) :
    Option (List UInt8) :=
  if sample.length ≠ 16 then none
  else
    match p.mask sample, buf with
    | m0 :: mask, b0 :: rest =>
      if mask.length < n then none
      else
        -- the first byte is written first; a packet number at offset 0 would see it
        let buf := (b0 ^^^ (m0 &&& p.firstByteBits)) :: rest
        some (write buf pnOffset (xorWith (slice buf pnOffset n) mask))
    | _, _ => none

/-- `EncryptHeader(buf[pnOffset+4:pnOffset+20], &buf[0], buf[pnOffset:pnOffset+n])`, and the
same `DecryptHeader`. The buffer is the packet: a slice beyond it, which Go would take from the
spare capacity of the packet buffer, is `none`. -/
def HeaderProtector.applyAt (p : HeaderProtector) (buf : List UInt8) (pnOffset n : ℕ) :
    Option (List UInt8) :=
  if buf.length < pnOffset + 4 + 16 ∨ buf.length < pnOffset + n then none
  else p.apply (slice buf (pnOffset + 4) 16) buf pnOffset n

/-- `handshake.LongHeaderSealer`: `Seal` of a payload with its packet number and associated
data, its `Overhead`, and its `EncryptHeader`. -/
structure Sealer where
  Seal : List UInt8 → ℕ → List UInt8 → List UInt8
  Overhead : ℕ
  seal_length : ∀ src pn ad, (Seal src pn ad).length = src.length + Overhead
  hp : HeaderProtector

/-- The first half of `encryptPacket`: `Seal` in place of the payload after `payloadOffset`,
with the header before it as associated data, the buffer grown by the overhead. -/
def Sealer.sealPacket (s : Sealer) (raw : List UInt8) (pn payloadOffset : ℕ) : List UInt8 :=
  raw.take payloadOffset ++ s.Seal (raw.drop payloadOffset) pn (raw.take payloadOffset)

/-! ## What `applyAt` writes -/

theorem xor_xor_cancel (a k : UInt8) : a ^^^ k ^^^ k = a := by
  rw [UInt8.xor_assoc, UInt8.xor_self, UInt8.xor_zero]

/-- `applyAt` on a packet laid out as the bytes before the packet number, the `n` bytes it
masks, and the rest, with room for the sample: the first byte and the `n` bytes XORed with the
mask of the sample. -/
theorem applyAt_spec (p : HeaderProtector) (b0 : UInt8) (pre mid post : List UInt8)
    (hn : mid.length ≤ 4) (hsample : 4 + 16 ≤ mid.length + post.length) :
    ∃ m0 mask, p.mask (slice (b0 :: pre ++ mid ++ post) (pre.length + 1 + 4) 16) = m0 :: mask ∧
      4 ≤ mask.length ∧
      p.applyAt (b0 :: pre ++ mid ++ post) (pre.length + 1) mid.length =
        some ((b0 ^^^ (m0 &&& p.firstByteBits)) :: pre ++ xorWith mid mask ++ post) := by
  set sample := slice (b0 :: pre ++ mid ++ post) (pre.length + 1 + 4) 16
  have hlen := p.mask_length sample
  obtain ⟨m0, mask, hm⟩ : ∃ m0 mask, p.mask sample = m0 :: mask := by
    cases h : p.mask sample with
    | nil => rw [h] at hlen; simp at hlen
    | cons m0 mask => exact ⟨m0, mask, rfl⟩
  have hmask4 : 4 ≤ mask.length := by
    rw [hm, List.length_cons] at hlen; omega
  have hmask : mid.length ≤ mask.length := by omega
  refine ⟨m0, mask, hm, hmask4, ?_⟩
  have hbuf : ¬ ((b0 :: pre ++ mid ++ post).length < pre.length + 1 + 4 + 16 ∨
      (b0 :: pre ++ mid ++ post).length < pre.length + 1 + mid.length) := by
    simp only [List.cons_append, List.length_cons, List.length_append]; omega
  have hsl : sample.length = 16 := by
    simp only [sample, slice, List.length_take, List.length_drop, List.cons_append,
      List.length_cons, List.length_append]
    omega
  unfold HeaderProtector.applyAt HeaderProtector.apply
  rw [if_neg hbuf, if_neg (not_not.mpr hsl), hm, List.cons_append, List.cons_append]
  dsimp only
  rw [if_neg (by omega), ← List.cons_append, ← List.cons_append]
  have hpre : pre.length + 1 = ((b0 ^^^ (m0 &&& p.firstByteBits)) :: pre).length := rfl
  rw [hpre, slice_append, write_append _ _ _ _ (length_xorWith hmask)]

end Handshake

end QuicGo
