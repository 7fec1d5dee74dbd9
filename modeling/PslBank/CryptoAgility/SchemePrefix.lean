import PslBank.CryptoAgility.WitnessEnc

/-!
# One encoding for each prefixed blob

The decoders of prefixed blobs share one varint reader. It takes padded forms, and forms
whose high bits the fifth byte shifts out, so a registered scheme has many accepted
prefixes; the one that is written is the one of a single byte.
-/
namespace PslBank.CryptoAgility

open PslBank.Lib

set_option autoImplicit false

/-- The blob argument of a decoder, with its other arguments fixed. -/
inductive BlobDecoder where
  | hash
  | hybrid (expectedBodyLen : ℕ)
  | signature (v : Verifier) (message prefixedPubkey : Bytes)
  | publicKey (v : Verifier) (message prefixedSig : Bytes)
  | witness (recipientX25519Sk : ByteArr 32) (recipientMlKemSk additionalData : Bytes)
      (context : ContextString)

/-- The scheme identifier in front of the blob, and what follows it. -/
def Splits (blob : Bytes) (scheme : UInt32) (body : Bytes) : Prop :=
  ∃ n, decodeVarint blob = .ok (scheme, n) ∧ body = blob.drop n

section Accepts

variable [HybridPrimitives] [SealPrimitives]

/-- The decoder accepts the blob with this scheme identifier and this body. -/
def BlobDecoder.Accepts : BlobDecoder → Bytes → UInt32 → Bytes → Prop
  | hash, blob, scheme, body => ∃ s, decodeHashBlob blob = .ok (s, body) ∧ scheme = s.asU32
  | hybrid len, blob, scheme, body =>
      decodeHybridBlob blob len = .ok body ∧ scheme = SignatureScheme.hybridEd25519MlDsa65.asU32
  | signature v message pk, blob, scheme, body =>
      verifyPrefixed v message blob pk = .ok () ∧ Splits blob scheme body
  | publicKey v message sig, blob, scheme, body =>
      verifyPrefixed v message sig blob = .ok () ∧ Splits blob scheme body
  | witness x25519Sk mlKemSk aad context, blob, scheme, body =>
      (∃ plaintext, decrypt x25519Sk mlKemSk blob aad context = .ok plaintext) ∧
        Splits blob scheme body

theorem decrypt_ok_scheme {x25519Sk : ByteArr 32} {mlKemSk blob aad plaintext : Bytes}
    {context : ContextString} (h : decrypt x25519Sk mlKemSk blob aad context = .ok plaintext) :
    ∃ n, decodeVarint blob = .ok (KemSchemeId.hybridX25519MlKem768.asU32, n) := by
  obtain ⟨parsed, hparsed, -⟩ := bind_eq_ok_iff.mp h
  obtain ⟨⟨schemeId, n⟩, hvarint, hparsed⟩ := bind_eq_ok_iff.mp hparsed
  simp only at hparsed
  by_cases hscheme : schemeId ≠ KemSchemeId.hybridX25519MlKem768.asU32
  · rw [if_pos hscheme] at hparsed
    cases hparsed
  · obtain rfl := not_not.mp hscheme
    exact ⟨n, mapError_eq_ok_iff.mp hvarint⟩

/-- Every decoder splits off the prefix with the shared reader, and accepts registered
schemes only. -/
theorem BlobDecoder.Accepts.splits {d : BlobDecoder} {blob body : Bytes} {scheme : UInt32}
    (h : d.Accepts blob scheme body) : Splits blob scheme body ∧ scheme.toNat < 128 := by
  cases d with
  | hash =>
    obtain ⟨s, hblob, rfl⟩ := h
    obtain ⟨n, hvarint, hbody, -⟩ := decodeHashBlob_ok_iff.mp hblob
    exact ⟨⟨n, hvarint, hbody⟩, s.asU32_lt⟩
  | hybrid len =>
    obtain ⟨hblob, rfl⟩ := h
    obtain ⟨n, hvarint, hbody, -⟩ := decodeHybridBlob_ok_iff.mp hblob
    exact ⟨⟨n, hvarint, hbody⟩, SignatureScheme.asU32_lt _⟩
  | signature v message pk =>
    obtain ⟨hverify, n, hsplit, hbody⟩ := h
    obtain ⟨s, n', m, hvarint, -⟩ := verifyPrefixed_ok_iff.mp hverify
    obtain ⟨rfl, rfl⟩ := Prod.mk.inj (Except.ok.inj (hvarint.symm.trans hsplit))
    exact ⟨⟨_, hsplit, hbody⟩, s.asU32_lt⟩
  | publicKey v message sig =>
    obtain ⟨hverify, n, hsplit, hbody⟩ := h
    obtain ⟨s, m, n', -, hvarint, -⟩ := verifyPrefixed_ok_iff.mp hverify
    obtain ⟨rfl, rfl⟩ := Prod.mk.inj (Except.ok.inj (hvarint.symm.trans hsplit))
    exact ⟨⟨_, hsplit, hbody⟩, s.asU32_lt⟩
  | witness x25519Sk mlKemSk aad context =>
    obtain ⟨⟨plaintext, hdecrypt⟩, n, hsplit, hbody⟩ := h
    obtain ⟨n', hvarint⟩ := decrypt_ok_scheme hdecrypt
    obtain ⟨rfl, rfl⟩ := Prod.mk.inj (Except.ok.inj (hvarint.symm.trans hsplit))
    exact ⟨⟨_, hsplit, hbody⟩, by decide⟩

/-- The prefix of an accepted blob is the written encoding of its scheme exactly when it is
one byte long; of such blobs there is one for each scheme and body. -/
theorem accepted_prefix_iff (d : BlobDecoder) {blob body : Bytes} {scheme : UInt32}
    (h : d.Accepts blob scheme body) :
    (blob = encodeVarint scheme ++ body ↔ OneBytePrefix blob) ∧
      ∀ blob', d.Accepts blob' scheme body → OneBytePrefix blob → OneBytePrefix blob' →
        blob' = blob := by
  have hiff : ∀ {blob : Bytes}, d.Accepts blob scheme body →
      (blob = encodeVarint scheme ++ body ↔ OneBytePrefix blob) := by
    intro blob h
    obtain ⟨⟨n, hvarint, rfl⟩, hlt⟩ := h.splits
    exact prefix_eq_encodeVarint_iff hlt hvarint
  refine ⟨hiff h, ?_⟩
  intro blob' h' hone hone'
  rw [(hiff h).mpr hone, (hiff h').mpr hone']

end Accepts

theorem accepted_prefix_iff_hash :
    ([1] ++ List.replicate 32 0 : Bytes) = encodeVarint 1 ++ List.replicate 32 0 :=
  ((@accepted_prefix_iff sampleHybrid sampleSeal .hash ([1] ++ List.replicate 32 0)
    (List.replicate 32 0) 1 ⟨.blake3_256, rfl, rfl⟩).1).mpr ⟨1, List.replicate 32 0, rfl, by decide⟩

/-- Three blobs for one hash: the written form, a padded one, and one whose fifth byte is
shifted out. -/
theorem one_hash_three_blobs :
    decodeHashBlob ([0x01] ++ List.replicate 32 0) = .ok (.blake3_256, List.replicate 32 0) ∧
      decodeHashBlob ([0x81, 0x00] ++ List.replicate 32 0) = .ok (.blake3_256, List.replicate 32 0) ∧
      decodeHashBlob ([0x81, 0x80, 0x80, 0x80, 0x10] ++ List.replicate 32 0) =
        .ok (.blake3_256, List.replicate 32 0) ∧
      ([0x81, 0x00] ++ List.replicate 32 0 : Bytes) ≠ encodeVarint 1 ++ List.replicate 32 0 := by
  refine ⟨rfl, rfl, rfl, ?_⟩
  rw [encodeVarint_of_lt (by decide)]
  decide

end PslBank.CryptoAgility
