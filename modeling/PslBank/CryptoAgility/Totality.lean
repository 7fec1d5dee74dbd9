import PslBank.CryptoAgility.WitnessEnc

/-!
# Panics of witness decryption

The offsets of `decrypt` start behind a prefix of up to five bytes, while the least length of
a blob is computed for a prefix of one byte; the room of the tag makes up for the difference.
What is left is the length of the recipient's ML-KEM key, which its constructor does not
check and decapsulation expects.
-/
namespace PslBank.CryptoAgility

open PslBank.Lib

set_option autoImplicit false

/-- The blob gets as far as decapsulation: it starts with the scheme of the hybrid KEM, in a
form that the prefix reader takes, and is not too short. -/
def ReachesKem (blob : Bytes) : Prop :=
  1149 ≤ blob.length ∧ ∃ n, n ≤ 5 ∧ Terminated blob n ∧ groupValue blob n % 2 ^ 32 = 2

theorem reachesKem_iff {blob : Bytes} :
    ReachesKem blob ↔ minBlobBytes ≤ blob.length ∧
      ∃ n, decodeVarint blob = .ok (KemSchemeId.hybridX25519MlKem768.asU32, n) := by
  have htwo : KemSchemeId.hybridX25519MlKem768.asU32.toNat = 2 := rfl
  constructor
  · rintro ⟨hlen, n, hn, hgroup, hvalue⟩
    exact ⟨hlen, n, decodeVarint_ok_iff.mpr ⟨hgroup, hn, by rw [htwo, hvalue]⟩⟩
  · rintro ⟨hlen, n, hvarint⟩
    obtain ⟨hgroup, hn, hvalue⟩ := decodeVarint_ok_iff.mp hvarint
    exact ⟨hlen, n, hn, hgroup, by rw [← hvalue, htwo]⟩

/-! ## Parsing -/

theorem sliceRange_eq {blob : Bytes} {off len : ℕ} (h : off + len ≤ blob.length) :
    ∃ part : ByteArr len, sliceRange blob off len = .ok part.toList :=
  ⟨⟨slice blob off len, length_slice h⟩, if_pos h⟩

theorem copyFromSlice_eq {n : ℕ} {bytes : Bytes} (h : bytes.length = n) :
    copyFromSlice n bytes = .ok ⟨bytes, h⟩ := dif_pos h

/-- All slices are in range behind a prefix of any length. -/
theorem parseBlob_of_reachesKem {blob : Bytes} (h : ReachesKem blob) :
    ∃ ct nonce aeadCt, parseBlob blob = .ok (ct, nonce, aeadCt) ∧ nonce.length = 12 := by
  obtain ⟨hlen, n, hvarint⟩ := reachesKem_iff.mp h
  have hn : n ≤ 5 := (decodeVarint_ok_iff.mp hvarint).2.1
  have hlong : 1149 ≤ blob.length := hlen
  obtain ⟨epk, hepk⟩ := sliceRange_eq (show n + 32 ≤ blob.length by omega)
  obtain ⟨mct, hmct⟩ := sliceRange_eq (show n + 32 + 1088 ≤ blob.length by omega)
  obtain ⟨nonce, hnonce⟩ := sliceRange_eq (show n + 32 + 1088 + 12 ≤ blob.length by omega)
  exact ⟨⟨epk, mct⟩, nonce.toList, _, parseBlob_of_slices hvarint hlen hepk hmct hnonce,
    nonce.toList_length⟩

/-- Every other blob is refused with an error. -/
theorem parseBlob_of_not_reachesKem {blob : Bytes} (h : ¬ ReachesKem blob) :
    ∃ e, parseBlob blob = .error (.error e) := by
  unfold parseBlob
  cases hvarint : decodeVarint blob with
  | error e => exact ⟨_, rfl⟩
  | ok r =>
    obtain ⟨schemeId, n⟩ := r
    by_cases hscheme : schemeId ≠ KemSchemeId.hybridX25519MlKem768.asU32
    · exact ⟨_, if_pos hscheme⟩
    · have hshort : blob.length < minBlobBytes := by
        apply Nat.lt_of_not_le
        intro hlen
        exact h (reachesKem_iff.mpr ⟨hlen, n, by rw [hvarint, not_not.mp hscheme]⟩)
      refine ⟨.truncatedBlob schemeId blob.length minBlobBytes, ?_⟩
      show (if schemeId ≠ KemSchemeId.hybridX25519MlKem768.asU32 then _
        else if blob.length < minBlobBytes then _ else _) = _
      rw [if_neg hscheme, if_pos hshort]

/-! ## Decapsulation and decryption -/

section Decrypt

variable [HybridPrimitives] [SealPrimitives]

omit [SealPrimitives] in
theorem decapsulate_eq_panic_iff {ct : HybridCiphertext} {sk : HybridRecipientSecretKey} :
    decapsulate ct sk = .error .panic ↔ sk.mlKem.length ≠ 2400 := by
  unfold decapsulate copyFromSlice
  by_cases hlen : sk.mlKem.length = 2400
  · rw [dif_pos hlen]
    exact ⟨fun h => (nomatch h), fun h => absurd hlen h⟩
  · rw [dif_neg hlen]
    exact ⟨fun _ => hlen, fun _ => rfl⟩

omit [SealPrimitives] in
/-- A key of the right length leads to a transcript, whatever the ciphertext is. -/
theorem decryptTranscript_of_length {sk : HybridRecipientSecretKey} (h : sk.mlKem.length = 2400)
    (ct : HybridCiphertext) : ∃ transcript, decryptTranscript sk ct = .ok transcript := by
  have hdecap : decapsulate ct sk = .ok (
      (HybridPrimitives.diffieHellman sk.x25519 ct.x25519).toList ++
        (HybridPrimitives.mlKemDecapsulate ct.mlKem ⟨sk.mlKem, h⟩).toList) := by
    unfold decapsulate
    rw [copyFromSlice_eq h]
    rfl
  refine ⟨_, bind_eq_ok_iff.mpr ⟨_, hdecap, bind_eq_ok_iff.mpr ⟨_, copyFromSlice_eq ?_,
    bind_eq_ok_iff.mpr ⟨_, copyFromSlice_eq ?_, rfl⟩⟩⟩⟩
  · rw [List.take_left' (List.Vector.toList_length _), List.Vector.toList_length]
  · rw [List.drop_left' (List.Vector.toList_length _), List.Vector.toList_length]

/-- `decrypt` panics in decapsulation or not at all. -/
theorem decrypt_eq_panic_iff {x25519Sk : ByteArr 32} {mlKemSk blob aad : Bytes}
    {context : ContextString} :
    decrypt x25519Sk mlKemSk blob aad context = .error .panic ↔
      mlKemSk.length ≠ 2400 ∧ ReachesKem blob := by
  unfold decrypt
  by_cases hreach : ReachesKem blob
  · obtain ⟨ct, nonce, aeadCt, hparse, hnonce⟩ := parseBlob_of_reachesKem hreach
    rw [hparse]
    show (decryptTranscript ⟨x25519Sk, mlKemSk⟩ ct >>= _) = _ ↔ _
    by_cases hlen : mlKemSk.length = 2400
    · obtain ⟨transcript, htranscript⟩ :=
        @decryptTranscript_of_length _ ⟨x25519Sk, mlKemSk⟩ hlen ct
      rw [htranscript]
      show (copyFromSlice 12 nonce >>= _) = _ ↔ _
      rw [copyFromSlice_eq hnonce]
      refine ⟨fun h => ?_, fun h => absurd hlen h.1⟩
      -- the message is opened, or refused with an error
      simp only [bind, Except.bind] at h
      split at h <;> cases h
    · have hpanic : decryptTranscript ⟨x25519Sk, mlKemSk⟩ ct = .error .panic := by
        unfold decryptTranscript
        rw [decapsulate_eq_panic_iff.mpr hlen]
        rfl
      rw [hpanic]
      exact ⟨fun _ => ⟨hlen, hreach⟩, fun _ => rfl⟩
  · obtain ⟨e, hparse⟩ := parseBlob_of_not_reachesKem hreach
    rw [hparse]
    exact ⟨fun h => (nomatch h), fun h => absurd h.2 hreach⟩

/-- Neither `decrypt` nor the decapsulation it calls panics exactly when the key has the
length of an ML-KEM secret key or the blob is refused before the key is used. -/
theorem decrypt_ne_panic_iff (x25519Sk : ByteArr 32) (mlKemSk blob aad : Bytes)
    (context : ContextString) :
    (decrypt x25519Sk mlKemSk blob aad context ≠ .error .panic ∧
      ∀ ct nonce aeadCt, parseBlob blob = .ok (ct, nonce, aeadCt) →
        decapsulate ct ⟨x25519Sk, mlKemSk⟩ ≠ .error .panic) ↔
      mlKemSk.length = 2400 ∨ ¬ ReachesKem blob := by
  constructor
  · rintro ⟨hdecrypt, -⟩
    by_contra hnot
    rw [not_or, not_not] at hnot
    exact hdecrypt (decrypt_eq_panic_iff.mpr hnot)
  · intro h
    refine ⟨?_, ?_⟩
    · intro hpanic
      obtain ⟨hlen, hreach⟩ := decrypt_eq_panic_iff.mp hpanic
      exact h.elim hlen fun hnot => hnot hreach
    · intro ct nonce aeadCt hparse hpanic
      rcases h with hlen | hnot
      · exact decapsulate_eq_panic_iff.mp hpanic hlen
      · obtain ⟨e, herror⟩ := parseBlob_of_not_reachesKem hnot
        rw [hparse] at herror
        cases herror

end Decrypt

/-- A key of no bytes, and a blob of the least length. -/
theorem decrypt_panics_empty_key :
    @decrypt sampleHybrid sampleSeal (List.Vector.replicate 32 0) [] ([2] ++ List.replicate 1148 0) []
      .witnessEncV1 = .error .panic := by
  have hlen : ([2] ++ List.replicate 1148 (0 : UInt8)).length = 1149 := by
    rw [List.length_append, List.length_replicate, List.length_singleton]
  apply (@decrypt_eq_panic_iff sampleHybrid sampleSeal _ _ _ _ _).mpr
  refine ⟨by decide, reachesKem_iff.mpr ⟨Nat.le_of_eq hlen.symm, 1, ?_⟩⟩
  exact decodeVarint_of_lt (by decide) _

end PslBank.CryptoAgility
