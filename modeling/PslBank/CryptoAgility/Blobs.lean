import PslBank.CryptoAgility.Codec
import PslBank.Crypto.Hash
import PslBank.Lib.Runs

/-!
# Scheme-prefixed blobs

The scheme identifiers of `crypto_agility/src/scheme.rs` and `hash.rs`, the errors of
`errors.rs`, and the encoders and decoders of hash blobs, hybrid blobs and prefixed
signatures. A trait is the record of what its methods compute; a verifier has one method and
is that function.
-/
namespace PslBank.CryptoAgility

open PslBank.Lib PslBank.Crypto

set_option autoImplicit false

/-- The identifiers of `hash.rs`; 0 and everything past the last one are unknown. -/
inductive HashScheme where
  | blake3_256
  | blake3_512
  deriving DecidableEq, Repr

/-- The identifiers of signature schemes. SLH-DSA is reserved: no signer or verifier has it. -/
inductive SignatureScheme where
  | ed25519
  | hybridEd25519MlDsa65
  | slhDsa128s
  deriving DecidableEq, Repr

inductive KemSchemeId where
  | x25519
  | hybridX25519MlKem768
  deriving DecidableEq, Repr

inductive HashError where
  | unknownScheme (scheme : UInt32)
  | wrongLength (scheme : UInt32) (expected actual : ℕ)
  deriving DecidableEq, Repr

/-- The errors of verification, with the scheme that was read. -/
inductive VerifierError where
  | unknownScheme (scheme : UInt32)
  | schemeNotAccepted (scheme : UInt32)
  | malformedSignature (scheme : UInt32) (detail : String)
  | malformedPublicKey (scheme : UInt32) (detail : String)
  | badSignature (scheme : UInt32)
  | hybridSignatureInvalid
  deriving DecidableEq, Repr

namespace HashScheme

def asU32 : HashScheme → UInt32
  | blake3_256 => 0x01
  | blake3_512 => 0x02

def fromU32 (v : UInt32) : Except HashError HashScheme :=
  if v = 0x01 then .ok blake3_256
  else if v = 0x02 then .ok blake3_512
  else .error (.unknownScheme v)

def outputLen : HashScheme → ℕ
  | blake3_256 => 32
  | blake3_512 => 64

end HashScheme

namespace SignatureScheme

def asU32 : SignatureScheme → UInt32
  | ed25519 => 0x01
  | hybridEd25519MlDsa65 => 0x02
  | slhDsa128s => 0x03

def fromU32 (v : UInt32) : Except VerifierError SignatureScheme :=
  if v = 0x01 then .ok ed25519
  else if v = 0x02 then .ok hybridEd25519MlDsa65
  else if v = 0x03 then .ok slhDsa128s
  else .error (.unknownScheme v)

end SignatureScheme

def KemSchemeId.asU32 : KemSchemeId → UInt32
  | x25519 => 0x01
  | hybridX25519MlKem768 => 0x02

/-! ## Encoders -/

/-- The trait `HashScheme_`. -/
structure Hasher where
  scheme : HashScheme
  hash : Bytes → Bytes

def blake3_256 [Blake3] : Hasher := ⟨.blake3_256, fun data => (Blake3.digest data).toList⟩

def blake3_512 [Blake3Xof] : Hasher := ⟨.blake3_512, fun data => (Blake3Xof.fill64 data).toList⟩

/-- The scheme in front of the digest. -/
def encodeHashBlob (h : Hasher) (data : Bytes) : Bytes := encodeVarint h.scheme.asU32 ++ h.hash data

/-- The prefix of the hybrid scheme in front of a body. -/
def encodeHybridBlob (body : Bytes) : Bytes :=
  encodeVarint SignatureScheme.hybridEd25519MlDsa65.asU32 ++ body

def encodeHybridPubkeyBlob (pkBytes : Bytes) : Bytes := encodeHybridBlob pkBytes

def encodeHybridSigBlob (sigBytes : Bytes) : Bytes := encodeHybridBlob sigBytes

inductive SignerError where
  | schemeNotImplemented (scheme : UInt32)
  | malformedKey (scheme : UInt32) (detail : String)
  | primitive (text : String)
  deriving DecidableEq, Repr

/-- The trait `Signer`. -/
structure Signer where
  scheme : SignatureScheme
  publicKey : Bytes
  sign : Bytes → Except SignerError Bytes

/-- `sign_with_prefix`: the scheme of the signer in front of its signature. -/
def signWithPrefix (s : Signer) (message : Bytes) : Except SignerError Bytes := do
  let sig ← s.sign message
  return encodeVarint s.scheme.asU32 ++ sig

/-! ## Decoders -/

/-- `decode_hash_blob`: a known scheme, and exactly as many bytes as it gives. -/
def decodeHashBlob (blob : Bytes) : Except HashError (HashScheme × Bytes) := do
  let (schemeU32, off) ← (decodeVarint blob).mapError fun _ => HashError.unknownScheme 0
  let scheme ← HashScheme.fromU32 schemeU32
  let body := blob.drop off
  if body.length ≠ scheme.outputLen then
    .error (.wrongLength schemeU32 scheme.outputLen body.length)
  else return (scheme, body)

/-- The one scheme of hybrid blobs, and exactly the bytes that are expected. -/
def decodeHybridBlob (blob : Bytes) (expectedBodyLen : ℕ) : Except VerifierError Bytes := do
  let (schemeU32, off) ← (decodeVarint blob).mapError fun _ =>
    VerifierError.malformedSignature 0 "hybrid blob: malformed varint scheme prefix"
  if schemeU32 ≠ SignatureScheme.hybridEd25519MlDsa65.asU32 then .error (.unknownScheme schemeU32)
  else
    let body := blob.drop off
    if body.length ≠ expectedBodyLen then
      .error (.malformedSignature schemeU32 "hybrid blob: body length mismatch (no silent truncation)")
    else return body

/-- Scheme, message, signature, public key. -/
abbrev Verifier := SignatureScheme → Bytes → Bytes → Bytes → Except VerifierError Unit

/-- `verify_prefixed`: both prefixes are read, have to agree and to be known. -/
def verifyPrefixed (v : Verifier) (message prefixedSig prefixedPubkey : Bytes) :
    Except VerifierError Unit := do
  let (sigSchemeU32, sigOff) ← (decodeVarint prefixedSig).mapError fun _ =>
    VerifierError.malformedSignature 0 "varint scheme prefix on signature is malformed"
  let (pkSchemeU32, pkOff) ← (decodeVarint prefixedPubkey).mapError fun _ =>
    VerifierError.malformedPublicKey 0 "varint scheme prefix on public key is malformed"
  if sigSchemeU32 ≠ pkSchemeU32 then .error (.schemeNotAccepted sigSchemeU32)
  else
    let scheme ← SignatureScheme.fromU32 sigSchemeU32
    v scheme message (prefixedSig.drop sigOff) (prefixedPubkey.drop pkOff)

/-! ## When the decoders accept -/

/-- A number is a scheme exactly when it is the number of that scheme. -/
theorem HashScheme.fromU32_ok_iff {v : UInt32} {scheme : HashScheme} :
    HashScheme.fromU32 v = .ok scheme ↔ v = scheme.asU32 := by
  unfold fromU32
  constructor
  · intro h
    split at h
    · obtain rfl := Except.ok.inj h
      assumption
    · split at h
      · obtain rfl := Except.ok.inj h
        assumption
      · cases h
  · rintro rfl
    cases scheme <;> rfl

theorem SignatureScheme.fromU32_ok_iff {v : UInt32} {scheme : SignatureScheme} :
    SignatureScheme.fromU32 v = .ok scheme ↔ v = scheme.asU32 := by
  unfold fromU32
  constructor
  · intro h
    split at h
    · obtain rfl := Except.ok.inj h
      assumption
    · split at h
      · obtain rfl := Except.ok.inj h
        assumption
      · split at h
        · obtain rfl := Except.ok.inj h
          assumption
        · cases h
  · rintro rfl
    cases scheme <;> rfl

/-- Every registered identifier fits in one byte of a varint. -/
theorem HashScheme.asU32_lt (scheme : HashScheme) : scheme.asU32.toNat < 128 := by
  cases scheme <;> decide

/-- Every identifier is written in one byte. -/
theorem SignatureScheme.asU32_lt (scheme : SignatureScheme) : scheme.asU32.toNat < 128 := by
  cases scheme <;> decide

/-- What the decoder accepts is a prefix that reads as the scheme and a digest of its length. -/
theorem decodeHashBlob_ok_iff {blob body : Bytes} {scheme : HashScheme} :
    decodeHashBlob blob = .ok (scheme, body) ↔
      ∃ n, decodeVarint blob = .ok (scheme.asU32, n) ∧ body = blob.drop n ∧
        body.length = scheme.outputLen := by
  unfold decodeHashBlob
  rw [bind_eq_ok_iff]
  constructor
  · intro hyp
    obtain ⟨⟨schemeU32, n⟩, hvarint, h⟩ := hyp
    obtain ⟨scheme', hscheme, h⟩ := bind_eq_ok_iff.mp h
    by_cases hlen : (blob.drop n).length ≠ scheme'.outputLen
    · rw [if_pos hlen] at h
      cases h
    · rw [if_neg hlen] at h
      obtain ⟨rfl, rfl⟩ := Prod.mk.inj (Except.ok.inj h)
      obtain rfl := HashScheme.fromU32_ok_iff.mp hscheme
      exact ⟨n, mapError_eq_ok_iff.mp hvarint, rfl, not_not.mp hlen⟩
  · intro hyp
    obtain ⟨n, hvarint, rfl, hlen⟩ := hyp
    refine ⟨(scheme.asU32, n), mapError_eq_ok_iff.mpr hvarint, bind_eq_ok_iff.mpr ⟨scheme, ?_, ?_⟩⟩
    · exact HashScheme.fromU32_ok_iff.mpr rfl
    · exact if_neg (not_not.mpr hlen)

/-- The same of a hybrid blob. -/
theorem decodeHybridBlob_ok_iff {blob body : Bytes} {len : ℕ} :
    decodeHybridBlob blob len = .ok body ↔
      ∃ n, decodeVarint blob = .ok (SignatureScheme.hybridEd25519MlDsa65.asU32, n) ∧
        body = blob.drop n ∧ body.length = len := by
  unfold decodeHybridBlob
  rw [bind_eq_ok_iff]
  constructor
  · intro hyp
    obtain ⟨⟨schemeU32, n⟩, hvarint, h⟩ := hyp
    simp only at h
    by_cases hscheme : schemeU32 ≠ SignatureScheme.hybridEd25519MlDsa65.asU32
    · rw [if_pos hscheme] at h
      cases h
    · rw [if_neg hscheme] at h
      by_cases hlen : (blob.drop n).length ≠ len
      · rw [if_pos hlen] at h
        cases h
      · rw [if_neg hlen] at h
        obtain rfl := Except.ok.inj h
        obtain rfl := not_not.mp hscheme
        exact ⟨n, mapError_eq_ok_iff.mp hvarint, rfl, not_not.mp hlen⟩
  · intro hyp
    obtain ⟨n, hvarint, rfl, hlen⟩ := hyp
    refine ⟨_, mapError_eq_ok_iff.mpr hvarint, ?_⟩
    simp only
    rw [if_neg (not_not.mpr rfl), if_neg (not_not.mpr hlen)]
    rfl

/-- Acceptance is acceptance by the verifier behind two prefixes of one scheme. -/
theorem verifyPrefixed_ok_iff {v : Verifier} {message prefixedSig prefixedPubkey : Bytes} :
    verifyPrefixed v message prefixedSig prefixedPubkey = .ok () ↔
      ∃ scheme n m, decodeVarint prefixedSig = .ok (SignatureScheme.asU32 scheme, n) ∧
        decodeVarint prefixedPubkey = .ok (SignatureScheme.asU32 scheme, m) ∧
        v scheme message (prefixedSig.drop n) (prefixedPubkey.drop m) = .ok () := by
  unfold verifyPrefixed
  rw [bind_eq_ok_iff]
  constructor
  · intro hyp
    obtain ⟨⟨sigScheme, n⟩, hsig, h⟩ := hyp
    obtain ⟨⟨pkScheme, m⟩, hpk, h⟩ := bind_eq_ok_iff.mp h
    simp only at h
    by_cases hdiffer : sigScheme ≠ pkScheme
    · rw [if_pos hdiffer] at h
      cases h
    · rw [if_neg hdiffer] at h
      obtain ⟨scheme, hscheme, hverify⟩ := bind_eq_ok_iff.mp h
      obtain rfl := not_not.mp hdiffer
      obtain rfl := SignatureScheme.fromU32_ok_iff.mp hscheme
      exact ⟨scheme, n, m, mapError_eq_ok_iff.mp hsig, mapError_eq_ok_iff.mp hpk, hverify⟩
  · intro hyp
    obtain ⟨scheme, n, m, hsig, hpk, hverify⟩ := hyp
    refine ⟨_, mapError_eq_ok_iff.mpr hsig, bind_eq_ok_iff.mpr ⟨_, mapError_eq_ok_iff.mpr hpk, ?_⟩⟩
    simp only
    rw [if_neg (not_not.mpr rfl)]
    exact bind_eq_ok_iff.mpr ⟨scheme, SignatureScheme.fromU32_ok_iff.mpr rfl, hverify⟩

/-! ## Round trips -/

/-- Behind a written prefix is the body. -/
theorem drop_encodeVarint (value : UInt32) (body : Bytes) :
    (encodeVarint value ++ body).drop (encodeVarint value).length = body := List.drop_left

/-- A hasher whose digests have the length of its scheme. -/
theorem decodeHashBlob_encodeHashBlob {h : Hasher} {data : Bytes}
    (hlen : (h.hash data).length = h.scheme.outputLen) :
    decodeHashBlob (encodeHashBlob h data) = .ok (h.scheme, h.hash data) :=
  decodeHashBlob_ok_iff.mpr
    ⟨_, decodeVarint_encodeVarint _ _, (drop_encodeVarint _ _).symm, hlen⟩

theorem decodeHybridBlob_encodeHybridBlob (body : Bytes) :
    decodeHybridBlob (encodeHybridBlob body) body.length = .ok body :=
  decodeHybridBlob_ok_iff.mpr
    ⟨_, decodeVarint_encodeVarint _ _, (drop_encodeVarint _ _).symm, rfl⟩

/-- Equal prefixes are taken off, and the verifier gets the rest. -/
theorem verifyPrefixed_encodeVarint (v : Verifier) (scheme : SignatureScheme)
    (message sig key : Bytes) :
    verifyPrefixed v message (encodeVarint scheme.asU32 ++ sig) (encodeVarint scheme.asU32 ++ key) =
      v scheme message sig key := by
  have hscheme : SignatureScheme.fromU32 scheme.asU32 = .ok scheme :=
    SignatureScheme.fromU32_ok_iff.mpr rfl
  unfold verifyPrefixed
  rw [decodeVarint_encodeVarint, decodeVarint_encodeVarint]
  show (if scheme.asU32 ≠ scheme.asU32 then _ else _) = _
  rw [if_neg (not_not.mpr rfl), hscheme, drop_encodeVarint, drop_encodeVarint]
  rfl

/-- Every value is read back from any blob it was written in front of, and so is everything
that is written behind it. -/
theorem prefixed_blobs_round_trip [Blake3Xof] :
    (∀ (value : UInt32) (rest : Bytes),
      decodeVarint (encodeVarint value ++ rest) = .ok (value, (encodeVarint value).length) ∧
        1 ≤ (encodeVarint value).length ∧ (encodeVarint value).length ≤ 5) ∧
    (∀ data : Bytes,
      decodeHashBlob (encodeHashBlob blake3_256 data) = .ok (.blake3_256, blake3_256.hash data) ∧
        decodeHashBlob (encodeHashBlob blake3_512 data) = .ok (.blake3_512, blake3_512.hash data)) ∧
    (∀ body : Bytes,
      decodeHybridBlob (encodeHybridSigBlob body) body.length = .ok body ∧
        decodeHybridBlob (encodeHybridPubkeyBlob body) body.length = .ok body) ∧
    ∀ (s : Signer) (v : Verifier) (signed message sig key : Bytes), s.sign signed = .ok sig →
      ∃ blob, signWithPrefix s signed = .ok blob ∧
        verifyPrefixed v message blob (encodeVarint s.scheme.asU32 ++ key) =
          v s.scheme message sig key := by
  refine ⟨?_, ?_, ?_, ?_⟩
  · intro value rest
    exact ⟨decodeVarint_encodeVarint value rest, length_encodeVarint value⟩
  · intro data
    exact ⟨decodeHashBlob_encodeHashBlob (List.Vector.toList_length _),
      decodeHashBlob_encodeHashBlob (List.Vector.toList_length _)⟩
  · intro body
    exact ⟨decodeHybridBlob_encodeHybridBlob body, decodeHybridBlob_encodeHybridBlob body⟩
  · intro s v signed message sig key hsig
    exact ⟨encodeVarint s.scheme.asU32 ++ sig, bind_eq_ok_iff.mpr ⟨sig, hsig, rfl⟩,
      verifyPrefixed_encodeVarint v s.scheme message sig key⟩

/-- A signer of the stand-in scheme and the verifier that knows its key. -/
def sampleSigner : Signer where
  scheme := .ed25519
  publicKey := zeroHash.toList
  sign message := .ok (sampleSign zeroHash message).toList

/-- It knows one key and the signatures of the stand-in scheme under it. -/
def sampleVerifier : Verifier := fun scheme message signature publicKey =>
  if scheme = .ed25519 ∧ publicKey = zeroHash.toList ∧
    signature = (sampleSign zeroHash message).toList then .ok ()
  else .error (.badSignature scheme.asU32)

/-- The signature is behind its prefix, and the verifier takes it for the message signed and for no
other. -/
theorem prefixed_blobs_round_trip_signed :
    ∃ blob, signWithPrefix sampleSigner [5] = .ok blob ∧
      verifyPrefixed sampleVerifier [5] blob (encodeVarint 0x01 ++ zeroHash.toList) = .ok () ∧
      verifyPrefixed sampleVerifier [6] blob (encodeVarint 0x01 ++ zeroHash.toList) =
        .error (.badSignature 0x01) := by
  obtain ⟨-, -, -, hsigned⟩ := @prefixed_blobs_round_trip
    { sampleBlake3 with fill64 := fun _ => List.Vector.replicate 64 0 }
  obtain ⟨blob, hblob, hsame⟩ := hsigned sampleSigner sampleVerifier [5] [5] _ zeroHash.toList rfl
  obtain ⟨blob', hblob', hother⟩ := hsigned sampleSigner sampleVerifier [5] [6] _ zeroHash.toList rfl
  obtain rfl := Except.ok.inj (hblob.symm.trans hblob')
  exact ⟨blob, hblob, hsame.trans (by decide +kernel), hother.trans (by decide +kernel)⟩

end PslBank.CryptoAgility
