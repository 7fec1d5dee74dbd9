import PslBank.CryptoAgility.Hybrid

/-!
# The ed25519 scheme and the policy of a verifier

`VerifierPolicy`, `Ed25519Signer` and `Ed25519Verifier` of `crypto_agility/src/signer.rs`. A
verifier checks the scheme against its policy before it looks at a byte, and the scheme comes from
the prefixes of the signature and of the key, which have to agree. Two verifiers of different
schemes therefore never accept the same signature blob, nor the same key blob, for whatever
messages.
-/
namespace PslBank.CryptoAgility

open PslBank.Lib PslBank.Crypto

set_option autoImplicit false

structure VerifierPolicy where
  accepted : List SignatureScheme
  deriving DecidableEq

namespace VerifierPolicy

def empty : VerifierPolicy := ⟨[]⟩

def ed25519Only : VerifierPolicy := ⟨[.ed25519]⟩

def ed25519OrHybrid : VerifierPolicy := ⟨[.ed25519, .hybridEd25519MlDsa65]⟩

def hybridOnly : VerifierPolicy := ⟨[.hybridEd25519MlDsa65]⟩

/-- A set has each scheme once. -/
def allow (policy : VerifierPolicy) (scheme : SignatureScheme) : VerifierPolicy :=
  ⟨policy.accepted.insert scheme⟩

def accepts (policy : VerifierPolicy) (scheme : SignatureScheme) : Bool :=
  decide (scheme ∈ policy.accepted)

def default : VerifierPolicy := ed25519OrHybrid

theorem accepts_allow (policy : VerifierPolicy) (scheme s : SignatureScheme) :
    (policy.allow scheme).accepts s = (decide (s = scheme) || policy.accepts s) := by
  simp [allow, accepts]

/-- A policy built scheme by scheme accepts what it was given, in whatever order. -/
theorem accepts_foldl_allow (policy : VerifierPolicy) (schemes : List SignatureScheme)
    (s : SignatureScheme) :
    (schemes.foldl allow policy).accepts s = (decide (s ∈ schemes) || policy.accepts s) := by
  induction schemes generalizing policy with
  | nil => simp
  | cons scheme schemes ih =>
    rw [List.foldl_cons, ih, accepts_allow]
    by_cases hs : s = scheme
    · simp [hs]
    · simp [hs]

end VerifierPolicy

/-- `Ed25519Signer`. -/
def ed25519Signer [Ed25519] (kp : KeyPair) : Signer where
  scheme := .ed25519
  publicKey := kp.public.toList
  sign message := .ok (sign kp message).toList

/-- `Ed25519Verifier::verify` under a policy. -/
def Ed25519Verifier.verify [Ed25519] (policy : VerifierPolicy) : Verifier :=
  fun scheme message signature publicKey =>
    if policy.accepts scheme = false then .error (.schemeNotAccepted scheme.asU32)
    else match scheme with
      | .ed25519 => do
          let pkBytes ← orError (.malformedPublicKey scheme.asU32 "ed25519 pubkey must be 32 bytes")
            (tryInto 32 publicKey)
          if Ed25519.fromBytes pkBytes = false then
            .error (.malformedPublicKey scheme.asU32 "ed25519 pubkey is not a valid point")
          else
            let sigBytes ← orError
              (.malformedSignature scheme.asU32 "ed25519 signature must be 64 bytes")
              (tryInto 64 signature)
            if Ed25519.verifies pkBytes message sigBytes = false then
              .error (.badSignature scheme.asU32)
            else return ()
      | .hybridEd25519MlDsa65 => .error (.schemeNotAccepted scheme.asU32)
      | .slhDsa128s => .error (.schemeNotAccepted scheme.asU32)

section

variable [Ed25519] {policy : VerifierPolicy} {message signature publicKey : Bytes}

theorem ed25519_verify_ok_iff {scheme : SignatureScheme} :
    Ed25519Verifier.verify policy scheme message signature publicKey = .ok () ↔
      scheme = .ed25519 ∧ policy.accepts .ed25519 = true ∧ EdPoint publicKey ∧
        EdVerifies message signature publicKey := by
  unfold Ed25519Verifier.verify
  by_cases hpolicy : policy.accepts scheme = false
  · rw [if_pos hpolicy]
    refine ⟨fun h => (nomatch h), ?_⟩
    intro hyp
    obtain ⟨rfl, haccepts, -⟩ := hyp
    rw [hpolicy] at haccepts
    cases haccepts
  · rw [if_neg hpolicy]
    have haccepts := Bool.eq_true_of_not_eq_false hpolicy
    cases scheme with
    | hybridEd25519MlDsa65 | slhDsa128s => exact ⟨fun h => (nomatch h), fun h => (nomatch h.1)⟩
    | ed25519 =>
      constructor
      · intro h
        obtain ⟨k, hk, h⟩ := bind_eq_ok_iff.mp h
        have hkey := tryInto_eq_some_iff.mp (orError_eq_ok_iff.mp hk)
        split at h
        · cases h
        · rename_i hpoint
          obtain ⟨s, hs, h⟩ := bind_eq_ok_iff.mp h
          have hsig := tryInto_eq_some_iff.mp (orError_eq_ok_iff.mp hs)
          split at h
          · cases h
          · rename_i hverifies
            exact ⟨rfl, haccepts, ⟨k, hkey, Bool.eq_true_of_not_eq_false hpoint⟩,
              ⟨k, s, hkey, hsig, Bool.eq_true_of_not_eq_false hverifies⟩⟩
      · intro hyp
        obtain ⟨-, -, ⟨k, hkey, hpoint⟩, ⟨k', s, hkey', hsig, hverifies⟩⟩ := hyp
        obtain rfl := List.Vector.toList_injective (hkey'.trans hkey.symm)
        refine bind_eq_ok_iff.mpr ⟨k', orError_eq_ok_iff.mpr (tryInto_eq_some_iff.mpr hkey), ?_⟩
        rw [if_neg (by rw [hpoint]; decide)]
        refine bind_eq_ok_iff.mpr ⟨s, orError_eq_ok_iff.mpr (tryInto_eq_some_iff.mpr hsig), ?_⟩
        rw [if_neg (by rw [hverifies]; decide)]
        rfl

/-- What an ed25519 key signs and prefixes is accepted by a policy that has the scheme, and refused
with the scheme's number by every other. -/
theorem verifyPrefixed_ed25519Signer {kp : KeyPair} (hkp : kp.SignsValidly) (policy : VerifierPolicy)
    (message : Bytes) :
    ∃ blob, signWithPrefix (ed25519Signer kp) message = .ok blob ∧
      verifyPrefixed (Ed25519Verifier.verify policy) message blob
        (encodeVarint SignatureScheme.ed25519.asU32 ++ (ed25519Signer kp).publicKey) =
          if policy.accepts .ed25519 then .ok () else .error (.schemeNotAccepted 0x01) := by
  refine ⟨_, rfl, ?_⟩
  rw [show (ed25519Signer kp).scheme = .ed25519 from rfl, verifyPrefixed_encodeVarint]
  by_cases haccepts : policy.accepts .ed25519 = true
  · obtain ⟨hpoint, hverifies⟩ := edVerifies_sign hkp message
    rw [if_pos haccepts]
    exact ed25519_verify_ok_iff.mpr ⟨rfl, haccepts, hpoint, hverifies⟩
  · rw [if_neg haccepts]
    exact if_pos (Bool.eq_false_of_not_eq_true haccepts)

end

theorem scheme_of_prefixes {s s' : SignatureScheme} {blob : Bytes} {n n' : ℕ}
    (h : decodeVarint blob = .ok (s.asU32, n)) (h' : decodeVarint blob = .ok (s'.asU32, n')) : s = s' := by
  have hsame := (Prod.mk.inj (Except.ok.inj (h.symm.trans h'))).1
  cases s <;> cases s' <;> first | rfl | exact absurd hsame (by decide)

section

variable [Ed25519] [MlDsa65]

/-- Prefixed ed25519 signatures: accepted exactly under both prefixes, a policy with the scheme and a
signature that verifies; what a valid key signs comes back accepted or refused by the policy alone;
and nothing that an ed25519 verifier accepts, neither its signature blob nor its key blob, is ever
accepted by a hybrid verifier. -/
theorem prefixed_schemes_separate (policy : VerifierPolicy) :
    (∀ message sig pk, verifyPrefixed (Ed25519Verifier.verify policy) message sig pk = .ok () ↔
      policy.accepts .ed25519 = true ∧ ∃ n m, decodeVarint sig = .ok (0x01, n) ∧
        decodeVarint pk = .ok (0x01, m) ∧ EdPoint (pk.drop m) ∧
          EdVerifies message (sig.drop n) (pk.drop m)) ∧
    (∀ kp : KeyPair, kp.SignsValidly → ∀ message, ∃ blob,
      signWithPrefix (ed25519Signer kp) message = .ok blob ∧
        verifyPrefixed (Ed25519Verifier.verify policy) message blob
          (encodeVarint SignatureScheme.ed25519.asU32 ++ (ed25519Signer kp).publicKey) =
            if policy.accepts .ed25519 then .ok () else .error (.schemeNotAccepted 0x01)) ∧
    ∀ message message' sig sig' pk pk',
      verifyPrefixed (Ed25519Verifier.verify policy) message sig pk = .ok () →
      verifyPrefixed HybridVerifier.verify message' sig' pk' = .ok () → sig ≠ sig' ∧ pk ≠ pk' := by
  refine ⟨?_, fun kp hkp message => verifyPrefixed_ed25519Signer hkp policy message, ?_⟩
  · intro message sig pk
    rw [verifyPrefixed_ok_iff]
    constructor
    · intro hyp
      obtain ⟨scheme, n, m, hsig, hpk, hverify⟩ := hyp
      obtain ⟨rfl, haccepts, hpoint, hverifies⟩ := ed25519_verify_ok_iff.mp hverify
      exact ⟨haccepts, n, m, hsig, hpk, hpoint, hverifies⟩
    · intro hyp
      obtain ⟨haccepts, n, m, hsig, hpk, hpoint, hverifies⟩ := hyp
      exact ⟨.ed25519, n, m, hsig, hpk, ed25519_verify_ok_iff.mpr ⟨rfl, haccepts, hpoint, hverifies⟩⟩
  · intro message message' sig sig' pk pk' h h'
    obtain ⟨scheme, n, m, hsig, hpk, hverify⟩ := verifyPrefixed_ok_iff.mp h
    obtain ⟨scheme', n', m', hsig', hpk', hverify'⟩ := verifyPrefixed_ok_iff.mp h'
    obtain ⟨rfl, -⟩ := ed25519_verify_ok_iff.mp hverify
    have hhybrid : scheme' = .hybridEd25519MlDsa65 := by
      by_contra hother
      rw [HybridVerifier.verify, if_pos hother] at hverify'
      cases hverify'
    subst hhybrid
    constructor
    · rintro rfl
      cases scheme_of_prefixes hsig hsig'
    · rintro rfl
      cases scheme_of_prefixes hpk hpk'

end

section Sample

attribute [local instance] sampleEd25519 sampleMlDsa65

def sampleHybridSigner : HybridSigner := ⟨⟨zeroHash⟩, [], List.Vector.replicate 1952 0⟩

theorem sampleHybridSigner_signs : sampleHybridSigner.MlDsaSignsValidly := by
  refine ⟨[], rfl, fun message coins => ⟨length_toLe _ _, ?_⟩⟩
  have hpk : sampleHybridSigner.mldsaPkBytes.toList.length = mldsa65PubkeyBytes :=
    sampleHybridSigner.mldsaPkBytes.toList_length
  exact ⟨_, _, if_pos hpk, if_pos (length_toLe _ _).le, beq_self_eq_true _⟩

/-- One key signs `[5]` by itself and as half of a hybrid key. Each blob is accepted by its own
verifier; a policy without ed25519 refuses the first. -/
theorem prefixed_schemes_separate_signed :
    ∃ blob hybridBlob, signWithPrefix (ed25519Signer ⟨zeroHash⟩) [5] = .ok blob ∧
      verifyPrefixed (Ed25519Verifier.verify .ed25519Only) [5] blob
        (encodeVarint 0x01 ++ (ed25519Signer ⟨zeroHash⟩).publicKey) = .ok () ∧
      verifyPrefixed (Ed25519Verifier.verify .hybridOnly) [5] blob
        (encodeVarint 0x01 ++ (ed25519Signer ⟨zeroHash⟩).publicKey) =
          .error (.schemeNotAccepted 0x01) ∧
      verifyPrefixed HybridVerifier.verify [5] hybridBlob
        (encodeHybridPubkeyBlob (sampleHybridSigner.signer zeroHash).publicKey) = .ok () ∧
      blob ≠ hybridBlob := by
  have hkp := sample_signsValidly ⟨zeroHash⟩
  obtain ⟨-, hsigns, hseparate⟩ := prefixed_schemes_separate .ed25519Only
  obtain ⟨blob, hblob, haccepted⟩ := hsigns ⟨zeroHash⟩ hkp [5]
  obtain ⟨-, hsigns', -⟩ := prefixed_schemes_separate .hybridOnly
  obtain ⟨blob', hblob', hrefused⟩ := hsigns' ⟨zeroHash⟩ hkp [5]
  obtain rfl := Except.ok.inj (hblob.symm.trans hblob')
  obtain ⟨hybridBlob, -, hhybrid⟩ :=
    verifyPrefixed_signWithPrefix (sample_signsValidly sampleHybridSigner.ed25519)
      sampleHybridSigner_signs [5] zeroHash
  exact ⟨blob, hybridBlob, hblob, haccepted, hrefused, hhybrid,
    (hseparate _ _ _ _ _ _ haccepted hhybrid).1⟩

end Sample

end PslBank.CryptoAgility
