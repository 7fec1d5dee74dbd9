import PslBank.CryptoAgility.Blobs

/-!
# Hybrid signatures

`crypto_agility/src/hybrid.rs`: signatures and keys of ed25519 in front of those of
ML-DSA-65, both over the same message. ML-DSA-65 is a parameter; its keys and signatures are
whatever its parsers return. Wiping of secrets and trace messages are not represented.
-/
namespace PslBank.CryptoAgility

open PslBank.Lib PslBank.Crypto

set_option autoImplicit false

def ed25519PubkeyBytes : ℕ := 32
def ed25519SigBytes : ℕ := 64
def mldsa65PubkeyBytes : ℕ := 1952
def mldsa65SigBytes : ℕ := 3309
def hybridPubkeyBytes : ℕ := ed25519PubkeyBytes + mldsa65PubkeyBytes
def hybridSigBytes : ℕ := ed25519SigBytes + mldsa65SigBytes

/-- The operations of ML-DSA-65 that the code calls. A key that cannot be read comes with the
text of its error. -/
class MlDsa65 where
  PublicKey : Type
  SecretKey : Type
  DetachedSignature : Type
  publicKeyFromBytes : Bytes → Option PublicKey
  secretKeyFromBytes : Bytes → Except String SecretKey
  signatureFromBytes : Bytes → Option DetachedSignature
  signatureAsBytes : DetachedSignature → Bytes
  /-- From a message, a key and 32 bytes of randomness. -/
  detachedSign : Bytes → SecretKey → ByteArr 32 → DetachedSignature
  verifyDetachedSignature : DetachedSignature → Bytes → PublicKey → Bool

/-- The parsers look at the length only. -/
def MlDsa65.AcceptsLengths [MlDsa65] : Prop :=
  (∀ bytes : Bytes, bytes.length = mldsa65PubkeyBytes → ∃ pk, publicKeyFromBytes bytes = some pk) ∧
    ∀ bytes : Bytes, bytes.length = mldsa65SigBytes → ∃ sig, signatureFromBytes bytes = some sig

/-! ## Signing -/

structure HybridSigner where
  ed25519 : KeyPair
  mldsaSkBytes : Bytes
  mldsaPkBytes : ByteArr 1952

/-- The signer with the randomness of its next signature. -/
def HybridSigner.signer [Ed25519] [MlDsa65] (s : HybridSigner) (coins : ByteArr 32) : Signer where
  scheme := .hybridEd25519MlDsa65
  publicKey := s.ed25519.public.toList ++ s.mldsaPkBytes.toList
  sign message := do
    let edSig := sign s.ed25519 message
    let mldsaSk ← (MlDsa65.secretKeyFromBytes s.mldsaSkBytes).mapError fun e =>
      SignerError.primitive s!"ML-DSA-65 sk reconstruction: {e}"
    let mldsaSigBytes := MlDsa65.signatureAsBytes (MlDsa65.detachedSign message mldsaSk coins)
    if mldsaSigBytes.length ≠ mldsa65SigBytes then
      let got := mldsaSigBytes.length
      .error (.primitive
        s!"ML-DSA-65 produced unexpected sig length: {got} (expected {mldsa65SigBytes})")
    else return edSig.toList ++ mldsaSigBytes

/-! ## Verification -/

/-- `ok_or`, and `map_err` of a parser whose error is dropped. -/
def orError {α : Type} (e : VerifierError) : Option α → Except VerifierError α
  | some a => .ok a
  | none => .error e

/-- `try_into` from a slice to an array. -/
def tryInto (n : ℕ) (bytes : Bytes) : Option (ByteArr n) :=
  if h : bytes.length = n then some ⟨bytes, h⟩ else none

/-- The ed25519 component. -/
def verifyClassical [Ed25519] (scheme : SignatureScheme) (message edSigBytes edPkBytes : Bytes) :
    Except VerifierError Unit := do
  let edPkArr ← orError (.malformedPublicKey scheme.asU32
    "ed25519 pubkey slice length mismatch (internal bug)") (tryInto ed25519PubkeyBytes edPkBytes)
  if Ed25519.fromBytes edPkArr = false then
    .error (.malformedPublicKey scheme.asU32 "ed25519 component pubkey is not a valid point")
  else
    let edSigArr ← orError (.malformedSignature scheme.asU32
      "ed25519 sig slice length mismatch (internal bug)") (tryInto ed25519SigBytes edSigBytes)
    if Ed25519.verifies edPkArr message edSigArr = false then .error .hybridSignatureInvalid
    else return ()

/-- The ML-DSA-65 component. -/
def verifyPq [MlDsa65] (scheme : SignatureScheme) (message mldsaSigBytes mldsaPkBytes : Bytes) :
    Except VerifierError Unit := do
  let mldsaPk ← orError (.malformedPublicKey scheme.asU32
    "ML-DSA-65 component pubkey rejected by primitive") (MlDsa65.publicKeyFromBytes mldsaPkBytes)
  let mldsaSig ← orError (.malformedSignature scheme.asU32
    "ML-DSA-65 component sig rejected by primitive") (MlDsa65.signatureFromBytes mldsaSigBytes)
  if MlDsa65.verifyDetachedSignature mldsaSig message mldsaPk = false then
    .error .hybridSignatureInvalid
  else return ()

/-- `HybridVerifier::verify`. -/
def HybridVerifier.verify [Ed25519] [MlDsa65] : Verifier :=
  fun scheme message signature publicKey =>
    if scheme ≠ .hybridEd25519MlDsa65 then .error (.schemeNotAccepted scheme.asU32)
    else if signature.length ≠ hybridSigBytes then
      .error (.malformedSignature scheme.asU32
        "hybrid signature must be exactly 3373 bytes (ed25519 || ML-DSA-65)")
    else if publicKey.length ≠ hybridPubkeyBytes then
      .error (.malformedPublicKey scheme.asU32
        "hybrid pubkey must be exactly 1984 bytes (ed25519 || ML-DSA-65)")
    else do
      verifyClassical scheme message (signature.take ed25519SigBytes)
        (publicKey.take ed25519PubkeyBytes)
      verifyPq scheme message (signature.drop ed25519SigBytes) (publicKey.drop ed25519PubkeyBytes)

/-! ## The components on their own -/

/-- The bytes are a point of the curve. -/
def EdPoint [Ed25519] (edPkBytes : Bytes) : Prop :=
  ∃ k : PublicKey, k.toList = edPkBytes ∧ Ed25519.fromBytes k = true

/-- The signature bytes verify under the key bytes. -/
def EdVerifies [Ed25519] (message edSigBytes edPkBytes : Bytes) : Prop :=
  ∃ (k : PublicKey) (s : Signature), k.toList = edPkBytes ∧ s.toList = edSigBytes ∧
    Ed25519.verifies k message s = true

def MlDsaVerifies [MlDsa65] (message mldsaSigBytes mldsaPkBytes : Bytes) : Prop :=
  ∃ pk sig, MlDsa65.publicKeyFromBytes mldsaPkBytes = some pk ∧
    MlDsa65.signatureFromBytes mldsaSigBytes = some sig ∧
      MlDsa65.verifyDetachedSignature sig message pk = true

theorem orError_eq_ok_iff {α : Type} {e : VerifierError} {o : Option α} {a : α} :
    orError e o = .ok a ↔ o = some a := by
  cases o with
  | none => exact ⟨fun h => (nomatch h), fun h => (nomatch h)⟩
  | some b => exact ⟨fun h => congrArg some (Except.ok.inj h), fun h => congrArg Except.ok (Option.some.inj h)⟩

theorem tryInto_eq_some_iff {n : ℕ} {bytes : Bytes} {v : ByteArr n} :
    tryInto n bytes = some v ↔ v.toList = bytes := by
  unfold tryInto
  constructor
  · intro h
    split at h
    · rw [← Option.some.inj h]
      rfl
    · cases h
  · rintro rfl
    exact dif_pos v.2

section Components

variable [Ed25519] [MlDsa65] {scheme : SignatureScheme} {message : Bytes}

omit [MlDsa65] in
theorem verifyClassical_ok_iff {edSigBytes edPkBytes : Bytes} :
    verifyClassical scheme message edSigBytes edPkBytes = .ok () ↔
      EdPoint edPkBytes ∧ EdVerifies message edSigBytes edPkBytes := by
  unfold verifyClassical
  constructor
  · intro h
    obtain ⟨k, hk, h⟩ := bind_eq_ok_iff.mp h
    have hkey := tryInto_eq_some_iff.mp (orError_eq_ok_iff.mp hk)
    split at h
    · cases h
    · rename_i hpoint
      obtain ⟨s, hs, h⟩ := bind_eq_ok_iff.mp h
      have hsig := tryInto_eq_some_iff.mp (orError_eq_ok_iff.mp hs)
      split at h
      · cases h
      · rename_i hverifies
        exact ⟨⟨k, hkey, Bool.eq_true_of_not_eq_false hpoint⟩,
          ⟨k, s, hkey, hsig, Bool.eq_true_of_not_eq_false hverifies⟩⟩
  · intro hyp
    obtain ⟨⟨k, hkey, hpoint⟩, ⟨k', s, hkey', hsig, hverifies⟩⟩ := hyp
    obtain rfl := List.Vector.toList_injective (hkey'.trans hkey.symm)
    refine bind_eq_ok_iff.mpr ⟨k', orError_eq_ok_iff.mpr (tryInto_eq_some_iff.mpr hkey), ?_⟩
    rw [if_neg (by rw [hpoint]; decide)]
    refine bind_eq_ok_iff.mpr ⟨s, orError_eq_ok_iff.mpr (tryInto_eq_some_iff.mpr hsig), ?_⟩
    rw [if_neg (by rw [hverifies]; decide)]
    rfl

omit [Ed25519] in
theorem verifyPq_ok_iff {mldsaSigBytes mldsaPkBytes : Bytes} :
    verifyPq scheme message mldsaSigBytes mldsaPkBytes = .ok () ↔
      MlDsaVerifies message mldsaSigBytes mldsaPkBytes := by
  unfold verifyPq
  constructor
  · intro h
    obtain ⟨pk, hpk, h⟩ := bind_eq_ok_iff.mp h
    obtain ⟨sig, hsig, h⟩ := bind_eq_ok_iff.mp h
    split at h
    · cases h
    · rename_i hverifies
      exact ⟨pk, sig, orError_eq_ok_iff.mp hpk, orError_eq_ok_iff.mp hsig,
        Bool.eq_true_of_not_eq_false hverifies⟩
  · intro hyp
    obtain ⟨pk, sig, hpk, hsig, hverifies⟩ := hyp
    refine bind_eq_ok_iff.mpr ⟨pk, orError_eq_ok_iff.mpr hpk, ?_⟩
    refine bind_eq_ok_iff.mpr ⟨sig, orError_eq_ok_iff.mpr hsig, ?_⟩
    rw [if_neg (by rw [hverifies]; decide)]
    rfl

omit [MlDsa65] in
/-- On a point and 64 bytes, the only error of the component is the opaque one. -/
theorem verifyClassical_error {edSigBytes edPkBytes : Bytes} {e : VerifierError}
    (hpoint : EdPoint edPkBytes) (hlen : edSigBytes.length = 64)
    (h : verifyClassical scheme message edSigBytes edPkBytes = .error e) :
    e = .hybridSignatureInvalid := by
  obtain ⟨k, hkey, hvalid⟩ := hpoint
  have hk : orError (.malformedPublicKey scheme.asU32
      "ed25519 pubkey slice length mismatch (internal bug)") (tryInto ed25519PubkeyBytes edPkBytes) =
      .ok k := orError_eq_ok_iff.mpr (tryInto_eq_some_iff.mpr hkey)
  have hs : orError (.malformedSignature scheme.asU32
      "ed25519 sig slice length mismatch (internal bug)") (tryInto ed25519SigBytes edSigBytes) =
      .ok ⟨edSigBytes, hlen⟩ := orError_eq_ok_iff.mpr (tryInto_eq_some_iff.mpr rfl)
  unfold verifyClassical at h
  rw [hk] at h
  change (if Ed25519.fromBytes k = false then _ else _) = _ at h
  rw [if_neg (by rw [hvalid]; decide), hs] at h
  change (if Ed25519.verifies k message ⟨edSigBytes, hlen⟩ = false then _ else _) = _ at h
  split at h
  · exact (Except.error.inj h).symm
  · cases h

omit [Ed25519] in
theorem verifyPq_error {mldsaSigBytes mldsaPkBytes : Bytes} {e : VerifierError}
    (haccepts : MlDsa65.AcceptsLengths) (hsigLen : mldsaSigBytes.length = mldsa65SigBytes)
    (hpkLen : mldsaPkBytes.length = mldsa65PubkeyBytes)
    (h : verifyPq scheme message mldsaSigBytes mldsaPkBytes = .error e) :
    e = .hybridSignatureInvalid := by
  obtain ⟨pk, hpk⟩ := haccepts.1 mldsaPkBytes hpkLen
  obtain ⟨sig, hsig⟩ := haccepts.2 mldsaSigBytes hsigLen
  unfold verifyPq at h
  rw [hpk, hsig] at h
  change (if MlDsa65.verifyDetachedSignature sig message pk = false then _ else _) = _ at h
  split at h
  · exact (Except.error.inj h).symm
  · cases h

end Components

/-! ## The conjunction -/

section Hybrid

variable [Ed25519] [MlDsa65] {message signature publicKey : Bytes}

/-- Behind the length checks there are the two components. -/
theorem verify_of_lengths (hsig : signature.length = 3373) (hpk : publicKey.length = 1984) :
    HybridVerifier.verify .hybridEd25519MlDsa65 message signature publicKey = (do
      verifyClassical .hybridEd25519MlDsa65 message (signature.take 64) (publicKey.take 32)
      verifyPq .hybridEd25519MlDsa65 message (signature.drop 64) (publicKey.drop 32)) := by
  unfold HybridVerifier.verify
  rw [if_neg (not_not.mpr rfl), if_neg (not_not.mpr (show signature.length = hybridSigBytes from hsig)),
    if_neg (not_not.mpr (show publicKey.length = hybridPubkeyBytes from hpk))]
  rfl

theorem lengths_of_verify
    (h : HybridVerifier.verify .hybridEd25519MlDsa65 message signature publicKey = .ok ()) :
    signature.length = 3373 ∧ publicKey.length = 1984 := by
  unfold HybridVerifier.verify at h
  rw [if_neg (not_not.mpr rfl)] at h
  split at h
  · cases h
  · rename_i hsig
    split at h
    · cases h
    · rename_i hpk
      exact ⟨not_not.mp hsig, not_not.mp hpk⟩

theorem verify_ok_iff :
    HybridVerifier.verify .hybridEd25519MlDsa65 message signature publicKey = .ok () ↔
      signature.length = 3373 ∧ publicKey.length = 1984 ∧ EdPoint (publicKey.take 32) ∧
        EdVerifies message (signature.take 64) (publicKey.take 32) ∧
          MlDsaVerifies message (signature.drop 64) (publicKey.drop 32) := by
  constructor
  · intro h
    obtain ⟨hsig, hpk⟩ := lengths_of_verify h
    rw [verify_of_lengths hsig hpk] at h
    obtain ⟨_, hclassical, hpq⟩ := bind_eq_ok_iff.mp h
    obtain ⟨hpoint, hverifies⟩ := verifyClassical_ok_iff.mp hclassical
    exact ⟨hsig, hpk, hpoint, hverifies, verifyPq_ok_iff.mp hpq⟩
  · intro hyp
    obtain ⟨hsig, hpk, hpoint, hverifies, hmldsa⟩ := hyp
    rw [verify_of_lengths hsig hpk]
    exact bind_eq_ok_iff.mpr
      ⟨(), verifyClassical_ok_iff.mpr ⟨hpoint, hverifies⟩, verifyPq_ok_iff.mpr hmldsa⟩

/-! ## Signing and verifying -/

/-- The ML-DSA-65 half signs what verifies under its public key. -/
def HybridSigner.MlDsaSignsValidly (s : HybridSigner) : Prop :=
  ∃ sk, MlDsa65.secretKeyFromBytes s.mldsaSkBytes = .ok sk ∧ ∀ message coins,
    (MlDsa65.signatureAsBytes (MlDsa65.detachedSign message sk coins)).length = mldsa65SigBytes ∧
      MlDsaVerifies message (MlDsa65.signatureAsBytes (MlDsa65.detachedSign message sk coins))
        s.mldsaPkBytes.toList

omit [MlDsa65] in
theorem edVerifies_sign {kp : KeyPair} (h : kp.SignsValidly) (message : Bytes) :
    EdPoint kp.public.toList ∧ EdVerifies message (sign kp message).toList kp.public.toList := by
  have hverify := h message
  unfold verify at hverify
  split at hverify
  · rename_i hpoint
    split at hverify
    · rename_i hverifies
      exact ⟨⟨_, rfl, hpoint⟩, ⟨_, _, rfl, rfl, hverifies⟩⟩
    · cases hverify
  · cases hverify

/-- What is signed and prefixed is accepted under the prefixed key of the signer. -/
theorem verifyPrefixed_signWithPrefix {s : HybridSigner} (hed : s.ed25519.SignsValidly)
    (hpq : s.MlDsaSignsValidly) (message : Bytes) (coins : ByteArr 32) :
    ∃ blob, signWithPrefix (s.signer coins) message = .ok blob ∧
      verifyPrefixed HybridVerifier.verify message blob
        (encodeHybridPubkeyBlob (s.signer coins).publicKey) = .ok () := by
  obtain ⟨sk, hsk, hmldsa⟩ := hpq
  obtain ⟨hlen, hverifies⟩ := hmldsa message coins
  obtain ⟨hpoint, hedVerifies⟩ := edVerifies_sign hed message
  have hedSig := (sign s.ed25519 message).toList_length
  have hedPk := s.ed25519.public.toList_length
  have hsign : (s.signer coins).sign message = .ok ((sign s.ed25519 message).toList ++
      MlDsa65.signatureAsBytes (MlDsa65.detachedSign message sk coins)) := by
    refine bind_eq_ok_iff.mpr ⟨sk, mapError_eq_ok_iff.mpr hsk, ?_⟩
    exact if_neg (not_not.mpr hlen)
  refine ⟨_, bind_eq_ok_iff.mpr ⟨_, hsign, rfl⟩, ?_⟩
  refine (verifyPrefixed_encodeVarint _ _ _ _ _).trans (verify_ok_iff.mpr ?_)
  refine ⟨?_, ?_, ?_, ?_, ?_⟩
  · rw [List.length_append, hedSig, hlen]
    rfl
  · show (s.ed25519.public.toList ++ s.mldsaPkBytes.toList).length = 1984
    rw [List.length_append, hedPk, List.Vector.toList_length]
  · rwa [show (s.signer coins).publicKey.take 32 = s.ed25519.public.toList from List.take_left' hedPk]
  · rwa [List.take_left' hedSig,
      show (s.signer coins).publicKey.take 32 = s.ed25519.public.toList from List.take_left' hedPk]
  · rwa [List.drop_left' hedSig,
      show (s.signer coins).publicKey.drop 32 = s.mldsaPkBytes.toList from List.drop_left' hedPk]

/-! ## Failures -/

/-- One component that does not verify is enough for a failure. -/
theorem verify_fails (h : ¬ EdVerifies message (signature.take 64) (publicKey.take 32) ∨
      ¬ MlDsaVerifies message (signature.drop 64) (publicKey.drop 32)) :
    ∃ e, HybridVerifier.verify .hybridEd25519MlDsa65 message signature publicKey = .error e := by
  cases hres : HybridVerifier.verify .hybridEd25519MlDsa65 message signature publicKey with
  | error e => exact ⟨e, rfl⟩
  | ok u =>
    obtain ⟨-, -, -, hed, hpq⟩ := verify_ok_iff.mp hres
    exact absurd h (not_or.mpr ⟨not_not.mpr hed, not_not.mpr hpq⟩)

/-- On inputs of the right lengths with a point, every failure is the opaque one. -/
theorem verify_error (haccepts : MlDsa65.AcceptsLengths) (hsig : signature.length = 3373)
    (hpk : publicKey.length = 1984) (hpoint : EdPoint (publicKey.take 32)) {e : VerifierError}
    (h : HybridVerifier.verify .hybridEd25519MlDsa65 message signature publicKey = .error e) :
    e = .hybridSignatureInvalid := by
  rw [verify_of_lengths hsig hpk] at h
  rcases bind_eq_error_iff.mp h with hclassical | ⟨_, -, hpq⟩
  · exact verifyClassical_error hpoint (by rw [List.length_take, hsig]; rfl) hclassical
  · exact verifyPq_error haccepts (by rw [List.length_drop, hsig]; rfl)
      (by rw [List.length_drop, hpk]; rfl) hpq

/-- The verifier accepts exactly when both components do, and does not tell which of them
failed. -/
theorem hybrid_verify_conjunction (haccepts : MlDsa65.AcceptsLengths) :
    (∀ message signature publicKey : Bytes,
      HybridVerifier.verify .hybridEd25519MlDsa65 message signature publicKey = .ok () ↔
        signature.length = 3373 ∧ publicKey.length = 1984 ∧ EdPoint (publicKey.take 32) ∧
          EdVerifies message (signature.take 64) (publicKey.take 32) ∧
            MlDsaVerifies message (signature.drop 64) (publicKey.drop 32)) ∧
    ∀ message signature publicKey message' signature' publicKey' : Bytes,
      signature.length = 3373 → publicKey.length = 1984 → EdPoint (publicKey.take 32) →
      signature'.length = 3373 → publicKey'.length = 1984 → EdPoint (publicKey'.take 32) →
      ∀ e e', HybridVerifier.verify .hybridEd25519MlDsa65 message signature publicKey = .error e →
        HybridVerifier.verify .hybridEd25519MlDsa65 message' signature' publicKey' = .error e' →
          e = e' := by
  refine ⟨fun _ _ _ => verify_ok_iff, ?_⟩
  · intro message signature publicKey message' signature' publicKey' hsig hpk hpoint hsig' hpk'
      hpoint' e e' h h'
    rw [verify_error haccepts hsig hpk hpoint h, verify_error haccepts hsig' hpk' hpoint' h']

end Hybrid

/-- A stand-in for concrete runs: a signature is the message as a number of its length. -/
abbrev sampleMlDsa65 : MlDsa65 where
  PublicKey := Bytes
  SecretKey := Bytes
  DetachedSignature := Bytes
  publicKeyFromBytes bytes := if bytes.length = mldsa65PubkeyBytes then some bytes else none
  secretKeyFromBytes bytes := .ok bytes
  signatureFromBytes bytes := if bytes.length ≤ mldsa65SigBytes then some bytes else none
  signatureAsBytes sig := sig
  detachedSign message _ _ := toLe mldsa65SigBytes (leNat message)
  verifyDetachedSignature sig message _ := sig == toLe mldsa65SigBytes (leNat message)

theorem acceptsLengths_sampleMlDsa65 : @MlDsa65.AcceptsLengths sampleMlDsa65 :=
  ⟨fun bytes h => ⟨bytes, if_pos h⟩, fun bytes h => ⟨bytes, if_pos (Nat.le_of_eq h)⟩⟩

/-- Both halves good, only the first one, only the second one. -/
theorem hybrid_verify_conjunction_halves :
    let key : PublicKey := List.Vector.replicate 32 7
    let pk := key.toList ++ List.replicate 1952 0
    let good := (sampleSign key [5]).toList
    let bad : Bytes := List.replicate 64 0
    let pqGood := toLe 3309 5
    let pqBad := toLe 3309 6
    @HybridVerifier.verify sampleEd25519 sampleMlDsa65 .hybridEd25519MlDsa65 [5] (good ++ pqGood) pk =
        .ok () ∧
      ∃ e, @HybridVerifier.verify sampleEd25519 sampleMlDsa65 .hybridEd25519MlDsa65 [5]
          (good ++ pqBad) pk = .error e ∧
        @HybridVerifier.verify sampleEd25519 sampleMlDsa65 .hybridEd25519MlDsa65 [5]
          (bad ++ pqGood) pk = .error e := by
  intro key pk good bad pqGood pqBad
  have hpk : pk.length = 1984 := by
    rw [List.length_append, List.Vector.toList_length, List.length_replicate]
  have hgood : good.length = 64 := List.Vector.toList_length _
  have hbad : bad.length = 64 := List.length_replicate
  have hkey : pk.take 32 = key.toList := List.take_left' (List.Vector.toList_length _)
  have hpoint : @EdPoint sampleEd25519 (pk.take 32) := ⟨key, hkey.symm, rfl⟩
  have hlen : ∀ {ed : Bytes} {n : ℕ}, ed.length = 64 → (ed ++ toLe 3309 n).length = 3373 := by
    intro ed n hed
    rw [List.length_append, hed, length_toLe]
  obtain ⟨hiff, hopaque⟩ := @hybrid_verify_conjunction sampleEd25519 sampleMlDsa65
    acceptsLengths_sampleMlDsa65
  refine ⟨(hiff _ _ _).mpr ⟨hlen hgood, hpk, hpoint, ?_, ?_⟩, ?_⟩
  · exact ⟨key, sampleSign key [5], hkey.symm, (List.take_left' hgood).symm, beq_self_eq_true _⟩
  · refine ⟨pk.drop 32, pqGood, if_pos ?_, ?_, by decide +kernel⟩
    · rw [List.length_drop, hpk]
      rfl
    · rw [List.drop_left' hgood]
      exact if_pos (by rw [length_toLe]; decide)
  · have hpqFails : ¬ @MlDsaVerifies sampleMlDsa65 [5] ((good ++ pqBad).drop 64) (pk.drop 32) := by
      intro hyp
      obtain ⟨mpk, sig, -, hsig, hverifies⟩ := hyp
      rw [List.drop_left' hgood] at hsig
      have hsome : @MlDsa65.signatureFromBytes sampleMlDsa65 pqBad = some pqBad :=
        if_pos (by rw [length_toLe]; decide)
      rw [← Option.some.inj (hsome.symm.trans hsig)] at hverifies
      have hdiffer : (pqBad == toLe mldsa65SigBytes (leNat [5])) = false := by decide +kernel
      exact Bool.false_ne_true (hdiffer.symm.trans hverifies)
    have hedFails : ¬ @EdVerifies sampleEd25519 [5] ((bad ++ pqGood).take 64) (pk.take 32) := by
      intro hyp
      obtain ⟨k, s, hk, hs, hverifies⟩ := hyp
      rw [List.take_left' hbad] at hs
      rw [hkey] at hk
      rw [List.Vector.toList_injective hk, show s = List.Vector.replicate 64 0 from
        List.Vector.toList_injective hs] at hverifies
      revert hverifies
      decide +kernel
    obtain ⟨e, he⟩ := @verify_fails sampleEd25519 sampleMlDsa65 [5] (good ++ pqBad) pk (.inr hpqFails)
    obtain ⟨e', he'⟩ := @verify_fails sampleEd25519 sampleMlDsa65 [5] (bad ++ pqGood) pk (.inl hedFails)
    have heq := hopaque _ _ _ _ _ _ (hlen hgood) hpk hpoint (hlen hbad) hpk hpoint e e' he he'
    subst heq
    exact ⟨e, he, he'⟩

end PslBank.CryptoAgility
