import PslBank.CryptoAgility.Blobs
import PslBank.Lib.Encoding

/-!
# Witness encryption

`crypto_agility/src/witness_enc.rs` and the hybrid key encapsulation of `kem.rs`. X25519,
ML-KEM-768, HKDF-SHA-512 and AES-256-GCM are parameters; what is assumed of them stands with
each result. Randomness is an argument. A public key and a ciphertext carry their length in
their type, as their constructors check it; a recipient's ML-KEM secret key is any byte
string, and decapsulation panics when its length is wrong. Wiping of secrets is not
represented.
-/
namespace PslBank.CryptoAgility

open PslBank.Lib

set_option autoImplicit false

inductive KemError where
  | schemeNotSupported (scheme : UInt32)
  | malformedPublicKey (scheme : UInt32) (detail : String)
  | malformedCiphertext (scheme : UInt32) (detail : String)
  | truncatedBlob (scheme : UInt32) (got min : ℕ)
  | authenticationFailed
  deriving DecidableEq, Repr

/-- How a call ends that does not return a value. -/
inductive KemFault where
  | error (e : KemError)
  | panic
  deriving DecidableEq, Repr

/-! ## Primitives -/

/-- The two halves of the key encapsulation. -/
class HybridPrimitives where
  x25519PublicKey : ByteArr 32 → ByteArr 32
  diffieHellman : ByteArr 32 → ByteArr 32 → ByteArr 32
  /-- From 64 bytes of randomness, public and secret key. -/
  mlKemKeypair : ByteArr 64 → ByteArr 1184 × ByteArr 2400
  /-- From a public key and 32 bytes of randomness, shared secret and ciphertext. -/
  mlKemEncapsulate : ByteArr 1184 → ByteArr 32 → ByteArr 32 × ByteArr 1088
  mlKemDecapsulate : ByteArr 1088 → ByteArr 2400 → ByteArr 32

/-- Key derivation and authenticated encryption. -/
class SealPrimitives where
  /-- Salt, input keying material, info. -/
  hkdfSha512 : Bytes → Bytes → Bytes → ByteArr 32
  /-- Key, nonce, message, associated data. -/
  aesGcmEncrypt : ByteArr 32 → ByteArr 12 → Bytes → Bytes → Option Bytes
  aesGcmDecrypt : ByteArr 32 → ByteArr 12 → Bytes → Bytes → Option Bytes

/-! ## Key encapsulation -/

structure HybridPublicKey where
  x25519 : ByteArr 32
  mlKem : ByteArr 1184
  deriving DecidableEq

/-- The ML-KEM half is unchecked: `RecipientMlKemSecretKey::from_bytes` takes any bytes. -/
structure HybridRecipientSecretKey where
  x25519 : ByteArr 32
  mlKem : Bytes
  deriving DecidableEq

structure HybridKemKeypair where
  publicKey : HybridPublicKey
  secretKey : HybridRecipientSecretKey
  deriving DecidableEq

structure HybridCiphertext where
  x25519 : ByteArr 32
  mlKem : ByteArr 1088
  deriving DecidableEq

/-- `copy_from_slice` into `[u8; n]`, and `from_bytes(..).expect(..)`. -/
def copyFromSlice (n : ℕ) (b : Bytes) : Except KemFault (ByteArr n) :=
  if h : b.length = n then .ok ⟨b, h⟩ else .error .panic

section Kem

variable [HybridPrimitives]

open HybridPrimitives

def HybridKemKeypair.generate (x25519Sk : ByteArr 32) (coins : ByteArr 64) : HybridKemKeypair :=
  ⟨⟨x25519PublicKey x25519Sk, (mlKemKeypair coins).1⟩, ⟨x25519Sk, (mlKemKeypair coins).2.toList⟩⟩

/-- Ciphertext and `x25519_ss ‖ ml_kem_ss`. -/
def encapsulate (recipientPk : HybridPublicKey) (ephX25519Sk coins : ByteArr 32) :
    HybridCiphertext × Bytes :=
  let x25519Ss := diffieHellman ephX25519Sk recipientPk.x25519
  let (mlKemSs, mlKemCt) := mlKemEncapsulate recipientPk.mlKem coins
  (⟨x25519PublicKey ephX25519Sk, mlKemCt⟩, x25519Ss.toList ++ mlKemSs.toList)

def decapsulate (ciphertext : HybridCiphertext) (recipientSk : HybridRecipientSecretKey) :
    Except KemFault Bytes := do
  let mlKemSk ← copyFromSlice 2400 recipientSk.mlKem
  let mlKemSs := mlKemDecapsulate ciphertext.mlKem mlKemSk
  let x25519Ss := diffieHellman recipientSk.x25519 ciphertext.x25519
  return x25519Ss.toList ++ mlKemSs.toList

end Kem

/-! ## Transcript and key -/

inductive ContextString where
  | witnessEncV1
  | viewKeyV1
  | travelRuleV1
  deriving DecidableEq, Repr

def ContextString.asBytes : ContextString → Bytes
  | witnessEncV1 => utf8 "PSL-WitnessEnc-v1"
  | viewKeyV1 => utf8 "PSL-ViewKey-v1"
  | travelRuleV1 => utf8 "PSL-TravelRule-v1"

def hkdfSalt : Bytes := utf8 "PSL-hybrid-kem-salt-v1"

/-- `1 + 32 + 1088 + 12 + 16`. -/
def minBlobBytes : ℕ := 1149

def buildKemTranscript (x25519SharedSecret mlKemSharedSecret x25519EphemeralPubkey : ByteArr 32)
    (mlKemCiphertext : Bytes) : Bytes :=
  encodeVarint KemSchemeId.hybridX25519MlKem768.asU32 ++ x25519SharedSecret.toList ++
    mlKemSharedSecret.toList ++ x25519EphemeralPubkey.toList ++ mlKemCiphertext

section Seal

variable [HybridPrimitives] [SealPrimitives]

open HybridPrimitives SealPrimitives

def deriveAeadKey (transcript : Bytes) (context : ContextString) : ByteArr 32 :=
  hkdfSha512 hkdfSalt transcript context.asBytes

/-- Steps 1 to 3 of `encrypt`: the ciphertext and the transcript. -/
def encryptTranscript (ephX25519Sk coins : ByteArr 32) (recipientPk : HybridPublicKey) :
    Except KemFault (HybridCiphertext × Bytes) := do
  let (ct, raw) := encapsulate recipientPk ephX25519Sk coins
  let x25519Ss ← copyFromSlice 32 (raw.take 32)
  let mlKemSs ← copyFromSlice 32 (raw.drop 32)
  return (ct, buildKemTranscript x25519Ss mlKemSs ct.x25519 ct.mlKem.toList)

def encrypt (ephX25519Sk coins : ByteArr 32) (nonce : ByteArr 12) (recipientX25519Pk : ByteArr 32)
    (recipientMlKemPk : ByteArr 1184) (plaintext additionalData : Bytes) (context : ContextString) :
    Except KemFault Bytes := do
  let (ct, transcript) ← encryptTranscript ephX25519Sk coins ⟨recipientX25519Pk, recipientMlKemPk⟩
  let aeadKey := deriveAeadKey transcript context
  match aesGcmEncrypt aeadKey nonce plaintext additionalData with
  | none => .error .panic
  | some aeadCt =>
      return encodeVarint KemSchemeId.hybridX25519MlKem768.asU32 ++ ct.x25519.toList ++
        ct.mlKem.toList ++ nonce.toList ++ aeadCt

/-- The slice `blob[off .. off + len]`. -/
def sliceRange (blob : Bytes) (off len : ℕ) : Except KemFault Bytes :=
  if off + len ≤ blob.length then .ok (slice blob off len) else .error .panic

/-- `X25519Ciphertext::from_bytes` and `MlKemCiphertext::from_bytes`. -/
def ciphertextFromBytes (n : ℕ) (detail : String) (bytes : Bytes) : Except KemFault (ByteArr n) :=
  if h : bytes.length = n then .ok ⟨bytes, h⟩
  else .error (.error (.malformedCiphertext KemSchemeId.hybridX25519MlKem768.asU32 detail))

/-- The wire format of `decrypt`: ciphertext, nonce and sealed message. -/
def parseBlob (encryptedBlob : Bytes) : Except KemFault (HybridCiphertext × Bytes × Bytes) := do
  let (schemeId, off) ← (decodeVarint encryptedBlob).mapError fun _ =>
    KemFault.error (.truncatedBlob 0 encryptedBlob.length minBlobBytes)
  if schemeId ≠ KemSchemeId.hybridX25519MlKem768.asU32 then
    .error (.error (.schemeNotSupported schemeId))
  else if encryptedBlob.length < minBlobBytes then
    .error (.error (.truncatedBlob schemeId encryptedBlob.length minBlobBytes))
  else
    let ephX25519Pk ← sliceRange encryptedBlob off 32
    let mlKemCt ← sliceRange encryptedBlob (off + 32) 1088
    let nonce ← sliceRange encryptedBlob (off + 32 + 1088) 12
    let aeadCt := encryptedBlob.drop (off + 32 + 1088 + 12)
    let x25519 ← ciphertextFromBytes 32 "X25519 ciphertext must be exactly 32 bytes" ephX25519Pk
    let mlKem ← ciphertextFromBytes 1088 "ML-KEM-768 ciphertext must be exactly 1088 bytes" mlKemCt
    return (⟨x25519, mlKem⟩, nonce, aeadCt)

/-- Decapsulation and the transcript of `decrypt`. -/
def decryptTranscript (recipientSk : HybridRecipientSecretKey) (ct : HybridCiphertext) :
    Except KemFault Bytes := do
  let raw ← decapsulate ct recipientSk
  let x25519Ss ← copyFromSlice 32 (raw.take 32)
  let mlKemSs ← copyFromSlice 32 (raw.drop 32)
  return buildKemTranscript x25519Ss mlKemSs ct.x25519 ct.mlKem.toList

def decrypt (recipientX25519Sk : ByteArr 32) (recipientMlKemSk encryptedBlob additionalData : Bytes)
    (context : ContextString) : Except KemFault Bytes := do
  let (ct, nonceBytes, aeadCt) ← parseBlob encryptedBlob
  let transcript ← decryptTranscript ⟨recipientX25519Sk, recipientMlKemSk⟩ ct
  let aeadKey := deriveAeadKey transcript context
  let nonce ← copyFromSlice 12 nonceBytes
  match aesGcmDecrypt aeadKey nonce aeadCt additionalData with
  | none => .error (.error .authenticationFailed)
  | some plaintext => return plaintext

end Seal

/-! ## Round trip -/

/-- X25519 agreement and ML-KEM correctness on generated keys. -/
def KemCorrect [HybridPrimitives] : Prop :=
  (∀ a b : ByteArr 32, HybridPrimitives.diffieHellman a (HybridPrimitives.x25519PublicKey b) =
    HybridPrimitives.diffieHellman b (HybridPrimitives.x25519PublicKey a)) ∧
  ∀ (keyCoins : ByteArr 64) (coins : ByteArr 32),
    let keys := HybridPrimitives.mlKemKeypair keyCoins
    let sealed := HybridPrimitives.mlKemEncapsulate keys.1 coins
    HybridPrimitives.mlKemDecapsulate sealed.2 keys.2 = sealed.1

/-- AES-GCM encrypts this message with this associated data under every key and nonce, adds
a tag of 16 bytes and decrypts it again. -/
def AeadCorrect [SealPrimitives] (message additionalData : Bytes) : Prop :=
  ∀ (key : ByteArr 32) (nonce : ByteArr 12), ∃ aeadCt,
    SealPrimitives.aesGcmEncrypt key nonce message additionalData = some aeadCt ∧
      aeadCt.length = message.length + 16 ∧
      SealPrimitives.aesGcmDecrypt key nonce aeadCt additionalData = some message

theorem copyFromSlice_toList {n : ℕ} (v : ByteArr n) : copyFromSlice n v.toList = .ok v :=
  dif_pos v.2

theorem encodeVarint_hybrid : encodeVarint KemSchemeId.hybridX25519MlKem768.asU32 = [2] :=
  encodeVarint_of_lt (by decide)

section RoundTrip

variable [HybridPrimitives] [SealPrimitives]

open HybridPrimitives SealPrimitives

omit [SealPrimitives] in
/-- Both sides of the transcript, on a generated key pair. -/
theorem decryptTranscript_eq (hkem : KemCorrect) (x25519Sk ephX25519Sk coins : ByteArr 32)
    (keyCoins : ByteArr 64) :
    ∃ ct transcript,
      encryptTranscript ephX25519Sk coins (HybridKemKeypair.generate x25519Sk keyCoins).publicKey =
        .ok (ct, transcript) ∧
      decryptTranscript (HybridKemKeypair.generate x25519Sk keyCoins).secretKey ct = .ok transcript := by
  obtain ⟨hdh, hmlkem⟩ := hkem
  have hraw : ∀ a b : ByteArr 32, (a.toList ++ b.toList).take 32 = a.toList ∧
      (a.toList ++ b.toList).drop 32 = b.toList :=
    fun a b => ⟨List.take_left' a.2, List.drop_left' a.2⟩
  refine ⟨⟨x25519PublicKey ephX25519Sk, (mlKemEncapsulate (mlKemKeypair keyCoins).1 coins).2⟩,
    buildKemTranscript (diffieHellman ephX25519Sk (x25519PublicKey x25519Sk))
      (mlKemEncapsulate (mlKemKeypair keyCoins).1 coins).1 (x25519PublicKey ephX25519Sk)
      (mlKemEncapsulate (mlKemKeypair keyCoins).1 coins).2.toList, ?_, ?_⟩
  · simp only [encryptTranscript, encapsulate, HybridKemKeypair.generate, (hraw _ _).1, (hraw _ _).2,
      copyFromSlice_toList]
    rfl
  · simp only [decryptTranscript, decapsulate, HybridKemKeypair.generate, copyFromSlice_toList]
    show (do
      let x25519Ss ← copyFromSlice 32 (List.take 32 _)
      let mlKemSs ← copyFromSlice 32 (List.drop 32 _)
      return buildKemTranscript x25519Ss mlKemSs _ _) = _
    rw [(hraw _ _).1, (hraw _ _).2, copyFromSlice_toList, copyFromSlice_toList, hdh, hmlkem]
    rfl

omit [HybridPrimitives] [SealPrimitives] in
theorem sliceRange_mid {front mid : Bytes} (back : Bytes) {off len : ℕ} (hoff : front.length = off)
    (hlen : mid.length = len) : sliceRange (front ++ (mid ++ back)) off len = .ok mid := by
  rw [sliceRange, if_pos, slice, List.drop_left' hoff, List.take_left' hlen]
  rw [List.length_append, List.length_append]
  omega

omit [HybridPrimitives] [SealPrimitives] in
/-- What the slices behind the prefix hold is what is parsed. -/
theorem parseBlob_of_slices {blob nonce : Bytes} {n : ℕ} {ct : HybridCiphertext}
    (hvarint : decodeVarint blob = .ok (KemSchemeId.hybridX25519MlKem768.asU32, n))
    (hlong : minBlobBytes ≤ blob.length) (hepk : sliceRange blob n 32 = .ok ct.x25519.toList)
    (hmct : sliceRange blob (n + 32) 1088 = .ok ct.mlKem.toList)
    (hnonce : sliceRange blob (n + 32 + 1088) 12 = .ok nonce) :
    parseBlob blob = .ok (ct, nonce, blob.drop (n + 32 + 1088 + 12)) := by
  have htyped : ∀ {n : ℕ} (detail : String) (v : ByteArr n),
      ciphertextFromBytes n detail v.toList = .ok v := fun _ v => dif_pos v.2
  unfold parseBlob
  refine bind_eq_ok_iff.mpr ⟨_, mapError_eq_ok_iff.mpr hvarint, ?_⟩
  simp only
  rw [if_neg (not_not.mpr rfl), if_neg (Nat.not_lt.mpr hlong)]
  exact bind_eq_ok_iff.mpr ⟨_, hepk, bind_eq_ok_iff.mpr ⟨_, hmct, bind_eq_ok_iff.mpr ⟨_, hnonce,
    bind_eq_ok_iff.mpr ⟨_, htyped _ _, bind_eq_ok_iff.mpr ⟨_, htyped _ _, rfl⟩⟩⟩⟩⟩

omit [HybridPrimitives] [SealPrimitives] in
/-- The offsets of `decrypt` find the fields that `encrypt` wrote. -/
theorem parseBlob_encrypted (ct : HybridCiphertext) (nonce : ByteArr 12) {aeadCt : Bytes}
    (hlen : 16 ≤ aeadCt.length) :
    parseBlob (encodeVarint KemSchemeId.hybridX25519MlKem768.asU32 ++ ct.x25519.toList ++
      ct.mlKem.toList ++ nonce.toList ++ aeadCt) = .ok (ct, nonce.toList, aeadCt) := by
  have hx := ct.x25519.toList_length
  have hm := ct.mlKem.toList_length
  have hn := nonce.toList_length
  rw [encodeVarint_hybrid]
  generalize hblob : [2] ++ ct.x25519.toList ++ ct.mlKem.toList ++ nonce.toList ++ aeadCt = blob
  have hvarint : decodeVarint blob = .ok (2, 1) := by
    rw [← hblob]
    exact decodeVarint_of_lt (by decide) _
  have hlong : minBlobBytes ≤ blob.length := by
    rw [← hblob]
    simp only [List.length_append, List.length_singleton, hx, hm, hn]
    show 1149 ≤ _
    omega
  have hslice1 : sliceRange blob 1 32 = .ok ct.x25519.toList := by
    rw [← hblob, List.append_assoc, List.append_assoc, List.append_assoc]
    exact sliceRange_mid _ rfl hx
  have hslice2 : sliceRange blob (1 + 32) 1088 = .ok ct.mlKem.toList := by
    rw [← hblob, List.append_assoc, List.append_assoc]
    exact sliceRange_mid _ (by rw [List.length_append, hx]; rfl) hm
  have hslice3 : sliceRange blob (1 + 32 + 1088) 12 = .ok nonce.toList := by
    rw [← hblob, List.append_assoc]
    exact sliceRange_mid _ (by rw [List.length_append, List.length_append, hx, hm]; rfl) hn
  have hdrop : blob.drop (1 + 32 + 1088 + 12) = aeadCt := by
    rw [← hblob]
    apply List.drop_left'
    rw [List.length_append, List.length_append, List.length_append, hx, hm, hn]
    rfl
  have hparse := parseBlob_of_slices hvarint hlong hslice1 hslice2 hslice3
  rwa [hdrop] at hparse

omit [HybridPrimitives] [SealPrimitives] in
/-- The four components can be read off the transcript. -/
theorem buildKemTranscript_inj {xss xss' mss mss' epk epk' : ByteArr 32} {ct ct' : Bytes}
    (h : buildKemTranscript xss mss epk ct = buildKemTranscript xss' mss' epk' ct') :
    xss = xss' ∧ mss = mss' ∧ epk = epk' ∧ ct = ct' := by
  simp only [buildKemTranscript, List.append_assoc] at h
  have h1 := List.append_cancel_left h
  obtain ⟨hx, h2⟩ := delimiting_array 32 trivial trivial h1
  obtain ⟨hm, h3⟩ := delimiting_array 32 trivial trivial h2
  obtain ⟨he, hct⟩ := delimiting_array 32 trivial trivial h3
  exact ⟨hx, hm, he, hct⟩

/-- What `encrypt` returns for a generated key is decrypted by the matching secret keys to the
plaintext; the blob has the stated length, and both sides derive the key from one transcript,
which determines its components. -/
theorem decrypt_encrypt (x25519Sk : ByteArr 32) (keyCoins : ByteArr 64)
    (ephX25519Sk coins : ByteArr 32) (nonce : ByteArr 12) (plaintext additionalData : Bytes)
    (context : ContextString) (hkem : KemCorrect) (haead : AeadCorrect plaintext additionalData) :
    let keys := HybridKemKeypair.generate x25519Sk keyCoins
    ∃ blob ct transcript,
      encrypt ephX25519Sk coins nonce keys.publicKey.x25519 keys.publicKey.mlKem plaintext
        additionalData context = .ok blob ∧
      decrypt keys.secretKey.x25519 keys.secretKey.mlKem blob additionalData context = .ok plaintext ∧
      blob.length = 1149 + plaintext.length ∧
      encryptTranscript ephX25519Sk coins keys.publicKey = .ok (ct, transcript) ∧
      (∃ nonceBytes aeadCt, parseBlob blob = .ok (ct, nonceBytes, aeadCt)) ∧
      decryptTranscript keys.secretKey ct = .ok transcript ∧
      ∀ (xss xss' mss mss' epk epk' : ByteArr 32) (mct mct' : ByteArr 1088),
        buildKemTranscript xss mss epk mct.toList = buildKemTranscript xss' mss' epk' mct'.toList →
          xss = xss' ∧ mss = mss' ∧ epk = epk' ∧ mct = mct' := by
  intro keys
  obtain ⟨ct, transcript, henc, hdec⟩ := decryptTranscript_eq hkem x25519Sk ephX25519Sk coins keyCoins
  obtain ⟨aeadCt, hseal, hlen, hopen⟩ := haead (deriveAeadKey transcript context) nonce
  have hparse := parseBlob_encrypted ct nonce (show 16 ≤ aeadCt.length by omega)
  refine ⟨_, ct, transcript, ?_, ?_, ?_, henc, ⟨_, _, hparse⟩, hdec, ?_⟩
  · refine bind_eq_ok_iff.mpr ⟨_, henc, ?_⟩
    simp only [hseal]
    rfl
  · refine bind_eq_ok_iff.mpr ⟨_, hparse, bind_eq_ok_iff.mpr ⟨_, hdec, ?_⟩⟩
    refine bind_eq_ok_iff.mpr ⟨_, copyFromSlice_toList nonce, ?_⟩
    simp only [hopen]
    rfl
  · rw [encodeVarint_hybrid]
    simp only [List.length_append, List.length_singleton, List.Vector.toList_length, hlen]
    omega
  · intro xss xss' mss mss' epk epk' mct mct' h
    obtain ⟨hx, hm, he, hct⟩ := buildKemTranscript_inj h
    exact ⟨hx, hm, he, List.Vector.toList_injective hct⟩

end RoundTrip

/-- Stand-ins with the assumed properties: keys are their own public keys and agree on a sum,
the ciphertext carries the shared secret. -/
abbrev sampleHybrid : HybridPrimitives where
  x25519PublicKey a := a
  diffieHellman a b := List.Vector.map₂ (· + ·) a b
  mlKemKeypair _ := (List.Vector.replicate 1184 0, List.Vector.replicate 2400 0)
  mlKemEncapsulate _ coins :=
    (coins, ⟨coins.toList ++ List.replicate 1056 0, by
      rw [List.length_append, List.Vector.toList_length, List.length_replicate]⟩)
  mlKemDecapsulate ct _ := ⟨ct.toList.take 32, by rw [List.length_take, List.Vector.toList_length]; rfl⟩

/-- The message in the clear, with half of the key as its tag. -/
abbrev sampleSeal : SealPrimitives where
  hkdfSha512 _ ikm _ := ⟨toLe 32 (leNat ikm), length_toLe 32 _⟩
  aesGcmEncrypt key _ msg _ := some (msg ++ key.toList.take 16)
  aesGcmDecrypt key _ ct _ :=
    if ct.drop (ct.length - 16) = key.toList.take 16 then some (ct.take (ct.length - 16)) else none

theorem kemCorrect_sampleHybrid : @KemCorrect sampleHybrid := by
  refine ⟨?_, ?_⟩
  · intro a b
    apply List.Vector.ext
    intro i
    show (List.Vector.map₂ (· + ·) a b).get i = (List.Vector.map₂ (· + ·) b a).get i
    rw [List.Vector.get_map₂, List.Vector.get_map₂, UInt8.add_comm]
  · intro keyCoins coins
    exact Subtype.ext (List.take_left' coins.2)

theorem aeadCorrect_sampleSeal (message additionalData : Bytes) :
    @AeadCorrect sampleSeal message additionalData := by
  intro key nonce
  have htag : (key.toList.take 16).length = 16 := by
    rw [List.length_take, List.Vector.toList_length]
    rfl
  refine ⟨message ++ key.toList.take 16, rfl, by rw [List.length_append, htag], ?_⟩
  have hcut : (message ++ key.toList.take 16).length - 16 = message.length := by
    rw [List.length_append, htag, Nat.add_sub_cancel]
  show (if (message ++ key.toList.take 16).drop ((message ++ key.toList.take 16).length - 16) = _
    then some ((message ++ key.toList.take 16).take ((message ++ key.toList.take 16).length - 16))
    else none) = _
  rw [hcut, List.drop_left' rfl, List.take_left' rfl, if_pos rfl]

theorem decrypt_encrypt_sample :
    ∃ blob, @encrypt sampleHybrid sampleSeal (List.Vector.replicate 32 7) (List.Vector.replicate 32 9)
        (List.Vector.replicate 12 5) (List.Vector.replicate 32 3) (List.Vector.replicate 1184 0)
        [1, 2, 3] [4] .viewKeyV1 = .ok blob ∧
      @decrypt sampleHybrid sampleSeal (List.Vector.replicate 32 3) (List.replicate 2400 0) blob [4]
        .viewKeyV1 = .ok [1, 2, 3] ∧ blob.length = 1152 := by
  obtain ⟨blob, ct, transcript, henc, hdec, hlen, -⟩ := @decrypt_encrypt sampleHybrid sampleSeal
    (List.Vector.replicate 32 3) (List.Vector.replicate 64 0) (List.Vector.replicate 32 7)
    (List.Vector.replicate 32 9) (List.Vector.replicate 12 5) [1, 2, 3] [4] .viewKeyV1
    kemCorrect_sampleHybrid (aeadCorrect_sampleSeal _ _)
  exact ⟨blob, henc, hdec, hlen⟩

end PslBank.CryptoAgility
