import PslBank.Lib.Bytes

/-!
# BLAKE3 and ed25519 as parameters

`crypto/src/hash.rs` and `crypto/src/signature.rs` wrap two external crates. The
digest and the signature scheme are therefore parameters of the model, carried by
the classes `Blake3` and `Ed25519`; no property of them is built in. A result that
needs collision freedom names the byte strings it needs it for.
-/
namespace PslBank.Crypto

open PslBank.Lib

set_option autoImplicit false

abbrev Hash := ByteArr 32
abbrev PublicKey := ByteArr 32
abbrev Signature := ByteArr 64

/-- The BLAKE3 digest of a byte string. -/
class Blake3 where
  digest : Bytes → Hash

/-- BLAKE3 with the 64-byte read of its extendable output. -/
class Blake3Xof extends Blake3 where
  fill64 : Bytes → ByteArr 64

section Hashing

variable [Blake3]

/-- `hash_bytes`. -/
def hashBytes (data : Bytes) : Hash := Blake3.digest data

/-- Two `update` calls on one hasher: the digest of the concatenation. -/
def hashConcat (a b : Bytes) : Hash := Blake3.digest (a ++ b)

/-- `hash_three`, which feeds three slices to one hasher. -/
def hashThree (a b c : Bytes) : Hash := Blake3.digest (a ++ b ++ c)

/-- No two different strings of the list have one digest. -/
def NoCollision (strings : List Bytes) : Prop :=
  Set.InjOn Blake3.digest {x | x ∈ strings}

/-- Fewer strings collide less. -/
theorem NoCollision.mono {xs ys : List Bytes} (h : NoCollision ys) (hsub : xs ⊆ ys) :
    NoCollision xs :=
  Set.InjOn.mono (fun _ hx => hsub hx) h

/-- Two strings of different digests do not collide. -/
theorem NoCollision.pair {x y : Bytes} (h : Blake3.digest x ≠ Blake3.digest y) :
    NoCollision [x, y] := by
  rintro a ha b hb hab
  have ha : a = x ∨ a = y := by simpa using ha
  have hb : b = x ∨ b = y := by simpa using hb
  rcases ha with rfl | rfl <;> rcases hb with rfl | rfl
  · rfl
  · exact absurd hab h
  · exact absurd hab.symm h
  · rfl

end Hashing

/-- A 32-byte number, for naming digests and keys in concrete runs. -/
def hashOfNat (n : ℕ) : Hash := ⟨toLe 32 n, length_toLe 32 n⟩

/-- The number is read back from its digest. -/
theorem leNat_hashOfNat {n : ℕ} (h : n < 2 ^ 256) : leNat (hashOfNat n).toList = n :=
  leNat_toLe_of_lt h

/-- A stand-in digest for evaluating statements on concrete inputs. It numbers the
empty string 0 and the other short strings apart, and gives a 64-byte string the
successor of its first half, so that chains of nodes get increasing numbers. -/
def sampleDigest (x : Bytes) : Hash :=
  if x.length = 0 then hashOfNat 0
  else if x.length = 64 then hashOfNat (leNat (x.take 32) + 1)
  else hashOfNat (1000 * x.length)

abbrev sampleBlake3 : Blake3 := ⟨sampleDigest⟩

def zeroHash : Hash := List.Vector.replicate 32 0

/-- The errors of `signature.rs`. -/
inductive SigError where
  | invalidPublicKey
  | invalidSignature
  | verificationFailed
  deriving DecidableEq, Repr

def SigError.message : SigError → String
  | .invalidPublicKey => "invalid public key bytes"
  | .invalidSignature => "invalid signature bytes"
  | .verificationFailed => "signature verification failed"

/-- The ed25519 operations the code calls: key derivation from a 32-byte seed,
signing, point decoding with the text of its error, and verification under a decoded
key. -/
class Ed25519 where
  verifyingKey : ByteArr 32 → PublicKey
  sign : ByteArr 32 → Bytes → Signature
  fromBytes : PublicKey → Bool
  fromBytesError : PublicKey → String
  verifies : PublicKey → Bytes → Signature → Bool

/-- A key pair is its 32-byte seed; the public half is derived. -/
structure KeyPair where
  secret : ByteArr 32
  deriving DecidableEq

section Signing

variable [Ed25519]

def KeyPair.public (kp : KeyPair) : PublicKey := Ed25519.verifyingKey kp.secret

def sign (kp : KeyPair) (message : Bytes) : Signature := Ed25519.sign kp.secret message

/-- `verify`: the point is decoded first, and has an error of its own. -/
def verify (pubkey : PublicKey) (message : Bytes) (signature : Signature) :
    Except SigError Unit :=
  if Ed25519.fromBytes pubkey then
    if Ed25519.verifies pubkey message signature then .ok () else .error .verificationFailed
  else .error .invalidPublicKey

/-- Whatever the key signs verifies under its public half. -/
def KeyPair.SignsValidly (kp : KeyPair) : Prop :=
  ∀ message, verify kp.public message (sign kp message) = .ok ()

end Signing

/-- A stand-in scheme for concrete runs: the secret is the public key, and a
signature is the key followed by a residue of the message. -/
def sampleSign (key : ByteArr 32) (message : Bytes) : Signature :=
  ⟨key.toList ++ (hashOfNat (leNat message % (2 ^ 255 - 19))).toList, by simp⟩

abbrev sampleEd25519 : Ed25519 :=
  ⟨id, sampleSign, fun _ => true, fun _ => "signature error",
    fun key message sig => sig == sampleSign key message⟩

/-- The stand-in scheme accepts its own signatures, under every key. -/
theorem sample_signsValidly (kp : KeyPair) : @KeyPair.SignsValidly sampleEd25519 kp := by
  intro message
  have hfits : (sampleSign kp.secret message == sampleSign kp.secret message) = true := beq_self_eq_true _
  exact if_pos hfits

end PslBank.Crypto
