import PslBank.Wallet.Policy

/-!
# Revocation and rotation of keys

`agent_wallet/src/revocation.rs` and `agent_wallet/src/rotation.rs`. The map of a
revocation set is a partial function; the first revocation of a key is the one kept.
-/
namespace PslBank.Wallet

open PslBank.Lib PslBank.Crypto

set_option autoImplicit false

/-- A statement that a key is no longer to be trusted, by the parent it names itself. -/
structure Revocation where
  revokedPubkey : PublicKey
  parentPubkey : PublicKey
  reasonHash : Hash
  revokedAtUnix : UInt64
  sig : Signature
  deriving DecidableEq

/-- All fields but the signature, each of a fixed width. -/
def Revocation.canonicalBytes (r : Revocation) : Bytes :=
  utf8 "PSL-KEY-REVOCATION-V1" ++ r.revokedPubkey.toList ++ r.parentPubkey.toList ++
    r.reasonHash.toList ++ toBe 8 r.revokedAtUnix.toNat

/-- The signed bytes determine the revocation up to its signature. -/
theorem Revocation.eq_of_canonicalBytes {r s : Revocation} (h : r.canonicalBytes = s.canonicalBytes) :
    { r with sig := s.sig } = s := by
  simp only [canonicalBytes, List.append_assoc] at h
  have h := List.append_cancel_left h
  obtain ⟨hrevoked, h⟩ := delimiting_array 32 trivial trivial h
  obtain ⟨hparent, h⟩ := delimiting_array 32 trivial trivial h
  obtain ⟨hreason, h⟩ := delimiting_array 32 trivial trivial h
  have hat := delimiting_u64_be.inj trivial trivial h
  cases r
  cases s
  simp_all

/-- One child key in place of another, under a new version of the policy. -/
structure KeyRotation where
  parentPubkey : PublicKey
  oldChildPubkey : PublicKey
  newChildPubkey : PublicKey
  rotatedAtUnix : UInt64
  policyVersion : UInt64
  sig : Signature
  deriving DecidableEq

def KeyRotation.canonicalBytes (r : KeyRotation) : Bytes :=
  utf8 "PSL-KEY-ROTATION-V1" ++ r.parentPubkey.toList ++ r.oldChildPubkey.toList ++
    r.newChildPubkey.toList ++ toBe 8 r.rotatedAtUnix.toNat ++ toBe 8 r.policyVersion.toNat

/-- The same of a rotation. -/
theorem KeyRotation.eq_of_canonicalBytes {r s : KeyRotation}
    (h : r.canonicalBytes = s.canonicalBytes) : { r with sig := s.sig } = s := by
  simp only [canonicalBytes, List.append_assoc] at h
  have h := List.append_cancel_left h
  obtain ⟨hparent, h⟩ := delimiting_array 32 trivial trivial h
  obtain ⟨hold, h⟩ := delimiting_array 32 trivial trivial h
  obtain ⟨hnew, h⟩ := delimiting_array 32 trivial trivial h
  obtain ⟨hat, h⟩ := delimiting_u64_be trivial trivial h
  have hversion := delimiting_u64_be.inj trivial trivial h
  cases r
  cases s
  simp_all

/-- The first revocation that was taken for each key. -/
structure RevocationSet where
  byPubkey : PublicKey → Option Revocation

namespace RevocationSet

def new : RevocationSet := ⟨fun _ => none⟩

/-- Whether any revocation of the key was taken. -/
def isRevoked (set : RevocationSet) (pubkey : PublicKey) : Bool := (set.byPubkey pubkey).isSome

/-- The mempool gate. -/
def check (set : RevocationSet) (pubkey : PublicKey) : Except WalletError Unit :=
  if set.isRevoked pubkey then .error (.keyRevoked pubkey) else .ok ()

end RevocationSet

section

variable [Ed25519]

/-- The signature is checked under the parent the revocation names, not under the key's own
parent. -/
def Revocation.verify (r : Revocation) : Except WalletError Unit :=
  verifyParent .signatureInvalid r.parentPubkey r.canonicalBytes r.sig

/-- A revocation by `parent`, which signs everything but the signature field. -/
def Revocation.sign (parent : KeyPair) (revokedPubkey : PublicKey) (reasonHash : Hash)
    (revokedAtUnix : UInt64) : Revocation :=
  let r : Revocation := ⟨revokedPubkey, parent.public, reasonHash, revokedAtUnix,
    List.Vector.replicate 64 0⟩
  { r with sig := PslBank.Crypto.sign parent r.canonicalBytes }

def KeyRotation.verify (r : KeyRotation) : Except WalletError Unit :=
  verifyParent .signatureInvalid r.parentPubkey r.canonicalBytes r.sig

def KeyRotation.sign (parent : KeyPair) (oldChildPubkey newChildPubkey : PublicKey)
    (rotatedAtUnix policyVersion : UInt64) : KeyRotation :=
  let r : KeyRotation := ⟨parent.public, oldChildPubkey, newChildPubkey, rotatedAtUnix,
    policyVersion, List.Vector.replicate 64 0⟩
  { r with sig := PslBank.Crypto.sign parent r.canonicalBytes }

/-- The set after the call, and whether the key is newly revoked. -/
def RevocationSet.insert (set : RevocationSet) (rev : Revocation) :
    RevocationSet × Except WalletError Bool :=
  match rev.verify with
  | .error e => (set, .error e)
  | .ok () =>
      if set.isRevoked rev.revokedPubkey then (set, .ok false)
      else (⟨Function.update set.byPubkey rev.revokedPubkey (some rev)⟩, .ok true)

end

end PslBank.Wallet
