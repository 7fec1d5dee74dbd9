import PslBank.Lib.Encoding
import PslBank.Crypto.Hash

/-!
# Key policies

`agent_wallet/src/error.rs` and the wire format of `agent_wallet/src/policy.rs`: the
policy a parent key signs for a child key, and its envelope.
-/
namespace PslBank.Wallet

open PslBank.Lib PslBank.Crypto

set_option autoImplicit false

/-- `WalletError` of `error.rs`; amounts are `u128`. -/
inductive WalletError where
  | badSeedLength (got : ℕ)
  | notHardened (index : UInt32)
  | invalidPrivateKey
  | signatureInvalid
  | policySignatureInvalid
  | policyExpired (expiry now : UInt64)
  | policyOverspend (wouldSpend cap : BitVec 128)
  | policyContractDisallowed (contract : String)
  | policyCounterpartyDisallowed (pubkey : PublicKey)
  | keyRevoked (pubkey : PublicKey)
  | ed25519 (reason : String)
  deriving DecidableEq

/-- What a parent key lets a child key do: the cap in a window, contracts, counterparties and
an expiry. -/
structure KeyPolicy where
  childPubkey : PublicKey
  parentPubkey : PublicKey
  capPerWindow : BitVec 128
  windowSecs : UInt64
  allowedContracts : List String
  allowedCounterparties : List PublicKey
  expiryUnix : UInt64
  version : UInt64
  deriving DecidableEq

/-- The layout of the fields by hand. The two lists come last, each with its length
as `u32` in front, and so does each contract name. -/
def KeyPolicy.canonicalBytes (p : KeyPolicy) : Bytes :=
  utf8 "PSL-KEY-POLICY-V1" ++ p.childPubkey.toList ++ p.parentPubkey.toList ++
    toBe 16 p.capPerWindow.toNat ++ toBe 8 p.windowSecs.toNat ++ toBe 8 p.expiryUnix.toNat ++
    toBe 8 p.version.toNat ++
    (toBe 4 p.allowedContracts.length ++
      p.allowedContracts.flatMap fun name => toBe 4 (utf8 name).length ++ utf8 name) ++
    (toBe 4 p.allowedCounterparties.length ++ p.allowedCounterparties.flatMap (·.toList))

/-- No length is cut short by its cast to `u32`. -/
structure KeyPolicy.WellSized (p : KeyPolicy) : Prop where
  contracts : p.allowedContracts.length < 2 ^ 32 ∧
    ∀ name ∈ p.allowedContracts, (utf8 name).length < 2 ^ 32
  counterparties : p.allowedCounterparties.length < 2 ^ 32

/-- Under these bounds the signed bytes determine the whole policy. -/
theorem KeyPolicy.eq_of_canonicalBytes {p q : KeyPolicy} (hp : p.WellSized) (hq : q.WellSized)
    (h : p.canonicalBytes = q.canonicalBytes) : p = q := by
  simp only [canonicalBytes, List.append_assoc] at h
  have h := List.append_cancel_left h
  obtain ⟨hchild, h⟩ := delimiting_array 32 trivial trivial h
  obtain ⟨hparent, h⟩ := delimiting_array 32 trivial trivial h
  obtain ⟨hcap, h⟩ := delimiting_u128_be trivial trivial h
  obtain ⟨hwindow, h⟩ := delimiting_u64_be trivial trivial h
  obtain ⟨hexpiry, h⟩ := delimiting_u64_be trivial trivial h
  obtain ⟨hversion, h⟩ := delimiting_u64_be trivial trivial h
  rw [← List.append_assoc (toBe 4 p.allowedContracts.length),
    ← List.append_assoc (toBe 4 q.allowedContracts.length)] at h
  obtain ⟨hcontracts, h⟩ := delimiting_list_be delimiting_text_be hp.contracts hq.contracts h
  have hcounterparties := (delimiting_list_be (delimiting_array 32)).inj
    ⟨hp.counterparties, fun _ _ => trivial⟩ ⟨hq.counterparties, fun _ _ => trivial⟩ h
  cases p
  cases q
  simp_all

/-- A policy with the signature of its parent. -/
structure PolicyEnvelope where
  policy : KeyPolicy
  sig : Signature
  deriving DecidableEq

section

variable [Ed25519]

/-- The check of a parent's signature; `mismatch` is the error for a signature that
does not fit. -/
def verifyParent (mismatch : WalletError) (pk : PublicKey) (body : Bytes) (sig : Signature) :
    Except WalletError Unit :=
  match verify pk body sig with
  | .ok () => .ok ()
  | .error .invalidPublicKey => .error (.ed25519 ("parent pubkey: " ++ Ed25519.fromBytesError pk))
  | .error _ => .error mismatch

/-- `PolicyEnvelope::sign` refuses a key that is not the parent the policy names. -/
def PolicyEnvelope.sign (parent : KeyPair) (policy : KeyPolicy) : Except WalletError PolicyEnvelope :=
  if parent.public ≠ policy.parentPubkey then .error .policySignatureInvalid
  else .ok ⟨policy, PslBank.Crypto.sign parent policy.canonicalBytes⟩

/-- The parent key comes from the policy that is verified. -/
def PolicyEnvelope.verify (e : PolicyEnvelope) : Except WalletError Unit :=
  verifyParent .policySignatureInvalid e.policy.parentPubkey e.policy.canonicalBytes e.sig

end

end PslBank.Wallet
