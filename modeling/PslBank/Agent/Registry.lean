import PslBank.Agent.Message

/-!
# Agent registrations

`agent_protocol/src/registry.rs`: the record an agent signs about itself, with the
contracts it supports and the bond it has staked.
-/
namespace PslBank.Agent

open PslBank.Lib PslBank.Crypto

set_option autoImplicit false

structure AgentRegistration where
  pubkey : PublicKey
  endpoint : String
  supportedContracts : List String
  customProgramHashes : List Hash
  displayName : String
  feeSchedule : String
  bondAmount : BitVec 128
  version : UInt64
  sig : Signature
  deriving DecidableEq

/-- The number of strings as `u32`, then each with its own length. -/
def pushStrList (ss : List String) : Bytes := toBe 4 ss.length ++ ss.flatMap pushStr

/-- The number of hashes as `u32`, then the hashes. -/
def pushHashes (hashes : List Hash) : Bytes := toBe 4 hashes.length ++ hashes.flatMap (·.toList)

theorem delimiting_pushStrList :
    SelfDelimiting (fun ss => ss.length < 2 ^ 32 ∧ ∀ s ∈ ss, (utf8 s).length < 2 ^ 32) pushStrList :=
  delimiting_list_be delimiting_pushStr

theorem delimiting_pushHashes :
    SelfDelimiting (fun hashes : List Hash => hashes.length < 2 ^ 32) pushHashes := by
  intro l l' r s hl hl' h
  exact delimiting_list_be (delimiting_array 32) ⟨hl, fun _ _ => trivial⟩ ⟨hl', fun _ _ => trivial⟩ h

namespace AgentRegistration

def canonicalBytes (r : AgentRegistration) : Bytes :=
  tagBytes "PSL-AGENT-REGISTRATION-V1" ++ r.pubkey.toList ++ pushStr r.endpoint ++
    pushStrList r.supportedContracts ++ pushHashes r.customProgramHashes ++ pushStr r.displayName ++
    pushStr r.feeSchedule ++ toBe 16 r.bondAmount.toNat ++ toBe 8 r.version.toNat

structure WellSized (r : AgentRegistration) : Prop where
  endpoint : (utf8 r.endpoint).length < 2 ^ 32
  contracts : r.supportedContracts.length < 2 ^ 32 ∧
    ∀ name ∈ r.supportedContracts, (utf8 name).length < 2 ^ 32
  hashes : r.customProgramHashes.length < 2 ^ 32
  displayName : (utf8 r.displayName).length < 2 ^ 32
  feeSchedule : (utf8 r.feeSchedule).length < 2 ^ 32

theorem eq_of_canonicalBytes {r s : AgentRegistration} (hr : r.WellSized) (hs : s.WellSized)
    (h : r.canonicalBytes = s.canonicalBytes) : { r with sig := s.sig } = s := by
  simp only [canonicalBytes, List.append_assoc] at h
  have h := List.append_cancel_left h
  obtain ⟨hkey, h⟩ := delimiting_array 32 trivial trivial h
  obtain ⟨hendpoint, h⟩ := delimiting_pushStr hr.endpoint hs.endpoint h
  obtain ⟨hcontracts, h⟩ := delimiting_pushStrList hr.contracts hs.contracts h
  obtain ⟨hhashes, h⟩ := delimiting_pushHashes hr.hashes hs.hashes h
  obtain ⟨hname, h⟩ := delimiting_pushStr hr.displayName hs.displayName h
  obtain ⟨hfee, h⟩ := delimiting_pushStr hr.feeSchedule hs.feeSchedule h
  obtain ⟨hbond, h⟩ := delimiting_u128_be trivial trivial h
  have hversion := delimiting_u64_be.inj trivial trivial h
  cases r
  cases s
  simp_all

variable [Ed25519]

def sign (signer : KeyPair) (endpoint : String) (supportedContracts : List String)
    (customProgramHashes : List Hash) (displayName feeSchedule : String) (bondAmount : BitVec 128)
    (version : UInt64) : AgentRegistration :=
  let r : AgentRegistration := ⟨signer.public, endpoint, supportedContracts, customProgramHashes,
    displayName, feeSchedule, bondAmount, version, List.Vector.replicate 64 0⟩
  { r with sig := PslBank.Crypto.sign signer r.canonicalBytes }

def verify (r : AgentRegistration) : Except ProtocolError Unit :=
  verifyLabelled "agent pubkey" r.pubkey r.canonicalBytes r.sig

/-- A registration verifies under the key that signed it. -/
theorem verify_sign {signer : KeyPair} (h : signer.SignsValidly) (endpoint : String)
    (supportedContracts : List String) (customProgramHashes : List Hash)
    (displayName feeSchedule : String) (bondAmount : BitVec 128) (version : UInt64) :
    (sign signer endpoint supportedContracts customProgramHashes displayName feeSchedule bondAmount
      version).verify = .ok () :=
  verifyLabelled_sign "agent pubkey" h _

end AgentRegistration

end PslBank.Agent
