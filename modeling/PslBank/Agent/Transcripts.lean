import PslBank.Agent.Dispute
import PslBank.Agent.Registry
import PslBank.Sequencer.Tx
import PslBank.Wallet.Revocation

/-!
# Signed transcripts

Eleven types of the repository are signed over bytes that they lay out by hand. Ten of
them open with a text tag, a transaction opens with its kind byte. No opening starts
another one, so the bytes determine the type; each layout is read back in the module of
its type, so they determine the fields as well.
-/
namespace PslBank.Agent

open PslBank.Lib PslBank.Crypto PslBank.Sequencer PslBank.Wallet

set_option autoImplicit false

/-- A value of one of the signed types. -/
inductive Transcript where
  | propose (m : Propose)
  | accept (m : Accept)
  | reject (m : Reject)
  | counterPropose (m : CounterPropose)
  | execute (m : Execute)
  | dispute (d : Dispute)
  | agentRegistration (r : AgentRegistration)
  | keyPolicy (p : KeyPolicy)
  | revocation (r : Revocation)
  | keyRotation (r : KeyRotation)
  | signedTx (tx : SignedTx)
  deriving DecidableEq

inductive TranscriptKind where
  | propose
  | accept
  | reject
  | counterPropose
  | execute
  | dispute
  | agentRegistration
  | keyPolicy
  | revocation
  | keyRotation
  | signedTx
  deriving DecidableEq

namespace Transcript

def kind : Transcript → TranscriptKind
  | .propose _ => .propose
  | .accept _ => .accept
  | .reject _ => .reject
  | .counterPropose _ => .counterPropose
  | .execute _ => .execute
  | .dispute _ => .dispute
  | .agentRegistration _ => .agentRegistration
  | .keyPolicy _ => .keyPolicy
  | .revocation _ => .revocation
  | .keyRotation _ => .keyRotation
  | .signedTx _ => .signedTx

/-- The bytes that are signed. -/
def canonicalBytes : Transcript → Bytes
  | .propose m => m.canonicalBytes
  | .accept m => m.canonicalBytes
  | .reject m => m.canonicalBytes
  | .counterPropose m => m.canonicalBytes
  | .execute m => m.canonicalBytes
  | .dispute d => d.canonicalBytes
  | .agentRegistration r => r.canonicalBytes
  | .keyPolicy p => p.canonicalBytes
  | .revocation r => r.canonicalBytes
  | .keyRotation r => r.canonicalBytes
  | .signedTx tx => tx.canonical

def noSignature : Signature := List.Vector.replicate 64 0

/-- All fields except the signature. A policy carries none: its envelope does. -/
def unsigned : Transcript → Transcript
  | .propose m => .propose { m with sig := noSignature }
  | .accept m => .accept { m with sig := noSignature }
  | .reject m => .reject { m with sig := noSignature }
  | .counterPropose m => .counterPropose { m with sig := noSignature }
  | .execute m => .execute { m with sig := noSignature }
  | .dispute d => .dispute { d with sig := noSignature }
  | .agentRegistration r => .agentRegistration { r with sig := noSignature }
  | .keyPolicy p => .keyPolicy p
  | .revocation r => .revocation { r with sig := noSignature }
  | .keyRotation r => .keyRotation { r with sig := noSignature }
  | .signedTx tx => .signedTx { tx with signature := noSignature }

/-- Every string and every list is shorter than `2 ^ 32`. -/
def WellSized : Transcript → Prop
  | .propose m => m.parameters.length < 2 ^ 32
  | .reject m => (utf8 m.reason).length < 2 ^ 32
  | .counterPropose m => m.newParameters.length < 2 ^ 32
  | .execute m => m.WellSized
  | .dispute d => d.WellSized
  | .agentRegistration r => r.WellSized
  | .keyPolicy p => p.WellSized
  | .signedTx tx => tx.WellSized
  | .accept _ | .revocation _ | .keyRotation _ => True

end Transcript

/-! ## Types -/

/-- The strings that the bytes of a kind can open with. -/
def TranscriptKind.openings : TranscriptKind → List Bytes
  | .propose => [tagBytes "PSL-PROPOSE-V2"]
  | .accept => [tagBytes "PSL-ACCEPT-V1"]
  | .reject => [tagBytes "PSL-REJECT-V1"]
  | .counterPropose => [tagBytes "PSL-COUNTER-V1"]
  | .execute => [tagBytes "PSL-EXECUTE-V1"]
  | .dispute => [tagBytes "PSL-DISPUTE-V1"]
  | .agentRegistration => [tagBytes "PSL-AGENT-REGISTRATION-V1"]
  | .keyPolicy => [utf8 "PSL-KEY-POLICY-V1"]
  | .revocation => [utf8 "PSL-KEY-REVOCATION-V1"]
  | .keyRotation => [utf8 "PSL-KEY-ROTATION-V1"]
  | .signedTx => [.transfer, .mint, .burn, .freeze, .multiAsset].map fun k : TxKind => [k.tag]

def TranscriptKind.all : List TranscriptKind :=
  [.propose, .accept, .reject, .counterPropose, .execute, .dispute, .agentRegistration, .keyPolicy,
    .revocation, .keyRotation, .signedTx]

theorem TranscriptKind.mem_all (k : TranscriptKind) : k ∈ all := by
  cases k <;> decide

/-- No opening of one kind starts an opening of another. -/
theorem TranscriptKind.openings_apart {k k' : TranscriptKind} {x y : Bytes} (hx : x ∈ k.openings)
    (hy : y ∈ k'.openings) (h : x <+: y) : k = k' := by
  have hall : ∀ k ∈ all, ∀ k' ∈ all, ∀ x ∈ k.openings, ∀ y ∈ k'.openings, x <+: y → k = k' := by
    decide +kernel
  exact hall k k.mem_all k' k'.mem_all x hx y hy h

namespace Transcript

theorem opens (t : Transcript) : ∃ x ∈ t.kind.openings, x <+: t.canonicalBytes := by
  cases t with
  | signedTx tx =>
    refine ⟨[tx.kind.tag], List.mem_map.mpr ⟨tx.kind, ?_, rfl⟩, ?_⟩
    · cases tx.kind <;> decide
    · simp only [canonicalBytes, SignedTx.canonical, List.append_assoc, List.prefix_append]
  | _ =>
    refine ⟨_, List.mem_singleton_self _, ?_⟩
    simp only [canonicalBytes, Propose.canonicalBytes, Accept.canonicalBytes, Reject.canonicalBytes,
      CounterPropose.canonicalBytes, Execute.canonicalBytes, Dispute.canonicalBytes,
      AgentRegistration.canonicalBytes, KeyPolicy.canonicalBytes, Revocation.canonicalBytes,
      KeyRotation.canonicalBytes, List.append_assoc, List.prefix_append]

theorem kind_eq_of_canonicalBytes {a b : Transcript} (h : a.canonicalBytes = b.canonicalBytes) :
    a.kind = b.kind := by
  obtain ⟨x, hx, hxa⟩ := a.opens
  obtain ⟨y, hy, hyb⟩ := b.opens
  rw [← h] at hyb
  rcases List.prefix_or_prefix_of_prefix hxa hyb with hp | hp
  · exact TranscriptKind.openings_apart hx hy hp
  · exact (TranscriptKind.openings_apart hy hx hp).symm

/-! ## Fields -/

theorem unsigned_eq_of_canonicalBytes {a b : Transcript} (ha : a.WellSized) (hb : b.WellSized)
    (h : a.canonicalBytes = b.canonicalBytes) : a.unsigned = b.unsigned := by
  have hkind := kind_eq_of_canonicalBytes h
  cases a with
  | propose p =>
    cases b with
    | propose q =>
      rw [← Propose.eq_of_canonicalBytes h]
      rfl
    | _ => cases hkind
  | accept p =>
    cases b with
    | accept q =>
      rw [← Accept.eq_of_canonicalBytes h]
      rfl
    | _ => cases hkind
  | reject p =>
    cases b with
    | reject q =>
      rw [← Reject.eq_of_canonicalBytes ha hb h]
      rfl
    | _ => cases hkind
  | counterPropose p =>
    cases b with
    | counterPropose q =>
      rw [← CounterPropose.eq_of_canonicalBytes ha hb h]
      rfl
    | _ => cases hkind
  | execute p =>
    cases b with
    | execute q =>
      rw [← Execute.eq_of_canonicalBytes ha hb h]
      rfl
    | _ => cases hkind
  | dispute d =>
    cases b with
    | dispute e =>
      rw [← Dispute.eq_of_canonicalBytes ha hb h]
      rfl
    | _ => cases hkind
  | agentRegistration r =>
    cases b with
    | agentRegistration s =>
      rw [← AgentRegistration.eq_of_canonicalBytes ha hb h]
      rfl
    | _ => cases hkind
  | keyPolicy p =>
    cases b with
    | keyPolicy q => exact congrArg keyPolicy (KeyPolicy.eq_of_canonicalBytes ha hb h)
    | _ => cases hkind
  | revocation r =>
    cases b with
    | revocation s =>
      rw [← Revocation.eq_of_canonicalBytes h]
      rfl
    | _ => cases hkind
  | keyRotation r =>
    cases b with
    | keyRotation s =>
      rw [← KeyRotation.eq_of_canonicalBytes h]
      rfl
    | _ => cases hkind
  | signedTx t =>
    cases b with
    | signedTx u =>
      rw [← SignedTx.eq_of_canonical ha hb h]
      rfl
    | _ => cases hkind

/-- Equal bytes are the bytes of one type with the same fields. -/
theorem transcripts_injective (a b : Transcript) (ha : a.WellSized) (hb : b.WellSized)
    (h : a.canonicalBytes = b.canonicalBytes) : a.kind = b.kind ∧ a.unsigned = b.unsigned :=
  ⟨kind_eq_of_canonicalBytes h, unsigned_eq_of_canonicalBytes ha hb h⟩

/-- Where only the bytes of a log verify under a key, everything accepted under the key is
in the log, with its type and its fields. -/
theorem accepted_in_log [Ed25519] {key : PublicKey} {log : List Transcript}
    (hlog : ∀ a ∈ log, a.WellSized)
    (hsigned : ∀ body sig, verify key body sig = .ok () → ∃ a ∈ log, body = a.canonicalBytes)
    {b : Transcript} (hb : b.WellSized) {sig : Signature}
    (hv : verify key b.canonicalBytes sig = .ok ()) :
    ∃ a ∈ log, a.kind = b.kind ∧ a.unsigned = b.unsigned := by
  obtain ⟨a, ha, hbody⟩ := hsigned _ _ hv
  exact ⟨a, ha, kind_eq_of_canonicalBytes hbody.symm,
    unsigned_eq_of_canonicalBytes (hlog a ha) hb hbody.symm⟩

/-- The record of a trading agent, not signed yet. -/
def sampleRegistration : AgentRegistration where
  pubkey := hashOfNat 6
  endpoint := "https://agent.example/v1"
  supportedContracts := ["transfer", "swap"]
  customProgramHashes := [zeroHash]
  displayName := "Trader Bot"
  feeSchedule := "0.10% fee on swaps"
  bondAmount := 1000000
  version := 1
  sig := noSignature

theorem sampleRegistration_wellSized : sampleRegistration.WellSized where
  endpoint := by decide +kernel
  contracts := by decide +kernel
  hashes := by decide +kernel
  displayName := by decide +kernel
  feeSchedule := by decide +kernel

theorem transcripts_injective_resigned :
    (agentRegistration sampleRegistration).kind =
        (agentRegistration { sampleRegistration with sig := List.Vector.replicate 64 1 }).kind ∧
      (agentRegistration sampleRegistration).unsigned =
        (agentRegistration { sampleRegistration with sig := List.Vector.replicate 64 1 }).unsigned :=
  have hs := sampleRegistration_wellSized
  transcripts_injective _ _ hs ⟨hs.endpoint, hs.contracts, hs.hashes, hs.displayName, hs.feeSchedule⟩ rfl

end Transcript

end PslBank.Agent
