import PslBank.Agent.Message
import PslBank.Lib.Runs

/-!
# Dispute resolution

`agent_protocol/src/dispute.rs`. The resolver runs the contract on the witness in
the dispute and compares the output with the one the executor signed. The witness
the executor signed is not looked at, so the verdict is right for every contract
exactly when the two witnesses are the same. Of the proposal only the signature is
looked at: the dispute is tied to the execute message, and neither to the proposal
nor to the contract it names.
-/
namespace PslBank.Agent

open PslBank.Lib PslBank.Crypto PslBank.Contracts

set_option autoImplicit false

structure Dispute where
  proposalHash : ProposalHash
  witness : Bytes
  claimedOutput : Bytes
  disputer : PublicKey
  openedAtUnix : UInt64
  sig : Signature
  deriving DecidableEq

/-- What the disputer signs. -/
def Dispute.canonicalBytes (d : Dispute) : Bytes :=
  tagBytes "PSL-DISPUTE-V1" ++ d.proposalHash.bytes.toList ++ pushBytes d.witness ++
    pushBytes d.claimedOutput ++ d.disputer.toList ++ toBe 8 d.openedAtUnix.toNat

/-- Both byte strings fit their length prefixes. -/
def Dispute.WellSized (d : Dispute) : Prop :=
  d.witness.length < 2 ^ 32 ∧ d.claimedOutput.length < 2 ^ 32

theorem Dispute.eq_of_canonicalBytes {d e : Dispute} (hd : d.WellSized) (he : e.WellSized)
    (h : d.canonicalBytes = e.canonicalBytes) : { d with sig := e.sig } = e := by
  simp only [canonicalBytes, List.append_assoc] at h
  have h := List.append_cancel_left h
  obtain ⟨hhash, h⟩ := delimiting_proposalHash trivial trivial h
  obtain ⟨hwitness, h⟩ := delimiting_pushBytes hd.1 he.1 h
  obtain ⟨houtput, h⟩ := delimiting_pushBytes hd.2 he.2 h
  obtain ⟨hdisputer, h⟩ := delimiting_array 32 trivial trivial h
  have hat := delimiting_u64_be.inj trivial trivial h
  cases d
  cases e
  simp_all

/-- The party at fault, with what the contract gave when it was run again. -/
inductive DisputeOutcome where
  | slashExecutor (executorPubkey : PublicKey) (reExecutedOutput : Bytes)
  | dismissDispute (disputerPubkey : PublicKey) (reExecutedOutput : Bytes)
  deriving DecidableEq

section

variable [Ed25519]

def Dispute.verify (d : Dispute) : Except ProtocolError Unit :=
  verifyLabelled "disputer pk" d.disputer d.canonicalBytes d.sig

def Dispute.sign (signer : KeyPair) (proposalHash : ProposalHash) (witness claimedOutput : Bytes)
    (openedAtUnix : UInt64) : Dispute :=
  let d : Dispute := ⟨proposalHash, witness, claimedOutput, signer.public, openedAtUnix,
    List.Vector.replicate 64 0⟩
  { d with sig := PslBank.Crypto.sign signer d.canonicalBytes }

/-- The checks and the one run of the contract, on the witness of the dispute. -/
def resolveDispute (contract : TernaryProgram) (propose : Propose) (execute : Execute)
    (dispute : Dispute) : Except ProtocolError DisputeOutcome := do
  propose.verify
  execute.verify
  dispute.verify
  if dispute.proposalHash ≠ execute.proposalHash then
    .error (.proposalHashMismatch execute.proposalHash dispute.proposalHash)
  let actual ← (contract.run dispute.witness).mapError .contract
  if execute.expectedOutput.bytes = actual then
    return .dismissDispute dispute.disputer actual
  else
    return .slashExecutor execute.byKey actual

/-- The executor's signed output is the contract's output on the signed witness. -/
def Execute.Honest (execute : Execute) (contract : TernaryProgram) : Prop :=
  contract.run execute.witness = .ok execute.expectedOutput.bytes

/-- Only dishonest executors are slashed, and only disputes against honest ones are
dismissed. -/
def VerdictCorrect (contract : TernaryProgram) (propose : Propose) (execute : Execute)
    (dispute : Dispute) : Prop :=
  (∀ pk out, resolveDispute contract propose execute dispute = .ok (.slashExecutor pk out) →
    ¬ execute.Honest contract) ∧
  (∀ pk out, resolveDispute contract propose execute dispute = .ok (.dismissDispute pk out) →
    execute.Honest contract)

variable {contract : TernaryProgram} {propose : Propose} {execute : Execute} {dispute : Dispute}

/-- A dispute over verified messages with one proposal hash is decided by the output
on the dispute's own witness. -/
theorem resolveDispute_eq (hp : propose.verify = .ok ()) (he : execute.verify = .ok ())
    (hd : dispute.verify = .ok ()) (hh : dispute.proposalHash = execute.proposalHash) :
    resolveDispute contract propose execute dispute =
      match contract.run dispute.witness with
      | .error e => .error (.contract e)
      | .ok actual =>
          if execute.expectedOutput.bytes = actual then .ok (.dismissDispute dispute.disputer actual)
          else .ok (.slashExecutor execute.byKey actual) := by
  unfold resolveDispute
  rw [hp, he, hd, if_neg (not_not_intro hh)]
  cases contract.run dispute.witness with
  | error e => rfl
  | ok actual => rfl

/-- The verdict on one contract is right unless the two witnesses disagree about the
signed output. -/
theorem verdictCorrect_iff (hp : propose.verify = .ok ()) (he : execute.verify = .ok ())
    (hd : dispute.verify = .ok ()) (hh : dispute.proposalHash = execute.proposalHash) :
    VerdictCorrect contract propose execute dispute ↔ ∀ actual,
      contract.run dispute.witness = .ok actual →
        (execute.Honest contract ↔ execute.expectedOutput.bytes = actual) := by
  unfold VerdictCorrect
  rw [resolveDispute_eq hp he hd hh]
  cases hr : contract.run dispute.witness with
  | error e => simp
  | ok actual =>
    by_cases heq : execute.expectedOutput.bytes = actual
    · simp [heq]
    · simp [heq]

/-- The contract that accepts the signed witness with the signed output and gives
every other witness a longer one. -/
def fussyContract (programHash : ProgramHash) (execute : Execute) : TernaryProgram where
  name := "fussy"
  run := fun w => if w = execute.witness then .ok execute.expectedOutput.bytes
    else .ok (0 :: execute.expectedOutput.bytes)
  programHashV2 := programHash
  programHash := zeroHash

/-- The verdict on verified messages with matching hashes is right for every
contract, exactly when the dispute carries the witness the executor signed. -/
theorem verdicts_correct_iff (hp : propose.verify = .ok ()) (he : execute.verify = .ok ())
    (hd : dispute.verify = .ok ()) (hh : dispute.proposalHash = execute.proposalHash) :
    (∀ contract, VerdictCorrect contract propose execute dispute) ↔
      dispute.witness = execute.witness := by
  constructor
  · intro h
    by_contra hne
    have hbad := (verdictCorrect_iff hp he hd hh).mp
      (h (fussyContract propose.programHash execute)) (0 :: execute.expectedOutput.bytes)
      (if_neg hne)
    have hhonest : execute.Honest (fussyContract propose.programHash execute) := if_pos rfl
    have hlen := congrArg List.length (hbad.mp hhonest)
    simp at hlen
  · intro hw contract
    rw [verdictCorrect_iff hp he hd hh, hw]
    intro actual hrun
    unfold Execute.Honest
    rw [hrun]
    exact ⟨fun h => (Except.ok.inj h).symm, fun h => congrArg Except.ok h.symm⟩

/-! ## What an outcome is bound to -/

/-- The inputs on which the resolver returns an outcome. -/
structure Resolvable (contract : TernaryProgram) (propose : Propose) (execute : Execute)
    (dispute : Dispute) : Prop where
  propose_ok : propose.verify = .ok ()
  execute_ok : execute.verify = .ok ()
  dispute_ok : dispute.verify = .ok ()
  same_hash : dispute.proposalHash = execute.proposalHash
  runs : ∃ actual, contract.run dispute.witness = .ok actual

theorem resolveDispute_ok_iff :
    (∃ outcome, resolveDispute contract propose execute dispute = .ok outcome) ↔
      Resolvable contract propose execute dispute := by
  constructor
  · rintro ⟨outcome, h⟩
    have hfull := h
    unfold resolveDispute at h
    obtain ⟨_, hp, h⟩ := bind_eq_ok_iff.mp h
    obtain ⟨_, he, h⟩ := bind_eq_ok_iff.mp h
    obtain ⟨_, hd, h⟩ := bind_eq_ok_iff.mp h
    by_cases hh : dispute.proposalHash = execute.proposalHash
    · rw [resolveDispute_eq hp he hd hh] at hfull
      refine ⟨hp, he, hd, hh, ?_⟩
      cases hr : contract.run dispute.witness with
      | error e =>
        rw [hr] at hfull
        cases hfull
      | ok actual => exact ⟨actual, rfl⟩
    · rw [if_pos hh] at h
      cases h
  · rintro ⟨hp, he, hd, hh, actual, hr⟩
    rw [resolveDispute_eq hp he hd hh, hr]
    dsimp only
    split
    · exact ⟨_, rfl⟩
    · exact ⟨_, rfl⟩

variable [Blake3]

/-- The four arguments of a resolution belong to one deal. -/
structure OneDeal (contract : TernaryProgram) (propose : Propose) (execute : Execute)
    (dispute : Dispute) : Prop where
  execute_names : execute.proposalHash = propose.proposalHash
  dispute_names : dispute.proposalHash = propose.proposalHash
  contract_named : contract.programHashV2 = propose.programHash
  by_party : execute.byKey = propose.fromKey ∨ execute.byKey = propose.toKey

def DisputeBound (contract : TernaryProgram) (propose : Propose) (execute : Execute)
    (dispute : Dispute) : Prop :=
  ∀ outcome, resolveDispute contract propose execute dispute = .ok outcome →
    OneDeal contract propose execute dispute

/-- An outcome is bound to one deal exactly when the caller handed in the execute
message, the executor and the contract of the proposal, or the call is refused. -/
theorem disputes_bound_iff :
    DisputeBound contract propose execute dispute ↔
      ¬ Resolvable contract propose execute dispute ∨
        (execute.proposalHash = propose.proposalHash ∧
          contract.programHashV2 = propose.programHash ∧
          (execute.byKey = propose.fromKey ∨ execute.byKey = propose.toKey)) := by
  constructor
  · intro hb
    by_cases hr : Resolvable contract propose execute dispute
    · obtain ⟨outcome, ho⟩ := resolveDispute_ok_iff.mpr hr
      have hdeal := hb outcome ho
      exact .inr ⟨hdeal.execute_names, hdeal.contract_named, hdeal.by_party⟩
    · exact .inl hr
  · intro hcond outcome ho
    have hr := resolveDispute_ok_iff.mp ⟨outcome, ho⟩
    rcases hcond with hno | ⟨he, hc, hby⟩
    · exact absurd hr hno
    · exact ⟨he, hr.same_hash.trans he, hc, hby⟩

end

section Sample

attribute [local instance] sampleBlake3 sampleEd25519

/-- The contract that returns its input. -/
def echoContract : TernaryProgram := ⟨"echo", .ok, ⟨List.Vector.replicate 64 7⟩, zeroHash⟩

def samplePropose : Propose :=
  .sign ⟨hashOfNat 1⟩ echoContract.programHashV2 [5] (hashOfNat 2) 0 100 1

/-- The executor runs the echo on `[5]` and signs the right output. -/
def sampleExecute : Execute := .sign ⟨hashOfNat 2⟩ samplePropose.proposalHash [5] ⟨[5]⟩ 10

/-- A third party disputes with a witness of its choice. -/
def sampleDispute (witness : Bytes) : Dispute :=
  .sign ⟨hashOfNat 3⟩ samplePropose.proposalHash witness [6] 20

theorem verdicts_correct_signed_witness :
    samplePropose.verify = .ok () ∧ sampleExecute.verify = .ok () ∧
      (sampleDispute [5]).verify = .ok () ∧
      ∀ contract, VerdictCorrect contract samplePropose sampleExecute (sampleDispute [5]) :=
  ⟨by decide +kernel, by decide +kernel, by decide +kernel,
    (verdicts_correct_iff (by decide +kernel) (by decide +kernel) (by decide +kernel)
      (by decide +kernel)).mpr (by decide +kernel)⟩

/-- An honest executor is slashed by a dispute with another witness. -/
theorem verdict_wrong_other_witness :
    samplePropose.verify = .ok () ∧ sampleExecute.verify = .ok () ∧
      (sampleDispute [6]).verify = .ok () ∧
      sampleExecute.proposalHash = samplePropose.proposalHash ∧
      (sampleDispute [6]).proposalHash = sampleExecute.proposalHash ∧
      ¬ VerdictCorrect echoContract samplePropose sampleExecute (sampleDispute [6]) := by
  refine ⟨by decide +kernel, by decide +kernel, by decide +kernel, by decide +kernel,
    by decide +kernel, fun h => ?_⟩
  have hslash : resolveDispute echoContract samplePropose sampleExecute (sampleDispute [6]) =
      .ok (.slashExecutor (hashOfNat 2) [6]) := by
    decide +kernel
  exact h.1 _ _ hslash rfl

/-- A proposal between two other parties, about another contract. -/
def strangersPropose : Propose :=
  .sign ⟨hashOfNat 4⟩ ⟨List.Vector.replicate 64 8⟩ [1, 2] (hashOfNat 6) 0 100 1

/-- The executor of one proposal is slashed under the proposal of strangers. -/
theorem dispute_not_bound_other_propose :
    ¬ DisputeBound echoContract strangersPropose sampleExecute (sampleDispute [6]) := by
  intro h
  have hslash : resolveDispute echoContract strangersPropose sampleExecute (sampleDispute [6]) =
      .ok (.slashExecutor (hashOfNat 2) [6]) := by
    decide +kernel
  have hnamed := (h _ hslash).execute_names
  revert hnamed
  decide +kernel

end Sample

end PslBank.Agent
