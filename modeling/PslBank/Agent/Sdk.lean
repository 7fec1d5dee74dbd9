import PslBank.Agent.ProposalRuns
import PslBank.Agent.Dispute
import PslBank.Wallet.Revocation

/-!
# The agent runtime

`agent_sdk/src/agent.rs` with the errors of `agent_sdk/src/error.rs` and the sending
half of `agent_sdk/src/transport.rs`. Of the identity only the child key is used by the
handlers, so the parent key, the policy and the spending tracker are absent. A call
returns the agent after it together with what it signed and what it handed to the
transport, on every exit, since a handler that fails keeps what it did before.

A handler takes the lock of the proposal log up to twice. `receivePropose` and
`takeAccept` are the parts up to the point where the first lock is released, and
`answerPropose` and `executeAccepted` the parts after it.
-/
namespace PslBank.Agent

open PslBank.Lib PslBank.Crypto PslBank.Contracts PslBank.Wallet

set_option autoImplicit false

/-- The errors of the runtime, each from the layer it comes from. -/
inductive SdkError where
  | wallet (error : WalletError)
  | protocol (error : ProtocolError)
  | contract (error : ContractError)
  | ternary (error : PslBank.Ternary.TernaryError)
  | transport (reason : String)
  | unknownContract (hash : ProgramHash)
  deriving DecidableEq

/-- `Transport::send`: the receiver's key and the message. -/
abbrev Transport := PublicKey → ProtocolMessage → Except String Unit

/-- What the caller makes of a proposal it was offered. -/
inductive ProposeDecision where
  | accept
  | reject (reason : String)
  deriving DecidableEq

/-- `ReputationCounters` with the derived default, all zero. -/
structure ReputationCounters where
  initiated : UInt64 := 0
  completed : UInt64 := 0
  disputed : UInt64 := 0
  disputesLost : UInt64 := 0
  deriving DecidableEq

/-- `u64::saturating_add(1)`. -/
def saturatingSucc (n : UInt64) : UInt64 := if n.toNat + 1 < 2 ^ 64 then n + 1 else n

/-- The programs an agent executes, each under its own hash. -/
structure ContractTable where
  lookup : ProgramHash → Option TernaryProgram
  keyed : ∀ h p, lookup h = some p → p.programHashV2 = h

namespace ContractTable

def empty : ContractTable := ⟨fun _ => none, fun _ _ h => by cases h⟩

/-- `register_contract` inserts under the program hash, so the key always fits the program. -/
def register (table : ContractTable) (p : TernaryProgram) : ContractTable where
  lookup := Function.update table.lookup p.programHashV2 (some p)
  keyed := by
    intro h q hq
    by_cases hk : h = p.programHashV2
    · subst hk
      rw [Function.update_self] at hq
      rw [Option.some.inj hq]
    · rw [Function.update_of_ne hk] at hq
      exact table.keyed h q hq

/-- A registered program is found under its own hash. -/
theorem lookup_register (table : ContractTable) (p : TernaryProgram) :
    (table.register p).lookup p.programHashV2 = some p :=
  Function.update_self _ _ _

end ContractTable

/-- The state of an agent: its key and what `AgentSdk` holds behind locks. -/
structure AgentSdk where
  child : KeyPair
  contracts : ContractTable
  proposals : ProposalLog
  revocations : RevocationSet
  reputation : PublicKey → Option ReputationCounters

/-- What a call leaves behind. -/
structure Outcome (α : Type) where
  agent : AgentSdk
  signed : List ProtocolMessage
  sent : List (PublicKey × ProtocolMessage)
  result : Except SdkError α

namespace Outcome

/-- Go on after a step that succeeded. -/
def andThen {α β : Type} (o : Outcome α) (f : AgentSdk → α → Outcome β) : Outcome β :=
  match o.result with
  | .error e => ⟨o.agent, o.signed, o.sent, .error e⟩
  | .ok a =>
      ⟨(f o.agent a).agent, o.signed ++ (f o.agent a).signed, o.sent ++ (f o.agent a).sent,
        (f o.agent a).result⟩

end Outcome

namespace AgentSdk

section

variable {α : Type} (agent : AgentSdk)

/-- A step that reads only. -/
def check (r : Except SdkError α) : Outcome α := ⟨agent, [], [], r⟩

/-- One use of the proposal log under its lock. -/
def locked (f : ProposalLog → ProposalLog × Except ProtocolError α) : Outcome α :=
  ⟨{ agent with proposals := (f agent.proposals).1 }, [], [],
    (f agent.proposals).2.mapError .protocol⟩

def signing (m : ProtocolMessage) : Outcome Unit := ⟨agent, [m], [], .ok ()⟩

/-- One `Transport::send`; a refusal is a transport error, and the message counts as handed
over. -/
def post (transport : Transport) (toKey : PublicKey) (m : ProtocolMessage) : Outcome Unit :=
  ⟨agent, [], [(toKey, m)], (transport toKey m).mapError .transport⟩

/-- The registered contract, or the error that names the hash. -/
def findContract (h : ProgramHash) : Except SdkError TernaryProgram :=
  match agent.contracts.lookup h with
  | some p => .ok p
  | none => .error (.unknownContract h)

end

section

variable [Ed25519]

/-- An agent without contracts, proposals, revocations or partners. -/
def new (child : KeyPair) : AgentSdk :=
  ⟨child, .empty, .new, .new, fun _ => none⟩

def pubkey (agent : AgentSdk) : PublicKey := agent.child.public

def registerContract (agent : AgentSdk) (p : TernaryProgram) : AgentSdk :=
  { agent with contracts := agent.contracts.register p }

/-- `local_reputation`, with zeros for a key never seen. -/
def localReputation (agent : AgentSdk) (key : PublicKey) : ReputationCounters :=
  (agent.reputation key).getD {}

/-- `resolve_dispute` of the runtime: the contract is looked up by the proposal. -/
def resolveDisputeFor (agent : AgentSdk) (propose : Propose) (execute : Execute)
    (dispute : Dispute) : Except SdkError DisputeOutcome := do
  let contract ← agent.findContract propose.programHash
  (resolveDispute contract propose execute dispute).mapError .protocol

/-- The contract of a resolution through the runtime is the one the proposal names. -/
theorem resolveDisputeFor_contract {agent : AgentSdk} {propose : Propose} {execute : Execute}
    {dispute : Dispute} {outcome : DisputeOutcome}
    (h : agent.resolveDisputeFor propose execute dispute = .ok outcome) :
    ∃ contract, contract.programHashV2 = propose.programHash ∧
      resolveDispute contract propose execute dispute = .ok outcome := by
  obtain ⟨contract, hfind, hres⟩ := bind_eq_ok_iff.mp h
  refine ⟨contract, ?_, ?_⟩
  · unfold findContract at hfind
    cases hl : agent.contracts.lookup propose.programHash with
    | none =>
      rw [hl] at hfind
      cases hfind
    | some found =>
      rw [hl] at hfind
      cases hfind
      exact agent.contracts.keyed _ _ hl
  · cases hr : resolveDispute contract propose execute dispute with
    | error e =>
      rw [hr] at hres
      cases hres
    | ok out =>
      rw [hr] at hres
      cases hres
      rfl

variable [Blake3]

/-- How a handler answers with a message it has signed: record it in the log, then send
it. -/
def issue (agent : AgentSdk) (m : ProtocolMessage) (transport : Transport) (toKey : PublicKey) :
    Outcome Unit :=
  (agent.signing m).andThen fun agent _ =>
  (agent.locked (·.deliver m)).andThen fun agent _ =>
  agent.post transport toKey m

/-- Sign a proposal and record it; the record is best effort. -/
def propose (agent : AgentSdk) (programHash : ProgramHash) (parameters : Bytes) (toKey : PublicKey)
    (validFromUnix validUntilUnix nonce : UInt64) : Outcome Propose :=
  let p := Propose.sign agent.child programHash parameters toKey validFromUnix validUntilUnix nonce
  (agent.signing (.propose p)).andThen fun agent _ =>
  agent.locked fun log => ((log.recordPropose p).1, .ok p)

/-- The part of `handle_propose` before the decision. A revoked proposer is turned
away here, without a trace in the log; `true` means that a decision is due. -/
def receivePropose (agent : AgentSdk) (propose : Propose) (now : UInt64) (transport : Transport) :
    Outcome Bool :=
  (agent.check (propose.verify.mapError .protocol)).andThen fun agent _ =>
  if agent.revocations.isRevoked propose.fromKey then
    let reject := Reject.sign agent.child propose.proposalHash "proposer revoked" now
    (agent.signing (.reject reject)).andThen fun agent _ =>
    (agent.post transport propose.fromKey (.reject reject)).andThen fun agent _ =>
    agent.check (.ok false)
  else
    (agent.locked (·.recordPropose propose)).andThen fun agent _ =>
    agent.check (.ok true)

/-- The answer that `handle_propose` signs. -/
def answer (agent : AgentSdk) (propose : Propose) (now : UInt64) : ProposeDecision → ProtocolMessage
  | .accept => .accept (.sign agent.child propose.proposalHash now)
  | .reject reason => .reject (.sign agent.child propose.proposalHash reason now)

/-- The part of `handle_propose` after the proposal is in the log. -/
def answerPropose (agent : AgentSdk) (propose : Propose) (now : UInt64) (decision : ProposeDecision)
    (transport : Transport) : Outcome Unit :=
  agent.issue (agent.answer propose now decision) transport propose.fromKey

/-- `handle_propose`. The lock of the log is released between the two parts. -/
def handlePropose (agent : AgentSdk) (propose : Propose) (now : UInt64)
    (decision : Propose → ProposeDecision) (transport : Transport) : Outcome Unit :=
  (agent.receivePropose propose now transport).andThen fun agent due =>
    if due then agent.answerPropose propose now (decision propose) transport
    else agent.check (.ok ())

/-- The part of `handle_accept` under the first lock. It yields the proposal when this
agent made it and is to execute it. -/
def takeAccept (agent : AgentSdk) (accept : Accept) : Outcome (Option Propose) :=
  (agent.check (accept.verify.mapError .protocol)).andThen fun agent _ =>
  (agent.locked (·.applyAccept accept)).andThen fun agent _ =>
  match agent.proposals.get accept.proposalHash with
  | none => agent.check (.error (.protocol (.unknownProposal accept.proposalHash)))
  | some (.accepted propose _) =>
      agent.check (.ok (if propose.fromKey = agent.pubkey then some propose else none))
  | some _ => agent.check (.ok none)

/-- The part of `handle_accept` after the accept is in the log: run the contract and
answer with the execute message. -/
def executeAccepted (agent : AgentSdk) (propose : Propose) (accept : Accept) (witness : Bytes)
    (now : UInt64) (transport : Transport) : Outcome Unit :=
  (agent.check (agent.findContract propose.programHash)).andThen fun agent contract =>
  (agent.check ((contract.run witness).mapError .contract)).andThen fun agent expected =>
  agent.issue (.execute (.sign agent.child accept.proposalHash witness ⟨expected⟩ now)) transport
    accept.byKey

/-- `handle_accept`: only the proposer goes on to run the contract. -/
def handleAccept (agent : AgentSdk) (accept : Accept) (witness : Bytes) (now : UInt64)
    (transport : Transport) : Outcome Unit :=
  (agent.takeAccept accept).andThen fun agent found =>
    match found with
    | some propose => agent.executeAccepted propose accept witness now transport
    | none => agent.check (.ok ())

/-- Count an execution of `key` that went as signed, or did not. -/
def credit (agent : AgentSdk) (key : PublicKey) (agreed : Bool) : AgentSdk :=
  let counter := agent.localReputation key
  let counter := if agreed then { counter with completed := saturatingSucc counter.completed }
    else { counter with disputesLost := saturatingSucc counter.disputesLost }
  { agent with reputation := Function.update agent.reputation key (some counter) }

/-- The part of `handle_execute` after the message is in the log. -/
def settleExecute (agent : AgentSdk) (propose : Propose) (execute : Execute) : Outcome Bool :=
  (agent.check (agent.findContract propose.programHash)).andThen fun agent contract =>
  (agent.check ((contract.run execute.witness).mapError .contract)).andThen fun agent actual =>
  let agreed := decide (actual = execute.expectedOutput.bytes)
  (agent.credit execute.byKey agreed).check (.ok agreed)

/-- The on-chain view is not read. -/
def handleExecute (agent : AgentSdk) (execute : Execute) : Outcome Bool :=
  (agent.check (execute.verify.mapError .protocol)).andThen fun agent _ =>
  (agent.locked (·.applyExecute execute)).andThen fun agent _ =>
  match agent.proposals.get execute.proposalHash with
  | some (.executed propose _ _) => agent.settleExecute propose execute
  | _ => agent.check (.ok false)

/-! ## What each part does -/

section Parts

variable {α β : Type} (agent : AgentSdk)

omit [Ed25519] [Blake3] in
/-- A check that passes leaves nothing behind. -/
@[simp] theorem check_ok_andThen (a : α) (f : AgentSdk → α → Outcome β) :
    (agent.check (.ok a)).andThen f = f agent a := rfl

omit [Ed25519] [Blake3] in
@[simp] theorem check_error_andThen (e : SdkError) (f : AgentSdk → α → Outcome β) :
    (agent.check (.error e)).andThen f = agent.check (.error e) := rfl

/-- The agent after its log has handled a message. -/
def recorded (m : ProtocolMessage) : AgentSdk :=
  { agent with proposals := (agent.proposals.deliver m).1 }

/-- A message that leaves the log as it is leaves the agent as it is. -/
theorem recorded_of_error {m : ProtocolMessage} (h : (agent.proposals.deliver m).1 = agent.proposals) :
    agent.recorded m = agent := by
  unfold recorded
  rw [h]

/-- The log refuses the message, or it takes it and the transport decides. It is signed in both
cases. -/
theorem issue_cases (m : ProtocolMessage) (transport : Transport) (toKey : PublicKey) :
    (∃ e, (agent.proposals.deliver m).2 = .error e ∧
      agent.issue m transport toKey = ⟨agent.recorded m, [m], [], .error (.protocol e)⟩) ∨
    (agent.proposals.deliver m).2 = .ok () ∧
      agent.issue m transport toKey =
        ⟨agent.recorded m, [m], [(toKey, m)], (transport toKey m).mapError .transport⟩ := by
  unfold issue locked
  cases hr : (agent.proposals.deliver m).2 with
  | error e => exact .inl ⟨e, rfl, by simp [Outcome.andThen, signing, recorded, hr, Except.mapError]⟩
  | ok u =>
    exact .inr ⟨rfl, by simp [Outcome.andThen, signing, post, recorded, hr, Except.mapError]⟩

@[simp] theorem issue_signed (m : ProtocolMessage) (transport : Transport) (toKey : PublicKey) :
    (agent.issue m transport toKey).signed = [m] := by
  rcases agent.issue_cases m transport toKey with ⟨e, -, he⟩ | ⟨-, he⟩
  · rw [he]
  · rw [he]

/-- A bad signature, a revoked proposer, or a proposal in the log. -/
theorem receivePropose_cases (propose : Propose) (now : UInt64) (transport : Transport) :
    (∃ e, propose.verify = .error e ∧
      agent.receivePropose propose now transport = agent.check (.error (.protocol e))) ∨
    propose.verify = .ok () ∧ agent.revocations.isRevoked propose.fromKey ∧
      agent.receivePropose propose now transport =
        ⟨agent, [.reject (.sign agent.child propose.proposalHash "proposer revoked" now)],
          [(propose.fromKey,
            .reject (.sign agent.child propose.proposalHash "proposer revoked" now))],
          ((transport propose.fromKey (.reject (.sign agent.child propose.proposalHash
            "proposer revoked" now))).mapError .transport).map fun _ => false⟩ ∨
    propose.verify = .ok () ∧ ¬ agent.revocations.isRevoked propose.fromKey ∧
      agent.receivePropose propose now transport =
        ⟨agent.recorded (.propose propose), [], [], .ok true⟩ := by
  unfold receivePropose
  cases hv : propose.verify with
  | error e => exact .inl ⟨e, rfl, rfl⟩
  | ok u =>
    refine .inr ?_
    by_cases hrev : agent.revocations.isRevoked propose.fromKey
    · refine .inl ⟨rfl, hrev, ?_⟩
      simp only [Except.mapError, check_ok_andThen, if_pos hrev]
      cases hs : transport propose.fromKey
        (.reject (.sign agent.child propose.proposalHash "proposer revoked" now)) <;>
        simp [Outcome.andThen, signing, post, check, hs, Except.mapError, Except.map]
    · refine .inr ⟨rfl, hrev, ?_⟩
      have hrec : (agent.proposals.recordPropose propose).2 = .ok propose.proposalHash := by
        unfold ProposalLog.recordPropose
        rw [hv]
        cases agent.proposals.byHash propose.proposalHash <;> rfl
      simp only [Except.mapError, check_ok_andThen, if_neg hrev]
      simp [Outcome.andThen, locked, check, recorded, hrec, Except.mapError, ProposalLog.deliver]

/-- The log refuses the accept, or it holds the accepted proposal and yields it to its
proposer. -/
theorem takeAccept_cases (accept : Accept) :
    (∃ e, (agent.proposals.applyAccept accept).2 = .error e ∧
      agent.takeAccept accept = ⟨agent.recorded (.accept accept), [], [], .error (.protocol e)⟩) ∨
    ∃ p, agent.proposals.TakesAccept accept p ∧
      agent.takeAccept accept =
        ⟨agent.recorded (.accept accept), [], [],
          .ok (if p.fromKey = agent.pubkey then some p else none)⟩ := by
  unfold takeAccept
  cases hv : accept.verify with
  | error e =>
    have hlog : agent.proposals.applyAccept accept = (agent.proposals, .error e) := by
      simp only [ProposalLog.applyAccept, ProposalLog.transition, hv]
    refine .inl ⟨e, by rw [hlog], ?_⟩
    rw [recorded_of_error agent (m := .accept accept) (congrArg Prod.fst hlog)]
    rfl
  | ok u =>
    simp only [Except.mapError, check_ok_andThen]
    cases hr : (agent.proposals.applyAccept accept).2 with
    | error e =>
      exact .inl ⟨e, rfl, by simp [Outcome.andThen, locked, recorded, hr, Except.mapError,
        ProposalLog.deliver]⟩
    | ok u =>
      obtain ⟨p, hp⟩ := ProposalLog.applyAccept_ok hr
      refine .inr ⟨p, hp, ?_⟩
      by_cases hfrom : p.fromKey = agent.child.public <;>
        simp [Outcome.andThen, locked, recorded, check, pubkey, hp.apply, Except.mapError,
          ProposalLog.deliver, ProposalLog.get, hfrom]

/-- No contract, a contract that fails, or an execute message for its output. -/
theorem executeAccepted_cases (propose : Propose) (accept : Accept) (witness : Bytes) (now : UInt64)
    (transport : Transport) :
    (agent.contracts.lookup propose.programHash = none ∧
      agent.executeAccepted propose accept witness now transport =
        agent.check (.error (.unknownContract propose.programHash))) ∨
    (∃ contract e, agent.contracts.lookup propose.programHash = some contract ∧
      contract.run witness = .error e ∧
      agent.executeAccepted propose accept witness now transport =
        agent.check (.error (.contract e))) ∨
    ∃ contract out, agent.contracts.lookup propose.programHash = some contract ∧
      contract.run witness = .ok out ∧
      agent.executeAccepted propose accept witness now transport =
        agent.issue (.execute (.sign agent.child accept.proposalHash witness ⟨out⟩ now)) transport
          accept.byKey := by
  unfold executeAccepted findContract
  cases hc : agent.contracts.lookup propose.programHash with
  | none => exact .inl ⟨rfl, rfl⟩
  | some contract =>
    refine .inr ?_
    cases hr : contract.run witness with
    | error e => exact .inl ⟨contract, e, rfl, hr, by simp [hr, Except.mapError]⟩
    | ok out => exact .inr ⟨contract, out, rfl, hr, by simp [hr, Except.mapError]⟩

omit [Ed25519] [Blake3] in
/-- No contract, a contract that fails, or the comparison with the executor's claim. -/
theorem settleExecute_cases (propose : Propose) (execute : Execute) :
    (agent.contracts.lookup propose.programHash = none ∧
      agent.settleExecute propose execute =
        agent.check (.error (.unknownContract propose.programHash))) ∨
    (∃ contract e, agent.contracts.lookup propose.programHash = some contract ∧
      contract.run execute.witness = .error e ∧
      agent.settleExecute propose execute = agent.check (.error (.contract e))) ∨
    ∃ contract out, agent.contracts.lookup propose.programHash = some contract ∧
      contract.run execute.witness = .ok out ∧
      agent.settleExecute propose execute =
        (agent.credit execute.byKey (decide (out = execute.expectedOutput.bytes))).check
          (.ok (decide (out = execute.expectedOutput.bytes))) := by
  unfold settleExecute findContract
  cases hc : agent.contracts.lookup propose.programHash with
  | none => exact .inl ⟨rfl, rfl⟩
  | some contract =>
    refine .inr ?_
    cases hr : contract.run execute.witness with
    | error e => exact .inl ⟨contract, e, rfl, hr, by simp [hr, Except.mapError]⟩
    | ok out => exact .inr ⟨contract, out, rfl, hr, by simp [hr, Except.mapError]⟩

/-- The log refuses the execute, or it takes it and the claim is settled. -/
theorem handleExecute_cases (execute : Execute) :
    (∃ e, (agent.proposals.applyExecute execute).2 = .error e ∧
      agent.handleExecute execute =
        ⟨agent.recorded (.execute execute), [], [], .error (.protocol e)⟩) ∨
    ∃ p a, agent.proposals.TakesExecute execute p a ∧
      agent.handleExecute execute =
        (agent.recorded (.execute execute)).settleExecute p execute := by
  unfold handleExecute
  cases hv : execute.verify with
  | error e =>
    have hlog : agent.proposals.applyExecute execute = (agent.proposals, .error e) := by
      simp only [ProposalLog.applyExecute, ProposalLog.transition, hv]
    refine .inl ⟨e, by rw [hlog], ?_⟩
    rw [recorded_of_error agent (m := .execute execute) (congrArg Prod.fst hlog)]
    rfl
  | ok u =>
    simp only [Except.mapError, check_ok_andThen]
    cases hr : (agent.proposals.applyExecute execute).2 with
    | error e =>
      exact .inl ⟨e, rfl, by simp [Outcome.andThen, locked, recorded, hr, Except.mapError,
        ProposalLog.deliver]⟩
    | ok u =>
      obtain ⟨p, a, hp⟩ := ProposalLog.applyExecute_ok hr
      refine .inr ⟨p, a, hp, ?_⟩
      simp [Outcome.andThen, locked, recorded, hp.apply, Except.mapError,
        ProposalLog.deliver, ProposalLog.get]

/-- What `handle_accept` comes to: refused, taken by a bystander, or taken and executed. -/
theorem handleAccept_cases (accept : Accept) (witness : Bytes) (now : UInt64) (transport : Transport) :
    (∃ e, (agent.proposals.applyAccept accept).2 = .error e ∧
      agent.handleAccept accept witness now transport =
        ⟨agent.recorded (.accept accept), [], [], .error (.protocol e)⟩) ∨
    ∃ p, agent.proposals.TakesAccept accept p ∧
      (p.fromKey ≠ agent.pubkey ∧ agent.handleAccept accept witness now transport =
          (agent.recorded (.accept accept)).check (.ok ()) ∨
        p.fromKey = agent.pubkey ∧ agent.handleAccept accept witness now transport =
          (agent.recorded (.accept accept)).executeAccepted p accept witness now transport) := by
  unfold handleAccept
  rcases agent.takeAccept_cases accept with ⟨e, hr, he⟩ | ⟨p, hp, he⟩
  · exact .inl ⟨e, hr, by rw [he]; rfl⟩
  · refine .inr ⟨p, hp, ?_⟩
    by_cases hfrom : p.fromKey = agent.pubkey
    · exact .inr ⟨hfrom, by rw [he, if_pos hfrom]; rfl⟩
    · exact .inl ⟨hfrom, by rw [he, if_neg hfrom]; rfl⟩

/-- What `handle_propose` comes to. A revoked proposer leaves the agent untouched. -/
theorem handlePropose_cases (propose : Propose) (now : UInt64)
    (decision : Propose → ProposeDecision) (transport : Transport) :
    (∃ e, propose.verify = .error e ∧
      agent.handlePropose propose now decision transport = agent.check (.error (.protocol e))) ∨
    agent.revocations.isRevoked propose.fromKey ∧
      (agent.handlePropose propose now decision transport).agent = agent ∨
    propose.verify = .ok () ∧ ¬ agent.revocations.isRevoked propose.fromKey ∧
      agent.handlePropose propose now decision transport =
        (agent.recorded (.propose propose)).answerPropose propose now (decision propose) transport := by
  unfold handlePropose
  rcases agent.receivePropose_cases propose now transport with
    ⟨e, hv, he⟩ | ⟨-, hrev, he⟩ | ⟨hv, hrev, he⟩
  · exact .inl ⟨e, hv, by rw [he]; rfl⟩
  · refine .inr (.inl ⟨hrev, ?_⟩)
    rw [he]
    cases transport propose.fromKey
      (.reject (.sign agent.child propose.proposalHash "proposer revoked" now)) <;> rfl
  · exact .inr (.inr ⟨hv, hrev, by rw [he]; rfl⟩)

end Parts

end

end AgentSdk

end PslBank.Agent
