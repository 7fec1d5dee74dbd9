import PslBank.Agent.Sdk

/-!
# Failed handler calls and retries

A handler writes the message it was given into the log before it looks up the
contract, runs it and sends the answer. When one of these later steps fails, the log
has moved on and the same call is an illegal transition from then on: the proposal is
stranded. The calls that do so are described in terms of the agent before the call,
and they are the only ones that cannot be retried.
-/
namespace PslBank.Agent

open PslBank.Lib PslBank.Crypto PslBank.Contracts PslBank.Wallet

set_option autoImplicit false

/-- The failures whose cause can be removed: a missing contract, a contract that does
not run, a transport that refuses the send. -/
def SdkError.Removable : SdkError → Prop
  | .unknownContract _ => True
  | .contract _ => True
  | .transport _ => True
  | .wallet _ => False
  | .protocol _ => False
  | .ternary _ => False

inductive HandlerCall where
  | propose (propose : Propose) (now : UInt64) (decision : Propose → ProposeDecision)
  | accept (accept : Accept) (witness : Bytes) (now : UInt64)
  | execute (execute : Execute)

def Outcome.map {α β : Type} (f : α → β) (o : Outcome α) : Outcome β :=
  ⟨o.agent, o.signed, o.sent, o.result.map f⟩

theorem Outcome.map_error {α β : Type} {o : Outcome α} {f : α → β} {e : SdkError}
    (h : (o.map f).result = .error e) : o.result = .error e := by
  unfold Outcome.map at h
  cases hr : o.result with
  | error err =>
    rw [hr] at h
    cases h
    rfl
  | ok a =>
    rw [hr] at h
    cases h

section

variable [Ed25519]

def Refused (transport : Transport) (toKey : PublicKey) (m : ProtocolMessage) : Prop :=
  ∃ reason, transport toKey m = .error reason

/-- No contract is registered under the hash, or it fails on the witness. -/
def AgentSdk.ContractFails (agent : AgentSdk) (h : ProgramHash) (witness : Bytes) : Prop :=
  ∀ contract, agent.contracts.lookup h = some contract → ∃ e, contract.run witness = .error e

variable [Blake3]

namespace HandlerCall

def handle (agent : AgentSdk) (transport : Transport) : HandlerCall → Outcome Bool
  | .propose p now decision => (agent.handlePropose p now decision transport).map fun _ => true
  | .accept a witness now => (agent.handleAccept a witness now transport).map fun _ => true
  | .execute e => agent.handleExecute e

/-- A call that fails for a removable cause leaves the log alone, and the same call
made later, with any contracts and transport, does what it would have done the first
time. -/
def Retryable (agent : AgentSdk) (transport : Transport) (call : HandlerCall) : Prop :=
  ∀ e, (call.handle agent transport).result = .error e → e.Removable →
    (call.handle agent transport).agent.proposals = agent.proposals ∧
      ∀ contracts transport',
        call.handle { (call.handle agent transport).agent with contracts := contracts } transport' =
          call.handle { agent with contracts := contracts } transport'

/-- The log is about to take the message, and a step after that will fail. -/
def Strands (agent : AgentSdk) (transport : Transport) : HandlerCall → Prop
  | .propose p now decision =>
      p.verify = .ok () ∧ ¬ agent.revocations.isRevoked p.fromKey ∧
        (∃ q, (agent.proposals.get p.proposalHash = some (.proposed q) ∨
            agent.proposals.get p.proposalHash = none ∧ q = p) ∧
          agent.pubkey = q.toKey ∧ (decision p = .accept → now ≤ q.validUntilUnix)) ∧
        Refused transport p.fromKey (agent.answer p now (decision p))
  | .accept a witness now =>
      ∃ p, agent.proposals.TakesAccept a p ∧ p.fromKey = agent.pubkey ∧
        (agent.ContractFails p.programHash witness ∨
          ∃ contract out, agent.contracts.lookup p.programHash = some contract ∧
            contract.run witness = .ok out ∧
            Refused transport a.byKey
              (.execute (.sign agent.child a.proposalHash witness ⟨out⟩ now)))
  | .execute e =>
      ∃ p a, agent.proposals.TakesExecute e p a ∧ agent.ContractFails p.programHash e.witness

end HandlerCall

/-! ## Answers to a proposal -/

namespace AgentSdk

variable {agent : AgentSdk} {transport : Transport} {m : ProtocolMessage} {toKey : PublicKey}

theorem issue_removable {e : SdkError} (herr : (agent.issue m transport toKey).result = .error e)
    (hrem : e.Removable) :
    (agent.proposals.deliver m).2 = .ok () ∧ Refused transport toKey m := by
  rcases agent.issue_cases m transport toKey with ⟨err, -, he⟩ | ⟨hok, he⟩
  · rw [he] at herr
    cases herr
    exact hrem.elim
  · refine ⟨hok, ?_⟩
    rw [he] at herr
    cases hs : transport toKey m with
    | error reason => exact ⟨reason, hs⟩
    | ok u =>
      rw [hs] at herr
      cases herr

theorem issue_refused (hok : (agent.proposals.deliver m).2 = .ok ())
    (href : Refused transport toKey m) :
    ∃ reason, agent.issue m transport toKey =
      ⟨agent.recorded m, [m], [(toKey, m)], .error (.transport reason)⟩ := by
  obtain ⟨reason, hs⟩ := href
  rcases agent.issue_cases m transport toKey with ⟨err, herr, -⟩ | ⟨-, he⟩
  · rw [hok] at herr
    cases herr
  · refine ⟨reason, ?_⟩
    rw [he, hs]
    rfl

/-- What the log must hold for an answer to a proposal to go through. -/
def Answerable (agent : AgentSdk) (log : ProposalLog) (p : Propose) (now : UInt64)
    (decision : ProposeDecision) : Prop :=
  ∃ q, log.byHash p.proposalHash = some (.proposed q) ∧ agent.pubkey = q.toKey ∧
    (decision = .accept → now ≤ q.validUntilUnix)

theorem answerable_of_ok {log : ProposalLog} {p : Propose} {now : UInt64}
    {decision : ProposeDecision} (hok : (log.deliver (agent.answer p now decision)).2 = .ok ()) :
    agent.Answerable log p now decision := by
  cases decision with
  | accept =>
    obtain ⟨q, hq⟩ := ProposalLog.applyAccept_ok hok
    exact ⟨q, hq.entry, hq.signed_by, fun _ => hq.in_time⟩
  | reject reason =>
    obtain ⟨q, hq⟩ := ProposalLog.applyReject_ok hok
    exact ⟨q, hq.entry, hq.signed_by, fun h => by cases h⟩

theorem Answerable.ok {log : ProposalLog} {p : Propose} {now : UInt64} {decision : ProposeDecision}
    (h : agent.Answerable log p now decision) (hsign : agent.child.SignsValidly) :
    (log.deliver (agent.answer p now decision)).2 = .ok () := by
  obtain ⟨q, hentry, hby, hin⟩ := h
  cases decision with
  | accept =>
    have hq : log.TakesAccept (.sign agent.child p.proposalHash now) q :=
      ⟨Accept.verify_sign hsign _ _, hentry, hby, hin rfl⟩
    exact congrArg Prod.snd hq.apply
  | reject reason =>
    have hq : log.TakesReject (.sign agent.child p.proposalHash reason now) q :=
      ⟨Reject.verify_sign hsign _ _ _, hentry, hby⟩
    exact congrArg Prod.snd hq.apply

end AgentSdk

/-- What is proposed under its hash after the record was proposed before, or is the
proposal itself. -/
theorem ProposalLog.recordPropose_proposed_iff {log : ProposalLog} {p q : Propose}
    (hv : p.verify = .ok ()) :
    (log.recordPropose p).1.byHash p.proposalHash = some (.proposed q) ↔
      log.byHash p.proposalHash = some (.proposed q) ∨ log.byHash p.proposalHash = none ∧ q = p := by
  unfold recordPropose
  rw [hv]
  cases hg : log.byHash p.proposalHash with
  | none => simp [eq_comm]
  | some st => simp [hg]

omit [Ed25519] [Blake3] in
theorem ProposalLog.ne_of_phase_lt {log log' : ProposalLog} {h : ProposalHash}
    (hlt : phase (log.byHash h) < phase (log'.byHash h)) : log' ≠ log := by
  rintro rfl
  exact lt_irrefl _ hlt

theorem AgentSdk.phase_recorded (agent : AgentSdk) (m : ProtocolMessage) (h : ProposalHash) :
    phase (agent.proposals.byHash h) ≤ phase ((agent.recorded m).proposals.byHash h) :=
  (agent.proposals.deliver_evolves m).phase_le h

/-! ## Which failures strand a proposal -/

namespace HandlerCall

variable {agent : AgentSdk} {transport : Transport}

theorem propose_strands {p : Propose} {now : UInt64} {decision : Propose → ProposeDecision}
    {e : SdkError} (herr : (agent.handlePropose p now decision transport).result = .error e)
    (hrem : e.Removable) :
    (HandlerCall.propose p now decision).Strands agent transport ∨
      (agent.handlePropose p now decision transport).agent = agent := by
  rcases agent.handlePropose_cases p now decision transport with
    ⟨err, -, he⟩ | ⟨-, hsame⟩ | ⟨hv, hrev, he⟩
  · rw [he]
    exact .inr rfl
  · exact .inr hsame
  · rw [he] at herr
    obtain ⟨hok, href⟩ := AgentSdk.issue_removable herr hrem
    obtain ⟨q, hentry, hby, hin⟩ := AgentSdk.answerable_of_ok hok
    exact .inl ⟨hv, hrev, ⟨q, (ProposalLog.recordPropose_proposed_iff hv).mp hentry, hby, hin⟩, href⟩

theorem accept_strands {a : Accept} {witness : Bytes} {now : UInt64} {e : SdkError}
    (herr : (agent.handleAccept a witness now transport).result = .error e) (hrem : e.Removable) :
    (HandlerCall.accept a witness now).Strands agent transport := by
  rcases agent.handleAccept_cases a witness now transport with
    ⟨err, -, he⟩ | ⟨p, hp, ⟨-, he⟩ | ⟨hfrom, he⟩⟩
  · rw [he] at herr
    cases herr
    exact hrem.elim
  · rw [he] at herr
    cases herr
  · rw [he] at herr
    refine ⟨p, hp, hfrom, ?_⟩
    rcases (agent.recorded (.accept a)).executeAccepted_cases p a witness now transport with
      ⟨hnone, -⟩ | ⟨contract, err, hc, hr, -⟩ | ⟨contract, out, hc, hr, he'⟩
    · refine .inl fun contract hc => ?_
      cases hnone.symm.trans hc
    · refine .inl fun contract' hc' => ⟨err, ?_⟩
      cases hc.symm.trans hc'
      exact hr
    · rw [he'] at herr
      exact .inr ⟨contract, out, hc, hr, (AgentSdk.issue_removable herr hrem).2⟩

theorem execute_strands {x : Execute} {e : SdkError}
    (herr : (agent.handleExecute x).result = .error e) (hrem : e.Removable) :
    (HandlerCall.execute x).Strands agent transport := by
  rcases agent.handleExecute_cases x with ⟨err, -, he⟩ | ⟨p, a, hp, he⟩
  · rw [he] at herr
    cases herr
    exact hrem.elim
  · refine ⟨p, a, hp, ?_⟩
    rcases (agent.recorded (.execute x)).settleExecute_cases p x with
      ⟨hnone, -⟩ | ⟨contract, err, hc, hr, -⟩ | ⟨contract, out, hc, hr, he'⟩
    · intro contract hc
      cases hnone.symm.trans hc
    · intro contract' hc'
      cases hc.symm.trans hc'
      exact ⟨err, hr⟩
    · rw [he, he'] at herr
      cases herr

/-- A removable failure strands the proposal or did not touch the agent. -/
theorem strands_of_removable (call : HandlerCall) {e : SdkError}
    (herr : (call.handle agent transport).result = .error e) (hrem : e.Removable) :
    call.Strands agent transport ∨ (call.handle agent transport).agent = agent := by
  cases call with
  | propose p now decision => exact propose_strands (Outcome.map_error herr) hrem
  | accept a witness now => exact .inl (accept_strands (Outcome.map_error herr) hrem)
  | execute x => exact .inl (execute_strands herr hrem)

/-- The call failed for a removable cause after the log had moved on. -/
def FailsMoved {α : Type} (agent : AgentSdk) (o : Outcome α) : Prop :=
  ∃ e, o.result = .error e ∧ e.Removable ∧ o.agent.proposals ≠ agent.proposals

omit [Ed25519] [Blake3] in
theorem FailsMoved.map {α β : Type} {o : Outcome α} (h : FailsMoved agent o) (f : α → β) :
    FailsMoved agent (o.map f) := by
  obtain ⟨e, herr, hrem, hne⟩ := h
  refine ⟨e, ?_, hrem, hne⟩
  unfold Outcome.map
  rw [herr]
  rfl

theorem propose_fails (hsign : agent.child.SignsValidly) {p : Propose} {now : UInt64}
    {decision : Propose → ProposeDecision}
    (hs : (HandlerCall.propose p now decision).Strands agent transport) :
    FailsMoved agent (agent.handlePropose p now decision transport) := by
  obtain ⟨hv, hrev, ⟨q, hentry, hby, hin⟩, href⟩ := hs
  rcases agent.handlePropose_cases p now decision transport with
    ⟨err, hv', -⟩ | ⟨hrev', -⟩ | ⟨-, -, he⟩
  · cases hv.symm.trans hv'
  · exact absurd hrev' hrev
  · have hans : agent.Answerable (agent.recorded (.propose p)).proposals p now (decision p) :=
      ⟨q, (ProposalLog.recordPropose_proposed_iff hv).mpr hentry, hby, hin⟩
    have hok := hans.ok hsign
    obtain ⟨reason, hi⟩ := AgentSdk.issue_refused hok href
    rw [he.trans hi]
    refine ⟨.transport reason, rfl, trivial, ProposalLog.ne_of_phase_lt (h := p.proposalHash) ?_⟩
    have hbefore : phase (agent.proposals.byHash p.proposalHash) ≤ 1 := by
      rcases hentry with hg | ⟨hg, -⟩
      · exact (congrArg phase hg).le
      · exact (congrArg phase hg).le.trans zero_le_one
    have hafter := ProposalLog.deliver_advances hok
    show phase (agent.proposals.byHash p.proposalHash) <
      phase (((agent.recorded (.propose p)).proposals.deliver _).1.byHash p.proposalHash)
    cases hd : decision p with
    | accept =>
      rw [hd] at hafter
      exact hbefore.trans_lt hafter
    | reject reason' =>
      rw [hd] at hafter
      exact hbefore.trans_lt hafter

theorem accept_fails (hsign : agent.child.SignsValidly) {a : Accept} {witness : Bytes} {now : UInt64}
    (hs : (HandlerCall.accept a witness now).Strands agent transport) :
    FailsMoved agent (agent.handleAccept a witness now transport) := by
  obtain ⟨p, hp, hfrom, hfail⟩ := hs
  have hentry : (agent.recorded (.accept a)).proposals.byHash a.proposalHash =
      some (.accepted p a) := by
    show (agent.proposals.applyAccept a).1.byHash _ = _
    rw [hp.apply, ProposalLog.insert_byHash, if_pos rfl]
  have hmoved : phase (agent.proposals.byHash a.proposalHash) <
      phase ((agent.recorded (.accept a)).proposals.byHash a.proposalHash) := by
    rw [hp.entry, hentry]
    exact Nat.one_lt_two
  rcases agent.handleAccept_cases a witness now transport with
    ⟨err, herr, -⟩ | ⟨p', hp', ⟨hfrom', -⟩ | ⟨-, he⟩⟩
  · rw [hp.apply] at herr
    cases herr
  · cases hp.entry.symm.trans hp'.entry
    exact absurd hfrom hfrom'
  · cases hp.entry.symm.trans hp'.entry
    rw [he]
    rcases (agent.recorded (.accept a)).executeAccepted_cases p a witness now transport with
      ⟨-, he'⟩ | ⟨contract, err, -, -, he'⟩ | ⟨contract, out, hc, hr, he'⟩
    · rw [he']
      exact ⟨_, rfl, trivial, ProposalLog.ne_of_phase_lt hmoved⟩
    · rw [he']
      exact ⟨_, rfl, trivial, ProposalLog.ne_of_phase_lt hmoved⟩
    · rcases hfail with hfail | ⟨contract', out', hc', hr', href⟩
      · obtain ⟨err, hr'⟩ := hfail contract hc
        cases hr.symm.trans hr'
      · cases hc.symm.trans hc'
        cases hr.symm.trans hr'
        have htakes : (agent.recorded (.accept a)).proposals.TakesExecute
            (.sign agent.child a.proposalHash witness ⟨out⟩ now) p a :=
          ⟨Execute.verify_sign hsign _ _ _ _, hentry, hfrom.symm⟩
        have hok : ((agent.recorded (.accept a)).proposals.deliver
            (.execute (.sign agent.child a.proposalHash witness ⟨out⟩ now))).2 = .ok () :=
          congrArg Prod.snd htakes.apply
        obtain ⟨reason, hi⟩ := AgentSdk.issue_refused hok href
        rw [he'.trans hi]
        refine ⟨.transport reason, rfl, trivial, ?_⟩
        exact ProposalLog.ne_of_phase_lt (hmoved.trans_le (AgentSdk.phase_recorded _ _ _))

theorem execute_fails {x : Execute} (hs : (HandlerCall.execute x).Strands agent transport) :
    FailsMoved agent (agent.handleExecute x) := by
  obtain ⟨p, a, hp, hfail⟩ := hs
  have hmoved : phase (agent.proposals.byHash x.proposalHash) <
      phase ((agent.recorded (.execute x)).proposals.byHash x.proposalHash) := by
    have hok : (agent.proposals.deliver (.execute x)).2 = .ok () := congrArg Prod.snd hp.apply
    rw [hp.entry]
    exact ProposalLog.deliver_advances hok
  rcases agent.handleExecute_cases x with ⟨err, herr, -⟩ | ⟨p', a', hp', he⟩
  · rw [hp.apply] at herr
    cases herr
  · cases hp.entry.symm.trans hp'.entry
    rw [he]
    rcases (agent.recorded (.execute x)).settleExecute_cases p x with
      ⟨-, he'⟩ | ⟨contract, err, -, -, he'⟩ | ⟨contract, out, hc, hr, -⟩
    · rw [he']
      exact ⟨_, rfl, trivial, ProposalLog.ne_of_phase_lt hmoved⟩
    · rw [he']
      exact ⟨_, rfl, trivial, ProposalLog.ne_of_phase_lt hmoved⟩
    · obtain ⟨err, hr'⟩ := hfail contract hc
      cases hr.symm.trans hr'

/-- A stranded call fails for a removable cause after the log has moved on. -/
theorem fails_of_strands (hsign : agent.child.SignsValidly) (call : HandlerCall)
    (hs : call.Strands agent transport) : FailsMoved agent (call.handle agent transport) := by
  cases call with
  | propose p now decision => exact (propose_fails hsign hs).map _
  | accept a witness now => exact (accept_fails hsign hs).map _
  | execute x => exact execute_fails hs

/-- A handler call can be retried exactly when it does not strand its proposal. -/
theorem handlers_retryable_iff (hsign : agent.child.SignsValidly) (call : HandlerCall) :
    call.Retryable agent transport ↔ ¬ call.Strands agent transport := by
  constructor
  · intro hretry hs
    obtain ⟨e, herr, hrem, hne⟩ := fails_of_strands hsign call hs
    exact hne (hretry e herr hrem).1
  · intro hns e herr hrem
    rcases call.strands_of_removable herr hrem with hs | hsame
    · exact absurd hs hns
    · rw [hsame]
      exact ⟨rfl, fun _ _ => rfl⟩

end HandlerCall

end

section Sample

attribute [local instance] sampleBlake3 sampleEd25519

/-- An agent that knows the contracts of `agent` and has made an offer. -/
def offering (agent : AgentSdk) : AgentSdk :=
  (agent.propose echoContract.programHashV2 [5] (hashOfNat 2) 0 100 1).agent

def sampleAccept : Accept := .sign ⟨hashOfNat 2⟩ samplePropose.proposalHash 20

/-- A transport that takes everything. -/
def openTransport : Transport := fun _ _ => .ok ()

/-- A transport that takes nothing. -/
def closedTransport : Transport := fun _ _ => .error "connection refused"

/-- An agent that knows the proposer's key as revoked. -/
def wary : AgentSdk :=
  { AgentSdk.new ⟨hashOfNat 2⟩ with
    revocations := (RevocationSet.new.insert (.sign ⟨hashOfNat 9⟩ (hashOfNat 1) zeroHash 5)).1 }

/-- The answer to a revoked proposer does not get out. The log has no trace of it, so the
call can be repeated. -/
theorem handlers_retryable_revoked :
    ((HandlerCall.propose samplePropose 20 fun _ => .accept).handle wary closedTransport).result =
        .error (.transport "connection refused") ∧
      (HandlerCall.propose samplePropose 20 fun _ => .accept).Retryable wary closedTransport := by
  have hrev : wary.revocations.isRevoked samplePropose.fromKey = true := by decide +kernel
  constructor
  · decide +kernel
  · refine (HandlerCall.handlers_retryable_iff (sample_signsValidly _) _).mpr ?_
    rintro ⟨-, hne, -⟩
    exact hne hrev

/-- Without the contract the accept is taken, the execution fails, and the offer stays
accepted. -/
theorem not_retryable_missing_contract :
    ¬ (HandlerCall.accept sampleAccept [5] 30).Retryable (offering (AgentSdk.new ⟨hashOfNat 1⟩))
      openTransport := by
  intro hretry
  have herr : ((HandlerCall.accept sampleAccept [5] 30).handle
      (offering (AgentSdk.new ⟨hashOfNat 1⟩)) openTransport).result =
        .error (.unknownContract echoContract.programHashV2) := by
    decide +kernel
  have hbefore : (offering (AgentSdk.new ⟨hashOfNat 1⟩)).proposals.get samplePropose.proposalHash =
      some (.proposed samplePropose) := by
    decide +kernel
  have hafter : ((HandlerCall.accept sampleAccept [5] 30).handle
      (offering (AgentSdk.new ⟨hashOfNat 1⟩)) openTransport).agent.proposals.get
        samplePropose.proposalHash = some (.accepted samplePropose sampleAccept) := by
    decide +kernel
  rw [(hretry _ herr trivial).1, hbefore] at hafter
  cases hafter

end Sample

end PslBank.Agent
