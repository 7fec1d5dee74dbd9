import PslBank.Agent.Bus

/-!
# A deal over the bus

The exchange that the module of `AgentSdk` tests end to end: the proposer signs a proposal and
sends it, the executor polls and answers, the proposer polls and sends the execute message, the
executor polls and checks it. Each side hands every polled message on to the handler of its kind
and stops at the first error. The proposer is called Alice and the executor Bob, as there.
-/
namespace PslBank.Agent

open PslBank.Lib PslBank.Crypto PslBank.Contracts PslBank.Wallet

set_option autoImplicit false

/-- The arguments of the calls. -/
structure DealTerms where
  programHash : ProgramHash
  parameters : Bytes
  validFromUnix : UInt64
  validUntilUnix : UInt64
  nonce : UInt64
  decide : Propose → ProposeDecision
  answeredAtUnix : UInt64
  witness : Bytes
  executedAtUnix : UInt64

/-- The two agents, the bus and what `handle_execute` has returned. -/
structure Deal where
  alice : AgentSdk
  bob : AgentSdk
  bus : InProcessBus
  agreed : List Bool

section

variable [Ed25519] [Blake3]

namespace Deal

variable (terms : DealTerms)

/-- Alice proposes and sends. -/
def propose (d : Deal) : Except SdkError Deal := do
  let o := d.alice.propose terms.programHash terms.parameters d.bob.pubkey terms.validFromUnix
    terms.validUntilUnix terms.nonce
  let p ← o.result
  let (bus, answer) := d.bus.send d.bob.pubkey (.propose p)
  let () ← answer.mapError .transport
  return { d with alice := o.agent, bus := bus }

/-- Bob's loop over what he polled, for proposals. -/
def answerOne (d : Deal) : ProtocolMessage → Except SdkError Deal
  | .propose p => do
      let (o, bus) := d.bus.during (d.bob.handlePropose p terms.answeredAtUnix terms.decide)
      let () ← o.result
      return { d with bob := o.agent, bus := bus }
  | _ => .ok d

/-- Alice's loop over what she polled, for accepts. -/
def acceptOne (d : Deal) : ProtocolMessage → Except SdkError Deal
  | .accept a => do
      let (o, bus) := d.bus.during (d.alice.handleAccept a terms.witness terms.executedAtUnix)
      let () ← o.result
      return { d with alice := o.agent, bus := bus }
  | _ => .ok d

/-- Bob's loop over what he polled, for execute messages. -/
def executeOne (d : Deal) : ProtocolMessage → Except SdkError Deal
  | .execute e => do
      let o := d.bob.handleExecute e
      let agreed ← o.result
      return { d with bob := o.agent, agreed := d.agreed ++ [agreed] }
  | _ => .ok d

/-- Poll for one side and hand the messages on. -/
def turn (me : PublicKey) (handle : Deal → ProtocolMessage → Except SdkError Deal) (d : Deal) :
    Except SdkError Deal :=
  let (bus, inbox) := d.bus.poll me
  inbox.foldlM handle { d with bus := bus }

def run (d : Deal) : Except SdkError Deal := do
  let d ← d.propose terms
  let d ← d.turn d.bob.pubkey (answerOne terms)
  let d ← d.turn d.alice.pubkey (acceptOne terms)
  d.turn d.bob.pubkey executeOne

/-! ## The messages of a deal -/

def proposal (d : Deal) : Propose :=
  .sign d.alice.child terms.programHash terms.parameters d.bob.pubkey terms.validFromUnix
    terms.validUntilUnix terms.nonce

def hash (d : Deal) : ProposalHash := (d.proposal terms).proposalHash

def accepting (d : Deal) : Accept := .sign d.bob.child (d.hash terms) terms.answeredAtUnix

/-- What Bob sends to a proposer he has revoked. -/
def refusing (d : Deal) : Reject :=
  .sign d.bob.child (d.hash terms) "proposer revoked" terms.answeredAtUnix

def executing (d : Deal) (out : Bytes) : Execute :=
  .sign d.alice.child (d.hash terms) terms.witness ⟨out⟩ terms.executedAtUnix

/-- Both sides hold working keys and an empty inbox, and neither has seen the proposal. -/
structure Fresh (d : Deal) : Prop where
  alice_signs : d.alice.child.SignsValidly
  bob_signs : d.bob.child.SignsValidly
  alice_inbox : d.bus.queue d.alice.pubkey = some []
  bob_inbox : d.bus.queue d.bob.pubkey = some []
  alice_log : d.alice.proposals.byHash (d.hash terms) = none
  bob_log : d.bob.proposals.byHash (d.hash terms) = none

/-! ## One turn -/

omit [Ed25519] [Blake3] in
theorem turn_empty {d : Deal} {me : PublicKey} (h : d.bus.queue me = some [])
    (handle : Deal → ProtocolMessage → Except SdkError Deal) : d.turn me handle = .ok d := by
  unfold turn InProcessBus.poll
  rw [Mailboxes.drain_empty d.bus h]
  rfl

omit [Ed25519] [Blake3] in
/-- A turn on the one message that was just sent. -/
theorem turn_sent {d : Deal} {me : PublicKey} (h : d.bus.queue me = some []) (m : ProtocolMessage)
    (handle : Deal → ProtocolMessage → Except SdkError Deal) :
    ({ d with bus := (d.bus.send me m).1 } : Deal).turn me handle = handle d m := by
  unfold turn InProcessBus.poll InProcessBus.send
  rw [Mailboxes.push_drain noInbox d.bus h]
  show (handle d m >>= fun d => .ok d) = handle d m
  cases handle d m <;> rfl

/-- An answer that the agent's own log takes goes out over an open inbox. -/
theorem during_issue {agent : AgentSdk} {bus : InProcessBus} {m : ProtocolMessage} {toKey : PublicKey}
    (hlog : (agent.proposals.deliver m).2 = .ok ()) (hopen : bus.queue toKey = some []) :
    bus.during (fun t => agent.issue m t toKey) =
      (⟨agent.recorded m, [m], [(toKey, m)], .ok ()⟩, (bus.send toKey m).1) := by
  have hanswer : bus.transport toKey m = .ok () :=
    bus.transport_open (by rw [Mailboxes.isOpen, hopen]; rfl) m
  rcases agent.issue_cases m bus.transport toKey with ⟨e, he, -⟩ | ⟨-, hissue⟩
  · rw [hlog] at he
    cases he
  · rw [hanswer] at hissue
    have hsent : (agent.issue m bus.transport toKey).sent = [(toKey, m)] := by rw [hissue]
    rw [InProcessBus.during_sent bus hsent, hissue]
    rfl

theorem during_issue_error {agent : AgentSdk} {bus : InProcessBus} {m : ProtocolMessage}
    {toKey : PublicKey} {e : ProtocolError} (hlog : (agent.proposals.deliver m).2 = .error e) :
    (bus.during fun t => agent.issue m t toKey).1.result = .error (.protocol e) := by
  show (agent.issue m bus.transport toKey).result = _
  rcases agent.issue_cases m bus.transport toKey with ⟨e', he', hissue⟩ | ⟨hok, -⟩
  · rw [hlog] at he'
    cases he'
    rw [hissue]
  · rw [hlog] at hok
    cases hok

end Deal

/-! ## The logs of the two sides -/

namespace AgentSdk

/-- The agent with one entry of its log set. -/
def withEntry (agent : AgentSdk) (h : ProposalHash) (st : ProposalState) : AgentSdk :=
  { agent with proposals := agent.proposals.insert h st }

variable {agent : AgentSdk} {h : ProposalHash}

omit [Ed25519] [Blake3] in
theorem withEntry_withEntry (st st' : ProposalState) :
    (agent.withEntry h st).withEntry h st' = agent.withEntry h st' := by
  unfold withEntry ProposalLog.insert
  simp only [Function.update_idem]

omit [Ed25519] [Blake3] in
theorem withEntry_byHash (st : ProposalState) (k : ProposalHash) :
    (agent.withEntry h st).proposals.byHash k = if k = h then some st else agent.proposals.byHash k :=
  ProposalLog.insert_byHash _ _ _ _

theorem recorded_propose {p : Propose} (hv : p.verify = .ok ())
    (hnew : agent.proposals.byHash p.proposalHash = none) :
    agent.recorded (.propose p) = agent.withEntry p.proposalHash (.proposed p) := by
  unfold recorded withEntry ProposalLog.deliver ProposalLog.recordPropose
  simp only [hv, hnew]

theorem recorded_accept {p : Propose} {a : Accept} (htakes : agent.proposals.TakesAccept a p) :
    agent.recorded (.accept a) = agent.withEntry a.proposalHash (.accepted p a) :=
  congrArg (fun log => ({ agent with proposals := log } : AgentSdk)) (congrArg Prod.fst htakes.apply)

theorem recorded_reject {p : Propose} {r : Reject} (htakes : agent.proposals.TakesReject r p) :
    agent.recorded (.reject r) = agent.withEntry r.proposalHash (.rejected p r) :=
  congrArg (fun log => ({ agent with proposals := log } : AgentSdk)) (congrArg Prod.fst htakes.apply)

theorem recorded_execute {p : Propose} {a : Accept} {e : Execute}
    (htakes : agent.proposals.TakesExecute e p a) :
    agent.recorded (.execute e) = agent.withEntry e.proposalHash (.executed p a e) :=
  congrArg (fun log => ({ agent with proposals := log } : AgentSdk)) (congrArg Prod.fst htakes.apply)

end AgentSdk

namespace Deal

variable {terms : DealTerms} {d : Deal}

theorem verify_proposal (hf : d.Fresh terms) : (d.proposal terms).verify = .ok () :=
  verifySig_sign hf.alice_signs _

/-- A log that has the proposal takes Bob's accept while it is in time. -/
theorem takes_accepting (hf : d.Fresh terms) (htime : terms.answeredAtUnix ≤ terms.validUntilUnix)
    (agent : AgentSdk) :
    (agent.withEntry (d.hash terms) (.proposed (d.proposal terms))).proposals.TakesAccept
      (d.accepting terms) (d.proposal terms) where
  verified := Accept.verify_sign hf.bob_signs _ _
  entry := by
    rw [AgentSdk.withEntry_byHash]
    exact if_pos rfl
  signed_by := rfl
  in_time := htime

/-- A log that has Bob's accept takes Alice's execute message. -/
theorem takes_executing (hf : d.Fresh terms) (out : Bytes) (agent : AgentSdk) :
    (agent.withEntry (d.hash terms) (.accepted (d.proposal terms) (d.accepting terms))).proposals.TakesExecute
      (d.executing terms out) (d.proposal terms) (d.accepting terms) where
  verified := Execute.verify_sign hf.alice_signs _ _ _ _
  entry := by
    rw [AgentSdk.withEntry_byHash]
    exact if_pos rfl
  signed_by := rfl

/-! ## The turns of a deal -/

theorem propose_fresh (hf : d.Fresh terms) :
    d.propose terms = .ok { d with
      alice := d.alice.withEntry (d.hash terms) (.proposed (d.proposal terms))
      bus := (d.bus.send d.bob.pubkey (.propose (d.proposal terms))).1 } := by
  have hsend : (d.bus.send d.bob.pubkey (.propose (d.proposal terms))).2 = .ok () :=
    d.bus.transport_open (by rw [Mailboxes.isOpen, hf.bob_inbox]; rfl) _
  have halice : d.alice.recorded (.propose (d.proposal terms)) =
      d.alice.withEntry (d.hash terms) (.proposed (d.proposal terms)) :=
    AgentSdk.recorded_propose (verify_proposal hf) hf.alice_log
  rw [← halice]
  refine bind_eq_ok_iff.mpr ⟨d.proposal terms, rfl, ?_⟩
  show ((d.bus.send d.bob.pubkey (.propose (d.proposal terms))).2.mapError SdkError.transport >>= _) = _
  rw [hsend]
  rfl

/-- A revoked proposer gets a rejection that no log has. -/
theorem answerOne_revoked (hf : d.Fresh terms)
    (hrev : d.bob.revocations.isRevoked d.alice.pubkey = true) (alice : AgentSdk) :
    answerOne terms { d with alice := alice } (.propose (d.proposal terms)) =
      .ok { d with
        alice := alice
        bus := (d.bus.send d.alice.pubkey (.reject (d.refusing terms))).1 } := by
  have hanswer : d.bus.transport (d.proposal terms).fromKey (.reject (.sign d.bob.child
      (d.proposal terms).proposalHash "proposer revoked" terms.answeredAtUnix)) = .ok () :=
    d.bus.transport_open (by rw [Mailboxes.isOpen]; exact congrArg Option.isSome hf.alice_inbox) _
  have hcall : d.bob.handlePropose (d.proposal terms) terms.answeredAtUnix terms.decide d.bus.transport =
      ⟨d.bob, [.reject (d.refusing terms)], [(d.alice.pubkey, .reject (d.refusing terms))], .ok ()⟩ := by
    rcases d.bob.receivePropose_cases (d.proposal terms) terms.answeredAtUnix d.bus.transport with
      ⟨e, he, -⟩ | ⟨-, -, hreceive⟩ | ⟨-, hnot, -⟩
    · rw [verify_proposal hf] at he
      cases he
    · rw [hanswer] at hreceive
      unfold AgentSdk.handlePropose
      rw [hreceive]
      rfl
    · exact absurd hrev hnot
  show ((d.bus.during (d.bob.handlePropose (d.proposal terms) terms.answeredAtUnix terms.decide)).1.result >>=
    fun _ => _) = _
  rw [InProcessBus.during_sent d.bus (congrArg Outcome.sent hcall), hcall]
  rfl

/-- Any other proposer gets the answer that is decided on. -/
theorem handlePropose_due (hf : d.Fresh terms)
    (hrev : d.bob.revocations.isRevoked d.alice.pubkey = false) :
    d.bob.handlePropose (d.proposal terms) terms.answeredAtUnix terms.decide = fun t =>
      (d.bob.withEntry (d.hash terms) (.proposed (d.proposal terms))).issue
        (d.bob.answer (d.proposal terms) terms.answeredAtUnix (terms.decide (d.proposal terms))) t
        d.alice.pubkey := by
  funext t
  have hrecorded : d.bob.recorded (.propose (d.proposal terms)) =
      d.bob.withEntry (d.hash terms) (.proposed (d.proposal terms)) :=
    AgentSdk.recorded_propose (verify_proposal hf) hf.bob_log
  rcases d.bob.receivePropose_cases (d.proposal terms) terms.answeredAtUnix t with
    ⟨e, he, -⟩ | ⟨-, hyes, -⟩ | ⟨-, -, hreceive⟩
  · rw [verify_proposal hf] at he
    cases he
  · exact absurd hyes (by rw [show (d.proposal terms).fromKey = d.alice.pubkey from rfl, hrev]; decide)
  · rw [← hrecorded]
    unfold AgentSdk.handlePropose
    rw [hreceive]
    rfl

section Answer

variable (hf : d.Fresh terms) (hrev : d.bob.revocations.isRevoked d.alice.pubkey = false)
  (alice : AgentSdk)
include hf hrev

theorem answerOne_due {m : ProtocolMessage}
    (hm : d.bob.answer (d.proposal terms) terms.answeredAtUnix (terms.decide (d.proposal terms)) = m) :
    answerOne terms { d with alice := alice } (.propose (d.proposal terms)) =
      let r := d.bus.during fun t =>
        (d.bob.withEntry (d.hash terms) (.proposed (d.proposal terms))).issue m t d.alice.pubkey
      r.1.result >>= fun _ => .ok { d with alice := alice, bob := r.1.agent, bus := r.2 } := by
  subst hm
  rw [← handlePropose_due hf hrev]
  rfl

/-- An answer that Bob's log takes is sent to Alice. -/
theorem answerOne_taken {m : ProtocolMessage} {st : ProposalState}
    (hm : d.bob.answer (d.proposal terms) terms.answeredAtUnix (terms.decide (d.proposal terms)) = m)
    (htaken : ((d.bob.withEntry (d.hash terms) (.proposed (d.proposal terms))).proposals.deliver m).2 = .ok ())
    (hrecorded : (d.bob.withEntry (d.hash terms) (.proposed (d.proposal terms))).recorded m =
      (d.bob.withEntry (d.hash terms) (.proposed (d.proposal terms))).withEntry (d.hash terms) st) :
    answerOne terms { d with alice := alice } (.propose (d.proposal terms)) =
      .ok { d with
        alice := alice
        bob := d.bob.withEntry (d.hash terms) st
        bus := (d.bus.send d.alice.pubkey m).1 } := by
  rw [answerOne_due hf hrev alice hm, during_issue htaken hf.alice_inbox, hrecorded,
    AgentSdk.withEntry_withEntry]
  rfl

theorem answerOne_accept (hdecide : terms.decide (d.proposal terms) = .accept)
    (htime : terms.answeredAtUnix ≤ terms.validUntilUnix) :
    answerOne terms { d with alice := alice } (.propose (d.proposal terms)) =
      .ok { d with
        alice := alice
        bob := d.bob.withEntry (d.hash terms) (.accepted (d.proposal terms) (d.accepting terms))
        bus := (d.bus.send d.alice.pubkey (.accept (d.accepting terms))).1 } := by
  have htakes := takes_accepting hf htime d.bob
  exact answerOne_taken hf hrev alice (by rw [hdecide]; rfl) (congrArg Prod.snd htakes.apply)
    (AgentSdk.recorded_accept htakes)

theorem answerOne_reject {reason : String}
    (hdecide : terms.decide (d.proposal terms) = .reject reason) :
    answerOne terms { d with alice := alice } (.propose (d.proposal terms)) =
      .ok { d with
        alice := alice
        bob := d.bob.withEntry (d.hash terms) (.rejected (d.proposal terms)
          (.sign d.bob.child (d.hash terms) reason terms.answeredAtUnix))
        bus := (d.bus.send d.alice.pubkey
          (.reject (.sign d.bob.child (d.hash terms) reason terms.answeredAtUnix))).1 } := by
  have htakes : (d.bob.withEntry (d.hash terms) (.proposed (d.proposal terms))).proposals.TakesReject
      (.sign d.bob.child (d.hash terms) reason terms.answeredAtUnix) (d.proposal terms) :=
    ⟨Reject.verify_sign hf.bob_signs _ _ _, (AgentSdk.withEntry_byHash _ _).trans (if_pos rfl), rfl⟩
  exact answerOne_taken hf hrev alice (by rw [hdecide]; rfl) (congrArg Prod.snd htakes.apply)
    (AgentSdk.recorded_reject htakes)

/-- A late accept expires the entry, and nothing is sent. -/
theorem answerOne_late (hdecide : terms.decide (d.proposal terms) = .accept)
    (hlate : terms.validUntilUnix < terms.answeredAtUnix) :
    answerOne terms { d with alice := alice } (.propose (d.proposal terms)) =
      .error (.protocol (.expired 0 terms.answeredAtUnix)) := by
  have hentry : (d.bob.withEntry (d.hash terms) (.proposed (d.proposal terms))).proposals.byHash
      (d.accepting terms).proposalHash = some (.proposed (d.proposal terms)) :=
    (AgentSdk.withEntry_byHash _ _).trans (if_pos rfl)
  have hby : (d.accepting terms).byKey = (d.proposal terms).toKey := rfl
  have hafter : (d.accepting terms).acceptedAtUnix > (d.proposal terms).validUntilUnix := hlate
  have hrefused : ((d.bob.withEntry (d.hash terms) (.proposed (d.proposal terms))).proposals.deliver
      (.accept (d.accepting terms))).2 = .error (.expired 0 terms.answeredAtUnix) := by
    show (ProposalLog.transition _ (d.accepting terms).verify _ _).2 = _
    rw [show (d.accepting terms).verify = .ok () from Accept.verify_sign hf.bob_signs _ _,
      ProposalLog.transition_found hentry, ProposalState.onAccept, if_neg (not_not_intro hby), if_pos hafter]
    rfl
  rw [answerOne_due hf hrev alice (m := .accept (d.accepting terms)) (by rw [hdecide]; rfl)]
  show (d.bus.during _).1.result >>= _ = _
  rw [during_issue_error hrefused]
  rfl

end Answer

section Execute

variable (hf : d.Fresh terms)
include hf

/-- Alice's handler on Bob's accept, after the accept is in her log. -/
theorem handleAccept_proposed (htime : terms.answeredAtUnix ≤ terms.validUntilUnix) :
    (d.alice.withEntry (d.hash terms) (.proposed (d.proposal terms))).handleAccept (d.accepting terms)
        terms.witness terms.executedAtUnix = fun t =>
      (d.alice.withEntry (d.hash terms) (.accepted (d.proposal terms) (d.accepting terms))).executeAccepted
        (d.proposal terms) (d.accepting terms) terms.witness terms.executedAtUnix t := by
  funext t
  have htakes := takes_accepting hf htime d.alice
  have hrecorded := AgentSdk.recorded_accept htakes
  rw [show (d.accepting terms).proposalHash = d.hash terms from rfl, AgentSdk.withEntry_withEntry] at hrecorded
  rcases AgentSdk.handleAccept_cases _ (d.accepting terms) terms.witness terms.executedAtUnix t with
    ⟨e, he, -⟩ | ⟨p, hp, ⟨hother, -⟩ | ⟨-, hcall⟩⟩
  · rw [htakes.apply] at he
    cases he
  · have hentry := hp.entry.symm.trans htakes.entry
    cases hentry
    exact absurd rfl hother
  · have hentry := hp.entry.symm.trans htakes.entry
    cases hentry
    rw [hcall, hrecorded]

/-- Alice's turn on the accept: she sends the output her contract gives. -/
theorem acceptOne_cases (htime : terms.answeredAtUnix ≤ terms.validUntilUnix) (bob : AgentSdk) :
    ((∀ contract out, d.alice.contracts.lookup terms.programHash = some contract →
        contract.run terms.witness ≠ .ok out) ∧
      ∃ e, acceptOne terms { d with
        alice := d.alice.withEntry (d.hash terms) (.proposed (d.proposal terms))
        bob := bob } (.accept (d.accepting terms)) = .error e) ∨
    ∃ contract out, d.alice.contracts.lookup terms.programHash = some contract ∧
      contract.run terms.witness = .ok out ∧
      acceptOne terms { d with
        alice := d.alice.withEntry (d.hash terms) (.proposed (d.proposal terms))
        bob := bob } (.accept (d.accepting terms)) = .ok { d with
          alice := d.alice.withEntry (d.hash terms)
            (.executed (d.proposal terms) (d.accepting terms) (d.executing terms out))
          bob := bob
          bus := (d.bus.send d.bob.pubkey (.execute (d.executing terms out))).1 } := by
  have hcall := handleAccept_proposed hf htime
  have hunfold : acceptOne terms { d with
      alice := d.alice.withEntry (d.hash terms) (.proposed (d.proposal terms))
      bob := bob } (.accept (d.accepting terms)) =
      let r := d.bus.during ((d.alice.withEntry (d.hash terms) (.proposed (d.proposal terms))).handleAccept
        (d.accepting terms) terms.witness terms.executedAtUnix)
      r.1.result >>= fun _ => .ok { d with alice := r.1.agent, bob := bob, bus := r.2 } := rfl
  rw [hunfold, hcall]
  rcases (d.alice.withEntry (d.hash terms)
    (.accepted (d.proposal terms) (d.accepting terms))).executeAccepted_cases (d.proposal terms)
      (d.accepting terms) terms.witness terms.executedAtUnix d.bus.transport with
    ⟨hnone, hrun⟩ | ⟨contract, e, hsome, herror, hrun⟩ | ⟨contract, out, hsome, hout, hrun⟩
  · refine .inl ⟨?_, _, congrArg (· >>= _) (congrArg Outcome.result hrun)⟩
    intro contract out hlookup
    cases hnone.symm.trans hlookup
  · refine .inl ⟨?_, _, congrArg (· >>= _) (congrArg Outcome.result hrun)⟩
    intro contract' out hlookup hout
    cases hsome.symm.trans hlookup
    cases herror.symm.trans hout
  · refine .inr ⟨contract, out, hsome, hout, ?_⟩
    have htakes := takes_executing hf out d.alice
    have hlog : ((d.alice.withEntry (d.hash terms)
        (.accepted (d.proposal terms) (d.accepting terms))).proposals.deliver
          (.execute (d.executing terms out))).2 = .ok () := congrArg Prod.snd htakes.apply
    have hissue := during_issue hlog hf.bob_inbox
    rw [AgentSdk.recorded_execute htakes, show (d.executing terms out).proposalHash = d.hash terms from rfl,
      AgentSdk.withEntry_withEntry] at hissue
    have hduring : d.bus.during ((d.alice.withEntry (d.hash terms)
        (.accepted (d.proposal terms) (d.accepting terms))).executeAccepted (d.proposal terms)
          (d.accepting terms) terms.witness terms.executedAtUnix) =
        d.bus.during fun t => (d.alice.withEntry (d.hash terms)
          (.accepted (d.proposal terms) (d.accepting terms))).issue
            (.execute (d.executing terms out)) t d.bob.pubkey :=
      d.bus.during_congr hrun
    rw [hduring, hissue]
    rfl

/-- Bob's turn on the execute message: he compares it with what his contract gives. -/
theorem executeOne_cases (out : Bytes) (alice : AgentSdk) :
    ((∀ contract out', d.bob.contracts.lookup terms.programHash = some contract →
        contract.run terms.witness ≠ .ok out') ∧
      ∃ e, executeOne { d with
        alice := alice
        bob := d.bob.withEntry (d.hash terms) (.accepted (d.proposal terms) (d.accepting terms)) }
          (.execute (d.executing terms out)) = .error e) ∨
    ∃ contract out', d.bob.contracts.lookup terms.programHash = some contract ∧
      contract.run terms.witness = .ok out' ∧
      executeOne { d with
        alice := alice
        bob := d.bob.withEntry (d.hash terms) (.accepted (d.proposal terms) (d.accepting terms)) }
          (.execute (d.executing terms out)) = .ok { d with
        alice := alice
        bob := (d.bob.withEntry (d.hash terms) (.executed (d.proposal terms) (d.accepting terms)
          (d.executing terms out))).credit d.alice.pubkey (decide (out' = out))
        agreed := d.agreed ++ [decide (out' = out)] } := by
  have htakes := takes_executing hf out d.bob
  have hrecorded := AgentSdk.recorded_execute htakes
  rw [show (d.executing terms out).proposalHash = d.hash terms from rfl, AgentSdk.withEntry_withEntry] at hrecorded
  have hhandle : (d.bob.withEntry (d.hash terms) (.accepted (d.proposal terms)
      (d.accepting terms))).handleExecute (d.executing terms out) =
      (d.bob.withEntry (d.hash terms) (.executed (d.proposal terms) (d.accepting terms)
        (d.executing terms out))).settleExecute (d.proposal terms) (d.executing terms out) := by
    rcases AgentSdk.handleExecute_cases _ (d.executing terms out) with ⟨e, he, -⟩ | ⟨p, a, hp, hcall⟩
    · rw [htakes.apply] at he
      cases he
    · have hentry := hp.entry.symm.trans htakes.entry
      cases hentry
      rw [hcall, hrecorded]
  have hunfold : executeOne { d with
      alice := alice
      bob := d.bob.withEntry (d.hash terms) (.accepted (d.proposal terms) (d.accepting terms)) }
        (.execute (d.executing terms out)) =
      let o := (d.bob.withEntry (d.hash terms) (.accepted (d.proposal terms)
        (d.accepting terms))).handleExecute (d.executing terms out)
      o.result >>= fun agreed =>
        .ok { d with alice := alice, bob := o.agent, agreed := d.agreed ++ [agreed] } := rfl
  rw [hunfold, hhandle]
  rcases (d.bob.withEntry (d.hash terms) (.executed (d.proposal terms) (d.accepting terms)
    (d.executing terms out))).settleExecute_cases (d.proposal terms) (d.executing terms out) with
    ⟨hnone, hrun⟩ | ⟨contract, e, hsome, herror, hrun⟩ | ⟨contract, out', hsome, hout, hrun⟩
  · refine .inl ⟨?_, _, congrArg (· >>= _) (congrArg Outcome.result hrun)⟩
    intro contract out hlookup
    cases hnone.symm.trans hlookup
  · refine .inl ⟨?_, _, congrArg (· >>= _) (congrArg Outcome.result hrun)⟩
    intro contract' out hlookup hout
    cases hsome.symm.trans hlookup
    cases herror.symm.trans hout
  · refine .inr ⟨contract, out', hsome, hout, ?_⟩
    rw [hrun]
    rfl

end Execute

/-! ## The whole exchange -/

/-- The part of a deal from Bob's answer on. -/
theorem run_fresh (hf : d.Fresh terms) : d.run terms =
    answerOne terms { d with alice := d.alice.withEntry (d.hash terms) (.proposed (d.proposal terms)) }
      (.propose (d.proposal terms)) >>= fun d' =>
        d'.turn d'.alice.pubkey (acceptOne terms) >>= fun d' => d'.turn d'.bob.pubkey executeOne := by
  have hsent := turn_sent
    (d := { d with alice := d.alice.withEntry (d.hash terms) (.proposed (d.proposal terms)) })
    hf.bob_inbox (.propose (d.proposal terms)) (answerOne terms)
  rw [run, propose_fresh hf, ← hsent]
  rfl

/-- A rejection ends the deal. -/
theorem run_rejected (hf : d.Fresh terms) {bob : AgentSdk} {r : Reject}
    (hanswer : answerOne terms
        { d with alice := d.alice.withEntry (d.hash terms) (.proposed (d.proposal terms)) }
        (.propose (d.proposal terms)) = .ok { d with
          alice := d.alice.withEntry (d.hash terms) (.proposed (d.proposal terms))
          bob := bob
          bus := (d.bus.send d.alice.pubkey (.reject r)).1 })
    (hbob : bob.pubkey = d.bob.pubkey) : d.run terms = .ok { d with
      alice := d.alice.withEntry (d.hash terms) (.proposed (d.proposal terms))
      bob := bob } := by
  have hsent := turn_sent
    (d := { d with
      alice := d.alice.withEntry (d.hash terms) (.proposed (d.proposal terms))
      bob := bob })
    hf.alice_inbox (.reject r) (acceptOne terms)
  have hinbox : d.bus.queue bob.pubkey = some [] := by rw [hbob]; exact hf.bob_inbox
  have hempty := turn_empty
    (d := { d with
      alice := d.alice.withEntry (d.hash terms) (.proposed (d.proposal terms))
      bob := bob })
    hinbox executeOne
  rw [run_fresh hf, hanswer]
  refine bind_eq_ok_iff.mpr ⟨_, rfl, bind_eq_ok_iff.mpr ⟨_, hsent, hempty⟩⟩

/-- After a timely accept Alice runs her contract, and then Bob his. -/
theorem run_accepted (hf : d.Fresh terms) (hrev : d.bob.revocations.isRevoked d.alice.pubkey = false)
    (hdecide : terms.decide (d.proposal terms) = .accept)
    (htime : terms.answeredAtUnix ≤ terms.validUntilUnix) :
    d.run terms = acceptOne terms { d with
        alice := d.alice.withEntry (d.hash terms) (.proposed (d.proposal terms))
        bob := d.bob.withEntry (d.hash terms) (.accepted (d.proposal terms) (d.accepting terms)) }
      (.accept (d.accepting terms)) >>= fun d' => d'.turn d'.bob.pubkey executeOne := by
  have hsent := turn_sent
    (d := { d with
      alice := d.alice.withEntry (d.hash terms) (.proposed (d.proposal terms))
      bob := d.bob.withEntry (d.hash terms) (.accepted (d.proposal terms) (d.accepting terms)) })
    hf.alice_inbox (.accept (d.accepting terms)) (acceptOne terms)
  rw [run_fresh hf, answerOne_accept hf hrev _ hdecide htime, ← hsent]
  rfl

/-- How a deal ends: without an execution, with an error, or settled on both sides. -/
theorem run_cases (hf : d.Fresh terms) :
    (¬ (d.bob.revocations.isRevoked d.alice.pubkey = false ∧
        terms.decide (d.proposal terms) = .accept) ∧
      ∃ d', d.run terms = .ok d' ∧ d'.agreed = d.agreed ∧ d'.bus = d.bus) ∨
    (¬ (terms.answeredAtUnix ≤ terms.validUntilUnix ∧
        ∃ cA cB out out', d.alice.contracts.lookup terms.programHash = some cA ∧
          d.bob.contracts.lookup terms.programHash = some cB ∧ cA.run terms.witness = .ok out ∧
          cB.run terms.witness = .ok out') ∧
      ∃ e, d.run terms = .error e) ∨
    ∃ cA cB out out', d.bob.revocations.isRevoked d.alice.pubkey = false ∧
      terms.decide (d.proposal terms) = .accept ∧ terms.answeredAtUnix ≤ terms.validUntilUnix ∧
      d.alice.contracts.lookup terms.programHash = some cA ∧
      d.bob.contracts.lookup terms.programHash = some cB ∧ cA.run terms.witness = .ok out ∧
      cB.run terms.witness = .ok out' ∧
      d.run terms = .ok ⟨d.alice.withEntry (d.hash terms)
          (.executed (d.proposal terms) (d.accepting terms) (d.executing terms out)),
        (d.bob.withEntry (d.hash terms) (.executed (d.proposal terms) (d.accepting terms)
          (d.executing terms out))).credit d.alice.pubkey (decide (out' = out)), d.bus,
        d.agreed ++ [decide (out' = out)]⟩ := by
  by_cases hrev : d.bob.revocations.isRevoked d.alice.pubkey = true
  · refine .inl ⟨?_, _, run_rejected hf (answerOne_revoked hf hrev _) rfl, rfl, rfl⟩
    intro hyp
    obtain ⟨hnot, -⟩ := hyp
    rw [hrev] at hnot
    cases hnot
  · have hrev : d.bob.revocations.isRevoked d.alice.pubkey = false := Bool.eq_false_of_not_eq_true hrev
    cases hdecide : terms.decide (d.proposal terms) with
    | reject reason =>
      refine .inl ⟨?_, _, run_rejected hf (answerOne_reject hf hrev _ hdecide) rfl, rfl, rfl⟩
      intro hyp
      obtain ⟨-, haccept⟩ := hyp
      cases haccept
    | accept =>
      by_cases htime : terms.answeredAtUnix ≤ terms.validUntilUnix
      · rw [run_accepted hf hrev hdecide htime]
        refine .inr ?_
        rcases acceptOne_cases hf htime (d.bob.withEntry (d.hash terms)
          (.accepted (d.proposal terms) (d.accepting terms))) with
          ⟨hno, e, he⟩ | ⟨cA, out, hcA, hout, hok⟩
        · refine .inl ⟨?_, e, by rw [he]; rfl⟩
          intro hyp
          obtain ⟨-, cA, -, out, -, hcA, -, hout, -⟩ := hyp
          exact hno cA out hcA hout
        · have hsent := turn_sent
            (d := { d with
              alice := d.alice.withEntry (d.hash terms)
                (.executed (d.proposal terms) (d.accepting terms) (d.executing terms out))
              bob := d.bob.withEntry (d.hash terms) (.accepted (d.proposal terms) (d.accepting terms)) })
            hf.bob_inbox (.execute (d.executing terms out)) executeOne
          rw [hok]
          rcases executeOne_cases hf out (d.alice.withEntry (d.hash terms)
            (.executed (d.proposal terms) (d.accepting terms) (d.executing terms out))) with
            ⟨hno, e, he⟩ | ⟨cB, out', hcB, hout', hok'⟩
          · refine .inl ⟨?_, e, hsent.trans he⟩
            intro hyp
            obtain ⟨-, -, cB, -, out', -, hcB, -, hout'⟩ := hyp
            exact hno cB out' hcB hout'
          · exact .inr ⟨cA, cB, out, out', hrev, rfl, htime, hcA, hcB, hout, hout', hsent.trans hok'⟩
      · refine .inr (.inl ⟨fun h => htime h.1, ?_⟩)
        rw [run_fresh hf, answerOne_late hf hrev _ hdecide (UInt64.not_le.mp htime)]
        exact ⟨_, rfl⟩

end Deal

/-- A deal between two agents with empty inboxes over a fresh proposal ends with `true` exactly when
the executor neither revoked nor turned down the proposer, answered in time, and both contracts give
the same output; and whatever it ends with, an execution leaves both logs with the same accept and
execute message, every other entry alone, the inboxes empty and one more execution counted for the
proposer. -/
theorem deal_completes_iff (terms : DealTerms) (d : Deal) (hf : d.Fresh terms) (hnone : d.agreed = []) :
    ((∃ d', d.run terms = .ok d' ∧ d'.agreed = [true]) ↔
      d.bob.revocations.isRevoked d.alice.pubkey = false ∧
        terms.decide (d.proposal terms) = .accept ∧ terms.answeredAtUnix ≤ terms.validUntilUnix ∧
        ∃ cA cB out, d.alice.contracts.lookup terms.programHash = some cA ∧
          d.bob.contracts.lookup terms.programHash = some cB ∧ cA.run terms.witness = .ok out ∧
          cB.run terms.witness = .ok out) ∧
    ∀ d', d.run terms = .ok d' → d'.agreed ≠ [] →
      ∃ agreed a e, d'.agreed = [agreed] ∧ d'.bus = d.bus ∧
        d'.bob.reputation = (d.bob.credit d.alice.pubkey agreed).reputation ∧
        ∀ k, d'.alice.proposals.byHash k =
            (if k = d.hash terms then some (.executed (d.proposal terms) a e)
              else d.alice.proposals.byHash k) ∧
          d'.bob.proposals.byHash k =
            (if k = d.hash terms then some (.executed (d.proposal terms) a e)
              else d.bob.proposals.byHash k) := by
  rcases Deal.run_cases hf with ⟨hnot, d₁, hrun, hagreed, -⟩ | ⟨hnot, err, hrun⟩ |
    ⟨cA, cB, out, out', hrev, hdecide, htime, hcA, hcB, hout, hout', hrun⟩
  · rw [hnone] at hagreed
    refine ⟨⟨?_, ?_⟩, ?_⟩
    · intro hyp
      obtain ⟨d', hok, htrue⟩ := hyp
      cases hrun.symm.trans hok
      rw [hagreed] at htrue
      cases htrue
    · intro hyp
      obtain ⟨hrev, hdecide, -⟩ := hyp
      exact absurd ⟨hrev, hdecide⟩ hnot
    · intro d' hok hne
      cases hrun.symm.trans hok
      exact absurd hagreed hne
  · refine ⟨⟨?_, ?_⟩, ?_⟩
    · intro hyp
      obtain ⟨d', hok, -⟩ := hyp
      cases hrun.symm.trans hok
    · intro hyp
      obtain ⟨-, -, htime, cA, cB, out, hcA, hcB, hout, hout'⟩ := hyp
      exact absurd ⟨htime, cA, cB, out, out, hcA, hcB, hout, hout'⟩ hnot
    · intro d' hok
      cases hrun.symm.trans hok
  · rw [hnone] at hrun
    refine ⟨⟨?_, ?_⟩, ?_⟩
    · intro hyp
      obtain ⟨d', hok, htrue⟩ := hyp
      cases hrun.symm.trans hok
      have hsame : out' = out := of_decide_eq_true (List.singleton_inj.mp htrue)
      exact ⟨hrev, hdecide, htime, cA, cB, out, hcA, hcB, hout, hsame ▸ hout'⟩
    · intro hyp
      obtain ⟨-, -, -, cA', cB', w, hcA', hcB', hw, hw'⟩ := hyp
      cases hcA.symm.trans hcA'
      cases hcB.symm.trans hcB'
      cases hout.symm.trans hw
      cases hout'.symm.trans hw'
      exact ⟨_, hrun, congrArg (fun b => [b]) (decide_eq_true rfl)⟩
    · intro d' hok _
      cases hrun.symm.trans hok
      exact ⟨_, d.accepting terms, d.executing terms out, rfl, rfl, rfl, fun k =>
        ⟨AgentSdk.withEntry_byHash _ k, AgentSdk.withEntry_byHash _ k⟩⟩

end

section Sample

attribute [local instance] sampleBlake3 sampleEd25519

/-- Two agents that know the echo contract, on a bus that knows them. -/
def sampleDeal : Deal where
  alice := (AgentSdk.new ⟨hashOfNat 1⟩).registerContract echoContract
  bob := (AgentSdk.new ⟨hashOfNat 2⟩).registerContract echoContract
  bus := (InProcessBus.new.register (hashOfNat 1)).register (hashOfNat 2)
  agreed := []

def sampleTerms : DealTerms where
  programHash := echoContract.programHashV2
  parameters := [5]
  validFromUnix := 0
  validUntilUnix := 100
  nonce := 1
  decide := fun _ => .accept
  answeredAtUnix := 10
  witness := [5]
  executedAtUnix := 20

theorem sampleDeal_fresh : sampleDeal.Fresh sampleTerms where
  alice_signs := sample_signsValidly _
  bob_signs := sample_signsValidly _
  alice_inbox := by decide
  bob_inbox := by decide
  alice_log := rfl
  bob_log := rfl

theorem deal_completes_sample : ∃ d', sampleDeal.run sampleTerms = .ok d' ∧ d'.agreed = [true] := by
  refine (deal_completes_iff sampleTerms sampleDeal sampleDeal_fresh rfl).1.mpr ?_
  exact ⟨rfl, rfl, by decide, echoContract, echoContract, [5], ContractTable.lookup_register _ _,
    ContractTable.lookup_register _ _, rfl, rfl⟩

end Sample

end PslBank.Agent
