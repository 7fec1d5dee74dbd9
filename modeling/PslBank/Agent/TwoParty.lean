import PslBank.Agent.Sdk

/-!
# Two agents over a network

Two agents run the handlers of the runtime over a network that delays, reorders,
duplicates, drops and injects messages: any message may be handed to either agent at
any time, unless it verifies under the key of one of the two and that agent never let
it out. A message that was signed but neither returned nor handed to the transport is
not known to anybody else, so it counts as forged too.

Handlers of one agent interleave. A step is the part of a handler under one lock of the
log, and what is left to do is kept as a task that any later step may resume; a whole
call is two consecutive steps.
-/
namespace PslBank.Agent

open PslBank.Lib PslBank.Crypto PslBank.Contracts PslBank.Wallet

set_option autoImplicit false

/-- A handler between its two locks. -/
inductive Task where
  | answering (propose : Propose) (now : UInt64)
  | executing (propose : Propose) (accept : Accept) (witness : Bytes) (now : UInt64)
  deriving DecidableEq

/-- `handle_propose` goes on when a decision is due. -/
def Task.ofPropose (p : Propose) (now : UInt64) : Except SdkError Bool → List Task
  | .ok true => [.answering p now]
  | .ok false => []
  | .error _ => []

/-- `handle_accept` goes on when the accepted proposal is the agent's own. -/
def Task.ofAccept (a : Accept) (witness : Bytes) (now : UInt64) :
    Except SdkError (Option Propose) → List Task
  | .ok (some p) => [.executing p a witness now]
  | .ok none => []
  | .error _ => []

inductive PartyOp where
  | propose (programHash : ProgramHash) (parameters : Bytes) (toKey : PublicKey)
      (validFromUnix validUntilUnix nonce : UInt64)
  | handlePropose (propose : Propose) (now : UInt64) (transport : Transport)
  | handleAccept (accept : Accept) (witness : Bytes) (now : UInt64)
  | handleExecute (execute : Execute)
  | resume (task : Task) (decision : ProposeDecision) (transport : Transport)
  | expireDue (now : UInt64)

/-- The message an operation is handed by the network. -/
def PartyOp.input : PartyOp → List ProtocolMessage
  | .handlePropose p _ _ => [.propose p]
  | .handleAccept a _ _ => [.accept a]
  | .handleExecute e => [.execute e]
  | .propose .. => []
  | .resume .. => []
  | .expireDue _ => []

/-- An agent with its unfinished handlers and the messages it was handed, signed and let
out so far. -/
structure Party where
  agent : AgentSdk
  pending : List Task
  received : List ProtocolMessage
  signed : List ProtocolMessage
  released : List ProtocolMessage

namespace Party

/-- An agent before its first step. -/
def start (agent : AgentSdk) : Party := ⟨agent, [], [], [], []⟩

/-- The party after a call: what was sent is let out, and so is what is `returned`. -/
def after {α : Type} (P : Party) (input : List ProtocolMessage) (o : Outcome α)
    (returned : List ProtocolMessage) (pending : List Task) : Party :=
  ⟨o.agent, pending, P.received ++ input, P.signed ++ o.signed,
    P.released ++ (o.sent.map Prod.snd ++ returned)⟩

section

variable [Ed25519] [Blake3]

/-- The rest of a handler. -/
def perform (agent : AgentSdk) (decision : ProposeDecision) (transport : Transport) :
    Task → Outcome Unit
  | .answering p now => agent.answerPropose p now decision transport
  | .executing p a witness now => agent.executeAccepted p a witness now transport

def step (P : Party) (op : PartyOp) : Party :=
  match op with
  | .propose programHash parameters toKey validFromUnix validUntilUnix nonce =>
      let o := P.agent.propose programHash parameters toKey validFromUnix validUntilUnix nonce
      P.after op.input o o.signed P.pending
  | .handlePropose p now transport =>
      let o := P.agent.receivePropose p now transport
      P.after op.input o [] (Task.ofPropose p now o.result ++ P.pending)
  | .handleAccept a witness now =>
      let o := P.agent.takeAccept a
      P.after op.input o [] (Task.ofAccept a witness now o.result ++ P.pending)
  | .handleExecute e => P.after op.input (P.agent.handleExecute e) [] P.pending
  | .resume task decision transport =>
      if task ∈ P.pending then
        P.after op.input (perform P.agent decision transport task) [] (P.pending.erase task)
      else P
  | .expireDue now =>
      P.after op.input (P.agent.locked fun log => ((log.expireDue now).1, .ok ())) [] P.pending

/-- A call of `handle_propose` is its first part and the task it leaves, if any. -/
theorem handlePropose_steps (P : Party) (p : Propose) (now : UInt64)
    (decision : Propose → ProposeDecision) (transport : Transport) :
    (P.agent.handlePropose p now decision transport).agent =
      (run step P (.handlePropose p now transport ::
        (Task.ofPropose p now (P.agent.receivePropose p now transport).result).map fun task =>
          .resume task (decision p) transport)).agent := by
  unfold AgentSdk.handlePropose Outcome.andThen
  cases hr : (P.agent.receivePropose p now transport).result with
  | error e => rfl
  | ok due =>
    cases due with
    | false => rfl
    | true => simp [run, step, after, perform, Task.ofPropose, hr]

/-- A call of `handle_accept` is its first part and the task it leaves, if any. -/
theorem handleAccept_steps (P : Party) (a : Accept) (witness : Bytes) (now : UInt64)
    (decision : ProposeDecision) (transport : Transport) :
    (P.agent.handleAccept a witness now transport).agent =
      (run step P (.handleAccept a witness now ::
        (Task.ofAccept a witness now (P.agent.takeAccept a).result).map fun task =>
          .resume task decision transport)).agent := by
  unfold AgentSdk.handleAccept Outcome.andThen
  cases hr : (P.agent.takeAccept a).result with
  | error e => rfl
  | ok found =>
    cases found with
    | none => rfl
    | some p => simp [run, step, after, perform, Task.ofAccept, hr]

end

end Party

/-! ## What one step of a party does -/

namespace ProposalState

def acceptOf : ProposalState → Option Accept
  | .proposed _ => none
  | .accepted _ a => some a
  | .rejected _ _ => none
  | .counterProposed _ _ => none
  | .executed _ a _ => some a
  | .expired _ _ => none

def executeOf : ProposalState → Option Execute
  | .proposed _ => none
  | .accepted _ _ => none
  | .rejected _ _ => none
  | .counterProposed _ _ => none
  | .executed _ _ e => some e
  | .expired _ _ => none

end ProposalState

/-- The task will sign an execute message for the hash. -/
def Task.executes (h : ProposalHash) : Task → Bool
  | .answering _ _ => false
  | .executing _ a _ _ => decide (a.proposalHash = h)

def ProtocolMessage.executes (h : ProposalHash) : ProtocolMessage → Bool
  | .execute e => decide (e.proposalHash = h)
  | .propose _ => false
  | .accept _ => false
  | .reject _ => false
  | .counterPropose _ => false

def ProtocolMessage.proposeOf : ProtocolMessage → Option Propose
  | .propose p => some p
  | .accept _ => none
  | .reject _ => none
  | .counterPropose _ => none
  | .execute _ => none

/-- The execute messages for the hash that were signed or will be. -/
def Party.owed (P : Party) (h : ProposalHash) : ℕ :=
  P.pending.countP (Task.executes h) + P.signed.countP (ProtocolMessage.executes h)

/-- An accept or execute message that is in the log under its hash. -/
def ProposalLog.Stores (log : ProposalLog) : ProtocolMessage → Prop
  | .accept a => ∃ st, log.byHash a.proposalHash = some st ∧ st.acceptOf = some a
  | .execute e => ∃ st, log.byHash e.proposalHash = some st ∧ st.executeOf = some e
  | .propose _ => True
  | .reject _ => True
  | .counterPropose _ => True

section

variable [Ed25519] [Blake3]

theorem ProposalLog.stores_of_ok {log : ProposalLog} {m : ProtocolMessage}
    (hok : (log.deliver m).2 = .ok ()) : (log.deliver m).1.Stores m := by
  cases m with
  | propose | reject | counterPropose => trivial
  | accept a =>
    obtain ⟨p, hp⟩ := applyAccept_ok hok
    refine ⟨.accepted p a, ?_, rfl⟩
    show (log.applyAccept a).1.byHash _ = _
    rw [hp.apply, insert_byHash, if_pos rfl]
  | execute e =>
    obtain ⟨p, a, hp⟩ := applyExecute_ok hok
    refine ⟨.executed p a e, ?_, rfl⟩
    show (log.applyExecute e).1.byHash _ = _
    rw [hp.apply, insert_byHash, if_pos rfl]

/-- A step of a party that was handed `input`, signed `fresh` and let `out` out. -/
structure Acts (P P' : Party) (input fresh out : List ProtocolMessage) : Prop where
  child : P'.agent.child = P.agent.child
  received : P'.received = P.received ++ input
  signed : P'.signed = P.signed ++ fresh
  released : P'.released = P.released ++ out
  own : ∀ m ∈ fresh, m.signer = P.agent.pubkey
  evolves : P.agent.proposals.Evolves (fun m => m ∈ input ∨ m ∈ fresh) P'.agent.proposals
  stored : ∀ m ∈ out, P'.agent.proposals.Stores m
  owed : ∀ h, P'.owed h ≤ P.owed h ∨
    phase (P.agent.proposals.byHash h) = 1 ∧ phase (P'.agent.proposals.byHash h) = 2 ∧
      P'.owed h ≤ P.owed h + 1

theorem Acts.idle (P : Party) : Acts P P [] [] [] where
  child := rfl
  received := (List.append_nil _).symm
  signed := (List.append_nil _).symm
  released := (List.append_nil _).symm
  own := fun _ hm => (List.not_mem_nil hm).elim
  evolves := ProposalLog.Evolves.refl _ _
  stored := fun _ hm => (List.not_mem_nil hm).elim
  owed := fun _ => .inl le_rfl

/-- What every part of a handler does to the agent: the log moves by the message it was
handed or by one it signed, and what it sends is in the log. -/
structure Calls {α : Type} (agent : AgentSdk) (input : List ProtocolMessage) (o : Outcome α) : Prop where
  child : o.agent.child = agent.child
  own : ∀ m ∈ o.signed, m.signer = agent.pubkey
  evolves : agent.proposals.Evolves (fun m => m ∈ input ∨ m ∈ o.signed) o.agent.proposals
  stored : ∀ m ∈ o.sent.map Prod.snd, o.agent.proposals.Stores m

section Calls

variable {α : Type} (agent : AgentSdk) {input : List ProtocolMessage}

theorem calls_check (r : Except SdkError α) : Calls agent input (agent.check r) :=
  ⟨rfl, fun _ hm => (List.not_mem_nil hm).elim, ProposalLog.Evolves.refl _ _,
    fun _ hm => (List.not_mem_nil hm).elim⟩

/-- The log handles the message that was handed in. -/
theorem calls_recorded {m : ProtocolMessage} (hm : m ∈ input) (r : Except SdkError α) :
    Calls agent input ⟨agent.recorded m, [], [], r⟩ := by
  refine ⟨rfl, fun _ h => (List.not_mem_nil h).elim, ?_, fun _ h => (List.not_mem_nil h).elim⟩
  refine (agent.proposals.deliver_evolves m).mono fun m' heq => ?_
  rw [heq]
  exact .inl hm

theorem calls_issue {m : ProtocolMessage} (hown : m.signer = agent.pubkey) (transport : Transport)
    (toKey : PublicKey) : Calls agent input (agent.issue m transport toKey) := by
  have hmoves : agent.proposals.Evolves (fun m' => m' ∈ input ∨ m' ∈ [m])
      (agent.recorded m).proposals :=
    (agent.proposals.deliver_evolves m).mono fun m' heq => .inr (List.mem_singleton.mpr heq)
  rcases agent.issue_cases m transport toKey with ⟨e, -, he⟩ | ⟨hok, he⟩
  · rw [he]
    refine ⟨rfl, fun m' hm' => ?_, hmoves, fun _ h => (List.not_mem_nil h).elim⟩
    rwa [List.mem_singleton.mp hm']
  · rw [he]
    refine ⟨rfl, fun m' hm' => ?_, hmoves, fun m' hm' => ?_⟩
    · rwa [List.mem_singleton.mp hm']
    · rw [List.mem_singleton.mp hm']
      exact ProposalLog.stores_of_ok hok

theorem calls_propose (programHash : ProgramHash) (parameters : Bytes) (toKey : PublicKey)
    (validFromUnix validUntilUnix nonce : UInt64) :
    Calls agent input
      (agent.propose programHash parameters toKey validFromUnix validUntilUnix nonce) := by
  refine ⟨rfl, fun m hm => ?_, ?_, fun _ h => (List.not_mem_nil h).elim⟩
  · rw [List.mem_singleton.mp hm]
    rfl
  · exact (agent.proposals.recordPropose_evolves _).mono fun m heq =>
      .inr (List.mem_singleton.mpr heq)

theorem calls_receivePropose (p : Propose) (now : UInt64) (transport : Transport) :
    Calls agent [.propose p] (agent.receivePropose p now transport) := by
  rcases agent.receivePropose_cases p now transport with ⟨e, -, he⟩ | ⟨-, -, he⟩ | ⟨-, -, he⟩
  · rw [he]
    exact calls_check agent _
  · rw [he]
    refine ⟨rfl, fun m hm => ?_, ProposalLog.Evolves.refl _ _, fun m hm => ?_⟩
    · rw [List.mem_singleton.mp hm]
      rfl
    · rw [List.mem_singleton.mp hm]
      trivial
  · rw [he]
    exact calls_recorded agent (List.mem_singleton.mpr rfl) _

theorem calls_takeAccept (a : Accept) : Calls agent [.accept a] (agent.takeAccept a) := by
  rcases agent.takeAccept_cases a with ⟨e, -, he⟩ | ⟨p, -, he⟩
  · rw [he]
    exact calls_recorded agent (List.mem_singleton.mpr rfl) _
  · rw [he]
    exact calls_recorded agent (List.mem_singleton.mpr rfl) _

theorem calls_handleExecute (e : Execute) : Calls agent [.execute e] (agent.handleExecute e) := by
  rcases agent.handleExecute_cases e with ⟨err, -, he⟩ | ⟨p, a, -, he⟩
  · rw [he]
    exact calls_recorded agent (List.mem_singleton.mpr rfl) _
  · rw [he]
    have hrec : Calls agent [.execute e]
        (⟨agent.recorded (.execute e), [], [], .ok true⟩ : Outcome Bool) :=
      calls_recorded agent (List.mem_singleton.mpr rfl) _
    -- the rest touches the reputation alone
    rcases (agent.recorded (.execute e)).settleExecute_cases p e with
      ⟨-, he'⟩ | ⟨contract, err, -, -, he'⟩ | ⟨contract, out, -, -, he'⟩ <;>
      rw [he'] <;> exact ⟨hrec.child, hrec.own, hrec.evolves, hrec.stored⟩

theorem calls_perform (decision : ProposeDecision) (transport : Transport) (task : Task) :
    Calls agent input (Party.perform agent decision transport task) := by
  cases task with
  | answering p now =>
    refine calls_issue agent ?_ transport p.fromKey
    cases decision <;> rfl
  | executing p a witness now =>
    show Calls agent input (agent.executeAccepted p a witness now transport)
    rcases agent.executeAccepted_cases p a witness now transport with
      ⟨-, he⟩ | ⟨contract, e, -, -, he⟩ | ⟨contract, out, -, -, he⟩
    · exact he.symm ▸ calls_check agent _
    · exact he.symm ▸ calls_check agent _
    · exact he.symm ▸ calls_issue agent rfl transport a.byKey

theorem calls_expireDue (now : UInt64) :
    Calls agent input (agent.locked fun log => ((log.expireDue now).1, (.ok () : Except _ Unit))) :=
  ⟨rfl, fun _ hm => (List.not_mem_nil hm).elim, agent.proposals.expireDue_evolves _ now,
    fun _ hm => (List.not_mem_nil hm).elim⟩

end Calls

/-- How the execute messages still owed change, the signed ones before the call apart. -/
def Party.OwesNoMore {α : Type} (P : Party) (o : Outcome α) (pending : List Task) : Prop :=
  ∀ h, pending.countP (Task.executes h) + o.signed.countP (ProtocolMessage.executes h) ≤
      P.pending.countP (Task.executes h) ∨
    phase (P.agent.proposals.byHash h) = 1 ∧ phase (o.agent.proposals.byHash h) = 2 ∧
      pending.countP (Task.executes h) + o.signed.countP (ProtocolMessage.executes h) ≤
        P.pending.countP (Task.executes h) + 1

theorem Calls.acts {α : Type} {P : Party} {input returned : List ProtocolMessage} {o : Outcome α}
    {pending : List Task} (hc : Calls P.agent input o)
    (hret : ∀ m ∈ returned, o.agent.proposals.Stores m) (howed : P.OwesNoMore o pending) :
    Acts P (P.after input o returned pending) input o.signed (o.sent.map Prod.snd ++ returned) where
  child := hc.child
  received := rfl
  signed := rfl
  released := rfl
  own := hc.own
  evolves := hc.evolves
  stored := fun m hm => (List.mem_append.mp hm).elim (hc.stored m) (hret m)
  owed := by
    intro h
    simp only [Party.owed, Party.after, List.countP_append]
    rcases howed h with hle | ⟨hone, htwo, hle⟩
    · left
      omega
    · right
      exact ⟨hone, htwo, by omega⟩

omit [Ed25519] [Blake3] in
/-- Nothing signed is an execute message, and no task to execute is new. -/
theorem owesNoMore_of_quiet {α : Type} {P : Party} {o : Outcome α} {fresh : List Task}
    (hsigned : ∀ h, ∀ m ∈ o.signed, m.executes h = false)
    (hfresh : ∀ h, ∀ t ∈ fresh, t.executes h = false) : P.OwesNoMore o (fresh ++ P.pending) := by
  intro h
  left
  have hs : o.signed.countP (ProtocolMessage.executes h) = 0 :=
    List.countP_eq_zero.mpr fun m hm => by rw [hsigned h m hm]; exact Bool.false_ne_true
  have hf : fresh.countP (Task.executes h) = 0 :=
    List.countP_eq_zero.mpr fun t ht => by rw [hfresh h t ht]; exact Bool.false_ne_true
  rw [List.countP_append]
  omega

omit [Ed25519] [Blake3] in
theorem owesNoMore_of_idle {α : Type} {P : Party} {o : Outcome α}
    (hsigned : ∀ h, ∀ m ∈ o.signed, m.executes h = false) : P.OwesNoMore o P.pending := by
  have hnone : P.OwesNoMore o ([] ++ P.pending) :=
    owesNoMore_of_quiet hsigned fun _ _ ht => (List.not_mem_nil ht).elim
  exact hnone

/-- The first part of `handle_propose` signs at most a reject message and leaves at most
the task to answer. -/
theorem Party.handlePropose_owes (P : Party) (p : Propose) (now : UInt64) (transport : Transport) :
    P.OwesNoMore (P.agent.receivePropose p now transport)
      (Task.ofPropose p now (P.agent.receivePropose p now transport).result ++ P.pending) := by
  refine owesNoMore_of_quiet (fun h m hm => ?_) fun h t ht => ?_
  · rcases P.agent.receivePropose_cases p now transport with ⟨e, -, he⟩ | ⟨-, -, he⟩ | ⟨-, -, he⟩
    · rw [he] at hm
      exact (List.not_mem_nil hm).elim
    · rw [he] at hm
      rw [List.mem_singleton.mp hm]
      rfl
    · rw [he] at hm
      exact (List.not_mem_nil hm).elim
  · cases hr : (P.agent.receivePropose p now transport).result with
    | error e =>
      rw [hr] at ht
      exact (List.not_mem_nil ht).elim
    | ok due =>
      rw [hr] at ht
      cases due with
      | false => exact (List.not_mem_nil ht).elim
      | true =>
        rw [List.mem_singleton.mp ht]
        rfl

theorem Party.handleAccept_owes (P : Party) (a : Accept) (witness : Bytes) (now : UInt64) :
    P.OwesNoMore (P.agent.takeAccept a)
      (Task.ofAccept a witness now (P.agent.takeAccept a).result ++ P.pending) := by
  rcases P.agent.takeAccept_cases a with ⟨e, -, he⟩ | ⟨p, hp, he⟩
  · rw [he]
    exact owesNoMore_of_quiet (fun _ _ hm => (List.not_mem_nil hm).elim)
      fun _ _ ht => (List.not_mem_nil ht).elim
  · rw [he]
    by_cases hfrom : p.fromKey = P.agent.pubkey
    · intro h
      rw [if_pos hfrom]
      simp only [Task.ofAccept, List.singleton_append, List.countP_cons, List.countP_nil,
        Task.executes, decide_eq_true_eq]
      by_cases hh : a.proposalHash = h
      · right
        subst hh
        refine ⟨by rw [hp.entry]; rfl, ?_, by simp⟩
        show phase ((P.agent.proposals.applyAccept a).1.byHash a.proposalHash) = 2
        rw [hp.apply, ProposalLog.insert_byHash, if_pos rfl]
        rfl
      · left
        simp [hh]
    · rw [if_neg hfrom]
      exact owesNoMore_of_quiet (fun _ _ hm => (List.not_mem_nil hm).elim)
        fun _ _ ht => (List.not_mem_nil ht).elim

omit [Ed25519] [Blake3] in
theorem countP_executes_erase {pending : List Task} {task : Task} (htask : task ∈ pending)
    (h : ProposalHash) :
    pending.countP (Task.executes h) =
      (pending.erase task).countP (Task.executes h) + if task.executes h then 1 else 0 := by
  rw [(List.perm_cons_erase htask).countP_eq, List.countP_cons]

theorem signed_executeAccepted (agent : AgentSdk) (p : Propose) (a : Accept) (witness : Bytes)
    (now : UInt64) (transport : Transport) (h : ProposalHash) :
    (agent.executeAccepted p a witness now transport).signed.countP (ProtocolMessage.executes h) ≤
      if a.proposalHash = h then 1 else 0 := by
  rcases agent.executeAccepted_cases p a witness now transport with
    ⟨-, he⟩ | ⟨contract, e, -, -, he⟩ | ⟨contract, out, -, -, he⟩
  · rw [he]
    exact Nat.zero_le _
  · rw [he]
    exact Nat.zero_le _
  · have hh : (Execute.sign agent.child a.proposalHash witness ⟨out⟩ now).proposalHash =
        a.proposalHash := rfl
    rw [he, AgentSdk.issue_signed]
    simp only [List.countP_cons, List.countP_nil, ProtocolMessage.executes, hh, decide_eq_true_eq,
      Nat.zero_add, le_refl]

theorem Party.resume_owes (P : Party) {task : Task} (htask : task ∈ P.pending)
    (decision : ProposeDecision) (transport : Transport) :
    P.OwesNoMore (perform P.agent decision transport task) (P.pending.erase task) := by
  intro h
  left
  rw [countP_executes_erase htask h]
  cases task with
  | answering p now =>
    have hs : (perform P.agent decision transport (.answering p now)).signed.countP
        (ProtocolMessage.executes h) = 0 := by
      unfold perform AgentSdk.answerPropose
      rw [AgentSdk.issue_signed]
      cases decision <;> rfl
    rw [hs]
    exact Nat.le_add_right _ _
  | executing p a witness now =>
    have hs := signed_executeAccepted P.agent p a witness now transport h
    simp only [Task.executes, decide_eq_true_eq]
    exact Nat.add_le_add_left hs _

theorem signed_handleExecute (agent : AgentSdk) (e : Execute) :
    (agent.handleExecute e).signed = [] := by
  rcases agent.handleExecute_cases e with ⟨err, -, he⟩ | ⟨p, a, -, he⟩
  · rw [he]
  · rw [he]
    rcases (agent.recorded (.execute e)).settleExecute_cases p e with
      ⟨-, he'⟩ | ⟨contract, err, -, -, he'⟩ | ⟨contract, out, -, -, he'⟩ <;>
      rw [he'] <;> rfl

/-- Every step of a party, in one description. -/
theorem Party.step_acts (P : Party) (op : PartyOp) :
    ∃ fresh out, Acts P (P.step op) op.input fresh out := by
  cases op with
  | propose programHash parameters toKey validFromUnix validUntilUnix nonce =>
    refine ⟨_, _, (calls_propose P.agent programHash parameters toKey validFromUnix validUntilUnix
      nonce).acts (fun m hm => ?_) (owesNoMore_of_idle fun h m hm => ?_)⟩
    · rw [List.mem_singleton.mp hm]
      trivial
    · rw [List.mem_singleton.mp hm]
      rfl
  | handlePropose p now transport =>
    exact ⟨_, _, (calls_receivePropose P.agent p now transport).acts
      (fun _ hm => (List.not_mem_nil hm).elim) (P.handlePropose_owes p now transport)⟩
  | handleAccept a witness now =>
    exact ⟨_, _, (calls_takeAccept P.agent a).acts (fun _ hm => (List.not_mem_nil hm).elim)
      (P.handleAccept_owes a witness now)⟩
  | handleExecute e =>
    refine ⟨_, _, (calls_handleExecute P.agent e).acts (fun _ hm => (List.not_mem_nil hm).elim)
      (owesNoMore_of_idle fun h m hm => ?_)⟩
    rw [signed_handleExecute] at hm
    exact (List.not_mem_nil hm).elim
  | resume task decision transport =>
    by_cases htask : task ∈ P.pending
    · have hacts : Acts P (P.after [] (perform P.agent decision transport task) []
          (P.pending.erase task)) [] _ _ :=
        (calls_perform P.agent decision transport task).acts
          (fun _ hm => (List.not_mem_nil hm).elim) (P.resume_owes htask decision transport)
      rw [step, if_pos htask]
      exact ⟨_, _, hacts⟩
    · refine ⟨[], [], ?_⟩
      rw [step, if_neg htask]
      exact Acts.idle P
  | expireDue now =>
    exact ⟨_, _, (calls_expireDue P.agent now).acts (fun _ hm => (List.not_mem_nil hm).elim)
      (owesNoMore_of_idle fun _ _ hm => (List.not_mem_nil hm).elim)⟩

/-! ## What holds of one party -/

section Sources

variable {via : ProtocolMessage → Prop} {h : ProposalHash} {o o' : Option ProposalState}
  {st : ProposalState}

theorem Moves.propose_source (hmove : Moves via h o (some st)) :
    via (.propose st.propose) ∨ ∃ old, o = some old ∧ old.propose = st.propose := by
  cases hmove with
  | record hm hv hk => exact .inl hm
  | accept | lateAccept | reject | counter | execute | sweep => exact .inr ⟨_, rfl, rfl⟩

theorem Moves.accept_source {a : Accept} (hmove : Moves via h o (some st))
    (hst : st.acceptOf = some a) :
    via (.accept a) ∧ a.verify = .ok () ∧ a.byKey = st.propose.toKey ∨
      ∃ old, o = some old ∧ old.acceptOf = some a ∧ old.propose = st.propose := by
  cases hmove with
  | record | lateAccept | reject | counter | sweep => cases hst
  | accept hm hv hk hby hin =>
    cases hst
    exact .inl ⟨hm, hv, hby⟩
  | execute hm hv hk hby => exact .inr ⟨_, rfl, hst, rfl⟩

theorem Moves.execute_source {e : Execute} (hmove : Moves via h o (some st))
    (hst : st.executeOf = some e) :
    via (.execute e) ∧ e.verify = .ok () ∧ e.byKey = st.propose.fromKey := by
  cases hmove with
  | record | accept | lateAccept | reject | counter | sweep => cases hst
  | execute hm hv hk hby =>
    cases hst
    exact ⟨hm, hv, hby⟩

theorem Moves.accept_kept {a : Accept} (hmove : Moves via h (some st) o')
    (hst : st.acceptOf = some a) : ∃ new, o' = some new ∧ new.acceptOf = some a := by
  cases hmove with
  | accept | lateAccept | reject | counter | sweep => cases hst
  | execute hm hv hk hby => exact ⟨_, rfl, hst⟩

theorem Moves.execute_kept {e : Execute} (hmove : Moves via h (some st) o')
    (hst : st.executeOf = some e) : ∃ new, o' = some new ∧ new.executeOf = some e := by
  cases hmove with
  | accept | lateAccept | reject | counter | execute | sweep => cases hst

theorem ProposalLog.Evolves.stores {log log' : ProposalLog} (he : log.Evolves via log')
    {m : ProtocolMessage} (hm : log.Stores m) : log'.Stores m := by
  cases m with
  | propose | reject | counterPropose => trivial
  | accept a =>
    obtain ⟨st, hg, hst⟩ := hm
    rcases he a.proposalHash with heq | hmove
    · exact ⟨st, heq.trans hg, hst⟩
    · rw [hg] at hmove
      exact hmove.accept_kept hst
  | execute e =>
    obtain ⟨st, hg, hst⟩ := hm
    rcases he e.proposalHash with heq | hmove
    · exact ⟨st, heq.trans hg, hst⟩
    · rw [hg] at hmove
      exact hmove.execute_kept hst

end Sources

structure PartyInv (P : Party) : Prop where
  valid : P.agent.proposals.Valid
  /-- What was let out is in the log. -/
  stored : ∀ m ∈ P.released, P.agent.proposals.Stores m
  /-- One execute message for a hash, and only after its accept. -/
  owed : ∀ h, P.owed h ≤ 1 ∧ (0 < P.owed h → 2 ≤ phase (P.agent.proposals.byHash h))
  known : ∀ h st, P.agent.proposals.byHash h = some st →
    .propose st.propose ∈ P.received ++ P.signed

theorem PartyInv.start {agent : AgentSdk} (hnew : agent.proposals = .new) :
    PartyInv (Party.start agent) where
  valid := by
    show agent.proposals.Valid
    rw [hnew]
    exact ProposalLog.valid_new
  stored := fun _ hm => (List.not_mem_nil hm).elim
  owed := fun _ => ⟨Nat.zero_le 1, fun hpos => absurd hpos (lt_irrefl 0)⟩
  known := by
    intro h st hg
    have hg' : agent.proposals.byHash h = some st := hg
    rw [hnew] at hg'
    cases hg'

/-- Along a step the log grows along its moves, so an owed execute message stays past
its accept and is not owed twice. -/
theorem Acts.inv {P P' : Party} {input fresh out : List ProtocolMessage}
    (hacts : Acts P P' input fresh out) (hinv : PartyInv P) : PartyInv P' where
  valid := hacts.evolves.valid hinv.valid
  stored := by
    intro m hm
    rw [hacts.released] at hm
    rcases List.mem_append.mp hm with hold | hnew
    · exact hacts.evolves.stores (hinv.stored m hold)
    · exact hacts.stored m hnew
  owed := by
    intro h
    obtain ⟨hone, hpast⟩ := hinv.owed h
    have hgrow := hacts.evolves.phase_le h
    rcases hacts.owed h with hle | ⟨hfrom, hto, hle⟩
    · exact ⟨by omega, fun hpos => (hpast (by omega)).trans hgrow⟩
    · have hnone : P.owed h = 0 := by
        by_contra hne
        have := hpast (Nat.pos_of_ne_zero hne)
        omega
      exact ⟨by omega, fun _ => hto.ge⟩
  known := by
    intro h st hg
    rw [hacts.received, hacts.signed]
    rcases hacts.evolves h with heq | hmove
    · have hold := hinv.known h st (heq.symm.trans hg)
      simp only [List.mem_append] at hold ⊢
      tauto
    · rw [hg] at hmove
      rcases hmove.propose_source with hvia | ⟨old, hg', hsame⟩
      · simp only [List.mem_append]
        tauto
      · have hold := hinv.known h old hg'
        rw [hsame] at hold
        simp only [List.mem_append] at hold ⊢
        tauto

/-- The log holds the message as one by the party with key `k`, which is the only one
that may send it there. -/
def ProposalLog.Credits (log : ProposalLog) (k : PublicKey) : ProtocolMessage → Prop
  | .accept a => ∃ h st, log.byHash h = some st ∧ st.acceptOf = some a ∧ st.propose.toKey = k
  | .execute e => ∃ h st, log.byHash h = some st ∧ st.executeOf = some e ∧ st.propose.fromKey = k
  | .propose _ => False
  | .reject _ => False
  | .counterPropose _ => False

/-- A message that is credited to a party was so before, or it came in just now and
bears the party's signature. -/
theorem ProposalLog.Evolves.credits {via : ProtocolMessage → Prop} {log log' : ProposalLog}
    (he : log.Evolves via log') {k : PublicKey} {m : ProtocolMessage} (hm : log'.Credits k m) :
    log.Credits k m ∨ via m ∧ m.verify = .ok () ∧ m.signer = k := by
  cases m with
  | propose | reject | counterPropose => exact hm.elim
  | accept a =>
    obtain ⟨h, st, hg, hst, hk⟩ := hm
    rcases he h with heq | hmove
    · exact .inl ⟨h, st, heq.symm.trans hg, hst, hk⟩
    · rw [hg] at hmove
      rcases hmove.accept_source hst with ⟨hvia, hv, hby⟩ | ⟨old, hg', hold, hsame⟩
      · exact .inr ⟨hvia, hv, hby.trans hk⟩
      · exact .inl ⟨h, old, hg', hold, hsame ▸ hk⟩
  | execute e =>
    obtain ⟨h, st, hg, hst, hk⟩ := hm
    rcases he h with heq | hmove
    · exact .inl ⟨h, st, heq.symm.trans hg, hst, hk⟩
    · rw [hg] at hmove
      obtain ⟨hvia, hv, hby⟩ := hmove.execute_source hst
      exact .inr ⟨hvia, hv, hby.trans hk⟩

end

inductive Side where
  | alice
  | bob
  deriving DecidableEq

/-- Both agents with everything they did. -/
abbrev Joint := Side → Party

namespace Joint

section

variable [Ed25519] [Blake3]

def step (J : Joint) (op : Side × PartyOp) : Joint :=
  Function.update J op.1 ((J op.1).step op.2)

/-- The network does not hand out a message in the name of one of the two that this
agent did not let out. -/
def NoForgery (J : Joint) (op : Side × PartyOp) : Prop :=
  ∀ m ∈ op.2.input, ∀ s, m.signer = (J s).agent.pubkey → m.verify = .ok () → m ∈ (J s).released

def start (agents : Side → AgentSdk) : Joint := fun s => Party.start (agents s)

/-- Both agents after a sequence of steps. -/
def ofSteps (agents : Side → AgentSdk) (ops : List (Side × PartyOp)) : Joint :=
  run step (start agents) ops

/-- The proposals that either agent was handed or signed. -/
def proposals (J : Joint) : List Propose :=
  ((J .alice).received ++ (J .alice).signed ++ ((J .bob).received ++ (J .bob).signed)).filterMap
    ProtocolMessage.proposeOf

/-! ## What holds of both -/

structure Inv (J : Joint) : Prop where
  party : ∀ s, PartyInv (J s)
  distinct : ∀ s t, s ≠ t → (J s).agent.pubkey ≠ (J t).agent.pubkey
  /-- What one log holds as a message by the other agent was let out there. -/
  heard : ∀ s t, s ≠ t → ∀ m, (J s).agent.proposals.Credits (J t).agent.pubkey m →
    m ∈ (J t).released

theorem Inv.start {agents : Side → AgentSdk} (hnew : ∀ s, (agents s).proposals = .new)
    (hdistinct : (agents .alice).pubkey ≠ (agents .bob).pubkey) : Inv (Joint.start agents) where
  party := fun s => PartyInv.start (hnew s)
  distinct := by
    intro s t hst
    cases s <;> cases t
    · exact absurd rfl hst
    · exact hdistinct
    · exact hdistinct.symm
    · exact absurd rfl hst
  heard := by
    intro s t _ m hm
    have hlog : (Joint.start agents s).agent.proposals = .new := hnew s
    rw [hlog] at hm
    cases m with
    | propose | reject | counterPropose => exact hm.elim
    | accept a =>
      obtain ⟨h, st, hg, -⟩ := hm
      cases hg
    | execute e =>
      obtain ⟨h, st, hg, -⟩ := hm
      cases hg

theorem Inv.step {J : Joint} {op : Side × PartyOp} (hnet : J.NoForgery op) (hinv : Inv J) :
    Inv (J.step op) := by
  obtain ⟨s, op⟩ := op
  obtain ⟨fresh, out, hacts⟩ := (J s).step_acts op
  have hself : J.step (s, op) s = (J s).step op := Function.update_self _ _ _
  have hother : ∀ {t}, t ≠ s → J.step (s, op) t = J t := fun ht => Function.update_of_ne ht _ _
  have hkey : ∀ t, (J.step (s, op) t).agent.pubkey = (J t).agent.pubkey := by
    intro t
    by_cases ht : t = s
    · subst ht
      rw [hself]
      exact congrArg KeyPair.public hacts.child
    · rw [hother ht]
  have hreleased : ∀ {t m}, m ∈ (J t).released → m ∈ (J.step (s, op) t).released := by
    intro t m hm
    by_cases ht : t = s
    · subst ht
      rw [hself, hacts.released]
      exact List.mem_append_left _ hm
    · rwa [hother ht]
  constructor
  · intro t
    by_cases ht : t = s
    · subst ht
      rw [hself]
      exact hacts.inv (hinv.party t)
    · rw [hother ht]
      exact hinv.party t
  · intro t u htu
    rw [hkey, hkey]
    exact hinv.distinct t u htu
  · intro t u htu m hm
    rw [hkey] at hm
    apply hreleased
    by_cases ht : t = s
    · subst ht
      rw [hself] at hm
      rcases hacts.evolves.credits hm with hold | ⟨hinput | hfresh, hv, hby⟩
      · exact hinv.heard t u htu m hold
      · exact hnet m hinput u hby hv
      -- a message of one's own is not in the other's name
      · exact absurd ((hacts.own m hfresh).symm.trans hby) (hinv.distinct t u htu)
    · rw [hother ht] at hm
      exact hinv.heard t u htu m hm

theorem inv_ofSteps {agents : Side → AgentSdk} {ops : List (Side × PartyOp)}
    (hnew : ∀ s, (agents s).proposals = .new)
    (hdistinct : (agents .alice).pubkey ≠ (agents .bob).pubkey)
    (hnet : Meets step NoForgery (Joint.start agents) ops) : Inv (ofSteps agents ops) :=
  run_invariant Inv (fun _ _ hg hinv => hinv.step hg) hnet (Inv.start hnew hdistinct)

/-! ## Agreement -/

/-- What `A`, the proposer, and `B`, the receiver, agree on about a hash. -/
structure Agreement (A B : Party) (h : ProposalHash) : Prop where
  proposer_executed : ∀ p a e, A.agent.proposals.get h = some (.executed p a e) →
    p.fromKey = A.agent.pubkey → p.toKey = B.agent.pubkey →
      ∃ p' a', B.agent.proposals.get h = some (.accepted p' a') ∨
        B.agent.proposals.get h = some (.executed p' a' e)
  receiver_executed : ∀ p a e, B.agent.proposals.get h = some (.executed p a e) →
    p.fromKey = A.agent.pubkey → p.toKey = B.agent.pubkey →
      ∃ p' a', A.agent.proposals.get h = some (.executed p' a' e)
  signs_once : A.signed.countP (ProtocolMessage.executes h) ≤ 1

theorem mem_proposals {J : Joint} (hinv : Inv J) {s : Side} {h : ProposalHash} {st : ProposalState}
    (hg : (J s).agent.proposals.byHash h = some st) : st.propose ∈ J.proposals := by
  have hknown := (hinv.party s).known h st hg
  refine List.mem_filterMap.mpr ⟨.propose st.propose, ?_, rfl⟩
  cases s with
  | alice => exact List.mem_append_left _ hknown
  | bob => exact List.mem_append_right _ hknown

/-- Without a collision the proposals that two logs hold under one hash are the same up
to their signatures. -/
theorem same_proposer {J : Joint} (hinv : Inv J)
    (hnc : NoCollision (J.proposals.map Propose.canonicalBytes)) {s t : Side} {h : ProposalHash}
    {st st' : ProposalState} (hg : (J s).agent.proposals.byHash h = some st)
    (hg' : (J t).agent.proposals.byHash h = some st') :
    st.propose.fromKey = st'.propose.fromKey := by
  have hhash : st.propose.proposalHash = st'.propose.proposalHash :=
    ((hinv.party s).valid h st hg).key_eq.trans ((hinv.party t).valid h st' hg').key_eq.symm
  have hbytes : st.propose.canonicalBytes = st'.propose.canonicalBytes :=
    hnc (List.mem_map_of_mem (mem_proposals hinv hg)) (List.mem_map_of_mem (mem_proposals hinv hg'))
      (congrArg ProposalHash.bytes hhash)
  have hunsigned := congrArg Propose.fromKey (Propose.eq_of_canonicalBytes hbytes)
  exact hunsigned

/-- An execution that one log holds in the name of the other agent is in that agent's
log too. -/
theorem Inv.executed_there {J : Joint} (hinv : Inv J) {s t : Side} (hst : s ≠ t) {h : ProposalHash}
    {p : Propose} {a : Accept} {e : Execute}
    (hg : (J s).agent.proposals.byHash h = some (.executed p a e))
    (hfrom : p.fromKey = (J t).agent.pubkey) :
    ∃ p' a', (J t).agent.proposals.byHash h = some (.executed p' a' e) := by
  have hout : .execute e ∈ (J t).released :=
    hinv.heard s t hst (.execute e) ⟨h, _, hg, rfl, hfrom⟩
  obtain ⟨st, hg', hst'⟩ := (hinv.party t).stored _ hout
  have hkey : e.proposalHash = h := ((hinv.party s).valid h _ hg).attached.2.2.1
  rw [hkey] at hg'
  cases st with
  | executed p' a' e' =>
    cases hst'
    exact ⟨p', a', hg'⟩
  | proposed | accepted | rejected | counterProposed | expired => cases hst'

theorem Inv.agreement {J : Joint} (hinv : Inv J)
    (hnc : NoCollision (J.proposals.map Propose.canonicalBytes)) {s t : Side} (hst : s ≠ t)
    (h : ProposalHash) : Agreement (J s) (J t) h where
  proposer_executed := by
    intro p a e hg hfrom hto
    have hout : .accept a ∈ (J t).released :=
      hinv.heard s t hst (.accept a) ⟨h, _, hg, rfl, hto⟩
    obtain ⟨st, hg', hst'⟩ := (hinv.party t).stored _ hout
    have hkey : a.proposalHash = h := ((hinv.party s).valid h _ hg).attached.1.names
    rw [hkey] at hg'
    cases st with
    | accepted p' a' => exact ⟨p', a', .inl hg'⟩
    | executed p' a' e' =>
      -- the receiver's execution is by the same proposer, who signed only one
      have hfrom' : p'.fromKey = (J s).agent.pubkey :=
        (same_proposer hinv hnc hg' hg).trans hfrom
      obtain ⟨p'', a'', hg''⟩ := hinv.executed_there hst.symm hg' hfrom'
      cases hg''.symm.trans hg
      exact ⟨p', a', .inr hg'⟩
    | proposed | rejected | counterProposed | expired => cases hst'
  receiver_executed := fun _ _ _ hg hfrom _ => hinv.executed_there hst.symm hg hfrom
  signs_once := (Nat.le_add_left _ _).trans ((hinv.party s).owed h).1

/-- In every state that two agents with fresh logs and different keys reach over such a
network, they agree about every proposal of one to the other. -/
theorem two_party_agreement (agents : Side → AgentSdk) (hnew : ∀ s, (agents s).proposals = .new)
    (hdistinct : (agents .alice).pubkey ≠ (agents .bob).pubkey) (ops : List (Side × PartyOp))
    (hnet : Meets step NoForgery (Joint.start agents) ops)
    (hnc : NoCollision ((ofSteps agents ops).proposals.map Propose.canonicalBytes)) (A B : Side)
    (hAB : A ≠ B) (h : ProposalHash) :
    Agreement (ofSteps agents ops A) (ofSteps agents ops B) h :=
  (inv_ofSteps hnew hdistinct hnet).agreement hnc hAB h

instance decidableNoForgery (J : Joint) (op : Side × PartyOp) : Decidable (J.NoForgery op) :=
  decidable_of_iff
    (∀ m ∈ op.2.input,
      (m.signer = (J .alice).agent.pubkey → m.verify = .ok () → m ∈ (J .alice).released) ∧
        (m.signer = (J .bob).agent.pubkey → m.verify = .ok () → m ∈ (J .bob).released))
    ⟨fun h m hm s => match s with
      | .alice => (h m hm).1
      | .bob => (h m hm).2,
    fun h m hm => ⟨h m hm .alice, h m hm .bob⟩⟩

end

end Joint

section Sample

attribute [local instance] sampleBlake3 sampleEd25519

/-- Two agents that know the echo contract. -/
def sampleAgents : Side → AgentSdk
  | .alice => (AgentSdk.new ⟨hashOfNat 1⟩).registerContract echoContract
  | .bob => (AgentSdk.new ⟨hashOfNat 2⟩).registerContract echoContract

def dealAccept : Accept := .sign ⟨hashOfNat 2⟩ samplePropose.proposalHash 10

def dealExecute : Execute := .sign ⟨hashOfNat 1⟩ samplePropose.proposalHash [5] ⟨[5]⟩ 20

/-- A proposal, its accept and its execution, with the accept delivered twice. -/
def dealSteps : List (Side × PartyOp) :=
  [(.alice, .propose echoContract.programHashV2 [5] (hashOfNat 2) 0 100 1),
    (.bob, .handlePropose samplePropose 10 fun _ _ => .ok ()),
    (.bob, .resume (.answering samplePropose 10) .accept fun _ _ => .error "slow network"),
    (.alice, .handleAccept dealAccept [5] 20),
    (.alice, .resume (.executing samplePropose dealAccept [5] 20) .accept fun _ _ => .ok ()),
    (.alice, .handleAccept dealAccept [5] 21),
    (.bob, .handleExecute dealExecute)]

theorem two_party_agreement_deal :
    (Joint.ofSteps sampleAgents dealSteps .bob).agent.proposals.get samplePropose.proposalHash =
        some (.executed samplePropose dealAccept dealExecute) ∧
      Joint.Agreement (Joint.ofSteps sampleAgents dealSteps .alice)
        (Joint.ofSteps sampleAgents dealSteps .bob) samplePropose.proposalHash := by
  have hall : ∀ p ∈ (Joint.ofSteps sampleAgents dealSteps).proposals, p = samplePropose := by
    decide +kernel
  refine ⟨by decide +kernel, Joint.two_party_agreement sampleAgents ?_ (by decide +kernel) dealSteps
    (by decide +kernel) ?_ .alice .bob (by decide) samplePropose.proposalHash⟩
  · intro s
    cases s <;> rfl
  · intro x hx y hy _
    obtain ⟨p, hp, rfl⟩ := List.mem_map.mp hx
    obtain ⟨q, hq, rfl⟩ := List.mem_map.mp hy
    rw [hall p hp, hall q hq]

end Sample

end PslBank.Agent
