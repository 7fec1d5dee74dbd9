import PslBank.Agent.TwoParty

/-!
# Reputation

The counters of `agent_protocol/src/reputation.rs` with their score, and the part of the runtime
that writes them: `handle_execute` counts an execution for the agent that signed it, as completed
where the contract gives the signed output and as a lost dispute where not. Every counter
saturates, so over a run it is the number of calls cut off at the top of `u64`. A proposal is
executed once in a log, so a run counts it at most once, whatever is sent again.
-/
namespace PslBank.Agent

open PslBank.Lib PslBank.Crypto PslBank.Contracts PslBank.Wallet

set_option autoImplicit false

/-- What a `u64` counter shows after `n` saturating increments from zero. -/
def saturated (n : ℕ) : ℕ := min n (2 ^ 64 - 1)

theorem toNat_saturatingSucc (n : UInt64) : (saturatingSucc n).toNat = saturated (n.toNat + 1) := by
  have hn := n.toNat_lt
  unfold saturatingSucc saturated
  split
  · rw [UInt64.toNat_add, show (1 : UInt64).toNat = 1 from rfl]
    omega
  · omega

theorem saturated_saturated_add (m n : ℕ) : saturated (saturated m + n) = saturated (m + n) := by
  unfold saturated
  omega

theorem saturated_toNat (n : UInt64) : saturated n.toNat = n.toNat := by
  have hn := n.toNat_lt
  unfold saturated
  omega

/-! ## The score -/

namespace ReputationCounters

/-- The share of the disputes that were lost, in thousandths. -/
def disputePenalty (c : ReputationCounters) : ℕ :=
  if c.disputed = 0 then 0 else c.disputesLost.toNat * 1000 / max c.disputed.toNat 1

/-- `score`. The products are in `u128` and stay below `2 ^ 74`; the cast to `u32` is of a value up
to 1000. -/
def score (c : ReputationCounters) : ℕ :=
  if c.initiated = 0 then 500
  else min (c.completed.toNat * 1000 / max c.initiated.toNat 1 - c.disputePenalty) 1000

theorem score_le (c : ReputationCounters) : c.score ≤ 1000 := by
  unfold score
  split
  · decide
  · exact Nat.min_le_right _ _

theorem toNat_pos {n : UInt64} (h : n ≠ 0) : 0 < n.toNat := by
  rw [Nat.pos_iff_ne_zero]
  intro hzero
  exact h (UInt64.toNat_inj.mp hzero)

/-- A better record of completed work and no worse a one of disputes score no less. -/
theorem score_mono {c c' : ReputationCounters} (hi : c.initiated ≠ 0) (hi' : c'.initiated ≠ 0)
    (hshare : c.completed.toNat * 1000 / c.initiated.toNat ≤ c'.completed.toNat * 1000 / c'.initiated.toNat)
    (hpenalty : c'.disputePenalty ≤ c.disputePenalty) : c.score ≤ c'.score := by
  have hpos := toNat_pos hi
  have hpos' := toNat_pos hi'
  rw [score, score, if_neg hi, if_neg hi', Nat.max_eq_left hpos, Nat.max_eq_left hpos']
  omega

end ReputationCounters

theorem le_saturatingSucc (n : UInt64) : n.toNat ≤ (saturatingSucc n).toNat := by
  have hn := n.toNat_lt
  rw [toNat_saturatingSucc]
  unfold saturated
  omega

theorem saturatingSucc_ne_zero (n : UInt64) : saturatingSucc n ≠ 0 := by
  intro hzero
  have h := toNat_saturatingSucc n
  rw [hzero] at h
  unfold saturated at h
  have hz : (0 : UInt64).toNat = 0 := rfl
  omega

namespace ReputationCounters

/-- Completed work never lowers the score. -/
theorem score_completed (c : ReputationCounters) :
    c.score ≤ ({ c with completed := saturatingSucc c.completed } : ReputationCounters).score := by
  by_cases hi : c.initiated = 0
  · rw [score, score, if_pos hi, if_pos hi]
  · exact score_mono hi hi (Nat.div_le_div_right (Nat.mul_le_mul_right _ (le_saturatingSucc _))) le_rfl

/-- A lost dispute never raises it. -/
theorem score_disputeLost (c : ReputationCounters) :
    ({ c with disputesLost := saturatingSucc c.disputesLost } : ReputationCounters).score ≤ c.score := by
  by_cases hi : c.initiated = 0
  · rw [score, score, if_pos hi, if_pos hi]
  · refine score_mono hi hi le_rfl ?_
    unfold disputePenalty
    split
    · exact le_rfl
    · exact Nat.div_le_div_right (Nat.mul_le_mul_right _ (le_saturatingSucc _))

/-- From the second contract on, one more that is not completed yet never raises it. -/
theorem score_initiated {c : ReputationCounters} (hi : c.initiated ≠ 0) :
    ({ c with initiated := saturatingSucc c.initiated } : ReputationCounters).score ≤ c.score :=
  score_mono (saturatingSucc_ne_zero _) hi
    (Nat.div_le_div_left (le_saturatingSucc _) (toNat_pos hi)) le_rfl

/-- From the second dispute on, one more that is not lost yet never lowers it. -/
theorem score_disputeOpened {c : ReputationCounters} (hd : c.disputed ≠ 0) :
    c.score ≤ ({ c with disputed := saturatingSucc c.disputed } : ReputationCounters).score := by
  by_cases hi : c.initiated = 0
  · rw [score, score, if_pos hi, if_pos hi]
  · refine score_mono hi hi le_rfl ?_
    have hpos := toNat_pos hd
    have hle := le_saturatingSucc c.disputed
    rw [disputePenalty, disputePenalty, if_neg hd, if_neg (saturatingSucc_ne_zero _),
      Nat.max_eq_left hpos, Nat.max_eq_left (hpos.trans_le hle)]
    exact Nat.div_le_div_left hle hpos

end ReputationCounters

/-! ## The log of counters -/

structure ReputationLog where
  byAgent : PublicKey → Option ReputationCounters

namespace ReputationLog

def new : ReputationLog := ⟨fun _ => none⟩

def get (log : ReputationLog) (agent : PublicKey) : ReputationCounters := (log.byAgent agent).getD {}

/-- A change of the entry of one agent, which starts at zero. -/
def onEntry (log : ReputationLog) (agent : PublicKey) (f : ReputationCounters → ReputationCounters) :
    ReputationLog :=
  ⟨Function.update log.byAgent agent (some (f (log.get agent)))⟩

def recordInitiated (log : ReputationLog) (agent : PublicKey) : ReputationLog :=
  log.onEntry agent fun c => { c with initiated := saturatingSucc c.initiated }

def recordCompleted (log : ReputationLog) (agent : PublicKey) : ReputationLog :=
  log.onEntry agent fun c => { c with completed := saturatingSucc c.completed }

def recordDisputeOpened (log : ReputationLog) (agent : PublicKey) : ReputationLog :=
  log.onEntry agent fun c => { c with disputed := saturatingSucc c.disputed }

def recordDisputeLost (log : ReputationLog) (agent : PublicKey) : ReputationLog :=
  log.onEntry agent fun c => { c with disputesLost := saturatingSucc c.disputesLost }

/-- One call of the log. -/
inductive Call where
  | initiated (agent : PublicKey)
  | completed (agent : PublicKey)
  | disputeOpened (agent : PublicKey)
  | disputeLost (agent : PublicKey)
  deriving DecidableEq

def step (log : ReputationLog) : Call → ReputationLog
  | .initiated agent => log.recordInitiated agent
  | .completed agent => log.recordCompleted agent
  | .disputeOpened agent => log.recordDisputeOpened agent
  | .disputeLost agent => log.recordDisputeLost agent

theorem get_onEntry (log : ReputationLog) (agent k : PublicKey)
    (f : ReputationCounters → ReputationCounters) :
    (log.onEntry agent f).get k = if k = agent then f (log.get k) else log.get k := by
  unfold onEntry get
  by_cases hk : k = agent
  · subst hk
    simp
  · simp [hk]

/-- The counters of an agent are the numbers of its own calls. -/
structure Counts (c : ReputationCounters) (k : PublicKey) (calls : List Call) : Prop where
  initiated : c.initiated.toNat = saturated (calls.count (.initiated k))
  completed : c.completed.toNat = saturated (calls.count (.completed k))
  disputed : c.disputed.toNat = saturated (calls.count (.disputeOpened k))
  disputes_lost : c.disputesLost.toNat = saturated (calls.count (.disputeLost k))

/-- Each counter of an agent goes up on the one call that is for it. -/
theorem get_step (log : ReputationLog) (call : Call) (k : PublicKey) :
    (log.step call).get k =
      ⟨if call = .initiated k then saturatingSucc (log.get k).initiated else (log.get k).initiated,
        if call = .completed k then saturatingSucc (log.get k).completed else (log.get k).completed,
        if call = .disputeOpened k then saturatingSucc (log.get k).disputed else (log.get k).disputed,
        if call = .disputeLost k then saturatingSucc (log.get k).disputesLost
          else (log.get k).disputesLost⟩ := by
  cases call with
  | initiated agent | completed agent | disputeOpened agent | disputeLost agent =>
    by_cases hk : k = agent
    · subst hk
      simp [step, recordInitiated, recordCompleted, recordDisputeOpened, recordDisputeLost, get_onEntry]
    · simp [step, recordInitiated, recordCompleted, recordDisputeOpened, recordDisputeLost, get_onEntry,
        hk, Ne.symm hk]

theorem counter_step {n : UInt64} {calls : List Call} {x : Call} (h : n.toNat = saturated (calls.count x))
    (call : Call) :
    (if call = x then saturatingSucc n else n).toNat = saturated ((calls ++ [call]).count x) := by
  rw [List.count_append]
  by_cases hx : call = x
  · subst hx
    rw [if_pos rfl, toNat_saturatingSucc, h, saturated_saturated_add, List.count_singleton_self]
  · rw [if_neg hx, h, List.count_singleton, beq_false_of_ne hx]
    rfl

theorem counts_step {log : ReputationLog} {k : PublicKey} {calls : List Call}
    (h : Counts (log.get k) k calls) (call : Call) : Counts ((log.step call).get k) k (calls ++ [call]) := by
  rw [get_step]
  exact ⟨counter_step h.initiated call, counter_step h.completed call, counter_step h.disputed call,
    counter_step h.disputes_lost call⟩

theorem counts_run (calls : List Call) (k : PublicKey) : Counts ((run step new calls).get k) k calls := by
  induction calls using List.reverseRecOn with
  | nil => exact ⟨rfl, rfl, rfl, rfl⟩
  | append_singleton calls call ih =>
    rw [run_append]
    exact counts_step ih call

/-- After any sequence of calls the counters of an agent are the saturated numbers of its own calls,
and the next call moves its score in one direction only: completed work never down, a lost dispute
never up, new work never up and a new dispute never down once there was one before. -/
theorem score_run (calls : List Call) (k : PublicKey) :
    Counts ((run step new calls).get k) k calls ∧ ((run step new calls).get k).score ≤ 1000 ∧
      ((run step new calls).get k).score ≤ ((run step new (calls ++ [.completed k])).get k).score ∧
      ((run step new (calls ++ [.disputeLost k])).get k).score ≤ ((run step new calls).get k).score ∧
      (.initiated k ∈ calls →
        ((run step new (calls ++ [.initiated k])).get k).score ≤ ((run step new calls).get k).score) ∧
      (.disputeOpened k ∈ calls →
        ((run step new calls).get k).score ≤
          ((run step new (calls ++ [.disputeOpened k])).get k).score) := by
  have hcounts := counts_run calls k
  have hcalled : ∀ {x : Call} {n : UInt64}, n.toNat = saturated (calls.count x) → x ∈ calls → n ≠ 0 := by
    intro x n hn hx hzero
    have hpos := List.count_pos_iff.mpr hx
    rw [hzero] at hn
    have hz : (0 : UInt64).toNat = 0 := rfl
    unfold saturated at hn
    omega
  have hnext : ∀ call, run step new (calls ++ [call]) = (run step new calls).step call :=
    fun call => run_append _ _ _
  refine ⟨hcounts, ReputationCounters.score_le _, ?_, ?_, ?_, ?_⟩
  · rw [hnext, get_step]
    simpa using ReputationCounters.score_completed _
  · rw [hnext, get_step]
    simpa using ReputationCounters.score_disputeLost _
  · intro hmem
    rw [hnext, get_step]
    simpa using ReputationCounters.score_initiated (hcalled hcounts.initiated hmem)
  · intro hmem
    rw [hnext, get_step]
    simpa using ReputationCounters.score_disputeOpened (hcalled hcounts.disputed hmem)

end ReputationLog

/-! ## Executions counted by the runtime -/

/-- The counters of an agent after `won` executions that went as signed and `lost` that did not. -/
structure Tallied (before after : ReputationCounters) (won lost : ℕ) : Prop where
  initiated : after.initiated = before.initiated
  disputed : after.disputed = before.disputed
  completed : after.completed.toNat = saturated (before.completed.toNat + won)
  disputes_lost : after.disputesLost.toNat = saturated (before.disputesLost.toNat + lost)

theorem Tallied.refl (c : ReputationCounters) : Tallied c c 0 0 :=
  ⟨rfl, rfl, (saturated_toNat _).symm, (saturated_toNat _).symm⟩

theorem Tallied.trans {c c' c'' : ReputationCounters} {m n m' n' : ℕ} (h : Tallied c c' m n)
    (h' : Tallied c' c'' m' n') : Tallied c c'' (m + m') (n + n') where
  initiated := h'.initiated.trans h.initiated
  disputed := h'.disputed.trans h.disputed
  completed := by rw [h'.completed, h.completed, saturated_saturated_add, Nat.add_assoc]
  disputes_lost := by rw [h'.disputes_lost, h.disputes_lost, saturated_saturated_add, Nat.add_assoc]

/-- One count goes to one agent. -/
theorem tallied_credit (agent : AgentSdk) (key k : PublicKey) (agreed : Bool) :
    Tallied (agent.localReputation k) ((agent.credit key agreed).localReputation k)
      (if key = k ∧ agreed = true then 1 else 0) (if key = k ∧ agreed = false then 1 else 0) := by
  by_cases hk : key = k
  · subst hk
    have hafter : (agent.credit key agreed).localReputation key =
        if agreed then { agent.localReputation key with
            completed := saturatingSucc (agent.localReputation key).completed }
          else { agent.localReputation key with
            disputesLost := saturatingSucc (agent.localReputation key).disputesLost } := by
      simp [AgentSdk.credit, AgentSdk.localReputation]
    cases agreed with
    | true =>
      rw [hafter]
      exact ⟨rfl, rfl, by simpa using toNat_saturatingSucc _, by simpa using (saturated_toNat _).symm⟩
    | false =>
      rw [hafter]
      exact ⟨rfl, rfl, by simpa using (saturated_toNat _).symm, by simpa using toNat_saturatingSucc _⟩
  · have hafter : (agent.credit key agreed).localReputation k = agent.localReputation k := by
      simp [AgentSdk.credit, AgentSdk.localReputation, Ne.symm hk]
    rw [hafter, if_neg (fun h => hk h.1), if_neg (fun h => hk h.1)]
    exact Tallied.refl _

/-- An execute message that `handle_execute` answered with `Ok(agreed)`. -/
structure Settlement where
  execute : Execute
  agreed : Bool

section

variable [Ed25519] [Blake3]

/-- What an operation settles. -/
def settled (P : Party) : PartyOp → List Settlement
  | .handleExecute e =>
      match (P.agent.handleExecute e).result with
      | .ok agreed => [⟨e, agreed⟩]
      | .error _ => []
  | .propose .. => []
  | .handlePropose .. => []
  | .handleAccept .. => []
  | .resume .. => []
  | .expireDue _ => []

/-- What a run settles, in order. -/
def settlements : Party → List PartyOp → List Settlement
  | _, [] => []
  | P, op :: ops => settled P op ++ settlements (P.step op) ops

/-- Counters and contracts are the same. -/
structure SameBooks (agent agent' : AgentSdk) : Prop where
  reputation : agent'.reputation = agent.reputation
  contracts : agent'.contracts = agent.contracts

omit [Ed25519] [Blake3] in
theorem SameBooks.refl (agent : AgentSdk) : SameBooks agent agent := ⟨rfl, rfl⟩

theorem sameBooks_issue (agent : AgentSdk) (m : ProtocolMessage) (transport : Transport)
    (toKey : PublicKey) : SameBooks agent (agent.issue m transport toKey).agent := by
  rcases agent.issue_cases m transport toKey with ⟨e, -, he⟩ | ⟨-, he⟩ <;> rw [he] <;> exact ⟨rfl, rfl⟩

theorem sameBooks_receivePropose (agent : AgentSdk) (p : Propose) (now : UInt64)
    (transport : Transport) : SameBooks agent (agent.receivePropose p now transport).agent := by
  rcases agent.receivePropose_cases p now transport with ⟨e, -, he⟩ | ⟨-, -, he⟩ | ⟨-, -, he⟩ <;>
    rw [he] <;> exact ⟨rfl, rfl⟩

theorem sameBooks_takeAccept (agent : AgentSdk) (a : Accept) :
    SameBooks agent (agent.takeAccept a).agent := by
  rcases agent.takeAccept_cases a with ⟨e, -, he⟩ | ⟨p, -, he⟩ <;> rw [he] <;> exact ⟨rfl, rfl⟩

theorem sameBooks_perform (agent : AgentSdk) (decision : ProposeDecision) (transport : Transport)
    (task : Task) : SameBooks agent (Party.perform agent decision transport task).agent := by
  cases task with
  | answering p now => exact sameBooks_issue agent _ transport p.fromKey
  | executing p a witness now =>
    show SameBooks agent (agent.executeAccepted p a witness now transport).agent
    rcases agent.executeAccepted_cases p a witness now transport with
      ⟨-, he⟩ | ⟨contract, e, -, -, he⟩ | ⟨contract, out, -, -, he⟩
    · rw [he]
      exact SameBooks.refl agent
    · rw [he]
      exact SameBooks.refl agent
    · rw [he]
      exact sameBooks_issue agent _ transport a.byKey

/-- An execute message is answered with an error and no count, or it is the first one taken for its
proposal and is counted. -/
theorem handleExecute_settles (agent : AgentSdk) (e : Execute) :
    (∃ err, (agent.handleExecute e).result = .error err ∧
      SameBooks agent (agent.handleExecute e).agent) ∨
    ∃ p a contract out, agent.proposals.TakesExecute e p a ∧
      agent.contracts.lookup p.programHash = some contract ∧ contract.run e.witness = .ok out ∧
      (agent.handleExecute e).result = .ok (decide (out = e.expectedOutput.bytes)) ∧
      (agent.handleExecute e).agent =
        (agent.recorded (.execute e)).credit e.byKey (decide (out = e.expectedOutput.bytes)) := by
  rcases agent.handleExecute_cases e with ⟨err, -, he⟩ | ⟨p, a, htakes, he⟩
  · exact .inl ⟨_, by rw [he], by rw [he]; exact ⟨rfl, rfl⟩⟩
  · rcases (agent.recorded (.execute e)).settleExecute_cases p e with
      ⟨-, hs⟩ | ⟨contract, err, -, -, hs⟩ | ⟨contract, out, hlookup, hrun, hs⟩
    · exact .inl ⟨_, by rw [he, hs]; rfl, by rw [he, hs]; exact ⟨rfl, rfl⟩⟩
    · exact .inl ⟨_, by rw [he, hs]; rfl, by rw [he, hs]; exact ⟨rfl, rfl⟩⟩
    · exact .inr ⟨p, a, contract, out, htakes, hlookup, hrun, by rw [he, hs]; rfl, by rw [he, hs]; rfl⟩

/-- A step counts nothing, or it settles one execute message and counts that. -/
theorem step_settles (P : Party) (op : PartyOp) :
    (settled P op = [] ∧ SameBooks P.agent (P.step op).agent) ∨
    ∃ e p a contract out, op = .handleExecute e ∧ P.agent.proposals.TakesExecute e p a ∧
      P.agent.contracts.lookup p.programHash = some contract ∧ contract.run e.witness = .ok out ∧
      settled P op = [⟨e, decide (out = e.expectedOutput.bytes)⟩] ∧
      (P.step op).agent =
        (P.agent.recorded (.execute e)).credit e.byKey (decide (out = e.expectedOutput.bytes)) := by
  cases op with
  | propose => exact .inl ⟨rfl, rfl, rfl⟩
  | handlePropose p now transport => exact .inl ⟨rfl, sameBooks_receivePropose P.agent p now transport⟩
  | handleAccept a witness now => exact .inl ⟨rfl, sameBooks_takeAccept P.agent a⟩
  | handleExecute e =>
    rcases handleExecute_settles P.agent e with
      ⟨err, he, hbooks⟩ | ⟨p, a, contract, out, htakes, hlookup, hrun, he, hagent⟩
    · exact .inl ⟨by simp only [settled, he], hbooks⟩
    · exact .inr ⟨e, p, a, contract, out, rfl, htakes, hlookup, hrun, by simp only [settled, he], hagent⟩
  | resume task decision transport =>
    refine .inl ⟨rfl, ?_⟩
    rw [Party.step]
    split
    · exact sameBooks_perform P.agent decision transport task
    · exact SameBooks.refl _
  | expireDue now => exact .inl ⟨rfl, rfl, rfl⟩

/-! ## Whole runs -/

/-- The settled executions of one agent that went as signed, or that did not. -/
def tally (k : PublicKey) (agreed : Bool) (es : List Settlement) : ℕ :=
  es.countP fun s => decide (s.execute.byKey = k ∧ s.agreed = agreed)

theorem step_evolves (P : Party) (op : PartyOp) :
    ∃ via, P.agent.proposals.Evolves via (P.step op).agent.proposals := by
  obtain ⟨fresh, out, hacts⟩ := P.step_acts op
  exact ⟨_, hacts.evolves⟩

theorem step_contracts (P : Party) (op : PartyOp) : (P.step op).agent.contracts = P.agent.contracts := by
  rcases step_settles P op with ⟨-, hbooks⟩ | ⟨e, p, a, contract, out, -, -, -, -, -, hagent⟩
  · exact hbooks.contracts
  · rw [hagent]
    rfl

/-- An entry that is past the accept keeps its state. -/
theorem step_executed {P : Party} {h : ProposalHash} {p : Propose} {a : Accept} {e : Execute}
    (hentry : P.agent.proposals.byHash h = some (.executed p a e)) (op : PartyOp) :
    (P.step op).agent.proposals.byHash h = some (.executed p a e) := by
  obtain ⟨via, hevolves⟩ := step_evolves P op
  rcases hevolves h with heq | hmove
  · rw [heq, hentry]
  · rw [hentry] at hmove
    cases hmove

theorem run_executed {P : Party} {h : ProposalHash} {p : Propose} {a : Accept} {e : Execute}
    (hentry : P.agent.proposals.byHash h = some (.executed p a e)) (ops : List PartyOp) :
    (run Party.step P ops).agent.proposals.byHash h = some (.executed p a e) := by
  induction ops generalizing P with
  | nil => exact hentry
  | cons op ops ih => exact ih (step_executed hentry op)

theorem tallied_step (P : Party) (op : PartyOp) (k : PublicKey) :
    Tallied (P.agent.localReputation k) ((P.step op).agent.localReputation k)
      (tally k true (settled P op)) (tally k false (settled P op)) := by
  rcases step_settles P op with ⟨hnone, hbooks⟩ | ⟨e, p, a, contract, out, -, -, -, -, hone, hagent⟩
  · have hsame : (P.step op).agent.localReputation k = P.agent.localReputation k :=
      congrArg (fun r : PublicKey → Option ReputationCounters => (r k).getD {}) hbooks.reputation
    rw [hnone, hsame]
    exact Tallied.refl _
  · rw [hone, hagent]
    have hcredit : Tallied (P.agent.localReputation k) _ _ _ := tallied_credit (P.agent.recorded (.execute e)) e.byKey k
      (decide (out = e.expectedOutput.bytes))
    simpa only [tally, List.countP_singleton, decide_eq_true_eq] using hcredit

theorem tallied_run (P : Party) (ops : List PartyOp) (k : PublicKey) :
    Tallied (P.agent.localReputation k) ((run Party.step P ops).agent.localReputation k)
      (tally k true (settlements P ops)) (tally k false (settlements P ops)) := by
  induction ops generalizing P with
  | nil => exact Tallied.refl _
  | cons op ops ih =>
    rw [settlements, tally, tally, List.countP_append, List.countP_append]
    exact (tallied_step P op k).trans (ih (P.step op))

/-- What a run settles was not settled before it. -/
theorem phase_of_settlement {P : Party} {ops : List PartyOp} {s : Settlement}
    (hs : s ∈ settlements P ops) : phase (P.agent.proposals.byHash s.execute.proposalHash) ≤ 2 := by
  induction ops generalizing P with
  | nil => cases hs
  | cons op ops ih =>
    rcases List.mem_append.mp hs with hhead | htail
    · rcases step_settles P op with ⟨hnone, -⟩ | ⟨e, p, a, contract, out, -, htakes, -, -, hone, -⟩
      · rw [hnone] at hhead
        cases hhead
      · rw [hone, List.mem_singleton] at hhead
        subst hhead
        rw [htakes.entry]
        exact le_rfl
    · obtain ⟨via, hevolves⟩ := step_evolves P op
      exact (hevolves.phase_le _).trans (ih htail)

theorem settlements_nodup (P : Party) (ops : List PartyOp) :
    ((settlements P ops).map fun s => s.execute.proposalHash).Nodup := by
  induction ops generalizing P with
  | nil => exact List.nodup_nil
  | cons op ops ih =>
    rw [settlements, List.map_append]
    rcases step_settles P op with ⟨hnone, -⟩ | ⟨e, p, a, contract, out, -, htakes, -, -, hone, hagent⟩
    · rw [hnone]
      exact ih _
    · rw [hone]
      refine List.nodup_cons.mpr ⟨?_, ih _⟩
      intro hagain
      obtain ⟨s, hs, hhash⟩ := List.mem_map.mp hagain
      have hlate := phase_of_settlement hs
      -- the entry is executed from here on
      have hexecuted : (P.step op).agent.proposals.byHash e.proposalHash = some (.executed p a e) := by
        rw [hagent]
        show (P.agent.proposals.applyExecute e).1.byHash _ = _
        rw [htakes.apply, ProposalLog.insert_byHash, if_pos rfl]
      rw [hhash, hexecuted] at hlate
      exact absurd hlate (by simp [phase])

/-- Every settlement of a run is in the log at its end, was signed by the proposer, and says what the
registered contract gives for its witness. -/
theorem settlements_sound {P : Party} {ops : List PartyOp} {s : Settlement} (hs : s ∈ settlements P ops) :
    ∃ p a contract out,
      (run Party.step P ops).agent.proposals.byHash s.execute.proposalHash =
        some (.executed p a s.execute) ∧
      s.execute.verify = .ok () ∧ s.execute.byKey = p.fromKey ∧
      P.agent.contracts.lookup p.programHash = some contract ∧ contract.run s.execute.witness = .ok out ∧
      s.agreed = decide (out = s.execute.expectedOutput.bytes) := by
  induction ops generalizing P with
  | nil => cases hs
  | cons op ops ih =>
    rcases List.mem_append.mp hs with hhead | htail
    · rcases step_settles P op with ⟨hnone, -⟩ | ⟨e, p, a, contract, out, -, htakes, hlookup, hrun, hone, hagent⟩
      · rw [hnone] at hhead
        cases hhead
      · rw [hone, List.mem_singleton] at hhead
        subst hhead
        refine ⟨p, a, contract, out, run_executed ?_ ops, htakes.verified, htakes.signed_by, hlookup, hrun, rfl⟩
        rw [hagent]
        show (P.agent.proposals.applyExecute e).1.byHash _ = _
        rw [htakes.apply, ProposalLog.insert_byHash, if_pos rfl]
    · obtain ⟨p, a, contract, out, hentry, hverify, hby, hlookup, hrun, hagreed⟩ := ih htail
      rw [step_contracts] at hlookup
      exact ⟨p, a, contract, out, hentry, hverify, hby, hlookup, hrun, hagreed⟩

/-- Over every interleaving of handler calls, whatever they are handed and however often: each
proposal is counted at most once, for the proposer who signed its execution and by what the
registered contract gives, and the counters of every agent have moved by exactly these counts. -/
theorem reputation_counts_once (agent : AgentSdk) (ops : List PartyOp) :
    ((settlements (Party.start agent) ops).map fun s => s.execute.proposalHash).Nodup ∧
    (∀ s ∈ settlements (Party.start agent) ops, ∃ p a contract out,
      (run Party.step (Party.start agent) ops).agent.proposals.byHash s.execute.proposalHash =
        some (.executed p a s.execute) ∧
      s.execute.verify = .ok () ∧ s.execute.byKey = p.fromKey ∧
      agent.contracts.lookup p.programHash = some contract ∧ contract.run s.execute.witness = .ok out ∧
      s.agreed = decide (out = s.execute.expectedOutput.bytes)) ∧
    ∀ k, Tallied (agent.localReputation k)
      ((run Party.step (Party.start agent) ops).agent.localReputation k)
      (tally k true (settlements (Party.start agent) ops))
      (tally k false (settlements (Party.start agent) ops)) :=
  ⟨settlements_nodup _ ops, fun _ hs => settlements_sound hs, tallied_run (Party.start agent) ops⟩

end

end PslBank.Agent
