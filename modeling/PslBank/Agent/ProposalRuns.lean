import PslBank.Agent.StateMachine

/-!
# The proposal log over whole runs

What the moves of an entry keep: the entry stays valid, is never lost and never
changes its proposal, and its phase only grows. A message acts in one phase only, and
a message that was handled leaves a later phase behind, so a replay finds nothing to
do. The window of a proposal is not among the things kept: `apply_execute` looks at no
clock.
-/
namespace PslBank.Agent

open PslBank.Lib PslBank.Crypto PslBank.Contracts

set_option autoImplicit false

/-- The entry is kept, with its proposal, and unchanged once settled. -/
def Kept (o o' : Option ProposalState) : Prop :=
  ∀ st, o = some st → ∃ st', o' = some st' ∧ st'.propose = st.propose ∧ (st.Settled → st' = st)

/-- Nothing is lost by doing nothing. -/
theorem Kept.refl (o : Option ProposalState) : Kept o o := fun st hst => ⟨st, hst, rfl, fun _ => rfl⟩

/-- What is kept twice is kept. -/
theorem Kept.trans {o o' o'' : Option ProposalState} (h : Kept o o') (h' : Kept o' o'') :
    Kept o o'' := by
  intro st hst
  obtain ⟨st', hst', hp', hs'⟩ := h st hst
  obtain ⟨st'', hst'', hp'', hs''⟩ := h' st' hst'
  refine ⟨st'', hst'', hp''.trans hp', fun hset => ?_⟩
  obtain rfl := hs' hset
  exact hs'' hset

/-- How far an entry is along the diagram. -/
def phase : Option ProposalState → ℕ
  | none => 0
  | some (.proposed _) => 1
  | some (.accepted _ _) => 2
  | some (.rejected _ _) => 3
  | some (.counterProposed _ _) => 3
  | some (.executed _ _ _) => 3
  | some (.expired _ _) => 3

/-- The only phase in which the message does something. -/
def ProtocolMessage.phase : ProtocolMessage → ℕ
  | .propose _ => 0
  | .accept _ => 1
  | .reject _ => 1
  | .counterPropose _ => 1
  | .execute _ => 2

/-- A transition function that leaves entries of phases other than `n` alone and
succeeds into a later phase. -/
structure ActsInPhase (n : ℕ) (next : ProposalState → ProposalState × Except ProtocolError Unit) :
    Prop where
  idle : ∀ st, phase (some st) ≠ n → (next st).1 = st
  advances : ∀ st, (next st).2 = .ok () → n < phase (some (next st).1)

theorem ActsInPhase.of_cases {n : ℕ}
    {next : ProposalState → ProposalState × Except ProtocolError Unit}
    (h : ∀ st, (∃ e, next st = (st, .error e)) ∨
      phase (some st) = n ∧ ((next st).2 = .ok () → n < phase (some (next st).1))) :
    ActsInPhase n next := by
  constructor
  · intro st hne
    rcases h st with ⟨e, he⟩ | ⟨heq, -⟩
    · rw [he]
    · exact absurd heq hne
  · intro st hok
    rcases h st with ⟨e, he⟩ | ⟨-, hlt⟩
    · rw [he] at hok
      cases hok
    · exact hlt hok

namespace ProposalState

/-- An accept, a reject and a counter-proposal act on proposed entries; an execute acts on
accepted ones. -/
theorem onAccept_acts (a : Accept) : ActsInPhase 1 (onAccept a) := by
  apply ActsInPhase.of_cases
  intro st
  rcases onAccept_cases a st with he | ⟨p, rfl, -, ⟨-, he⟩ | ⟨-, he⟩⟩
  · exact .inl he
  · exact .inr ⟨rfl, fun _ => by rw [he]; simp [phase]⟩
  · exact .inr ⟨rfl, fun hok => by rw [he] at hok; cases hok⟩

theorem onReject_acts (r : Reject) : ActsInPhase 1 (onReject r) := by
  apply ActsInPhase.of_cases
  intro st
  rcases onReject_cases r st with he | ⟨p, rfl, -, he⟩
  · exact .inl he
  · exact .inr ⟨rfl, fun _ => by rw [he]; simp [phase]⟩

theorem onCounter_acts (c : CounterPropose) : ActsInPhase 1 (onCounter c) := by
  apply ActsInPhase.of_cases
  intro st
  rcases onCounter_cases c st with he | ⟨p, rfl, -, he⟩
  · exact .inl he
  · exact .inr ⟨rfl, fun _ => by rw [he]; simp [phase]⟩

theorem onExecute_acts (e : Execute) : ActsInPhase 2 (onExecute e) := by
  apply ActsInPhase.of_cases
  intro st
  rcases onExecute_cases e st with he | ⟨p, a, rfl, -, he⟩
  · exact .inl he
  · exact .inr ⟨rfl, fun _ => by rw [he]; simp [phase]⟩

end ProposalState

namespace ProposalLog

section Transition

variable {log : ProposalLog} {verified : Except ProtocolError Unit} {h : ProposalHash} {n : ℕ}
  {next : ProposalState → ProposalState × Except ProtocolError Unit}

/-- In any other phase the log is left alone. -/
theorem transition_idle (hacts : ActsInPhase n next) (hne : phase (log.byHash h) ≠ n) :
    (log.transition verified h next).1 = log := by
  rcases log.transition_cases verified h next with ⟨e, he⟩ | ⟨st, -, hg, he⟩
  · rw [he]
  · rw [hg] at hne
    rw [he, hacts.idle st hne]
    exact insert_self hg

/-- A success takes the entry past its phase. -/
theorem transition_advances (hacts : ActsInPhase n next)
    (hok : (log.transition verified h next).2 = .ok ()) :
    n < phase ((log.transition verified h next).1.byHash h) := by
  rcases log.transition_cases verified h next with ⟨e, he⟩ | ⟨st, -, hg, he⟩
  · rw [he] at hok
    cases hok
  · rw [he] at hok ⊢
    rw [insert_byHash, if_pos rfl]
    exact hacts.advances st hok

/-- A failure that changes no entry leaves the log alone. -/
theorem transition_error {e : ProtocolError}
    (hnext : ∀ st, (∃ err, next st = (st, .error err)) ∨ (next st).2 = .ok ())
    (herr : (log.transition verified h next).2 = .error e) :
    (log.transition verified h next).1 = log := by
  rcases log.transition_cases verified h next with ⟨err, he⟩ | ⟨st, -, hg, he⟩
  · rw [he]
  · rcases hnext st with ⟨err, hst⟩ | hok
    · rw [he, hst]
      exact insert_self hg
    · rw [he, hok] at herr
      cases herr

end Transition

end ProposalLog

section

variable [Ed25519]

/-- The accept belongs to the proposal and came in time. -/
structure AcceptFits (h : ProposalHash) (p : Propose) (a : Accept) : Prop where
  verified : a.verify = .ok ()
  names : a.proposalHash = h
  signed_by : a.byKey = p.toKey
  in_time : a.acceptedAtUnix ≤ p.validUntilUnix

/-- The messages stored beside the proposal belong to it. -/
def ProposalState.Attached (h : ProposalHash) : ProposalState → Prop
  | .proposed _ => True
  | .accepted p a => AcceptFits h p a
  | .rejected p r => r.verify = .ok () ∧ r.proposalHash = h ∧ r.byKey = p.toKey
  | .counterProposed p c => c.verify = .ok () ∧ c.originalProposalHash = h ∧ c.byKey = p.toKey
  | .executed p a e =>
      AcceptFits h p a ∧ e.verify = .ok () ∧ e.proposalHash = h ∧ e.byKey = p.fromKey
  | .expired _ _ => True

variable [Blake3]

/-- An entry is filed under its own hash, and everything in it was signed by the right key. -/
structure EntryValid (h : ProposalHash) (st : ProposalState) : Prop where
  key_eq : st.propose.proposalHash = h
  propose_verified : st.propose.verify = .ok ()
  attached : st.Attached h

/-! ## What one move keeps -/

section Moves

variable {via : ProtocolMessage → Prop} {h : ProposalHash} {o o' : Option ProposalState}

/-- A move by verified messages keeps that. -/
theorem Moves.valid (hmove : Moves via h o o') (ho : ∀ st, o = some st → EntryValid h st) :
    ∀ st, o' = some st → EntryValid h st := by
  cases hmove with
  | record hm hv hk =>
    rintro _ ⟨⟩
    exact ⟨hk, hv, trivial⟩
  | accept hm hv hk hby hin =>
    rintro _ ⟨⟩
    have hp := ho _ rfl
    exact ⟨hp.key_eq, hp.propose_verified, hv, hk, hby, hin⟩
  | lateAccept hm hv hk hby hlate =>
    rintro _ ⟨⟩
    have hp := ho _ rfl
    exact ⟨hp.key_eq, hp.propose_verified, trivial⟩
  | reject hm hv hk hby =>
    rintro _ ⟨⟩
    have hp := ho _ rfl
    exact ⟨hp.key_eq, hp.propose_verified, hv, hk, hby⟩
  | counter hm hv hk hby =>
    rintro _ ⟨⟩
    have hp := ho _ rfl
    exact ⟨hp.key_eq, hp.propose_verified, hv, hk, hby⟩
  | execute hm hv hk hby =>
    rintro _ ⟨⟩
    have hp := ho _ rfl
    exact ⟨hp.key_eq, hp.propose_verified, hp.attached, hv, hk, hby⟩
  | sweep hdue =>
    rintro _ ⟨⟩
    have hp := ho _ rfl
    exact ⟨hp.key_eq, hp.propose_verified, trivial⟩

/-- A move keeps the proposal, and no move starts from a settled entry. -/
theorem Moves.kept (hmove : Moves via h o o') : Kept o o' := by
  cases hmove with
  | record hm hv hk =>
    intro st hst
    cases hst
  | accept | lateAccept | reject | counter | execute | sweep =>
    rintro _ ⟨⟩
    exact ⟨_, rfl, rfl, False.elim⟩

/-- A move goes forward. -/
theorem Moves.phase_lt (hmove : Moves via h o o') : phase o < phase o' := by
  cases hmove <;> simp [phase]

end Moves

/-! ## What a run keeps -/

namespace ProposalLog

/-- Every entry is valid for its key. -/
def Valid (log : ProposalLog) : Prop := ∀ h st, log.byHash h = some st → EntryValid h st

/-- One call keeps validity, entry by entry. -/
theorem Evolves.valid {via : ProtocolMessage → Prop} {log log' : ProposalLog}
    (he : Evolves via log log') (hvalid : log.Valid) : log'.Valid := by
  intro h st hst
  rcases he h with heq | hmove
  · exact hvalid h st (heq ▸ hst)
  · exact hmove.valid (hvalid h) st hst

theorem Evolves.kept {via : ProtocolMessage → Prop} {log log' : ProposalLog}
    (he : Evolves via log log') (h : ProposalHash) : Kept (log.byHash h) (log'.byHash h) := by
  rcases he h with heq | hmove
  · rw [heq]
    exact Kept.refl _
  · exact hmove.kept

/-- No call takes a proposal back. -/
theorem Evolves.phase_le {via : ProtocolMessage → Prop} {log log' : ProposalLog}
    (he : Evolves via log log') (h : ProposalHash) :
    phase (log.byHash h) ≤ phase (log'.byHash h) := by
  rcases he h with heq | hmove
  · rw [heq]
  · exact hmove.phase_lt.le

theorem valid_new : new.Valid := fun _ _ hst => by cases hst

theorem valid_run (log : ProposalLog) (calls : List LogCall) (hvalid : log.Valid) :
    (run step log calls).Valid :=
  run_related (fun l l' => l.Valid → l'.Valid) (fun _ => id) (fun h h' hl => h' (h hl))
    (fun l call => (l.step_evolves call).valid) log calls hvalid

/-- Every log that calls lead to is valid. -/
theorem valid_ofCalls (calls : List LogCall) : (ofCalls calls).Valid :=
  valid_run new calls valid_new

/-- What a log has it keeps over any further calls. -/
theorem kept_run (log : ProposalLog) (calls : List LogCall) (h : ProposalHash) :
    Kept (log.byHash h) ((run step log calls).byHash h) :=
  run_related (fun l l' => Kept (l.byHash h) (l'.byHash h)) (fun _ => Kept.refl _) Kept.trans
    (fun l call => (l.step_evolves call).kept h) log calls

theorem phase_run (log : ProposalLog) (calls : List LogCall) (h : ProposalHash) :
    phase (log.byHash h) ≤ phase ((run step log calls).byHash h) :=
  run_related (fun l l' => phase (l.byHash h) ≤ phase (l'.byHash h)) (fun _ => le_rfl) le_trans
    (fun l call => (l.step_evolves call).phase_le h) log calls

/-- After any calls every entry is valid, and no later call loses an entry, changes
its proposal or touches it once it is settled. -/
theorem proposal_log_invariant (calls later : List LogCall) :
    (∀ h st, (ofCalls calls).get h = some st → EntryValid h st) ∧
      ∀ h st, (ofCalls calls).get h = some st →
        ∃ st', (ofCalls (calls ++ later)).get h = some st' ∧ st'.propose = st.propose ∧
          (st.Settled → st' = st) := by
  refine ⟨valid_ofCalls calls, fun h => ?_⟩
  unfold ofCalls
  rw [run_append]
  exact kept_run _ later h

end ProposalLog

/-! ## Errors and replays -/

namespace ProposalLog

/-- A message does nothing to an entry that is not in its phase. -/
theorem deliver_idle {log : ProposalLog} {m : ProtocolMessage}
    (hne : phase (log.byHash m.key) ≠ m.phase) : (log.deliver m).1 = log := by
  cases m with
  | propose p =>
    show (log.recordPropose p).1 = log
    unfold recordPropose
    cases hg : log.byHash p.proposalHash with
    | none =>
      have hkey : log.byHash (ProtocolMessage.propose p).key = none := hg
      rw [hkey] at hne
      exact absurd rfl hne
    | some st => cases p.verify <;> rfl
  | accept a => exact transition_idle (ProposalState.onAccept_acts a) hne
  | reject r => exact transition_idle (ProposalState.onReject_acts r) hne
  | counterPropose c => exact transition_idle (ProposalState.onCounter_acts c) hne
  | execute e => exact transition_idle (ProposalState.onExecute_acts e) hne

/-- A message that was handled leaves its phase behind. -/
theorem deliver_advances {log : ProposalLog} {m : ProtocolMessage}
    (hok : (log.deliver m).2 = .ok ()) :
    m.phase < phase ((log.deliver m).1.byHash m.key) := by
  cases m with
  | propose p =>
    simp only [deliver, recordPropose] at hok ⊢
    cases hv : p.verify with
    | error e =>
      rw [hv] at hok
      cases hok
    | ok u =>
      show 0 < _
      cases hg : log.byHash p.proposalHash with
      | none => simp [ProtocolMessage.key, phase]
      | some st =>
        simp only [ProtocolMessage.key, hg]
        cases st <;> simp [phase]
  | accept a => exact transition_advances (ProposalState.onAccept_acts a) hok
  | reject r => exact transition_advances (ProposalState.onReject_acts r) hok
  | counterPropose c => exact transition_advances (ProposalState.onCounter_acts c) hok
  | execute e => exact transition_advances (ProposalState.onExecute_acts e) hok

/-- An accept by the right party that comes after the last moment. -/
structure LateAccept (log : ProposalLog) (a : Accept) (p : Propose) : Prop where
  verified : a.verify = .ok ()
  entry : log.get a.proposalHash = some (.proposed p)
  signed_by : a.byKey = p.toKey
  late : p.validUntilUnix < a.acceptedAtUnix

/-- A failed delivery leaves the log alone, but for a late accept, which expires its proposal. -/
theorem deliver_error {log : ProposalLog} {m : ProtocolMessage} {e : ProtocolError}
    (herr : (log.deliver m).2 = .error e) :
    (log.deliver m).1 = log ∨
      ∃ a p, m = .accept a ∧ LateAccept log a p ∧
        (log.deliver m).1 = log.insert a.proposalHash (.expired p a.acceptedAtUnix) := by
  cases m with
  | propose p =>
    simp only [deliver, recordPropose] at herr ⊢
    cases hv : p.verify with
    | error err => exact .inl rfl
    | ok u =>
      rw [hv] at herr
      cases hg : log.byHash p.proposalHash <;> simp [hg, Except.map] at herr
  | accept a =>
    simp only [deliver, applyAccept] at herr ⊢
    rcases log.transition_cases a.verify a.proposalHash (ProposalState.onAccept a) with
      ⟨err, he⟩ | ⟨st, hv, hg, he⟩
    · rw [he]
      exact .inl rfl
    · rcases ProposalState.onAccept_cases a st with ⟨err, hst⟩ | ⟨p, rfl, hby, ⟨-, hst⟩ | ⟨hlate, hst⟩⟩
      · rw [he, hst]
        exact .inl (insert_self hg)
      · rw [he, hst] at herr
        cases herr
      · rw [he, hst]
        exact .inr ⟨a, p, rfl, ⟨hv, hg, hby, hlate⟩, rfl⟩
  | reject r =>
    refine .inl (transition_error (fun st => ?_) herr)
    exact (ProposalState.onReject_cases r st).imp id fun ⟨_, _, _, he⟩ => by rw [he]
  | counterPropose c =>
    refine .inl (transition_error (fun st => ?_) herr)
    exact (ProposalState.onCounter_cases c st).imp id fun ⟨_, _, _, he⟩ => by rw [he]
  | execute e =>
    refine .inl (transition_error (fun st => ?_) herr)
    exact (ProposalState.onExecute_cases e st).imp id fun ⟨_, _, _, _, he⟩ => by rw [he]

/-- A message that was handled once does nothing at any later point of the run. -/
theorem deliver_replay (log : ProposalLog) {m : ProtocolMessage} (hok : (log.deliver m).2 = .ok ())
    (later : List LogCall) :
    ((run step (log.step (.deliver m)) later).deliver m).1 = run step (log.step (.deliver m)) later := by
  have hpast := deliver_advances hok
  have hgrow := phase_run (log.step (.deliver m)) later m.key
  exact deliver_idle (ne_of_gt (lt_of_lt_of_le hpast hgrow))

/-- Every executed entry was executed inside its window and after its accept. -/
def WindowRespected (log : ProposalLog) : Prop :=
  ∀ h p a e, log.get h = some (.executed p a e) →
    p.validFromUnix ≤ e.executedAtUnix ∧ a.acceptedAtUnix ≤ e.executedAtUnix

/-- The check that `apply_execute` does not make: an execute message that is about to
go through is dated inside the window. -/
def ExecutesInWindow (log : ProposalLog) : LogCall → Prop
  | .deliver (.execute e) =>
      ∀ p a, TakesExecute log e p a →
        p.validFromUnix ≤ e.executedAtUnix ∧ a.acceptedAtUnix ≤ e.executedAtUnix
  | _ => True

/-- One call keeps the windows exactly when it makes the missing check. -/
theorem window_step_iff {log : ProposalLog} (hw : log.WindowRespected) (call : LogCall) :
    (log.step call).WindowRespected ↔ log.ExecutesInWindow call := by
  constructor
  · intro hw'
    cases call with
    | expireDue now => trivial
    | deliver m =>
      cases m with
      | propose | accept | reject | counterPropose => trivial
      | execute e =>
        intro p a htakes
        refine hw' e.proposalHash p a e ?_
        show (log.applyExecute e).1.byHash _ = _
        rw [htakes.apply, insert_byHash, if_pos rfl]
  · intro hin h p a e hg
    rcases log.step_evolves call h with heq | hmove
    · exact hw h p a e (heq.symm.trans hg)
    · have hg' : (log.step call).byHash h = some (.executed p a e) := hg
      rw [hg'] at hmove
      -- only the execute arrow ends in an executed entry
      generalize hold : log.byHash h = o at hmove
      cases hmove with
      | execute hm hv hk hby =>
        rw [hm] at hin
        exact hin p a ⟨hv, by rw [hk]; exact hold, hby⟩

/-- An executed entry that is there stays, so a window once missed stays missed. -/
theorem window_of_run {log : ProposalLog} {calls : List LogCall}
    (hw : (run step log calls).WindowRespected) : log.WindowRespected := by
  intro h p a e hg
  obtain ⟨st, hst, -, hsame⟩ := kept_run log calls h _ hg
  rw [hsame trivial] at hst
  exact hw h p a e hst

/-- Windows are respected over a run exactly when each execution in it is in its window. -/
theorem window_run_iff {log : ProposalLog} (hw : log.WindowRespected) (calls : List LogCall) :
    (run step log calls).WindowRespected ↔ Meets step ExecutesInWindow log calls := by
  induction calls generalizing log with
  | nil => exact ⟨fun _ => trivial, fun _ => hw⟩
  | cons call calls ih =>
    constructor
    · intro hrun
      have hnext : (log.step call).WindowRespected := window_of_run hrun
      exact ⟨(window_step_iff hw call).mp hnext, (ih hnext).mp hrun⟩
    · intro hyp
      obtain ⟨hcall, hrest⟩ := hyp
      exact (ih ((window_step_iff hw call).mpr hcall)).mpr hrest

/-- The windows are respected after a sequence of calls exactly when every execute
message that went through was dated inside its window and after its accept. -/
theorem windows_respected_iff (calls : List LogCall) :
    (ofCalls calls).WindowRespected ↔ Meets step ExecutesInWindow new calls :=
  window_run_iff (fun _ _ _ _ hg => by cases hg) calls

end ProposalLog

end

section Sample

attribute [local instance] sampleBlake3 sampleEd25519

/-- A proposal that may be executed from 50 on. -/
def earlyPropose : Propose :=
  .sign ⟨hashOfNat 1⟩ ⟨List.Vector.replicate 64 7⟩ [5] (hashOfNat 2) 50 100 1

/-- Proposed, accepted at 20 and executed with the date 10. -/
def earlyCalls : List LogCall :=
  [.deliver (.propose earlyPropose),
    .deliver (.accept (.sign ⟨hashOfNat 2⟩ earlyPropose.proposalHash 20)),
    .deliver (.execute (.sign ⟨hashOfNat 1⟩ earlyPropose.proposalHash [5] ⟨[5]⟩ 10))]

theorem window_missed_early_execute : ¬ (ProposalLog.ofCalls earlyCalls).WindowRespected := by
  intro hw
  have hexec : (ProposalLog.ofCalls earlyCalls).get earlyPropose.proposalHash =
      some (.executed earlyPropose (.sign ⟨hashOfNat 2⟩ earlyPropose.proposalHash 20)
        (.sign ⟨hashOfNat 1⟩ earlyPropose.proposalHash [5] ⟨[5]⟩ 10)) := by
    decide +kernel
  have hfrom := (hw _ _ _ _ hexec).1
  revert hfrom
  decide +kernel

end Sample

end PslBank.Agent
