import PslBank.Agent.Message
import PslBank.Lib.Runs

/-!
# The proposal lifecycle

`agent_protocol/src/state_machine.rs`. The map of the log is a partial function. The
sweep is the only operation that visits every entry, and what it returns is the set
of hashes it flipped, since the order of a hash map is unspecified.

Each `apply_*` takes its entry out of the map and puts one back on every branch;
`transition` is that shape, and the `on*` functions say what is put back. `Moves` is
the diagram of the module documentation as a relation on one entry. Every call is, at
every key, either no change or one move, so what holds along moves holds of the log
over all runs.
-/
namespace PslBank.Agent

open PslBank.Lib PslBank.Crypto PslBank.Contracts

set_option autoImplicit false

/-- The states of a proposal, each with the messages that led to it. -/
inductive ProposalState where
  | proposed (propose : Propose)
  | accepted (propose : Propose) (accept : Accept)
  | rejected (propose : Propose) (reject : Reject)
  | counterProposed (propose : Propose) (counter : CounterPropose)
  | executed (propose : Propose) (accept : Accept) (execute : Execute)
  | expired (propose : Propose) (expiredAtUnix : UInt64)
  deriving DecidableEq

namespace ProposalState

def label : ProposalState → String
  | .proposed _ => "Proposed"
  | .accepted _ _ => "Accepted"
  | .rejected _ _ => "Rejected"
  | .counterProposed _ _ => "CounterProposed"
  | .executed _ _ _ => "Executed"
  | .expired _ _ => "Expired"

/-- The proposal that every state carries. -/
def propose : ProposalState → Propose
  | .proposed p => p
  | .accepted p _ => p
  | .rejected p _ => p
  | .counterProposed p _ => p
  | .executed p _ _ => p
  | .expired p _ => p

/-- No transition leaves the state. `is_terminal` of the source does not count
`CounterProposed`, although nothing leaves it either. -/
def Settled : ProposalState → Prop
  | .proposed _ => False
  | .accepted _ _ => False
  | .rejected _ _ => True
  | .counterProposed _ _ => True
  | .executed _ _ _ => True
  | .expired _ _ => True

/-! ## What each message does to its entry -/

/-- `apply_accept` on the entry. The time is compared after the key, and a late accept expires
the proposal while it is refused. -/
def onAccept (a : Accept) : ProposalState → ProposalState × Except ProtocolError Unit
  | .proposed propose =>
      if a.byKey ≠ propose.toKey then (.proposed propose, .error .signatureInvalid)
      else if a.acceptedAtUnix > propose.validUntilUnix then
        (.expired propose a.acceptedAtUnix, .error (.expired 0 a.acceptedAtUnix))
      else (.accepted propose a, .ok ())
  | other => (other, .error (.illegalTransition other.label "accept"))

/-- `apply_reject` on the entry. -/
def onReject (r : Reject) : ProposalState → ProposalState × Except ProtocolError Unit
  | .proposed propose =>
      if r.byKey ≠ propose.toKey then (.proposed propose, .error .signatureInvalid)
      else (.rejected propose r, .ok ())
  | other => (other, .error (.illegalTransition other.label "reject"))

/-- `apply_counter` on the entry. -/
def onCounter (c : CounterPropose) : ProposalState → ProposalState × Except ProtocolError Unit
  | .proposed propose =>
      if c.byKey ≠ propose.toKey then (.proposed propose, .error .signatureInvalid)
      else (.counterProposed propose c, .ok ())
  | other => (other, .error (.illegalTransition other.label "counter"))

/-- The execute message must come from the original proposer. -/
def onExecute (e : Execute) : ProposalState → ProposalState × Except ProtocolError Unit
  | .accepted propose accept =>
      if e.byKey ≠ propose.fromKey then (.accepted propose accept, .error .signatureInvalid)
      else (.executed propose accept e, .ok ())
  | other => (other, .error (.illegalTransition other.label "execute"))

/-- The sweep marks what is still proposed after its last moment. -/
def onSweep (now : UInt64) : ProposalState → ProposalState
  | .proposed propose =>
      if now > propose.validUntilUnix then .expired propose now else .proposed propose
  | other => other

/-- An accept changes the entry in two cases only: in time, and late. -/
theorem onAccept_cases (a : Accept) (st : ProposalState) :
    (∃ e, onAccept a st = (st, .error e)) ∨
      ∃ p, st = .proposed p ∧ a.byKey = p.toKey ∧
        (a.acceptedAtUnix ≤ p.validUntilUnix ∧ onAccept a st = (.accepted p a, .ok ()) ∨
          p.validUntilUnix < a.acceptedAtUnix ∧
            onAccept a st =
              (.expired p a.acceptedAtUnix, .error (.expired 0 a.acceptedAtUnix))) := by
  cases st with
  | proposed p =>
    by_cases hby : a.byKey = p.toKey
    · refine .inr ⟨p, rfl, hby, ?_⟩
      by_cases hlate : a.acceptedAtUnix > p.validUntilUnix
      · exact .inr ⟨hlate, by rw [onAccept, if_neg (not_not_intro hby), if_pos hlate]⟩
      · exact .inl ⟨UInt64.not_lt.mp hlate,
          by rw [onAccept, if_neg (not_not_intro hby), if_neg hlate]⟩
    · exact .inl ⟨_, by rw [onAccept, if_pos hby]⟩
  | accepted | rejected | counterProposed | executed | expired => exact .inl ⟨_, rfl⟩

/-- A reject changes the entry only where it succeeds; so do a counter-proposal and an execute. -/
theorem onReject_cases (r : Reject) (st : ProposalState) :
    (∃ e, onReject r st = (st, .error e)) ∨
      ∃ p, st = .proposed p ∧ r.byKey = p.toKey ∧ onReject r st = (.rejected p r, .ok ()) := by
  cases st with
  | proposed p =>
    by_cases hby : r.byKey = p.toKey
    · exact .inr ⟨p, rfl, hby, by rw [onReject, if_neg (not_not_intro hby)]⟩
    · exact .inl ⟨_, by rw [onReject, if_pos hby]⟩
  | accepted | rejected | counterProposed | executed | expired => exact .inl ⟨_, rfl⟩

theorem onCounter_cases (c : CounterPropose) (st : ProposalState) :
    (∃ e, onCounter c st = (st, .error e)) ∨
      ∃ p, st = .proposed p ∧ c.byKey = p.toKey ∧
        onCounter c st = (.counterProposed p c, .ok ()) := by
  cases st with
  | proposed p =>
    by_cases hby : c.byKey = p.toKey
    · exact .inr ⟨p, rfl, hby, by rw [onCounter, if_neg (not_not_intro hby)]⟩
    · exact .inl ⟨_, by rw [onCounter, if_pos hby]⟩
  | accepted | rejected | counterProposed | executed | expired => exact .inl ⟨_, rfl⟩

theorem onExecute_cases (e : Execute) (st : ProposalState) :
    (∃ err, onExecute e st = (st, .error err)) ∨
      ∃ p a, st = .accepted p a ∧ e.byKey = p.fromKey ∧
        onExecute e st = (.executed p a e, .ok ()) := by
  cases st with
  | accepted p a =>
    by_cases hby : e.byKey = p.fromKey
    · exact .inr ⟨p, a, rfl, hby, by rw [onExecute, if_neg (not_not_intro hby)]⟩
    · exact .inl ⟨_, by rw [onExecute, if_pos hby]⟩
  | proposed | rejected | counterProposed | executed | expired => exact .inl ⟨_, rfl⟩

end ProposalState

/-! ## The log -/

/-- `proposals: HashMap<ProposalHash, ProposalState>`. -/
structure ProposalLog where
  byHash : ProposalHash → Option ProposalState

namespace ProposalLog

def new : ProposalLog := ⟨fun _ => none⟩

def get (log : ProposalLog) (h : ProposalHash) : Option ProposalState := log.byHash h

def insert (log : ProposalLog) (h : ProposalHash) (st : ProposalState) : ProposalLog :=
  ⟨Function.update log.byHash h (some st)⟩

def remove (log : ProposalLog) (h : ProposalHash) : ProposalLog :=
  ⟨Function.update log.byHash h none⟩

/-- The shape of every `apply_*`: check the signature, take the entry out, put one
back. -/
def transition (log : ProposalLog) (verified : Except ProtocolError Unit) (h : ProposalHash)
    (next : ProposalState → ProposalState × Except ProtocolError Unit) :
    ProposalLog × Except ProtocolError Unit :=
  match verified with
  | .error e => (log, .error e)
  | .ok () =>
      match log.byHash h with
      | none => (log.remove h, .error (.unknownProposal h))
      | some st => ((log.remove h).insert h (next st).1, (next st).2)

section

variable [Ed25519]

/-- `apply_accept`: signature, entry, transition. The other three differ in the message alone. -/
def applyAccept (log : ProposalLog) (a : Accept) : ProposalLog × Except ProtocolError Unit :=
  log.transition a.verify a.proposalHash (ProposalState.onAccept a)

def applyReject (log : ProposalLog) (r : Reject) : ProposalLog × Except ProtocolError Unit :=
  log.transition r.verify r.proposalHash (ProposalState.onReject r)

def applyCounter (log : ProposalLog) (c : CounterPropose) : ProposalLog × Except ProtocolError Unit :=
  log.transition c.verify c.originalProposalHash (ProposalState.onCounter c)

def applyExecute (log : ProposalLog) (e : Execute) : ProposalLog × Except ProtocolError Unit :=
  log.transition e.verify e.proposalHash (ProposalState.onExecute e)

/-- Ingest a proposal; a known hash keeps its entry. -/
def recordPropose [Blake3] (log : ProposalLog) (p : Propose) :
    ProposalLog × Except ProtocolError ProposalHash :=
  match p.verify with
  | .error e => (log, .error e)
  | .ok () =>
      match log.byHash p.proposalHash with
      | some _ => (log, .ok p.proposalHash)
      | none => (log.insert p.proposalHash (.proposed p), .ok p.proposalHash)

end

/-- The log after the sweep, and the hashes that flipped. -/
def expireDue (log : ProposalLog) (now : UInt64) : ProposalLog × (ProposalHash → Bool) :=
  (⟨fun h => (log.byHash h).map (ProposalState.onSweep now)⟩,
    fun h => decide ((log.byHash h).map (ProposalState.onSweep now) ≠ log.byHash h))

@[simp] theorem insert_byHash (log : ProposalLog) (h k : ProposalHash) (st : ProposalState) :
    (log.insert h st).byHash k = if k = h then some st else log.byHash k := by
  simp only [insert, Function.update_apply]

/-- Putting an entry back where it was changes nothing. -/
theorem insert_self {log : ProposalLog} {h : ProposalHash} {st : ProposalState}
    (hg : log.byHash h = some st) : log.insert h st = log := by
  unfold insert
  rw [← hg, Function.update_eq_self]

/-- Taking an entry out and putting another in is one update. -/
theorem remove_insert (log : ProposalLog) (h : ProposalHash) (st : ProposalState) :
    (log.remove h).insert h st = log.insert h st := by
  unfold insert remove
  rw [Function.update_idem]

theorem remove_of_none {log : ProposalLog} {h : ProposalHash} (hg : log.byHash h = none) :
    log.remove h = log := by
  unfold remove
  rw [← hg, Function.update_eq_self]

/-- A transition that finds its entry writes that entry and nothing else; all other
calls change nothing and fail. -/
theorem transition_cases (log : ProposalLog) (verified : Except ProtocolError Unit)
    (h : ProposalHash) (next : ProposalState → ProposalState × Except ProtocolError Unit) :
    (∃ e, log.transition verified h next = (log, .error e)) ∨
      ∃ st, verified = .ok () ∧ log.byHash h = some st ∧
        log.transition verified h next = (log.insert h (next st).1, (next st).2) := by
  unfold transition
  cases verified with
  | error e => exact .inl ⟨e, rfl⟩
  | ok u =>
    cases hg : log.byHash h with
    | none => exact .inl ⟨.unknownProposal h, by simp only [remove_of_none hg]⟩
    | some st => exact .inr ⟨st, rfl, rfl, by simp only [remove_insert]⟩

/-- With a valid signature and an entry the transition is what the entry makes of it. -/
theorem transition_found {log : ProposalLog} {h : ProposalHash} {st : ProposalState}
    (hg : log.byHash h = some st) (next : ProposalState → ProposalState × Except ProtocolError Unit) :
    log.transition (.ok ()) h next = (log.insert h (next st).1, (next st).2) := by
  simp only [transition, hg, remove_insert]

section

variable [Ed25519] {log : ProposalLog} {p : Propose}

/-- The timely accept of the receiver of a proposed entry. -/
structure TakesAccept (log : ProposalLog) (a : Accept) (p : Propose) : Prop where
  verified : a.verify = .ok ()
  entry : log.byHash a.proposalHash = some (.proposed p)
  signed_by : a.byKey = p.toKey
  in_time : a.acceptedAtUnix ≤ p.validUntilUnix

/-- The reject of the receiver of a proposed entry. -/
structure TakesReject (log : ProposalLog) (r : Reject) (p : Propose) : Prop where
  verified : r.verify = .ok ()
  entry : log.byHash r.proposalHash = some (.proposed p)
  signed_by : r.byKey = p.toKey

/-- The execute message of the proposer of an accepted entry. -/
structure TakesExecute (log : ProposalLog) (e : Execute) (p : Propose) (a : Accept) : Prop where
  verified : e.verify = .ok ()
  entry : log.byHash e.proposalHash = some (.accepted p a)
  signed_by : e.byKey = p.fromKey

/-- A log that takes an accept moves the proposal to accepted. -/
theorem TakesAccept.apply {a : Accept} (h : TakesAccept log a p) :
    log.applyAccept a = (log.insert a.proposalHash (.accepted p a), .ok ()) := by
  unfold applyAccept
  rw [h.verified, transition_found h.entry, ProposalState.onAccept,
    if_neg (not_not_intro h.signed_by), if_neg (UInt64.not_lt.mpr h.in_time)]

theorem TakesReject.apply {r : Reject} (h : TakesReject log r p) :
    log.applyReject r = (log.insert r.proposalHash (.rejected p r), .ok ()) := by
  unfold applyReject
  rw [h.verified, transition_found h.entry, ProposalState.onReject,
    if_neg (not_not_intro h.signed_by)]

theorem TakesExecute.apply {e : Execute} {a : Accept} (h : TakesExecute log e p a) :
    log.applyExecute e = (log.insert e.proposalHash (.executed p a e), .ok ()) := by
  unfold applyExecute
  rw [h.verified, transition_found h.entry, ProposalState.onExecute,
    if_neg (not_not_intro h.signed_by)]

/-- An accept succeeds only where the log takes it. -/
theorem applyAccept_ok {a : Accept} (hok : (log.applyAccept a).2 = .ok ()) :
    ∃ p, TakesAccept log a p := by
  unfold applyAccept at hok
  rcases log.transition_cases a.verify a.proposalHash (ProposalState.onAccept a) with
    ⟨e, he⟩ | ⟨st, hv, hg, he⟩
  · rw [he] at hok
    cases hok
  · rw [he] at hok
    rcases ProposalState.onAccept_cases a st with ⟨e, hst⟩ | ⟨p, rfl, hby, ⟨hin, -⟩ | ⟨-, hst⟩⟩
    · rw [hst] at hok
      cases hok
    · exact ⟨p, hv, hg, hby, hin⟩
    · rw [hst] at hok
      cases hok

/-- The same of a reject. -/
theorem applyReject_ok {r : Reject} (hok : (log.applyReject r).2 = .ok ()) :
    ∃ p, TakesReject log r p := by
  unfold applyReject at hok
  rcases log.transition_cases r.verify r.proposalHash (ProposalState.onReject r) with
    ⟨e, he⟩ | ⟨st, hv, hg, he⟩
  · rw [he] at hok
    cases hok
  · rw [he] at hok
    rcases ProposalState.onReject_cases r st with ⟨e, hst⟩ | ⟨p, rfl, hby, -⟩
    · rw [hst] at hok
      cases hok
    · exact ⟨p, hv, hg, hby⟩

/-- The same of an execute. -/
theorem applyExecute_ok {e : Execute} (hok : (log.applyExecute e).2 = .ok ()) :
    ∃ p a, TakesExecute log e p a := by
  unfold applyExecute at hok
  rcases log.transition_cases e.verify e.proposalHash (ProposalState.onExecute e) with
    ⟨err, he⟩ | ⟨st, hv, hg, he⟩
  · rw [he] at hok
    cases hok
  · rw [he] at hok
    rcases ProposalState.onExecute_cases e st with ⟨err, hst⟩ | ⟨p, a, rfl, hby, -⟩
    · rw [hst] at hok
      cases hok
    · exact ⟨p, a, hv, hg, hby⟩

end

end ProposalLog

/-! ## Calls as deliveries -/

namespace ProtocolMessage

/-- The key a message is verified under. -/
def signer : ProtocolMessage → PublicKey
  | .propose m => m.fromKey
  | .accept m => m.byKey
  | .reject m => m.byKey
  | .counterPropose m => m.byKey
  | .execute m => m.byKey

/-- The check of its own kind. -/
def verify [Ed25519] : ProtocolMessage → Except ProtocolError Unit
  | .propose m => m.verify
  | .accept m => m.verify
  | .reject m => m.verify
  | .counterPropose m => m.verify
  | .execute m => m.verify

/-- The hash whose entry the message is about. -/
def key [Blake3] : ProtocolMessage → ProposalHash
  | .propose m => m.proposalHash
  | .accept m => m.proposalHash
  | .reject m => m.proposalHash
  | .counterPropose m => m.originalProposalHash
  | .execute m => m.proposalHash

end ProtocolMessage

/-- The calls of the log: the operation of each message type, and the sweep. -/
inductive LogCall where
  | deliver (m : ProtocolMessage)
  | expireDue (now : UInt64)

section

variable [Blake3] [Ed25519]

namespace ProposalLog

/-- The operation that handles a message. -/
def deliver (log : ProposalLog) : ProtocolMessage → ProposalLog × Except ProtocolError Unit
  | .propose p => ((log.recordPropose p).1, (log.recordPropose p).2.map fun _ => ())
  | .accept a => log.applyAccept a
  | .reject r => log.applyReject r
  | .counterPropose c => log.applyCounter c
  | .execute e => log.applyExecute e

/-- One call of the log; its result is not part of the state. -/
def step (log : ProposalLog) : LogCall → ProposalLog
  | .deliver m => (log.deliver m).1
  | .expireDue now => (log.expireDue now).1

/-- The log after a sequence of calls on the empty log. -/
def ofCalls (calls : List LogCall) : ProposalLog := run step new calls

end ProposalLog

/-! ## The moves of one entry -/

/-- One arrow of the diagram at the entry of `h`; `via` restricts the messages that
may cause it. -/
inductive Moves (via : ProtocolMessage → Prop) (h : ProposalHash) :
    Option ProposalState → Option ProposalState → Prop
  | record {p : Propose} (hm : via (.propose p)) (hv : p.verify = .ok ()) (hk : p.proposalHash = h) :
      Moves via h none (some (.proposed p))
  | accept {p : Propose} {a : Accept} (hm : via (.accept a)) (hv : a.verify = .ok ())
      (hk : a.proposalHash = h) (hby : a.byKey = p.toKey)
      (hin : a.acceptedAtUnix ≤ p.validUntilUnix) :
      Moves via h (some (.proposed p)) (some (.accepted p a))
  | lateAccept {p : Propose} {a : Accept} (hm : via (.accept a)) (hv : a.verify = .ok ())
      (hk : a.proposalHash = h) (hby : a.byKey = p.toKey)
      (hlate : p.validUntilUnix < a.acceptedAtUnix) :
      Moves via h (some (.proposed p)) (some (.expired p a.acceptedAtUnix))
  | reject {p : Propose} {r : Reject} (hm : via (.reject r)) (hv : r.verify = .ok ())
      (hk : r.proposalHash = h) (hby : r.byKey = p.toKey) :
      Moves via h (some (.proposed p)) (some (.rejected p r))
  | counter {p : Propose} {c : CounterPropose} (hm : via (.counterPropose c))
      (hv : c.verify = .ok ()) (hk : c.originalProposalHash = h) (hby : c.byKey = p.toKey) :
      Moves via h (some (.proposed p)) (some (.counterProposed p c))
  | execute {p : Propose} {a : Accept} {e : Execute} (hm : via (.execute e)) (hv : e.verify = .ok ())
      (hk : e.proposalHash = h) (hby : e.byKey = p.fromKey) :
      Moves via h (some (.accepted p a)) (some (.executed p a e))
  | sweep {p : Propose} {now : UInt64} (hdue : p.validUntilUnix < now) :
      Moves via h (some (.proposed p)) (some (.expired p now))

/-- More messages allow more moves. -/
theorem Moves.mono {via via' : ProtocolMessage → Prop} (hsub : ∀ m, via m → via' m)
    {h : ProposalHash} {o o' : Option ProposalState} (hmove : Moves via h o o') :
    Moves via' h o o' := by
  cases hmove with
  | record hm hv hk => exact .record (hsub _ hm) hv hk
  | accept hm hv hk hby hin => exact .accept (hsub _ hm) hv hk hby hin
  | lateAccept hm hv hk hby hlate => exact .lateAccept (hsub _ hm) hv hk hby hlate
  | reject hm hv hk hby => exact .reject (hsub _ hm) hv hk hby
  | counter hm hv hk hby => exact .counter (hsub _ hm) hv hk hby
  | execute hm hv hk hby => exact .execute (hsub _ hm) hv hk hby
  | sweep hdue => exact .sweep hdue

/-- What is put back for an entry is the entry itself or one move away. -/
def PutsBack (m : ProtocolMessage) (next : ProposalState → ProposalState × Except ProtocolError Unit) :
    Prop :=
  ∀ st, (next st).1 = st ∨ Moves (· = m) m.key (some st) (some (next st).1)

namespace ProposalState

/-- A verified accept moves an entry along the graph or puts it back; so do the other three. -/
theorem onAccept_moves {a : Accept} (hv : a.verify = .ok ()) : PutsBack (.accept a) (onAccept a) := by
  intro st
  rcases onAccept_cases a st with ⟨e, he⟩ | ⟨p, rfl, hby, ⟨hin, he⟩ | ⟨hlate, he⟩⟩
  · rw [he]
    exact .inl rfl
  · rw [he]
    exact .inr (.accept rfl hv rfl hby hin)
  · rw [he]
    exact .inr (.lateAccept rfl hv rfl hby hlate)

theorem onReject_moves {r : Reject} (hv : r.verify = .ok ()) : PutsBack (.reject r) (onReject r) := by
  intro st
  rcases onReject_cases r st with ⟨e, he⟩ | ⟨p, rfl, hby, he⟩
  · rw [he]
    exact .inl rfl
  · rw [he]
    exact .inr (.reject rfl hv rfl hby)

theorem onCounter_moves {c : CounterPropose} (hv : c.verify = .ok ()) :
    PutsBack (.counterPropose c) (onCounter c) := by
  intro st
  rcases onCounter_cases c st with ⟨e, he⟩ | ⟨p, rfl, hby, he⟩
  · rw [he]
    exact .inl rfl
  · rw [he]
    exact .inr (.counter rfl hv rfl hby)

theorem onExecute_moves {e : Execute} (hv : e.verify = .ok ()) :
    PutsBack (.execute e) (onExecute e) := by
  intro st
  rcases onExecute_cases e st with ⟨err, he⟩ | ⟨p, a, rfl, hby, he⟩
  · rw [he]
    exact .inl rfl
  · rw [he]
    exact .inr (.execute rfl hv rfl hby)

/-- The sweep only expires what is proposed. -/
theorem onSweep_moves {via : ProtocolMessage → Prop} {h : ProposalHash} (now : UInt64)
    (st : ProposalState) : onSweep now st = st ∨ Moves via h (some st) (some (onSweep now st)) := by
  cases st with
  | proposed p =>
    by_cases hdue : now > p.validUntilUnix
    · rw [onSweep, if_pos hdue]
      exact .inr (.sweep hdue)
    · rw [onSweep, if_neg hdue]
      exact .inl rfl
  | accepted | rejected | counterProposed | executed | expired => exact .inl rfl

end ProposalState

namespace ProposalLog

/-- At every key the two logs agree or are one move apart. -/
def Evolves (via : ProtocolMessage → Prop) (log log' : ProposalLog) : Prop :=
  ∀ h, log'.byHash h = log.byHash h ∨ Moves via h (log.byHash h) (log'.byHash h)

/-- A log evolves to itself by no message. -/
theorem Evolves.refl (via : ProtocolMessage → Prop) (log : ProposalLog) : Evolves via log log :=
  fun _ => .inl rfl

theorem Evolves.mono {via via' : ProtocolMessage → Prop} (hsub : ∀ m, via m → via' m)
    {log log' : ProposalLog} (he : Evolves via log log') : Evolves via' log log' :=
  fun h => (he h).imp id (Moves.mono hsub)

/-- A transition evolves the log by its own message, at its own key. -/
theorem transition_evolves {m : ProtocolMessage} (log : ProposalLog)
    {verified : Except ProtocolError Unit}
    {next : ProposalState → ProposalState × Except ProtocolError Unit}
    (hnext : verified = .ok () → PutsBack m next) :
    Evolves (· = m) log (log.transition verified m.key next).1 := by
  intro h
  rcases log.transition_cases verified m.key next with ⟨e, he⟩ | ⟨st, hv, hg, he⟩
  · rw [he]
    exact .inl rfl
  · rw [he, insert_byHash]
    by_cases hk : h = m.key
    · rw [if_pos hk, hk, hg]
      exact (hnext hv st).imp (congrArg some) id
    · rw [if_neg hk]
      exact .inl rfl

/-- Recording a proposal fills an empty place or changes nothing. -/
theorem recordPropose_evolves (log : ProposalLog) (p : Propose) :
    Evolves (· = .propose p) log (log.recordPropose p).1 := by
  intro h
  unfold recordPropose
  cases hv : p.verify with
  | error e => exact .inl rfl
  | ok u =>
    cases hg : log.byHash p.proposalHash with
    | some st => exact .inl rfl
    | none =>
      rw [insert_byHash]
      by_cases hk : h = p.proposalHash
      · rw [if_pos hk, hk, hg]
        exact .inr (.record rfl hv rfl)
      · rw [if_neg hk]
        exact .inl rfl

/-- Every message operation is, at every key, a stutter or a move that the message
itself causes. -/
theorem deliver_evolves (log : ProposalLog) (m : ProtocolMessage) :
    Evolves (· = m) log (log.deliver m).1 := by
  cases m with
  | propose p => exact log.recordPropose_evolves p
  | accept a => exact log.transition_evolves ProposalState.onAccept_moves
  | reject r => exact log.transition_evolves ProposalState.onReject_moves
  | counterPropose c => exact log.transition_evolves ProposalState.onCounter_moves
  | execute e => exact log.transition_evolves ProposalState.onExecute_moves

/-- The sweep needs no message. -/
theorem expireDue_evolves (via : ProtocolMessage → Prop) (log : ProposalLog) (now : UInt64) :
    Evolves via log (log.expireDue now).1 := by
  intro h
  show (log.byHash h).map _ = log.byHash h ∨ Moves via h (log.byHash h) ((log.byHash h).map _)
  cases log.byHash h with
  | none => exact .inl rfl
  | some st => exact (ProposalState.onSweep_moves now st).imp (congrArg some) id

/-- The diagram is refined: every call is a stutter or a move at every key. -/
theorem step_evolves (log : ProposalLog) (call : LogCall) :
    Evolves (fun m => call = .deliver m) log (log.step call) := by
  cases call with
  | deliver m =>
    exact (log.deliver_evolves m).mono fun m' hm => by rw [hm]
  | expireDue now => exact log.expireDue_evolves _ now

end ProposalLog

end

end PslBank.Agent
