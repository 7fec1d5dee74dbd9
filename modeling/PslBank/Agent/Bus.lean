import PslBank.Lib.Mailboxes
import PslBank.Agent.Sdk

/-!
# The in-process bus

`InProcessBus` of `agent_sdk/src/transport.rs`: keyed mailboxes over public keys and protocol
messages. The locks of the source make every call atomic, so a history of the bus is a list of
calls in the order in which they took the locks, whichever threads made them; the texts of
poisoned locks have no counterpart.
-/
namespace PslBank.Agent

open PslBank.Lib PslBank.Crypto PslBank.Contracts

set_option autoImplicit false

abbrev InProcessBus := Mailboxes PublicKey ProtocolMessage

abbrev BusCall := BoxCall PublicKey ProtocolMessage

abbrev BusEvent := BoxEvent PublicKey ProtocolMessage String

/-- `{:?}` of a key: its bytes as a list of decimal numbers. -/
def debugKey (k : PublicKey) : String :=
  "[" ++ ", ".intercalate (k.toList.map fun b => toString b.toNat) ++ "]"

def noInbox (toKey : PublicKey) : String := "no inbox registered for " ++ debugKey toKey

namespace InProcessBus

def new : InProcessBus := Mailboxes.empty

def send (bus : InProcessBus) (toKey : PublicKey) (m : ProtocolMessage) :
    InProcessBus × Except String Unit :=
  Mailboxes.push noInbox bus toKey m

def poll (bus : InProcessBus) (me : PublicKey) : InProcessBus × List ProtocolMessage :=
  Mailboxes.drain bus me

/-- The bus after a list of calls and the record of their answers. -/
def serve (bus : InProcessBus) (calls : List BusCall) : InProcessBus × List BusEvent :=
  Mailboxes.history noInbox bus calls

/-- What a handler sees of the bus. -/
def transport (bus : InProcessBus) : Transport := fun toKey m => (bus.send toKey m).2

/-- A handler called with the bus: what it sends goes into the mailboxes. -/
def during {α : Type} (bus : InProcessBus) (handler : Transport → Outcome α) :
    Outcome α × InProcessBus :=
  let o := handler bus.transport
  (o, o.sent.foldl (fun bus s => (bus.send s.1 s.2).1) bus)

end InProcessBus

/-- Whatever is called in whatever order: the messages polled for a key and those still in its
inbox are the accepted messages to it, each once and in the order of acceptance; and a send
succeeds exactly when its receiver was registered before, and names the receiver where not. -/
theorem bus_delivers (calls : List BusCall) (k : PublicKey) :
    ((InProcessBus.new.serve calls).2.flatMap (BoxEvent.handedTo k) ++
        (InProcessBus.new.serve calls).1.waiting k =
      (InProcessBus.new.serve calls).2.flatMap (BoxEvent.takenFor k)) ∧
    ∀ front m back, calls = front ++ .push k m :: back →
      ∃ answer, (InProcessBus.new.serve calls).2[front.length]? = some (.pushed k m answer) ∧
        (answer = .ok () ↔ .register k ∈ front) ∧
        (answer = .error (noInbox k) ↔ .register k ∉ front) := by
  refine ⟨Mailboxes.waiting_history noInbox calls k, ?_⟩
  rintro front m back rfl
  exact ⟨_, Mailboxes.history_split noInbox front back (.push k m),
    Mailboxes.push_after_iff noInbox front k m⟩

/-! ## A handler on the bus -/

namespace InProcessBus

variable {α : Type} (bus : InProcessBus)

theorem during_sent {handler : Transport → Outcome α} {toKey : PublicKey} {m : ProtocolMessage}
    (h : (handler bus.transport).sent = [(toKey, m)]) :
    bus.during handler = (handler bus.transport, (bus.send toKey m).1) := by
  simp only [during, h, List.foldl_cons, List.foldl_nil]

theorem during_congr {handler handler' : Transport → Outcome α}
    (h : handler bus.transport = handler' bus.transport) : bus.during handler = bus.during handler' := by
  unfold during
  rw [h]

theorem transport_open {toKey : PublicKey} (h : bus.isOpen toKey = true) (m : ProtocolMessage) :
    bus.transport toKey m = .ok () := by
  have hanswer := Mailboxes.push_answer noInbox bus toKey m
  rw [if_pos h] at hanswer
  exact hanswer

end InProcessBus

end PslBank.Agent
