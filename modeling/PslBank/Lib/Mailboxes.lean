import PslBank.Lib.Runs
import Mathlib.Logic.Function.Basic

/-!
# Keyed mailboxes

One queue for each key that was registered. A message goes to the back of the queue of its key,
and draining a key hands over its whole queue and leaves it empty; a key that was never registered
takes no message. A call is recorded together with its answer, and the results are about histories
of such records: what was handed over for a key and what still waits there is what was taken for
it, in the same order, and a message is taken exactly when its key was registered before.
-/
namespace PslBank.Lib

set_option autoImplicit false

variable {κ μ ε : Type}

structure Mailboxes (κ μ : Type) where
  queue : κ → Option (List μ)

inductive BoxCall (κ μ : Type) where
  | register (k : κ)
  | push (k : κ) (m : μ)
  | drain (k : κ)

/-- A call with its answer. -/
inductive BoxEvent (κ μ ε : Type) where
  | registered (k : κ)
  | pushed (k : κ) (m : μ) (answer : Except ε Unit)
  | drained (k : κ) (ms : List μ)

namespace BoxEvent

variable [DecidableEq κ]

/-- The message that was taken for the key. -/
def takenFor (k : κ) : BoxEvent κ μ ε → List μ
  | .pushed k' m (.ok ()) => if k' = k then [m] else []
  | .pushed _ _ (.error _) => []
  | .registered _ => []
  | .drained _ _ => []

/-- The messages that were handed over for the key. -/
def handedTo (k : κ) : BoxEvent κ μ ε → List μ
  | .drained k' ms => if k' = k then ms else []
  | .pushed _ _ _ => []
  | .registered _ => []

end BoxEvent

namespace Mailboxes

def empty : Mailboxes κ μ := ⟨fun _ => none⟩

/-- What waits for the key. -/
def waiting (boxes : Mailboxes κ μ) (k : κ) : List μ := (boxes.queue k).getD []

def isOpen (boxes : Mailboxes κ μ) (k : κ) : Bool := (boxes.queue k).isSome

variable [DecidableEq κ]

/-- A key that is registered stays as it is. -/
def register (boxes : Mailboxes κ μ) (k : κ) : Mailboxes κ μ :=
  ⟨Function.update boxes.queue k (some (boxes.waiting k))⟩

/-- Append for the key; `refuse` is the answer for a key that is not registered. -/
def push (refuse : κ → ε) (boxes : Mailboxes κ μ) (k : κ) (m : μ) : Mailboxes κ μ × Except ε Unit :=
  match boxes.queue k with
  | some ms => (⟨Function.update boxes.queue k (some (ms ++ [m]))⟩, .ok ())
  | none => (boxes, .error (refuse k))

/-- Hand over what waits for the key. -/
def drain (boxes : Mailboxes κ μ) (k : κ) : Mailboxes κ μ × List μ :=
  match boxes.queue k with
  | some ms => (⟨Function.update boxes.queue k (some [])⟩, ms)
  | none => (boxes, [])

def call (refuse : κ → ε) (boxes : Mailboxes κ μ) : BoxCall κ μ → Mailboxes κ μ × BoxEvent κ μ ε
  | .register k => (boxes.register k, .registered k)
  | .push k m => ((boxes.push refuse k m).1, .pushed k m (boxes.push refuse k m).2)
  | .drain k => ((boxes.drain k).1, .drained k (boxes.drain k).2)

/-- The boxes after a list of calls, and the record of the calls. -/
def history (refuse : κ → ε) (boxes : Mailboxes κ μ) :
    List (BoxCall κ μ) → Mailboxes κ μ × List (BoxEvent κ μ ε)
  | [] => (boxes, [])
  | c :: cs =>
      let rest := history refuse (boxes.call refuse c).1 cs
      (rest.1, (boxes.call refuse c).2 :: rest.2)

variable (refuse : κ → ε) (boxes : Mailboxes κ μ)

theorem push_of_open {k : κ} {ms : List μ} (h : boxes.queue k = some ms) (m : μ) :
    boxes.push refuse k m = (⟨Function.update boxes.queue k (some (ms ++ [m]))⟩, .ok ()) := by
  rw [push, h]

theorem drain_of_open {k : κ} {ms : List μ} (h : boxes.queue k = some ms) :
    boxes.drain k = (⟨Function.update boxes.queue k (some [])⟩, ms) := by
  rw [drain, h]

/-- A message that is put into an empty box and handed over leaves the boxes as they were. -/
theorem push_drain {k : κ} (h : boxes.queue k = some []) (m : μ) :
    (boxes.push refuse k m).1.drain k = (boxes, [m]) := by
  rw [push_of_open refuse boxes h, drain_of_open _ (Function.update_self _ _ _)]
  show ((⟨Function.update (Function.update boxes.queue k _) k _⟩ : Mailboxes κ μ), _) = _
  rw [Function.update_idem, ← h, Function.update_eq_self]
  rfl

theorem drain_empty {k : κ} (h : boxes.queue k = some []) : boxes.drain k = (boxes, []) := by
  rw [drain_of_open boxes h, ← h, Function.update_eq_self]

theorem push_answer (k : κ) (m : μ) :
    (boxes.push refuse k m).2 = if boxes.isOpen k then .ok () else .error (refuse k) := by
  unfold push isOpen
  cases boxes.queue k <;> rfl

/-! ## What one call does to one key -/

theorem isOpen_call (c : BoxCall κ μ) (k : κ) :
    (boxes.call refuse c).1.isOpen k = true ↔ boxes.isOpen k = true ∨ c = .register k := by
  cases c with
  | register k' =>
    by_cases hk : k = k'
    · subst hk
      simp [call, register, isOpen]
    · simp [call, register, isOpen, Function.update_of_ne hk, Ne.symm hk]
  | push k' m =>
    cases hq : boxes.queue k' with
    | none => simp [call, push, hq]
    | some ms =>
      by_cases hk : k = k'
      · subst hk
        simp [call, push, isOpen, hq]
      · simp [call, push, isOpen, hq, Function.update_of_ne hk]
  | drain k' =>
    cases hq : boxes.queue k' with
    | none => simp [call, drain, hq]
    | some ms =>
      by_cases hk : k = k'
      · subst hk
        simp [call, drain, isOpen, hq]
      · simp [call, drain, isOpen, hq, Function.update_of_ne hk]

/-- One call takes at the back and hands over at the front. -/
theorem waiting_call (c : BoxCall κ μ) (k : κ) :
    (boxes.call refuse c).2.handedTo k ++ (boxes.call refuse c).1.waiting k =
      boxes.waiting k ++ (boxes.call refuse c).2.takenFor k := by
  cases c with
  | register k' =>
    by_cases hk : k = k'
    · subst hk
      simp [call, register, waiting, BoxEvent.handedTo, BoxEvent.takenFor]
    · simp [call, register, waiting, BoxEvent.handedTo, BoxEvent.takenFor, Function.update_of_ne hk]
  | push k' m =>
    cases hq : boxes.queue k' with
    | none => simp [call, push, hq, waiting, BoxEvent.handedTo, BoxEvent.takenFor]
    | some ms =>
      by_cases hk : k = k'
      · subst hk
        simp [call, push, hq, waiting, BoxEvent.handedTo, BoxEvent.takenFor]
      · simp [call, push, hq, waiting, BoxEvent.handedTo, BoxEvent.takenFor, Function.update_of_ne hk,
          Ne.symm hk]
  | drain k' =>
    cases hq : boxes.queue k' with
    | none => simp [call, drain, hq, waiting, BoxEvent.handedTo, BoxEvent.takenFor]
    | some ms =>
      by_cases hk : k = k'
      · subst hk
        simp [call, drain, hq, waiting, BoxEvent.handedTo, BoxEvent.takenFor]
      · simp [call, drain, hq, waiting, BoxEvent.handedTo, BoxEvent.takenFor, Function.update_of_ne hk,
          Ne.symm hk]

/-! ## Whole histories -/

variable {boxes}

theorem history_append (cs ds : List (BoxCall κ μ)) :
    boxes.history refuse (cs ++ ds) = (((boxes.history refuse cs).1.history refuse ds).1,
      (boxes.history refuse cs).2 ++ ((boxes.history refuse cs).1.history refuse ds).2) := by
  induction cs generalizing boxes with
  | nil => rfl
  | cons c cs ih => simp only [List.cons_append, history, ih]

theorem length_history (cs : List (BoxCall κ μ)) : (boxes.history refuse cs).2.length = cs.length := by
  induction cs generalizing boxes with
  | nil => rfl
  | cons c cs ih => simp only [history, List.length_cons, ih]

theorem isOpen_history (cs : List (BoxCall κ μ)) (k : κ) :
    (boxes.history refuse cs).1.isOpen k = true ↔ boxes.isOpen k = true ∨ .register k ∈ cs := by
  induction cs generalizing boxes with
  | nil => simp [history]
  | cons c cs ih =>
    show ((boxes.call refuse c).1.history refuse cs).1.isOpen k = true ↔ _
    rw [ih, isOpen_call, List.mem_cons, or_assoc, eq_comm (a := c)]

/-- What was handed over and what waits is what waited and what was taken, in order. -/
theorem waiting_history (cs : List (BoxCall κ μ)) (k : κ) :
    (boxes.history refuse cs).2.flatMap (BoxEvent.handedTo k) ++ (boxes.history refuse cs).1.waiting k =
      boxes.waiting k ++ (boxes.history refuse cs).2.flatMap (BoxEvent.takenFor k) := by
  induction cs generalizing boxes with
  | nil => simp [history]
  | cons c cs ih =>
    have htail := @ih (boxes.call refuse c).1
    simp only [history, List.flatMap_cons]
    rw [List.append_assoc, htail, ← List.append_assoc, waiting_call, List.append_assoc]

/-- Every record is the call itself with its answer in the boxes as they were then. -/
theorem history_split (front back : List (BoxCall κ μ)) (c : BoxCall κ μ) :
    (boxes.history refuse (front ++ c :: back)).2[front.length]? =
      some ((boxes.history refuse front).1.call refuse c).2 := by
  rw [history_append, List.getElem?_append_right (by rw [length_history]), length_history, Nat.sub_self]
  rfl

/-- A message is taken exactly when its key was registered before. -/
theorem push_after_iff (front : List (BoxCall κ μ)) (k : κ) (m : μ) :
    (((empty.history refuse front).1.push refuse k m).2 = .ok () ↔ .register k ∈ front) ∧
      (((empty.history refuse front).1.push refuse k m).2 = .error (refuse k) ↔ .register k ∉ front) := by
  have hopen : ((empty : Mailboxes κ μ).history refuse front).1.isOpen k = true ↔ .register k ∈ front := by
    rw [isOpen_history]
    exact or_iff_right Bool.false_ne_true
  rw [push_answer, ← hopen]
  by_cases h : ((empty : Mailboxes κ μ).history refuse front).1.isOpen k = true
  · simp [h]
  · simp [h]

end Mailboxes

end PslBank.Lib
