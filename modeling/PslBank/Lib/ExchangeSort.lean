import Mathlib.Data.List.Basic
import Mathlib.Order.Lattice
import Mathlib.Data.List.Perm.Basic

/-!
# Sorting by exchanges

The two nested loops that compare slot `a` with every later slot `b` and exchange them where
they are out of order. After the inner loop slot `a` holds a smallest key of what was left;
the values of the slots are a permutation throughout.
-/
namespace PslBank.Lib

set_option autoImplicit false

variable {α β : Type} [LinearOrder β]

/-- The inner loop: the value of slot `a` against the later slots. Gives the final value of
slot `a` and the later slots. -/
def exchangePass (key : α → β) : α → List α → α × List α
  | x, [] => (x, [])
  | x, y :: ys =>
      if key y < key x then ((exchangePass key y ys).1, x :: (exchangePass key y ys).2)
      else ((exchangePass key x ys).1, y :: (exchangePass key x ys).2)

theorem length_exchangePass (key : α → β) (x : α) (ys : List α) :
    (exchangePass key x ys).2.length = ys.length := by
  induction ys generalizing x with
  | nil => rfl
  | cons y ys ih =>
    rw [exchangePass]
    split
    · exact congrArg (· + 1) (ih y)
    · exact congrArg (· + 1) (ih x)

/-- The outer loop over `n` slots. -/
def exchangeLoop (key : α → β) : ℕ → List α → List α
  | 0, l => l
  | _ + 1, [] => []
  | n + 1, x :: xs => (exchangePass key x xs).1 :: exchangeLoop key n (exchangePass key x xs).2

def exchangeSort (key : α → β) (l : List α) : List α := exchangeLoop key l.length l

theorem exchangePass_perm (key : α → β) (x : α) (ys : List α) :
    ((exchangePass key x ys).1 :: (exchangePass key x ys).2).Perm (x :: ys) := by
  induction ys generalizing x with
  | nil => exact List.Perm.refl _
  | cons y ys ih =>
    rw [exchangePass]
    split
    · -- `x` goes to the slot of `y`, and the pass goes on with `y`
      calc ((exchangePass key y ys).1 :: x :: (exchangePass key y ys).2).Perm
            (x :: (exchangePass key y ys).1 :: (exchangePass key y ys).2) := List.Perm.swap _ _ _
        _ |>.Perm (x :: y :: ys) := (ih y).cons x
    · calc ((exchangePass key x ys).1 :: y :: (exchangePass key x ys).2).Perm
            (y :: (exchangePass key x ys).1 :: (exchangePass key x ys).2) := List.Perm.swap _ _ _
        _ |>.Perm (y :: x :: ys) := (ih x).cons y
        _ |>.Perm (x :: y :: ys) := List.Perm.swap _ _ _

/-- Slot `a` ends with a smallest key. -/
theorem exchangePass_le (key : α → β) (x : α) (ys : List α) :
    ∀ z ∈ x :: ys, key (exchangePass key x ys).1 ≤ key z := by
  induction ys generalizing x with
  | nil =>
    intro z hz
    rw [List.mem_singleton.mp hz]
    exact le_refl _
  | cons y ys ih =>
    intro z hz
    rw [exchangePass]
    split
    case isTrue hlt =>
      rcases List.mem_cons.mp hz with rfl | hz
      · exact le_trans (ih y y List.mem_cons_self) (le_of_lt hlt)
      · exact ih y z hz
    case isFalse hge =>
      rcases List.mem_cons.mp hz with rfl | hz
      · exact ih z z List.mem_cons_self
      · rcases List.mem_cons.mp hz with rfl | hz
        · exact le_trans (ih x x List.mem_cons_self) (not_lt.mp hge)
        · exact ih x z (List.mem_cons_of_mem _ hz)

theorem exchangeLoop_perm (key : α → β) (n : ℕ) (l : List α) : (exchangeLoop key n l).Perm l := by
  induction n generalizing l with
  | zero => rw [exchangeLoop]
  | succ n ih =>
    cases l with
    | nil => rw [exchangeLoop]
    | cons x xs =>
      rw [exchangeLoop]
      exact ((ih _).cons _).trans (exchangePass_perm key x xs)

theorem exchangeLoop_sorted (key : α → β) (n : ℕ) (l : List α) (hlen : l.length ≤ n) :
    (exchangeLoop key n l).Pairwise fun x y => key x ≤ key y := by
  induction n generalizing l with
  | zero =>
    rw [List.eq_nil_of_length_eq_zero (Nat.le_zero.mp hlen), exchangeLoop]
    exact List.Pairwise.nil
  | succ n ih =>
    cases l with
    | nil =>
      rw [exchangeLoop]
      exact List.Pairwise.nil
    | cons x xs =>
      have hlen' : (exchangePass key x xs).2.length ≤ n := by
        rw [length_exchangePass]
        exact Nat.le_of_succ_le_succ hlen
      rw [exchangeLoop, List.pairwise_cons]
      refine ⟨?_, ih _ hlen'⟩
      intro z hz
      have hmem : z ∈ (exchangePass key x xs).1 :: (exchangePass key x xs).2 :=
        List.mem_cons_of_mem _ ((exchangeLoop_perm key n _).mem_iff.mp hz)
      exact exchangePass_le key x xs z ((exchangePass_perm key x xs).mem_iff.mp hmem)

theorem exchangeSort_perm (key : α → β) (l : List α) : (exchangeSort key l).Perm l :=
  exchangeLoop_perm key l.length l

theorem exchangeSort_sorted (key : α → β) (l : List α) :
    (exchangeSort key l).Pairwise fun x y => key x ≤ key y :=
  exchangeLoop_sorted key l.length l (Nat.le_refl _)

end PslBank.Lib
