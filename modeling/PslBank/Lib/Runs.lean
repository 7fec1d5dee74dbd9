import Mathlib.Data.List.Forall2
import Mathlib.Algebra.BigOperators.Group.Finset.Piecewise
import Mathlib.Algebra.Order.BigOperators.Group.Finset
import Mathlib.Data.Fintype.Basic

/-!
# Fallible steps, runs of a machine, chains of recorded transitions, sums over accounts

General support for results over whole executions. `bind_eq_ok_iff` takes a fallible
computation apart into the steps that succeeded, `bind_eq_error_iff` says which step
failed. `run` folds a step function over a list of operations, and `Meets` says that every
operation of the list was applied in a state that satisfies a guard; `run_lastGiven` reads
an observation off the operations. A `Chain` is a list of recorded transitions in which each
one starts where the one before ended.
-/
namespace PslBank.Lib

set_option autoImplicit false

/-- A sequence of two fallible steps succeeds when both do. -/
theorem bind_eq_ok_iff {ε α β : Type} {x : Except ε α} {f : α → Except ε β} {b : β} :
    (x >>= f) = .ok b ↔ ∃ a, x = .ok a ∧ f a = .ok b := by
  cases x with
  | error e => simp [bind, Except.bind]
  | ok a => simp [bind, Except.bind]

/-- A computation mapped over a list succeeds element by element. -/
theorem mapM_eq_ok_iff {ε α β : Type} {g : α → Except ε β} {as : List α} {bs : List β} :
    as.mapM g = .ok bs ↔ List.Forall₂ (fun a b => g a = .ok b) as bs := by
  induction as generalizing bs with
  | nil =>
    rw [List.forall₂_nil_left_iff]
    exact ⟨fun h => (Except.ok.inj h).symm, fun h => congrArg Except.ok h.symm⟩
  | cons a as ih =>
    rw [List.mapM_cons, bind_eq_ok_iff, List.forall₂_cons_left_iff]
    constructor
    · rintro ⟨b, hb, h⟩
      obtain ⟨bs', hbs, h⟩ := bind_eq_ok_iff.mp h
      exact ⟨b, bs', hb, ih.mp hbs, (Except.ok.inj h).symm⟩
    · rintro ⟨b, bs', hb, hbs, rfl⟩
      exact ⟨b, hb, bind_eq_ok_iff.mpr ⟨bs', ih.mpr hbs, rfl⟩⟩

/-- A sequence of two fallible steps fails in one of them. -/
theorem bind_eq_error_iff {ε α β : Type} {x : Except ε α} {f : α → Except ε β} {e : ε} :
    (x >>= f) = .error e ↔ x = .error e ∨ ∃ a, x = .ok a ∧ f a = .error e := by
  cases x with
  | error e' => simp [bind, Except.bind]
  | ok a => simp [bind, Except.bind]

/-- A computation mapped over a list fails at the first element where it fails. -/
theorem mapM_eq_error_iff {ε α β : Type} {g : α → Except ε β} {as : List α} {e : ε} :
    as.mapM g = .error e ↔ ∃ front a back, as = front ++ a :: back ∧
      (∀ b ∈ front, ∃ c, g b = .ok c) ∧ g a = .error e := by
  induction as with
  | nil =>
    constructor
    · intro h
      cases h
    · intro hyp
      obtain ⟨front, a, back, h, -⟩ := hyp
      cases front <;> cases h
  | cons a as ih =>
    rw [List.mapM_cons, bind_eq_error_iff]
    constructor
    · intro hyp
      rcases hyp with ha | ⟨c, hc, h⟩
      · exact ⟨[], a, as, rfl, by simp, ha⟩
      · rcases bind_eq_error_iff.mp h with h | ⟨bs, -, h⟩
        · obtain ⟨front, b, back, rfl, hfront, hb⟩ := ih.mp h
          exact ⟨a :: front, b, back, rfl, List.forall_mem_cons.mpr ⟨⟨c, hc⟩, hfront⟩, hb⟩
        · cases h
    · intro hyp
      obtain ⟨front, b, back, h, hfront, hb⟩ := hyp
      cases front with
      | nil =>
        obtain ⟨rfl, rfl⟩ := List.cons.inj h
        exact .inl hb
      | cons a' front =>
        obtain ⟨rfl, rfl⟩ := List.cons.inj h
        obtain ⟨⟨c, hc⟩, hfront⟩ := List.forall_mem_cons.mp hfront
        exact .inr ⟨c, hc, bind_eq_error_iff.mpr (.inl (ih.mpr ⟨front, b, back, rfl, hfront, hb⟩))⟩

theorem mapM_congr {ε α β : Type} {f g : α → Except ε β} {as : List α} (h : ∀ a ∈ as, f a = g a) :
    as.mapM f = as.mapM g := by
  induction as with
  | nil => rfl
  | cons a as ih =>
    obtain ⟨ha, has⟩ := List.forall_mem_cons.mp h
    rw [List.mapM_cons, List.mapM_cons, ha, ih has]

theorem mapError_bind {ε ε' α β : Type} (x : Except ε α) (f : α → Except ε β) (g : ε → ε') :
    (x >>= f).mapError g = x.mapError g >>= fun a => (f a).mapError g := by
  cases x <;> rfl

/-- Errors converted element by element or at the end. -/
theorem mapM_mapError {ε ε' α β : Type} (f : α → Except ε β) (g : ε → ε') (as : List α) :
    as.mapM (fun a => (f a).mapError g) = (as.mapM f).mapError g := by
  induction as with
  | nil => rfl
  | cons a as ih =>
    rw [List.mapM_cons, List.mapM_cons, mapError_bind, ih]
    congr 1
    funext b
    rw [mapError_bind]
    rfl

theorem mapError_eq_ok_iff {ε ε' α : Type} {x : Except ε α} {f : ε → ε'} {a : α} :
    x.mapError f = .ok a ↔ x = .ok a := by
  cases x <;> simp [Except.mapError]

section Run

variable {σ ι : Type*} (step : σ → ι → σ)

def run (s : σ) (ops : List ι) : σ := ops.foldl step s

/-- Every operation meets the guard in the state it is applied to. -/
def Meets (guard : σ → ι → Prop) : σ → List ι → Prop
  | _, [] => True
  | s, op :: ops => guard s op ∧ Meets guard (step s op) ops

instance (guard : σ → ι → Prop) [∀ s op, Decidable (guard s op)] :
    ∀ (s : σ) (ops : List ι), Decidable (Meets step guard s ops)
  | _, [] => .isTrue trivial
  | s, op :: ops =>
      have := instDecidableMeets guard (step s op) ops
      inferInstanceAs (Decidable (guard s op ∧ Meets step guard (step s op) ops))

theorem run_invariant {step : σ → ι → σ} {guard : σ → ι → Prop} (Inv : σ → Prop)
    (hstep : ∀ s op, guard s op → Inv s → Inv (step s op)) {s : σ} {ops : List ι}
    (hm : Meets step guard s ops) (hs : Inv s) : Inv (run step s ops) := by
  induction ops generalizing s with
  | nil => exact hs
  | cons op ops ih => exact ih hm.2 (hstep s op hm.1 hs)

theorem run_append {step : σ → ι → σ} (s : σ) (ops ops' : List ι) :
    run step s (ops ++ ops') = run step (run step s ops) ops' :=
  List.foldl_append

/-- A preorder that every step respects relates the ends of a run. -/
theorem run_related {step : σ → ι → σ} (R : σ → σ → Prop) (hrefl : ∀ s, R s s)
    (htrans : ∀ {s t u}, R s t → R t u → R s u) (hstep : ∀ s op, R s (step s op)) (s : σ)
    (ops : List ι) : R s (run step s ops) := by
  induction ops generalizing s with
  | nil => exact hrefl s
  | cons op ops ih => exact htrans (hstep s op) (ih (step s op))

/-- The last value that an operation of the list gives. -/
def lastGiven {α : Type*} (given : ι → Option α) (ops : List ι) : Option α :=
  (ops.filterMap given).getLast?

/-- An observation that every operation overwrites or leaves alone ends with the value that
was given last. -/
theorem run_lastGiven {α : Type*} {step : σ → ι → σ} {observe : σ → α} {given : ι → Option α}
    (hstep : ∀ s op, observe (step s op) = (given op).getD (observe s)) (s : σ) (ops : List ι) :
    observe (run step s ops) = (lastGiven given ops).getD (observe s) := by
  induction ops generalizing s with
  | nil => rfl
  | cons op ops ih =>
    show observe (run step (step s op) ops) = _
    rw [ih, hstep, lastGiven, lastGiven, List.filterMap_cons]
    cases given op with
    | none => rfl
    | some v =>
      rw [List.getLast?_cons]
      rfl

theorem Meets.of_forall {step : σ → ι → σ} {guard : σ → ι → Prop} (hg : ∀ s op, guard s op)
    (s : σ) (ops : List ι) : Meets step guard s ops := by
  induction ops generalizing s with
  | nil => trivial
  | cons op ops ih => exact ⟨hg s op, ih (step s op)⟩

theorem Meets.mono {step : σ → ι → σ} {guard guard' : σ → ι → Prop}
    (hg : ∀ s op, guard s op → guard' s op) {s : σ} {ops : List ι}
    (hm : Meets step guard s ops) : Meets step guard' s ops := by
  induction ops generalizing s with
  | nil => trivial
  | cons op ops ih => exact ⟨hg s op hm.1, ih hm.2⟩

/-- Two conditions that agree on the states of an invariant are met by the same runs. -/
theorem Meets.congr_invariant {step : σ → ι → σ} {guard guard' : σ → ι → Prop} (Inv : σ → Prop)
    (hstep : ∀ s op, Inv s → Inv (step s op)) (hg : ∀ s op, Inv s → (guard s op ↔ guard' s op)) {s : σ}
    {ops : List ι} (hs : Inv s) : Meets step guard s ops ↔ Meets step guard' s ops := by
  induction ops generalizing s with
  | nil => exact Iff.rfl
  | cons op ops ih => exact and_congr (hg s op hs) (ih (hstep s op hs))

theorem Meets.of_prefix {step : σ → ι → σ} {guard : σ → ι → Prop} {s : σ} {ops ops' : List ι}
    (hp : ops <+: ops') (hm : Meets step guard s ops') : Meets step guard s ops := by
  induction ops generalizing s ops' with
  | nil => trivial
  | cons op ops ih =>
    obtain ⟨rest, rfl⟩ := hp
    exact ⟨hm.1, ih ⟨rest, rfl⟩ hm.2⟩

end Run

section Chain

variable {σ ε : Type*} {source target : ε → σ} {ok : ε → Prop}

/-- Transitions that lead from one state to another, the latest one last. -/
inductive Chain (source target : ε → σ) (ok : ε → Prop) : σ → List ε → σ → Prop
  | nil (s : σ) : Chain source target ok s [] s
  | snoc {s : σ} {xs : List ε} {x : ε} (before : Chain source target ok s xs (source x)) (hx : ok x) :
      Chain source target ok s (xs ++ [x]) (target x)

theorem Chain.split {s u : σ} {xs ys : List ε} (h : Chain source target ok s (xs ++ ys) u) :
    ∃ t, Chain source target ok s xs t ∧ Chain source target ok t ys u := by
  induction ys using List.reverseRecOn generalizing u with
  | nil => exact ⟨u, by rwa [List.append_nil] at h, Chain.nil u⟩
  | append_singleton ys y ih =>
    rw [← List.append_assoc] at h
    generalize hl : xs ++ ys ++ [y] = l at h
    cases h with
    | nil => simp at hl
    | snoc before hx =>
      obtain ⟨hl', hy⟩ := List.append_inj' hl rfl
      obtain rfl := List.singleton_inj.mp hy
      rw [← hl'] at before
      obtain ⟨t, h1, h2⟩ := ih before
      exact ⟨t, h1, Chain.snoc h2 hx⟩

/-- Every member of a chain starts where the part before it ends. -/
theorem Chain.split_at {s u : σ} {xs ys : List ε} {x : ε}
    (h : Chain source target ok s (xs ++ x :: ys) u) :
    Chain source target ok s xs (source x) ∧ ok x ∧ Chain source target ok (target x) ys u := by
  rw [show xs ++ x :: ys = (xs ++ [x]) ++ ys by simp] at h
  obtain ⟨t, h1, h2⟩ := h.split
  generalize hl : xs ++ [x] = l at h1
  cases h1 with
  | nil => simp at hl
  | snoc before hx =>
    obtain ⟨rfl, hy⟩ := List.append_inj' hl rfl
    obtain rfl := List.singleton_inj.mp hy
    exact ⟨before, hx, h2⟩

end Chain

section Total

variable {κ : Type*} [Fintype κ] [DecidableEq κ]

/-- Changing a function at one point changes its sum by the difference there. -/
theorem sum_update (f : κ → ℕ) (k : κ) (n : ℕ) :
    ∑ i, Function.update f k n i + f k = ∑ i, f i + n := by
  rw [Finset.sum_update_of_mem (Finset.mem_univ k),
    ← Finset.sum_sdiff (Finset.subset_univ {k}) (f := f), Finset.sum_singleton]
  omega

end Total

end PslBank.Lib
