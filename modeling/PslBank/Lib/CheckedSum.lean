import Mathlib.Algebra.BigOperators.Group.List.Basic
import Mathlib.Algebra.Order.BigOperators.Group.List
import Mathlib.Algebra.Order.Ring.Int
import Mathlib.Data.List.Infix

/-!
# Sums that are checked at every step

A machine adds up numbers one by one and fails at the first partial sum outside `lo..hi`.
The exact total says nothing about the partial sums, so the order matters. Two sums that do
not depend on the order settle what all orders together can do: every order stays inside
exactly when the start plus all negative terms and the start plus all positive terms do,
and some order stays inside exactly when the total does.
-/
namespace PslBank.Lib

set_option autoImplicit false

/-- Every partial sum from `s` on lies in `lo..hi`. -/
def Within (lo hi s : ℤ) (ts : List ℤ) : Prop :=
  ∀ front, front <+: ts → lo ≤ s + front.sum ∧ s + front.sum ≤ hi

/-- The two extreme partial sums lie in `lo..hi`. -/
def Spread (lo hi s : ℤ) (ts : List ℤ) : Prop :=
  lo ≤ s + (ts.map (min · 0)).sum ∧ s + (ts.map (max · 0)).sum ≤ hi

instance (lo hi s : ℤ) (ts : List ℤ) : Decidable (Spread lo hi s ts) :=
  inferInstanceAs (Decidable (_ ≤ _ ∧ _ ≤ _))

section Within

variable {lo hi s t : ℤ} {ts us : List ℤ}

theorem within_nil : Within lo hi s [] ↔ lo ≤ s ∧ s ≤ hi := by
  constructor
  · intro h
    simpa using h [] (List.prefix_refl [])
  · intro h front hfront
    rw [List.prefix_nil.mp hfront]
    simpa using h

theorem within_cons : Within lo hi s (t :: ts) ↔ (lo ≤ s ∧ s ≤ hi) ∧ Within lo hi (s + t) ts := by
  constructor
  · intro h
    refine ⟨by simpa using h [] List.nil_prefix, ?_⟩
    intro front hfront
    have ht := h (t :: front) (List.cons_prefix_cons.mpr ⟨rfl, hfront⟩)
    rwa [List.sum_cons, ← add_assoc] at ht
  · intro hyp front hfront
    obtain ⟨hs, h⟩ := hyp
    cases front with
    | nil => simpa using hs
    | cons u front =>
      obtain ⟨rfl, hrest⟩ := List.cons_prefix_cons.mp hfront
      rw [List.sum_cons, ← add_assoc]
      exact h front hrest

theorem Within.start (h : Within lo hi s ts) : lo ≤ s ∧ s ≤ hi := by
  simpa using h [] List.nil_prefix

theorem Within.total (h : Within lo hi s ts) : lo ≤ s + ts.sum ∧ s + ts.sum ≤ hi :=
  h ts (List.prefix_refl ts)

theorem within_append :
    Within lo hi s (ts ++ us) ↔ Within lo hi s ts ∧ Within lo hi (s + ts.sum) us := by
  induction ts generalizing s with
  | nil =>
    rw [List.nil_append, List.sum_nil, add_zero, within_nil]
    exact ⟨fun h => ⟨h.start, h⟩, fun h => h.2⟩
  | cons t ts ih =>
    rw [List.cons_append, within_cons, within_cons, ih, List.sum_cons, add_assoc, and_assoc,
      and_assoc, and_assoc]

instance decidableWithin (lo hi : ℤ) : ∀ (s : ℤ) (ts : List ℤ), Decidable (Within lo hi s ts)
  | _, [] => decidable_of_iff _ within_nil.symm
  | s, t :: ts =>
      have := decidableWithin lo hi (s + t) ts
      decidable_of_iff _ within_cons.symm

/-- No order can leave the range. -/
theorem Spread.within (h : Spread lo hi s ts) : Within lo hi s ts := by
  induction ts generalizing s with
  | nil => exact within_nil.mpr (by simpa [Spread] using h)
  | cons t ts ih =>
    obtain ⟨hlow, hhigh⟩ := h
    rw [List.map_cons, List.sum_cons] at hlow hhigh
    have hneg : (ts.map (min · 0)).sum ≤ (ts.map (min · 0)).length • 0 :=
      List.sum_le_card_nsmul _ 0 (List.forall_mem_map.mpr fun u _ => min_le_right u 0)
    rw [nsmul_zero] at hneg
    have hpos : 0 ≤ (ts.map (max · 0)).sum :=
      List.sum_nonneg (List.forall_mem_map.mpr fun u _ => le_max_right u 0)
    exact within_cons.mpr ⟨⟨by omega, by omega⟩, ih ⟨by omega, by omega⟩⟩

theorem Spread.perm (h : ts.Perm us) : Spread lo hi s ts ↔ Spread lo hi s us := by
  unfold Spread
  rw [(h.map (min · 0)).sum_eq, (h.map (max · 0)).sum_eq]

end Within

/-! ## Choosing an order -/

section Order

variable {β : Type*} (g : β → ℤ) {lo hi s : ℤ} {js : List β}

/-- Leaving terms out is counting them as zero. -/
theorem sum_filter_eq {p : ℤ → Bool} {clip : ℤ → ℤ} (hclip : ∀ v, clip v = if p v then v else 0)
    (js : List β) : ((js.filter fun j => p (g j)).map g).sum = ((js.map g).map clip).sum := by
  induction js with
  | nil => rfl
  | cons j js ih =>
    rw [List.map_cons, List.map_cons, List.sum_cons, ← ih, hclip]
    by_cases hj : p (g j) = true
    · rw [List.filter_cons, if_pos hj, List.map_cons, List.sum_cons, if_pos hj]
    · rw [List.filter_cons, if_neg hj, if_neg hj, zero_add]

/-- With the terms of one sign in front, an extreme sum outside the range is reached. -/
theorem exists_perm_not_within (h : ¬ Spread lo hi s (js.map g)) :
    ∃ js' : List β, js'.Perm js ∧ ¬ Within lo hi s (js'.map g) := by
  have hsplit := List.filter_append_perm (fun j => decide (0 ≤ g j)) js
  have hmax : ∀ v : ℤ, max v 0 = if decide (0 ≤ v) then v else 0 := by
    intro v
    simp only [decide_eq_true_iff]
    split <;> omega
  have hmin : ∀ v : ℤ, min v 0 = if !decide (0 ≤ v) then v else 0 := by
    intro v
    simp only [Bool.not_eq_true', decide_eq_false_iff_not]
    split <;> omega
  rcases not_and_or.mp h with hlow | hhigh
  · refine ⟨_, List.perm_append_comm.trans hsplit, fun hw => hlow ?_⟩
    rw [List.map_append] at hw
    have hfront := (within_append.mp hw).1.total.1
    rwa [sum_filter_eq g hmin] at hfront
  · refine ⟨_, hsplit, fun hw => hhigh ?_⟩
    rw [List.map_append] at hw
    have hfront := (within_append.mp hw).1.total.2
    rwa [sum_filter_eq g hmax] at hfront

theorem spread_of_nonneg {ts : List ℤ} (hs : lo ≤ s) (hsum : s + ts.sum ≤ hi)
    (hpos : ∀ t ∈ ts, 0 ≤ t) : Spread lo hi s ts := by
  have hmin : ts.map (min · 0) = ts.map fun _ => 0 :=
    List.map_congr_left fun t ht => min_eq_right (hpos t ht)
  have hmax : ts.map (max · 0) = ts :=
    (List.map_congr_left fun t ht => max_eq_left (hpos t ht)).trans (List.map_id' ts)
  refine ⟨?_, ?_⟩
  · rw [hmin]
    simpa using hs
  · rwa [hmax]

theorem spread_of_nonpos {ts : List ℤ} (hs : s ≤ hi) (hsum : lo ≤ s + ts.sum)
    (hneg : ∀ t ∈ ts, t ≤ 0) : Spread lo hi s ts := by
  have hmin : ts.map (min · 0) = ts :=
    (List.map_congr_left fun t ht => min_eq_left (hneg t ht)).trans (List.map_id' ts)
  have hmax : ts.map (max · 0) = ts.map fun _ => 0 :=
    List.map_congr_left fun t ht => max_eq_right (hneg t ht)
  refine ⟨?_, ?_⟩
  · rwa [hmin]
  · rw [hmax]
    simpa using hs

/-- Terms that cross zero without jumping over the range can be ordered to stay inside: a
negative one whenever the sum is not negative, a nonnegative one otherwise. -/
theorem exists_perm_within (hs : lo ≤ s ∧ s ≤ hi) (hstep : ∀ j ∈ js, lo ≤ g j ∧ g j ≤ hi + 1)
    (hsum : lo ≤ s + (js.map g).sum ∧ s + (js.map g).sum ≤ hi) :
    ∃ js' : List β, js'.Perm js ∧ Within lo hi s (js'.map g) := by
  generalize hn : js.length = n
  induction n generalizing s js with
  | zero =>
    obtain rfl := List.length_eq_zero_iff.mp hn
    exact ⟨[], .refl _, within_nil.mpr hs⟩
  | succ n ih =>
    -- one term that moves the sum towards zero goes first
    have hmove : ∀ j ∈ js, (lo ≤ s + g j ∧ s + g j ≤ hi) →
        ∃ js' : List β, js'.Perm js ∧ Within lo hi s (js'.map g) := by
      intro j hj hnext
      obtain ⟨front, back, rfl⟩ := List.append_of_mem hj
      have hmiddle : (front ++ j :: back).Perm (j :: (front ++ back)) := List.perm_middle
      have hsplit := (hmiddle.map g).sum_eq
      rw [List.map_cons, List.sum_cons] at hsplit
      rw [hsplit, ← add_assoc] at hsum
      obtain ⟨js', hperm, hwithin⟩ := ih hnext
        (fun k hk => hstep k (hmiddle.mem_iff.mpr (List.mem_cons_of_mem j hk))) hsum
        (by rw [hmiddle.length_eq, List.length_cons] at hn; exact Nat.succ_inj.mp hn)
      exact ⟨j :: js', (hperm.cons j).trans hmiddle.symm, within_cons.mpr ⟨hs, hwithin⟩⟩
    by_cases hzero : 0 ≤ s
    · by_cases hneg : ∃ j ∈ js, g j < 0
      · obtain ⟨j, hj, hlt⟩ := hneg
        have hb := hstep j hj
        exact hmove j hj ⟨by omega, by omega⟩
      · push Not at hneg
        exact ⟨js, .refl _, (spread_of_nonneg hs.1 hsum.2 (List.forall_mem_map.mpr hneg)).within⟩
    · by_cases hpos : ∃ j ∈ js, 0 < g j
      · obtain ⟨j, hj, hlt⟩ := hpos
        have hb := hstep j hj
        exact hmove j hj ⟨by omega, by omega⟩
      · push Not at hpos
        exact ⟨js, .refl _, (spread_of_nonpos hs.2 hsum.1 (List.forall_mem_map.mpr hpos)).within⟩

end Order

end PslBank.Lib
