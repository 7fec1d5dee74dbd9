import Mathlib.Data.List.Basic

/-!
# Words of a text

A text is a list over any alphabet, cut at the members of a set of separators. The words are the
runs between them, without the empty ones. Words joined by one separator are read back as they
are, so the joined text determines them; and two sets of separators give one joined text exactly
where they agree on the members of the text.
-/
namespace PslBank.Lib

set_option autoImplicit false

variable {α : Type*}

/-- The maximal runs without a separator, in order. -/
def words (isSep : α → Bool) (xs : List α) : List (List α) :=
  (xs.splitOnP isSep).filter fun w => !w.isEmpty

/-- Something that comes out of the splitting: not empty and without a separator. -/
structure IsWord (isSep : α → Bool) (w : List α) : Prop where
  ne_nil : w ≠ []
  no_sep : ∀ x ∈ w, isSep x = false

variable {isSep : α → Bool}

theorem isWord_iff {w : List α} : IsWord isSep w ↔ w.isEmpty = false ∧ w.all (fun x => !isSep x) = true := by
  rw [List.isEmpty_eq_false_iff, List.all_eq_true]
  constructor
  · intro h
    exact ⟨h.ne_nil, fun x hx => by rw [h.no_sep x hx]; rfl⟩
  · intro h
    exact ⟨h.1, fun x hx => by simpa using h.2 x hx⟩

instance (w : List α) : Decidable (IsWord isSep w) := decidable_of_iff _ isWord_iff.symm

theorem words_nil : words isSep [] = [] := rfl

/-- A word alone is split into itself. -/
theorem words_word {w : List α} (h : IsWord isSep w) : words isSep w = [w] := by
  rw [words, List.splitOnP_eq_singleton h.no_sep]
  simp [h.ne_nil]

/-- A separator splits what is before it from what is after it. -/
theorem words_append_cons {s : α} (hs : isSep s = true) (xs ys : List α) :
    words isSep (xs ++ s :: ys) = words isSep xs ++ words isSep ys := by
  rw [words, List.splitOnP_append_cons xs ys hs, List.filter_append]
  rfl

/-- Joined words are read back. -/
theorem words_intercalate {s : α} (hs : isSep s = true) {ws : List (List α)}
    (h : ∀ w ∈ ws, IsWord isSep w) : words isSep ([s].intercalate ws) = ws := by
  induction ws with
  | nil => rfl
  | cons w ws ih =>
    have hw := words_word (h w List.mem_cons_self)
    have ih := ih fun v hv => h v (List.mem_cons_of_mem _ hv)
    cases ws with
    | nil => rw [List.intercalate_singleton, hw]
    | cons v ws => rw [List.intercalate_cons_cons, List.append_assoc, List.singleton_append,
        words_append_cons hs, hw, ih, List.singleton_append]

/-- Words joined by a separator come apart in one way only. -/
theorem intercalate_inj {s : α} (hs : isSep s = true) {ws vs : List (List α)}
    (hw : ∀ w ∈ ws, IsWord isSep w) (hv : ∀ v ∈ vs, IsWord isSep v)
    (h : [s].intercalate ws = [s].intercalate vs) : ws = vs := by
  rw [← words_intercalate hs hw, h, words_intercalate hs hv]

theorem no_sep_of_mem_splitOnP {xs w : List α} (h : w ∈ xs.splitOnP isSep) : ∀ x ∈ w, isSep x = false := by
  induction xs generalizing w with
  | nil =>
    rw [List.splitOnP_nil, List.mem_singleton] at h
    simp [h]
  | cons x xs ih =>
    rw [List.splitOnP_cons_eq_if_modifyHead] at h
    split at h
    · rcases List.mem_cons.mp h with rfl | h
      · simp
      · exact ih h
    · rename_i hx
      obtain ⟨v, vs, hvs⟩ := List.exists_cons_of_ne_nil (List.splitOnP_ne_nil isSep xs)
      rw [hvs, List.modifyHead_cons] at h
      rcases List.mem_cons.mp h with rfl | h
      · intro y hy
        rcases List.mem_cons.mp hy with rfl | hy
        · exact eq_false_of_ne_true hx
        · exact ih (hvs ▸ List.mem_cons_self) y hy
      · exact ih (hvs ▸ List.mem_cons_of_mem _ h)

theorem isWord_of_mem {xs w : List α} (h : w ∈ words isSep xs) : IsWord isSep w := by
  obtain ⟨hmem, hne⟩ := List.mem_filter.mp h
  exact ⟨by simpa using hne, no_sep_of_mem_splitOnP hmem⟩

/-- Joining the words and splitting again gives the same words. -/
theorem words_normalized {s : α} (hs : isSep s = true) (xs : List α) :
    words isSep ([s].intercalate (words isSep xs)) = words isSep xs :=
  words_intercalate hs fun _ => isWord_of_mem

/-! ## What the words keep -/

/-- Every element that is no separator is in a word. -/
theorem exists_word_of_mem {xs : List α} {x : α} (hx : x ∈ xs) (hsep : isSep x = false) :
    ∃ w ∈ words isSep xs, x ∈ w := by
  suffices h : ∃ w ∈ xs.splitOnP isSep, x ∈ w by
    obtain ⟨w, hw, hxw⟩ := h
    exact ⟨w, List.mem_filter.mpr ⟨hw, by simp [List.ne_nil_of_mem hxw]⟩, hxw⟩
  induction xs with
  | nil => cases hx
  | cons y ys ih =>
    rw [List.splitOnP_cons_eq_if_modifyHead]
    split
    · rename_i hy
      rcases List.mem_cons.mp hx with rfl | hx
      · rw [hsep] at hy
        cases hy
      · obtain ⟨w, hw, hxw⟩ := ih hx
        exact ⟨w, List.mem_cons_of_mem _ hw, hxw⟩
    · obtain ⟨v, vs, hvs⟩ := List.exists_cons_of_ne_nil (List.splitOnP_ne_nil isSep ys)
      rw [hvs, List.modifyHead_cons]
      rcases List.mem_cons.mp hx with rfl | hx
      · exact ⟨x :: v, List.mem_cons_self, List.mem_cons_self⟩
      · obtain ⟨w, hw, hxw⟩ := ih hx
        rw [hvs] at hw
        rcases List.mem_cons.mp hw with rfl | hw
        · exact ⟨y :: w, List.mem_cons_self, List.mem_cons_of_mem _ hxw⟩
        · exact ⟨w, List.mem_cons_of_mem _ hw, hxw⟩

theorem mem_intercalate_singleton {s x : α} {ws : List (List α)} (h : x ∈ [s].intercalate ws) :
    x = s ∨ ∃ w ∈ ws, x ∈ w := by
  induction ws with
  | nil => cases h
  | cons w ws ih =>
    cases ws with
    | nil =>
      rw [List.intercalate_singleton] at h
      exact .inr ⟨w, List.mem_cons_self, h⟩
    | cons v ws =>
      rw [List.intercalate_cons_cons, List.append_assoc, List.mem_append, List.singleton_append,
        List.mem_cons] at h
      rcases h with h | h | h
      · exact .inr ⟨w, List.mem_cons_self, h⟩
      · exact .inl h
      · obtain hs | ⟨u, hu, hx⟩ := ih h
        · exact .inl hs
        · exact .inr ⟨u, List.mem_cons_of_mem _ hu, hx⟩

theorem mem_of_mem_word {xs w : List α} {x : α} (hw : w ∈ words isSep xs) (hx : x ∈ w) : x ∈ xs := by
  have hmem := (List.mem_filter.mp hw).1
  clear hw
  induction xs generalizing w with
  | nil =>
    rw [List.splitOnP_nil, List.mem_singleton] at hmem
    rwa [hmem] at hx
  | cons y ys ih =>
    rw [List.splitOnP_cons_eq_if_modifyHead] at hmem
    obtain ⟨v, vs, hvs⟩ := List.exists_cons_of_ne_nil (List.splitOnP_ne_nil isSep ys)
    split at hmem
    · rcases List.mem_cons.mp hmem with rfl | hmem
      · cases hx
      · exact List.mem_cons_of_mem _ (ih hx hmem)
    · rw [hvs, List.modifyHead_cons] at hmem
      rcases List.mem_cons.mp hmem with rfl | hmem
      · rcases List.mem_cons.mp hx with rfl | hx
        · exact List.mem_cons_self
        · exact List.mem_cons_of_mem _ (ih hx (hvs ▸ List.mem_cons_self))
      · exact List.mem_cons_of_mem _ (ih hx (hvs ▸ List.mem_cons_of_mem _ hmem))

/-- Only the separators that occur matter. -/
theorem words_congr {isSep' : α → Bool} {xs : List α} (h : ∀ x ∈ xs, isSep x = isSep' x) :
    words isSep xs = words isSep' xs := by
  have hsplit : xs.splitOnP isSep = xs.splitOnP isSep' := by
    induction xs with
    | nil => rfl
    | cons x xs ih =>
      rw [List.splitOnP_cons_eq_if_modifyHead, List.splitOnP_cons_eq_if_modifyHead,
        h x List.mem_cons_self, ih fun y hy => h y (List.mem_cons_of_mem _ hy)]
  rw [words, words, hsplit]

/-- More separators give the same joined text only where they do not occur. -/
theorem intercalate_words_eq_iff {isSep' : α → Bool} (hsub : ∀ x, isSep x = true → isSep' x = true)
    {s : α} (hs : isSep s = true) (xs : List α) :
    [s].intercalate (words isSep' xs) = [s].intercalate (words isSep xs) ↔
      ∀ x ∈ xs, isSep' x = true → isSep x = true := by
  constructor
  · intro h x hx hsep'
    by_contra hsep
    have hsep := eq_false_of_ne_true hsep
    obtain ⟨w, hw, hxw⟩ := exists_word_of_mem hx hsep
    rw [← words_normalized hs xs, ← h] at hw
    rcases mem_intercalate_singleton (mem_of_mem_word hw hxw) with rfl | ⟨v, hv, hxv⟩
    · rw [hs] at hsep
      cases hsep
    · rw [(isWord_of_mem hv).no_sep x hxv] at hsep'
      cases hsep'
  · intro h
    have hcongr : words isSep xs = words isSep' xs := by
      refine words_congr fun x hx => ?_
      rw [Bool.eq_iff_iff]
      exact ⟨hsub x, h x hx⟩
    rw [hcongr]

end PslBank.Lib
