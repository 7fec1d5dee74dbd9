import PslBank.Ternary.Kernel

/-!
# The order of the indices in a row

A weight matrix fixes which indices a row lists, not in what order. The exact value of a
row does not depend on the order, but its partial sums do, and the kernel checks those. So
an input on which a network runs may be refused after its rows are reordered. It is settled
for each input which of three cases holds: every order runs, no order runs, or some do and
some do not.
-/
namespace PslBank.Ternary

open PslBank.Lib

set_option autoImplicit false

/-- The same layer with the indices inside its rows in another order. -/
structure Reordered (l l' : SparseTernaryLayer) : Prop where
  inputDim : l'.inputDim = l.inputDim
  outputDim : l'.outputDim = l.outputDim
  pos : List.Forall₂ List.Perm l.posIndices l'.posIndices
  neg : List.Forall₂ List.Perm l.negIndices l'.negIndices
  bias : l'.bias = l.bias
  relu : l'.relu = l.relu

/-- Both calls return the same vector, or both return an error. -/
def SameResult : Except Fault (List ℤ) → Except Fault (List ℤ) → Prop
  | .ok y, .ok y' => y = y'
  | .error (.error _), .error (.error _) => True
  | _, _ => False

namespace SparseTernaryLayer

variable (l : SparseTernaryLayer) (x : List ℤ) (i : ℕ)

/-- No order of row `i` leaves `i64`. -/
def RowSpread : Prop :=
  Spread (-2 ^ 63) (2 ^ 63 - 1) (l.bias.getD i 0).toInt (l.posTerms x i) ∧
    Spread (-2 ^ 63) (2 ^ 63 - 1) ((l.bias.getD i 0).toInt + (l.posTerms x i).sum) (l.negTerms x i)

instance : Decidable (l.RowSpread x i) := inferInstanceAs (Decidable (_ ∧ _))

/-- The sums at the end of the two loops of row `i` are `i64`s. -/
def RowSums : Prop :=
  (-2 ^ 63 ≤ (l.bias.getD i 0).toInt + (l.posTerms x i).sum ∧
      (l.bias.getD i 0).toInt + (l.posTerms x i).sum ≤ 2 ^ 63 - 1) ∧
    -2 ^ 63 ≤ l.exact x i ∧ l.exact x i ≤ 2 ^ 63 - 1

variable {l x i}

theorem RowSpread.stays (h : l.RowSpread x i) : l.RowStays x i :=
  rowStays_iff.mpr ⟨h.1.within, h.2.within⟩

theorem RowStays.sums (h : l.RowStays x i) : l.RowSums x i := by
  obtain ⟨hpos, hneg⟩ := rowStays_iff.mp h
  refine ⟨hpos.total, ?_⟩
  rw [exact_eq_terms]
  exact hneg.total

end SparseTernaryLayer

/-! ## What a reordering keeps -/

namespace Reordered

variable {l l' : SparseTernaryLayer}

theorem getD_perm {rows rows' : List (List UInt32)} (h : List.Forall₂ List.Perm rows rows') (i : ℕ) :
    (rows.getD i []).Perm (rows'.getD i []) := by
  induction h generalizing i with
  | nil => exact .refl _
  | cons hrow _ ih =>
    cases i with
    | zero => exact hrow
    | succ i => exact ih i

theorem perm_cols {rows rows' : List (List UInt32)} {n : ℕ} (h : List.Forall₂ List.Perm rows rows')
    (hcols : ∀ row ∈ rows, ∀ j ∈ row, j.toNat < n) : ∀ row ∈ rows', ∀ j ∈ row, j.toNat < n := by
  induction h with
  | nil => exact hcols
  | cons hrow _ ih =>
    obtain ⟨hfirst, hrest⟩ := List.forall_mem_cons.mp hcols
    exact List.forall_mem_cons.mpr ⟨fun j hj => hfirst j (hrow.mem_iff.mpr hj), ih hrest⟩

theorem wellFormed (h : Reordered l l') (hl : l.WellFormed) : l'.WellFormed := by
  constructor
  · rw [← h.pos.length_eq, h.outputDim]
    exact hl.posRows
  · rw [← h.neg.length_eq, h.outputDim]
    exact hl.negRows
  · rw [h.bias, h.outputDim]
    exact hl.biasRows
  · rw [h.inputDim]
    exact perm_cols h.pos hl.posCols
  · rw [h.inputDim]
    exact perm_cols h.neg hl.negCols

variable (x : List ℤ) (i : ℕ)

theorem posTerms_perm (h : Reordered l l') : (l.posTerms x i).Perm (l'.posTerms x i) :=
  (getD_perm h.pos i).map _

theorem negTerms_perm (h : Reordered l l') : (l.negTerms x i).Perm (l'.negTerms x i) :=
  (getD_perm h.neg i).map _

theorem exact_eq (h : Reordered l l') : l'.exact x i = l.exact x i := by
  rw [SparseTernaryLayer.exact_eq_terms, SparseTernaryLayer.exact_eq_terms, h.bias,
    (h.posTerms_perm x i).sum_eq, (h.negTerms_perm x i).sum_eq]

theorem output_eq (h : Reordered l l') : l'.output x = l.output x := by
  unfold SparseTernaryLayer.output
  rw [h.outputDim]
  apply List.map_congr_left
  intro i _
  rw [h.exact_eq, SparseTernaryLayer.activate, SparseTernaryLayer.activate, h.relu]

theorem rowSpread_iff (h : Reordered l l') : l'.RowSpread x i ↔ l.RowSpread x i := by
  unfold SparseTernaryLayer.RowSpread
  rw [h.bias, ← (h.posTerms_perm x i).sum_eq, ← Spread.perm (h.posTerms_perm x i),
    ← Spread.perm (h.negTerms_perm x i)]

theorem rowSums_iff (h : Reordered l l') : l'.RowSums x i ↔ l.RowSums x i := by
  unfold SparseTernaryLayer.RowSums
  rw [h.bias, ← (h.posTerms_perm x i).sum_eq, h.exact_eq]

end Reordered

theorem EveryRow.mono {P Q : SparseTernaryLayer → List ℤ → ℕ → Prop} (hPQ : ∀ l x i, P l x i → Q l x i)
    {layers : List SparseTernaryLayer} {x : List ℤ} (h : EveryRow P layers x) : EveryRow Q layers x := by
  induction layers generalizing x with
  | nil => trivial
  | cons l layers ih => exact ⟨fun i hi => hPQ l x i (h.1 i hi), ih h.2⟩

section Networks

variable {layers layers' : List SparseTernaryLayer} {x : List ℤ}

theorem everyRow_reordered {P : SparseTernaryLayer → List ℤ → ℕ → Prop}
    (hP : ∀ {l l'} (x : List ℤ) (i : ℕ), Reordered l l' → (P l' x i ↔ P l x i))
    (h : List.Forall₂ Reordered layers layers') : EveryRow P layers' x ↔ EveryRow P layers x := by
  induction h generalizing x with
  | nil => rfl
  | cons hl _ ih =>
    rw [EveryRow, EveryRow, hl.outputDim, hl.output_eq, ih]
    exact and_congr_left fun _ => forall₂_congr fun i _ => hP x i hl

theorem exactOutput_reordered (h : List.Forall₂ Reordered layers layers') :
    exactOutput layers' x = exactOutput layers x := by
  induction h generalizing x with
  | nil => rfl
  | cons hl _ ih =>
    rw [exactOutput_cons, exactOutput_cons, hl.output_eq, ih]

theorem accepts_reordered (h : List.Forall₂ Reordered layers layers') (n : ℕ) :
    Accepts layers' n ↔ Accepts layers n := by
  cases h with
  | nil => rfl
  | cons hl _ => simp [Accepts, hl.inputDim]

theorem linked_reordered (h : List.Forall₂ Reordered layers layers') (hlinked : Linked layers) :
    Linked layers' := by
  induction h with
  | nil => exact hlinked
  | cons hl hrest ih =>
    obtain ⟨haccepts, htail⟩ := hlinked.tail
    apply List.isChain_cons.mpr
    rw [hl.outputDim]
    exact ⟨(accepts_reordered hrest _).mpr haccepts, ih htail⟩

theorem wellFormed_reordered (h : List.Forall₂ Reordered layers layers')
    (hwf : ∀ l ∈ layers, l.WellFormed) : ∀ l ∈ layers', l.WellFormed := by
  induction h with
  | nil => exact hwf
  | cons hl _ ih =>
    obtain ⟨hfirst, hrest⟩ := List.forall_mem_cons.mp hwf
    exact List.forall_mem_cons.mpr ⟨hl.wellFormed hfirst, ih hrest⟩

end Networks

/-! ## Choosing an order for every row -/

namespace SparseTernaryLayer

variable {l : SparseTernaryLayer}

theorem forall₂_perm_map_range {rows : List (List UInt32)} {n : ℕ} {f : ℕ → List UInt32}
    (hlen : rows.length = n) (hf : ∀ i < n, (rows.getD i []).Perm (f i)) :
    List.Forall₂ List.Perm rows ((List.range n).map f) := by
  subst hlen
  apply List.forall₂_iff_get.mpr
  refine ⟨by rw [List.length_map, List.length_range], ?_⟩
  intro i hi hi'
  have hrow := hf i hi
  rw [List.getD_eq_getElem _ _ hi] at hrow
  simpa using hrow

/-- Row by row choices make a reordered layer. -/
theorem exists_reordered (hl : l.WellFormed) {Q : ℕ → List UInt32 → List UInt32 → Prop}
    (h : ∀ i < l.outputDim, ∃ pos neg, (l.posIndices.getD i []).Perm pos ∧
      (l.negIndices.getD i []).Perm neg ∧ Q i pos neg) :
    ∃ l', Reordered l l' ∧
      ∀ i < l.outputDim, Q i (l'.posIndices.getD i []) (l'.negIndices.getD i []) := by
  choose! pos neg hpos hneg hQ using h
  refine ⟨⟨l.inputDim, l.outputDim, (List.range l.outputDim).map pos,
    (List.range l.outputDim).map neg, l.bias, l.relu⟩, ?_, ?_⟩
  · exact ⟨rfl, rfl, forall₂_perm_map_range hl.posRows hpos, forall₂_perm_map_range hl.negRows hneg,
      rfl, rfl⟩
  · intro i hi
    have hget : ∀ f : ℕ → List UInt32, ((List.range l.outputDim).map f).getD i [] = f i := by
      intro f
      rw [List.getD_eq_getElem _ _ (by rwa [List.length_map, List.length_range]), List.getElem_map,
        List.getElem_range]
    rw [hget, hget]
    exact hQ i hi

variable {x : List ℤ} {i : ℕ}

/-- Some order of the row runs. -/
theorem RowSums.exists_order (hx : ∀ v ∈ x, -2 ^ 63 ≤ v ∧ v ≤ 2 ^ 63 - 1) (h : l.RowSums x i) :
    ∃ pos neg, (l.posIndices.getD i []).Perm pos ∧ (l.negIndices.getD i []).Perm neg ∧
      Within (-2 ^ 63) (2 ^ 63 - 1) (l.bias.getD i 0).toInt (pos.map fun j => x.getD j.toNat 0) ∧
      Within (-2 ^ 63) (2 ^ 63 - 1)
        ((l.bias.getD i 0).toInt + (pos.map fun j => x.getD j.toNat 0).sum)
        (neg.map fun j => -x.getD j.toNat 0) := by
  have hget : ∀ n : ℕ, -2 ^ 63 ≤ x.getD n 0 ∧ x.getD n 0 ≤ 2 ^ 63 - 1 := by
    intro n
    by_cases hn : n < x.length
    · rw [List.getD_eq_getElem _ _ hn]
      exact hx _ (List.getElem_mem hn)
    · rw [List.getD_eq_default _ _ (Nat.le_of_not_lt hn)]
      decide
  obtain ⟨hmid, hend⟩ := h
  rw [exact_eq_terms] at hend
  obtain ⟨pos, hpos, hposIn⟩ := exists_perm_within (fun j : UInt32 => x.getD j.toNat 0) (bias_mem l i)
    (fun j _ => ⟨(hget j.toNat).1, (hget j.toNat).2.trans (by decide)⟩) hmid
  obtain ⟨neg, hneg, hnegIn⟩ := exists_perm_within (fun j : UInt32 => -x.getD j.toNat 0) hmid
    (fun j _ => by have hj := hget j.toNat; constructor <;> omega) hend
  refine ⟨pos, neg, hpos.symm, hneg.symm, hposIn, ?_⟩
  rw [(hpos.map _).sum_eq]
  exact hnegIn

/-- Unless all orders of the row run, one does not. -/
theorem exists_order_spread (l : SparseTernaryLayer) (x : List ℤ) (i : ℕ) :
    ∃ pos neg, (l.posIndices.getD i []).Perm pos ∧ (l.negIndices.getD i []).Perm neg ∧
      (Within (-2 ^ 63) (2 ^ 63 - 1) (l.bias.getD i 0).toInt (pos.map fun j => x.getD j.toNat 0) ∧
        Within (-2 ^ 63) (2 ^ 63 - 1)
          ((l.bias.getD i 0).toInt + (pos.map fun j => x.getD j.toNat 0).sum)
          (neg.map fun j => -x.getD j.toNat 0) → l.RowSpread x i) := by
  by_cases hpos : Spread (-2 ^ 63) (2 ^ 63 - 1) (l.bias.getD i 0).toInt (l.posTerms x i)
  · by_cases hneg : Spread (-2 ^ 63) (2 ^ 63 - 1) ((l.bias.getD i 0).toInt + (l.posTerms x i).sum)
        (l.negTerms x i)
    · exact ⟨_, _, .refl _, .refl _, fun _ => ⟨hpos, hneg⟩⟩
    · obtain ⟨neg, hperm, hout⟩ := exists_perm_not_within _ hneg
      exact ⟨_, neg, .refl _, hperm.symm, fun h => absurd h.2 hout⟩
  · obtain ⟨pos, hperm, hout⟩ := exists_perm_not_within _ hpos
    exact ⟨pos, _, hperm.symm, .refl _, fun h => absurd h.1 hout⟩

end SparseTernaryLayer

section Networks

variable {layers : List SparseTernaryLayer} {x : List ℤ}

/-- A network whose row sums are `i64`s runs in some order. -/
theorem exists_reordered_stays (hwf : ∀ l ∈ layers, l.WellFormed)
    (hx : ∀ v ∈ x, -2 ^ 63 ≤ v ∧ v ≤ 2 ^ 63 - 1)
    (h : EveryRow SparseTernaryLayer.RowSums layers x) :
    ∃ layers', List.Forall₂ Reordered layers layers' ∧
      EveryRow SparseTernaryLayer.RowStays layers' x := by
  induction layers generalizing x with
  | nil => exact ⟨[], .nil, trivial⟩
  | cons l layers ih =>
    obtain ⟨hl, hrest⟩ := List.forall_mem_cons.mp hwf
    obtain ⟨l', hreordered, hstays⟩ :=
      SparseTernaryLayer.exists_reordered hl fun i hi => (h.1 i hi).exists_order hx
    have hout : ∀ v ∈ l.output x, -2 ^ 63 ≤ v ∧ v ≤ 2 ^ 63 - 1 := by
      intro v hv
      obtain ⟨i, hi, rfl⟩ := List.mem_map.mp hv
      have hexact := (h.1 i (List.mem_range.mp hi)).2
      unfold SparseTernaryLayer.activate
      split
      · decide
      · exact hexact
    obtain ⟨layers', hforall, hlayers⟩ := ih hrest hout h.2
    refine ⟨l' :: layers', .cons hreordered hforall, ?_, ?_⟩
    · intro i hi
      rw [hreordered.outputDim] at hi
      apply SparseTernaryLayer.rowStays_iff.mpr
      rw [hreordered.bias]
      exact hstays i hi
    · rwa [hreordered.output_eq]

/-- A network that runs in a worst order runs in every order. -/
theorem exists_reordered_spread (hwf : ∀ l ∈ layers, l.WellFormed) (x : List ℤ) :
    ∃ layers', List.Forall₂ Reordered layers layers' ∧
      (EveryRow SparseTernaryLayer.RowStays layers' x →
        EveryRow SparseTernaryLayer.RowSpread layers x) := by
  induction layers generalizing x with
  | nil => exact ⟨[], .nil, fun _ => trivial⟩
  | cons l layers ih =>
    obtain ⟨hl, hrest⟩ := List.forall_mem_cons.mp hwf
    obtain ⟨l', hreordered, hspread⟩ :=
      SparseTernaryLayer.exists_reordered hl fun i _ => l.exists_order_spread x i
    obtain ⟨layers', hforall, hlayers⟩ := ih hrest (l.output x)
    refine ⟨l' :: layers', .cons hreordered hforall, fun h => ⟨?_, ?_⟩⟩
    · intro i hi
      have hstays := SparseTernaryLayer.rowStays_iff.mp (h.1 i (by rwa [hreordered.outputDim]))
      rw [hreordered.bias] at hstays
      exact hspread i hi hstays
    · have hrows := h.2
      rw [hreordered.output_eq] at hrows
      exact hlayers hrows

end Networks

/-! ## Which inputs are settled alike in every order -/

section Settled

variable {net net' : TernaryNetwork} {x : List ℤ}

theorem forward_ok_or_error (hlinked : Linked net.layers) (x : List ℤ) :
    (Accepts net.layers x.length ∧ EveryRow SparseTernaryLayer.RowStays net.layers x) ∧
        Kernel.forward net.layers x = .ok (exactOutput net.layers x) ∨
      ¬ (Accepts net.layers x.length ∧ EveryRow SparseTernaryLayer.RowStays net.layers x) ∧
        ∃ e, Kernel.forward net.layers x = .error (.error e) := by
  by_cases h : Accepts net.layers x.length ∧ EveryRow SparseTernaryLayer.RowStays net.layers x
  · exact .inl ⟨h, Kernel.forward_of_everyRow hlinked h.1 h.2⟩
  · rcases Kernel.forward_cases hlinked x with
      ⟨first, rest, -, -, hres⟩ | ⟨hlen, hstays, -⟩ | ⟨-, li, row, -, hres⟩
    · exact .inr ⟨h, _, hres⟩
    · exact absurd ⟨hlen, hstays⟩ h
    · exact .inr ⟨h, _, hres⟩

/-- Two orders of one network agree when both run or neither does. -/
theorem sameResult_iff (hlinked : Linked net.layers)
    (h : List.Forall₂ Reordered net.layers net'.layers) :
    SameResult (Kernel.forward net.layers x) (Kernel.forward net'.layers x) ↔
      (Accepts net.layers x.length →
        (EveryRow SparseTernaryLayer.RowStays net.layers x ↔
          EveryRow SparseTernaryLayer.RowStays net'.layers x)) := by
  have hlinked' := linked_reordered h hlinked
  have haccepts := accepts_reordered h x.length
  rcases forward_ok_or_error hlinked x with ⟨hruns, hres⟩ | ⟨hruns, e, hres⟩
  · rcases forward_ok_or_error hlinked' x with ⟨hruns', hres'⟩ | ⟨hruns', e', hres'⟩
    · rw [hres, hres', exactOutput_reordered h]
      exact iff_of_true rfl fun _ => iff_of_true hruns.2 hruns'.2
    · rw [hres, hres']
      exact iff_of_false id fun hiff =>
        hruns' ⟨haccepts.mpr hruns.1, (hiff hruns.1).mp hruns.2⟩
  · rcases forward_ok_or_error hlinked' x with ⟨hruns', hres'⟩ | ⟨hruns', e', hres'⟩
    · rw [hres, hres']
      have hlen := haccepts.mp hruns'.1
      exact iff_of_false id fun hiff => hruns ⟨hlen, (hiff hlen).mpr hruns'.2⟩
    · rw [hres, hres']
      refine iff_of_true trivial fun hlen => iff_of_false ?_ ?_
      · exact fun hstays => hruns ⟨hlen, hstays⟩
      · exact fun hstays => hruns' ⟨haccepts.mpr hlen, hstays⟩

/-- All orders of a network agree on an input exactly when it is refused for its length, when
no order of any row overflows, or when the sums at the end of the loops of some row do. -/
theorem order_independent_iff (net : TernaryNetwork) (hlinked : Linked net.layers) (x : List Int64) :
    (∀ layers', List.Forall₂ Reordered net.layers layers' →
      SameResult (Kernel.forward net.layers (x.map Int64.toInt))
        (Kernel.forward layers' (x.map Int64.toInt))) ↔
      ¬ Accepts net.layers x.length ∨
        EveryRow SparseTernaryLayer.RowSpread net.layers (x.map Int64.toInt) ∨
        ¬ EveryRow SparseTernaryLayer.RowSums net.layers (x.map Int64.toInt) := by
  have hlen : (x.map Int64.toInt).length = x.length := List.length_map _
  have hx : ∀ v ∈ x.map Int64.toInt, -2 ^ 63 ≤ v ∧ v ≤ 2 ^ 63 - 1 :=
    List.forall_mem_map.mpr fun n _ => ⟨n.le_toInt, Int.le_sub_one_of_lt n.toInt_lt⟩
  have hsame : ∀ layers', List.Forall₂ Reordered net.layers layers' →
      (SameResult (Kernel.forward net.layers (x.map Int64.toInt))
        (Kernel.forward layers' (x.map Int64.toInt)) ↔
      (Accepts net.layers x.length →
        (EveryRow SparseTernaryLayer.RowStays net.layers (x.map Int64.toInt) ↔
          EveryRow SparseTernaryLayer.RowStays layers' (x.map Int64.toInt)))) := by
    intro layers' h
    rw [← hlen]
    exact @sameResult_iff net ⟨net.header, layers', wellFormed_reordered h net.wellFormed⟩ _ hlinked h
  constructor
  · intro h
    by_contra hnot
    obtain ⟨haccepts, hspread, hsums⟩ := not_or.mp hnot |>.imp not_not.mp not_or.mp
    obtain ⟨layers₁, hord₁, hstays₁⟩ := exists_reordered_stays net.wellFormed hx (not_not.mp hsums)
    obtain ⟨layers₂, hord₂, hworst⟩ := exists_reordered_spread net.wellFormed (x.map Int64.toInt)
    have hruns := ((hsame layers₁ hord₁).mp (h layers₁ hord₁) haccepts).mpr hstays₁
    exact hspread (hworst (((hsame layers₂ hord₂).mp (h layers₂ hord₂) haccepts).mp hruns))
  · intro h layers' hord
    apply (hsame layers' hord).mpr
    intro haccepts
    rcases h with hlength | hspread | hsums
    · exact absurd haccepts hlength
    · have hspread' := (everyRow_reordered Reordered.rowSpread_iff hord).mpr hspread
      exact iff_of_true (hspread.mono fun _ _ _ => SparseTernaryLayer.RowSpread.stays)
        (hspread'.mono fun _ _ _ => SparseTernaryLayer.RowSpread.stays)
    · refine iff_of_false (fun hstays => hsums ?_) fun hstays => hsums ?_
      · exact hstays.mono fun _ _ _ => SparseTernaryLayer.RowStays.sums
      · have hsums' := hstays.mono fun _ _ _ => SparseTernaryLayer.RowStays.sums
        exact (everyRow_reordered Reordered.rowSums_iff hord).mp hsums'

end Settled

/-- The largest bias, and a row that lists both inputs. -/
def brimRow : TernaryNetwork where
  header := ⟨1, "brim", 2, 1, List.Vector.replicate 32 0, List.Vector.replicate 64 0⟩
  layers := [⟨2, 1, [[0, 1]], [[]], [Int64.maxValue], false⟩]
  wellFormed := by decide

/-- Negative inputs only lower the largest bias, in both orders. -/
theorem order_independent_iff_brimRow :
    SameResult (Kernel.forward brimRow.layers ([-1, -2].map Int64.toInt))
      (Kernel.forward [⟨2, 1, [[1, 0]], [[]], [Int64.maxValue], false⟩]
        ([-1, -2].map Int64.toInt)) := by
  apply (order_independent_iff brimRow (by decide) [-1, -2]).mpr
  · exact .inr (.inl ⟨by decide, trivial⟩)
  · exact .cons ⟨rfl, rfl, .cons (.swap _ _ _) .nil, .cons (.refl _) .nil, rfl, rfl⟩ .nil

/-- `1 - 1` overflows above the largest bias, `-1 + 1` does not. -/
theorem order_dependent_brimRow :
    ¬ ∀ (net : TernaryNetwork) (x : List Int64) (layers' : List SparseTernaryLayer),
      Linked net.layers → List.Forall₂ Reordered net.layers layers' →
      SameResult (Kernel.forward net.layers (x.map Int64.toInt))
        (Kernel.forward layers' (x.map Int64.toInt)) := by
  intro h
  have hsame := h brimRow [1, -1] [⟨2, 1, [[1, 0]], [[]], [Int64.maxValue], false⟩] (by decide)
    (.cons ⟨rfl, rfl, .cons (.swap _ _ _) .nil, .cons (.refl _) .nil, rfl, rfl⟩ .nil)
  have hover : Kernel.forward brimRow.layers ([1, -1].map Int64.toInt) =
      .error (.error (.overflow 0 0)) := by rfl
  have hruns : Kernel.forward [⟨2, 1, [[1, 0]], [[]], [Int64.maxValue], false⟩]
      ([1, -1].map Int64.toInt) = .ok [2 ^ 63 - 1] := by rfl
  rw [hover, hruns] at hsame
  exact hsame

end PslBank.Ternary
