import PslBank.Ternary.Error
import PslBank.Lib.Runs
import Mathlib.Algebra.BigOperators.Group.List.Basic
import Mathlib.Algebra.Order.Ring.Int
import Mathlib.Data.List.GetD
import Mathlib.Tactic.Linarith

/-!
# Ternary layers

The layer and its kernel from `ternary_vm/src/network.rs`, with `thermo::encode` and
`argmax`. An activation is an integer; the kernel checks every partial sum against the
range of `i64` and stops at the first one outside. `WellFormed` has the documented
invariants of a layer that its reads rely on: under them every read of the kernel is in
range, so the default of `getD` stands for no behaviour of the source.
-/
namespace PslBank.Ternary

open PslBank.Lib

set_option autoImplicit false

structure SparseTernaryLayer where
  inputDim : ℕ
  outputDim : ℕ
  posIndices : List (List UInt32)
  negIndices : List (List UInt32)
  bias : List Int64
  relu : Bool
  deriving DecidableEq

/-- `i64::checked_add`. -/
def checkedAdd (a b : ℤ) : Option ℤ :=
  if -2 ^ 63 ≤ a + b ∧ a + b < 2 ^ 63 then some (a + b) else none

/-- `i64::checked_sub`. -/
def checkedSub (a b : ℤ) : Option ℤ :=
  if -2 ^ 63 ≤ a - b ∧ a - b < 2 ^ 63 then some (a - b) else none

/-- One of the two loops over the columns of a row. -/
def accumulate (op : ℤ → ℤ → Option ℤ) (x : List ℤ) : List UInt32 → ℤ → Option ℤ
  | [], acc => some acc
  | j :: js, acc => (op acc (x.getD j.toNat 0)).bind (accumulate op x js)

namespace SparseTernaryLayer

/-- The rows are there and every column is one of the input. -/
structure WellFormed (l : SparseTernaryLayer) : Prop where
  posRows : l.posIndices.length = l.outputDim
  negRows : l.negIndices.length = l.outputDim
  biasRows : l.bias.length = l.outputDim
  posCols : ∀ row ∈ l.posIndices, ∀ j ∈ row, j.toNat < l.inputDim
  negCols : ∀ row ∈ l.negIndices, ∀ j ∈ row, j.toNat < l.inputDim

theorem wellFormed_iff {l : SparseTernaryLayer} :
    l.WellFormed ↔ l.posIndices.length = l.outputDim ∧ l.negIndices.length = l.outputDim ∧
      l.bias.length = l.outputDim ∧
      (l.posIndices.all fun row => row.all fun j => decide (j.toNat < l.inputDim)) = true ∧
      (l.negIndices.all fun row => row.all fun j => decide (j.toNat < l.inputDim)) = true := by
  simp only [List.all_eq_true, decide_eq_true_iff]
  constructor
  · intro h
    exact ⟨h.posRows, h.negRows, h.biasRows, h.posCols, h.negCols⟩
  · intro hyp
    obtain ⟨hpos, hneg, hbias, hposCols, hnegCols⟩ := hyp
    exact ⟨hpos, hneg, hbias, hposCols, hnegCols⟩

instance (l : SparseTernaryLayer) : Decidable l.WellFormed := decidable_of_iff' _ wellFormed_iff

def activate (l : SparseTernaryLayer) (acc : ℤ) : ℤ := if l.relu && decide (acc < 0) then 0 else acc

/-- The value of output row `i`. -/
def rowForward (l : SparseTernaryLayer) (x : List ℤ) (layerIdx i : ℕ) : Except TernaryError ℤ :=
  match accumulate checkedAdd x (l.posIndices.getD i []) (l.bias.getD i 0).toInt with
  | none => .error (.overflow layerIdx i)
  | some acc =>
      match accumulate checkedSub x (l.negIndices.getD i []) acc with
      | none => .error (.overflow layerIdx i)
      | some acc => .ok (l.activate acc)

/-- The new contents of an output buffer of `yLen` entries. -/
def forward (l : SparseTernaryLayer) (x : List ℤ) (yLen layerIdx : ℕ) :
    Except TernaryError (List ℤ) :=
  if x.length ≠ l.inputDim then .error (.layerShape layerIdx x.length l.inputDim)
  else if yLen ≠ l.outputDim then .error (.layerShape layerIdx yLen l.outputDim)
  else (List.range yLen).mapM (l.rowForward x layerIdx)

end SparseTernaryLayer

/-- `thermo::encode`: `v + 1` ones, then zeros. -/
def thermoEncode (v maxVal : ℤ) : List ℤ :=
  let len := (maxVal + 1).toNat
  let ones := min ((max (min v maxVal) 0) + 1).toNat len
  List.replicate ones 1 ++ List.replicate (len - ones) 0

/-- The loop of `argmax` from position `i` on, with the best position and value so far. -/
def argmaxLoop : List ℤ → ℕ → Option (ℕ × ℤ) → Option (ℕ × ℤ)
  | [], _, best => best
  | v :: vs, i, none => argmaxLoop vs (i + 1) (some (i, v))
  | v :: vs, i, some (bestIdx, bestVal) =>
      if bestVal < v then argmaxLoop vs (i + 1) (some (i, v))
      else argmaxLoop vs (i + 1) (some (bestIdx, bestVal))

def argmax (logits : List ℤ) : Except TernaryError ℕ :=
  match argmaxLoop logits 0 none with
  | none => .error .emptyArgmax
  | some (bestIdx, _) => .ok bestIdx

/-! ## What the kernel computes when nothing overflows -/

/-- The inputs a row reads, summed. -/
def columnSum (x : List ℤ) (js : List UInt32) : ℤ := (js.map fun j => x.getD j.toNat 0).sum

@[simp] theorem columnSum_nil (x : List ℤ) : columnSum x [] = 0 := rfl

@[simp] theorem columnSum_cons (x : List ℤ) (j : UInt32) (js : List UInt32) :
    columnSum x (j :: js) = x.getD j.toNat 0 + columnSum x js := by simp [columnSum]

theorem columnSum_append (x : List ℤ) (js ks : List UInt32) :
    columnSum x (js ++ ks) = columnSum x js + columnSum x ks := by simp [columnSum]

theorem abs_getD_le {x : List ℤ} {B : ℤ} (hB : 0 ≤ B) (hx : ∀ v ∈ x, |v| ≤ B) (j : ℕ) :
    |x.getD j 0| ≤ B := by
  by_cases hj : j < x.length
  · rw [List.getD_eq_getElem _ _ hj]
    exact hx _ (List.getElem_mem hj)
  · rw [List.getD_eq_default _ _ (Nat.le_of_not_lt hj)]
    simpa using hB

section Exact

variable {x : List ℤ} {B : ℤ}

/-- With the inputs bounded, a loop of sums whose worst case fits runs through. -/
theorem accumulate_checkedAdd (hB : 0 ≤ B) (hx : ∀ v ∈ x, |v| ≤ B) (js : List UInt32) (acc : ℤ)
    (h : |acc| + js.length * B < 2 ^ 63) :
    accumulate checkedAdd x js acc = some (acc + columnSum x js) := by
  induction js generalizing acc with
  | nil => simp [accumulate]
  | cons j js ih =>
    have hj := abs_getD_le hB hx j.toNat
    have htri := abs_add_le acc (x.getD j.toNat 0)
    rw [List.length_cons, Nat.cast_succ] at h
    have hrest : |acc + x.getD j.toNat 0| + js.length * B < 2 ^ 63 := by linarith
    have hnonneg : 0 ≤ (js.length : ℤ) * B := mul_nonneg (Int.natCast_nonneg _) hB
    have hfits : checkedAdd acc (x.getD j.toNat 0) = some (acc + x.getD j.toNat 0) := by
      have habs := abs_lt.mp (show |acc + x.getD j.toNat 0| < 2 ^ 63 by linarith)
      exact if_pos ⟨by linarith [habs.1], habs.2⟩
    rw [accumulate, hfits, Option.bind_some, ih _ hrest, columnSum_cons, add_assoc]

theorem getD_map_neg (x : List ℤ) (j : ℕ) : (x.map Neg.neg).getD j 0 = -(x.getD j 0) := by
  rw [← neg_zero, List.getD_map, neg_zero]

/-- Subtracting the inputs is adding their negations. -/
theorem accumulate_sub_eq_add (js : List UInt32) (acc : ℤ) :
    accumulate checkedSub x js acc = accumulate checkedAdd (x.map Neg.neg) js acc := by
  induction js generalizing acc with
  | nil => rfl
  | cons j js ih =>
    have hop : checkedSub acc (x.getD j.toNat 0) =
        checkedAdd acc ((x.map Neg.neg).getD j.toNat 0) := by
      rw [getD_map_neg]
      rfl
    rw [accumulate, accumulate, hop]
    congr 1
    exact funext ih

theorem columnSum_map_neg (js : List UInt32) : columnSum (x.map Neg.neg) js = -columnSum x js := by
  induction js with
  | nil => rfl
  | cons j js ih => rw [columnSum_cons, columnSum_cons, ih, getD_map_neg, neg_add]

theorem accumulate_checkedSub (hB : 0 ≤ B) (hx : ∀ v ∈ x, |v| ≤ B) (js : List UInt32) (acc : ℤ)
    (h : |acc| + js.length * B < 2 ^ 63) :
    accumulate checkedSub x js acc = some (acc - columnSum x js) := by
  have hneg : ∀ v ∈ x.map Neg.neg, |v| ≤ B := by
    intro v hv
    obtain ⟨w, hw, rfl⟩ := List.mem_map.mp hv
    rw [abs_neg]
    exact hx w hw
  rw [accumulate_sub_eq_add, accumulate_checkedAdd hB hneg js acc h, columnSum_map_neg, sub_eq_add_neg]

theorem abs_columnSum_le (hB : 0 ≤ B) (hx : ∀ v ∈ x, |v| ≤ B) (js : List UInt32) :
    |columnSum x js| ≤ js.length * B := by
  induction js with
  | nil => simp
  | cons j js ih =>
    have hj := abs_getD_le hB hx j.toNat
    have htri := abs_add_le (x.getD j.toNat 0) (columnSum x js)
    rw [columnSum_cons, List.length_cons, Nat.cast_succ]
    linarith

end Exact

theorem mapM_eq_ok {ε α β : Type} {f : α → Except ε β} {g : α → β} {l : List α}
    (h : ∀ a ∈ l, f a = .ok (g a)) : l.mapM f = .ok (l.map g) := by
  induction l with
  | nil => rfl
  | cons a l ih =>
    rw [List.mapM_cons, h a List.mem_cons_self, ih fun b hb => h b (List.mem_cons_of_mem _ hb)]
    rfl

namespace SparseTernaryLayer

variable (l : SparseTernaryLayer)

/-- The accumulator of row `i` over the integers. -/
def exact (x : List ℤ) (i : ℕ) : ℤ :=
  (l.bias.getD i 0).toInt + columnSum x (l.posIndices.getD i []) -
    columnSum x (l.negIndices.getD i [])

/-- What the layer makes of its input when no sum overflows. -/
def output (x : List ℤ) : List ℤ := (List.range l.outputDim).map fun i => l.activate (l.exact x i)

/-- Row `i` cannot leave `i64` on inputs of size at most `B`. -/
def RowFits (B : ℤ) (i : ℕ) : Prop :=
  |(l.bias.getD i 0).toInt| + ((l.posIndices.getD i []).length + (l.negIndices.getD i []).length) * B <
    2 ^ 63

variable {l}

theorem rowForward_eq {x : List ℤ} {B : ℤ} (hB : 0 ≤ B) (hx : ∀ v ∈ x, |v| ≤ B) {i : ℕ}
    (hfits : l.RowFits B i) (layerIdx : ℕ) :
    l.rowForward x layerIdx i = .ok (l.activate (l.exact x i)) := by
  unfold RowFits at hfits
  have hpos := abs_columnSum_le hB hx (l.posIndices.getD i [])
  have hneg : 0 ≤ ((l.negIndices.getD i []).length : ℤ) * B := mul_nonneg (Int.natCast_nonneg _) hB
  have htri := abs_add_le (l.bias.getD i 0).toInt (columnSum x (l.posIndices.getD i []))
  rw [add_mul] at hfits
  have hadd := accumulate_checkedAdd hB hx (l.posIndices.getD i []) (l.bias.getD i 0).toInt
    (by linarith)
  have hsub := accumulate_checkedSub hB hx (l.negIndices.getD i [])
    ((l.bias.getD i 0).toInt + columnSum x (l.posIndices.getD i [])) (by linarith)
  simp only [rowForward, hadd, hsub, exact]

/-- The kernel on inputs small enough for every row. -/
theorem forward_eq_output {x : List ℤ} {B : ℤ} (hlen : x.length = l.inputDim) (hB : 0 ≤ B)
    (hx : ∀ v ∈ x, |v| ≤ B) (hfits : ∀ i < l.outputDim, l.RowFits B i) (layerIdx : ℕ) :
    l.forward x l.outputDim layerIdx = .ok (l.output x) := by
  unfold forward
  rw [if_neg (not_not.mpr hlen), if_neg (not_not.mpr rfl)]
  apply mapM_eq_ok
  intro i hi
  exact rowForward_eq hB hx (hfits i (List.mem_range.mp hi)) layerIdx

end SparseTernaryLayer

/-! ## Ranges of columns, thermometer codes and one-hot codes -/

/-- `(lo..hi).collect()` over `u32`. -/
def u32Range (lo hi : ℕ) : List UInt32 := (List.range' lo (hi - lo)).map UInt32.ofNat

@[simp] theorem length_u32Range (lo hi : ℕ) : (u32Range lo hi).length = hi - lo := by simp [u32Range]

theorem toNat_lt_of_mem_u32Range {lo hi : ℕ} {j : UInt32} (hj : j ∈ u32Range lo hi) : j.toNat < hi := by
  obtain ⟨n, hn, rfl⟩ := List.mem_map.mp hj
  obtain ⟨hge, hlt⟩ := List.mem_range'_1.mp hn
  have hmod : (UInt32.ofNat n).toNat ≤ n := Nat.mod_le _ _
  omega

theorem columnSum_range' (front rest : List ℤ) (h : front.length + rest.length < 2 ^ 32) :
    columnSum (front ++ rest) ((List.range' front.length rest.length).map UInt32.ofNat) = rest.sum := by
  induction rest generalizing front with
  | nil => rfl
  | cons v rest ih =>
    rw [List.length_cons] at h
    have htail := ih (front ++ [v]) (by rw [List.length_append, List.length_singleton]; omega)
    rw [List.length_append, List.length_singleton, List.append_assoc, List.singleton_append] at htail
    rw [List.length_cons, List.range'_succ, List.map_cons, columnSum_cons, htail, List.sum_cons]
    congr 1
    rw [UInt32.toNat_ofNat_of_lt' (show front.length < 2 ^ 32 by omega)]
    simp

/-- The columns of one block of the input. -/
theorem columnSum_u32Range {front mid back : List ℤ} {lo hi : ℕ} (hlo : front.length = lo)
    (hhi : lo + mid.length = hi) (h : hi < 2 ^ 32) :
    columnSum (front ++ mid ++ back) (u32Range lo hi) = mid.sum := by
  subst hlo
  have hblock := columnSum_range' front mid (by omega)
  have hlen : hi - front.length = mid.length := by omega
  rw [u32Range, hlen, ← hblock]
  unfold columnSum
  congr 1
  apply List.map_congr_left
  intro j hj
  obtain ⟨n, hn, rfl⟩ := List.mem_map.mp hj
  have hlt := (List.mem_range'_1.mp hn).2
  have hmod : (UInt32.ofNat n).toNat ≤ n := Nat.mod_le _ _
  rw [List.getD_append _ _ _ _ (by rw [List.length_append]; omega)]

theorem thermoEncode_eq {n m : ℕ} (h : n ≤ m) :
    thermoEncode n m = List.replicate (n + 1) 1 ++ List.replicate (m - n) 0 := by
  have hlen : ((m : ℤ) + 1).toNat = m + 1 := by omega
  have hones : (max (min (n : ℤ) m) 0 + 1).toNat = n + 1 := by omega
  have hmin : min (n + 1) (m + 1) = n + 1 := by omega
  have hrest : m + 1 - (n + 1) = m - n := by omega
  simp only [thermoEncode, hlen, hones, hmin, hrest]

theorem sum_thermoEncode {n m : ℕ} (h : n ≤ m) : (thermoEncode n m).sum = n + 1 := by
  rw [thermoEncode_eq h]
  simp

theorem length_thermoEncode {n m : ℕ} (h : n ≤ m) : (thermoEncode n m).length = m + 1 := by
  rw [thermoEncode_eq h]
  simp
  omega

theorem abs_le_one_of_mem_thermoEncode {n m : ℕ} (h : n ≤ m) {v : ℤ} (hv : v ∈ thermoEncode n m) :
    |v| ≤ 1 := by
  rw [thermoEncode_eq h] at hv
  rcases List.mem_append.mp hv with hv | hv
  · rw [List.eq_of_mem_replicate hv]
    decide
  · rw [List.eq_of_mem_replicate hv]
    decide

theorem getD_map_range {α : Type} (f : ℕ → α) (n i : ℕ) (d : α) (h : i < n) :
    ((List.range n).map f).getD i d = f i := by
  rw [List.getD_eq_getElem _ _ (by simpa using h)]
  simp

/-- While no later value is larger, the best position stays. -/
theorem argmaxLoop_stays (vs : List ℤ) (i bestIdx : ℕ) (bestVal : ℤ) (h : ∀ v ∈ vs, v ≤ bestVal) :
    argmaxLoop vs i (some (bestIdx, bestVal)) = some (bestIdx, bestVal) := by
  induction vs generalizing i with
  | nil => rfl
  | cons v vs ih =>
    have hv := h v List.mem_cons_self
    rw [argmaxLoop, if_neg (by omega)]
    exact ih (i + 1) fun w hw => h w (List.mem_cons_of_mem _ hw)

/-- A value larger than everything before it takes over. -/
theorem argmaxLoop_reaches (front back : List ℤ) (top : ℤ) (i : ℕ) (best : Option (ℕ × ℤ))
    (hbest : ∀ b, best = some b → b.2 < top) (hfront : ∀ v ∈ front, v < top) :
    argmaxLoop (front ++ top :: back) i best =
      argmaxLoop back (i + front.length + 1) (some (i + front.length, top)) := by
  induction front generalizing i best with
  | nil =>
    cases best with
    | none => rfl
    | some b => exact if_pos (hbest b rfl)
  | cons v front ih =>
    have hv := hfront v List.mem_cons_self
    have hrest := fun w hw => hfront w (List.mem_cons_of_mem v hw)
    have hlen : i + (v :: front).length = i + 1 + front.length := by rw [List.length_cons]; omega
    rw [hlen, List.cons_append]
    cases best with
    | none =>
      exact ih (i + 1) (some (i, v)) (fun b hb => by rw [← Option.some.inj hb]; exact hv) hrest
    | some b =>
      have hb := hbest b rfl
      rw [argmaxLoop]
      split
      · exact ih (i + 1) (some (i, v)) (fun b hb => by rw [← Option.some.inj hb]; exact hv) hrest
      · exact ih (i + 1) (some (b.1, b.2)) (fun b' hb' => by rw [← Option.some.inj hb']; exact hb) hrest

/-- `argmax` finds the first of the largest values. -/
theorem argmax_eq {front back : List ℤ} {top : ℤ} (hfront : ∀ v ∈ front, v < top)
    (hback : ∀ v ∈ back, v ≤ top) : argmax (front ++ top :: back) = .ok front.length := by
  have hloop : argmaxLoop (front ++ top :: back) 0 none = some (front.length, top) := by
    rw [argmaxLoop_reaches front back top 0 none (fun _ h => by cases h) hfront,
      argmaxLoop_stays _ _ _ _ hback, Nat.zero_add]
  rw [argmax, hloop]

/-- A one-hot code is read back as its hot position. -/
theorem argmax_oneHot {n k : ℕ} (hk : k < n) :
    argmax ((List.range n).map fun i => if i = k then 1 else 0) = .ok k := by
  have hsplit : (List.range n).map (fun i => if i = k then (1 : ℤ) else 0) =
      List.replicate k 0 ++ 1 :: List.replicate (n - k - 1) 0 := by
    apply List.ext_getElem
    · simp
      omega
    · intro i h1 h2
      rw [List.getElem_map, List.getElem_range, List.getElem_append]
      by_cases hi : i < k
      · rw [if_neg (by omega), dif_pos (by simpa using hi), List.getElem_replicate]
      · rw [dif_neg (by simpa using hi), List.getElem_cons]
        by_cases he : i = k
        · rw [if_pos he, dif_pos (by simp [he])]
        · rw [if_neg he, dif_neg (by simp; omega), List.getElem_replicate]
  have hlen : (List.replicate k (0 : ℤ)).length = k := List.length_replicate
  rw [hsplit]
  conv_rhs => rw [← hlen]
  apply argmax_eq
  · intro v hv
    rw [List.eq_of_mem_replicate hv]
    decide
  · intro v hv
    rw [List.eq_of_mem_replicate hv]
    decide

end PslBank.Ternary
