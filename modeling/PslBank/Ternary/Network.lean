import PslBank.Ternary.Weights

/-!
# Networks that add and subtract bytes

`TernaryNetwork` of `ternary_vm/src/network.rs`, and the layers that
`byte_add_with_carry.rs` and `byte_sub_with_borrow.rs` share. Both primitives compute one
number `t` of at most 511 in their first layer. The second and third layers turn it into a
thermometer, and the last one reads the residue of `t` modulo 256 off it as a one-hot
code. So a primitive is correct as soon as its first layer and its last row are.
-/
namespace PslBank.Ternary

open PslBank.Lib PslBank.Crypto

set_option autoImplicit false

/-- A header and the layers, first to last. -/
structure TernaryNetwork where
  header : WeightsHeader
  layers : List SparseTernaryLayer
  wellFormed : ∀ l ∈ layers, l.WellFormed

namespace TernaryNetwork

/-- The loop over the layers, from layer `li` on. -/
def forwardFrom : List SparseTernaryLayer → ℕ → List ℤ → Except TernaryError (List ℤ)
  | [], _, current => .ok current
  | layer :: layers, li, current => do
      let next ← layer.forward current layer.outputDim li
      forwardFrom layers (li + 1) next

/-- `TernaryNetwork::forward`. -/
def forward (net : TernaryNetwork) (input : List ℤ) : Except TernaryError (List ℤ) :=
  match net.layers with
  | [] => .ok input
  | first :: _ =>
      if input.length ≠ first.inputDim then .error (.inputShape input.length first.inputDim)
      else forwardFrom net.layers 0 input

/-- A layer that succeeds hands its output to the next one. -/
theorem forwardFrom_cons {layer : SparseTernaryLayer} {layers : List SparseTernaryLayer} {li : ℕ}
    {x next : List ℤ} (h : layer.forward x layer.outputDim li = .ok next) :
    forwardFrom (layer :: layers) li x = forwardFrom layers (li + 1) next := by
  rw [forwardFrom, h]
  rfl

end TernaryNetwork

/-! ## The shared layers -/

/-- `build_layer2_parallel_relu`: rows `2 i` and `2 i + 1` are `ReLU(t - i + 1)` and
`ReLU(t - i)`. -/
def parallelRelu (thermoLen : ℕ) : SparseTernaryLayer where
  inputDim := 1
  outputDim := 2 * thermoLen
  posIndices := (List.range thermoLen).flatMap fun _ => [[0], [0]]
  negIndices := (List.range thermoLen).flatMap fun _ => [[], []]
  bias := (List.range thermoLen).flatMap fun i : ℕ => [Int64.ofInt (1 - i), Int64.ofInt (-i)]
  relu := true

/-- `build_layer3_thermo_decode`: row `i` is the difference of its pair. -/
def thermoDecode (thermoLen : ℕ) : SparseTernaryLayer where
  inputDim := 2 * thermoLen
  outputDim := thermoLen
  posIndices := (List.range thermoLen).map fun i => [UInt32.ofNat (2 * i)]
  negIndices := (List.range thermoLen).map fun i => [UInt32.ofNat (2 * i + 1)]
  bias := List.replicate thermoLen 0
  relu := false

/-- `build_layer4_projection`: 256 one-hot rows, and a last row of the primitive's own. -/
def projection (thermoLen : ℕ) (lastPos lastNeg : List UInt32) (lastBias : Int64) :
    SparseTernaryLayer where
  inputDim := thermoLen
  outputDim := 257
  posIndices := (List.range 256).map (fun k => [UInt32.ofNat k, UInt32.ofNat (k + 256)]) ++ [lastPos]
  negIndices := (List.range 256).map (fun k => [UInt32.ofNat (k + 1), UInt32.ofNat (k + 257)]) ++
    [lastNeg]
  bias := List.replicate 256 0 ++ [lastBias]
  relu := false

/-! ## What the shared layers compute -/

theorem getD_flatMap_pair {α : Type} (f g : ℕ → α) (n r : ℕ) (d : α) (h : r < 2 * n) :
    ((List.range n).flatMap fun i => [f i, g i]).getD r d = if r % 2 = 0 then f (r / 2) else g (r / 2) := by
  induction n with
  | zero => omega
  | succ n ih =>
    have hlen : ((List.range n).flatMap fun i => [f i, g i]).length = 2 * n := by
      simp [List.length_flatMap]
      omega
    rw [List.range_succ, List.flatMap_append]
    by_cases hr : r < 2 * n
    · rw [List.getD_append _ _ _ _ (by omega)]
      exact ih hr
    · rw [List.getD_append_right _ _ _ _ (by omega), hlen]
      have hcases : r = 2 * n ∨ r = 2 * n + 1 := by omega
      rcases hcases with rfl | rfl
      · have hdiv : 2 * n / 2 = n := by omega
        have hmod : 2 * n % 2 = 0 := by omega
        simp [hdiv, hmod]
      · have hdiv : (2 * n + 1) / 2 = n := by omega
        have hsub : 2 * n + 1 - 2 * n = 1 := by omega
        simp [hdiv, hsub]

theorem getD_append_last {α : Type} {l : List α} {n : ℕ} (v d : α) (h : l.length = n) :
    (l ++ [v]).getD n d = v := by
  subst h
  rw [List.getD_append_right _ _ _ _ (Nat.le_refl _), Nat.sub_self]
  rfl

/-- Small weights survive the cast to `i64`. -/
theorem toInt_ofInt_small {n : ℤ} (h : |n| ≤ 2 ^ 20) : (Int64.ofInt n).toInt = n := by
  have hb := abs_le.mp h
  apply Int64.toInt_ofInt_of_le
  · norm_num at hb ⊢
    omega
  · norm_num at hb ⊢
    omega

/-- Rows of moderate size on inputs of moderate size stay far from the limits. -/
theorem SparseTernaryLayer.rowFits_of_moderate {l : SparseTernaryLayer} {B : ℤ} {i : ℕ}
    (hB : 0 ≤ B) (hB' : B ≤ 2 ^ 20) (hbias : |(l.bias.getD i 0).toInt| ≤ 2 ^ 20)
    (hpos : (l.posIndices.getD i []).length ≤ 2 ^ 20) (hneg : (l.negIndices.getD i []).length ≤ 2 ^ 20) :
    l.RowFits B i := by
  unfold RowFits
  have hcount : ((l.posIndices.getD i []).length + (l.negIndices.getD i []).length : ℤ) ≤ 2 ^ 21 := by
    have h1 : ((l.posIndices.getD i []).length : ℤ) ≤ 2 ^ 20 := by exact_mod_cast hpos
    have h2 : ((l.negIndices.getD i []).length : ℤ) ≤ 2 ^ 20 := by exact_mod_cast hneg
    linarith
  have hmul : ((l.posIndices.getD i []).length + (l.negIndices.getD i []).length : ℤ) * B ≤
      2 ^ 21 * 2 ^ 20 :=
    mul_le_mul hcount hB' hB (by norm_num)
  linarith

/-- Position `i` of the thermometer of `t`. -/
def thermoBit (t i : ℕ) : ℤ := if i ≤ t then 1 else 0

theorem abs_thermoBit_le (t i : ℕ) : |thermoBit t i| ≤ 1 := by
  unfold thermoBit
  split <;> decide

/-- Row `r` of the second layer. -/
def rectified (t r : ℕ) : ℤ := max 0 ((t : ℤ) - (r / 2 : ℕ) + if r % 2 = 0 then 1 else 0)

/-- The difference of two neighbours is the thermometer bit. -/
theorem rectified_pair (t i : ℕ) : rectified t (2 * i) - rectified t (2 * i + 1) = thermoBit t i := by
  have hd : 2 * i / 2 = i := by omega
  have hm : 2 * i % 2 = 0 := by omega
  have hd' : (2 * i + 1) / 2 = i := by omega
  have hm' : ¬ (2 * i + 1) % 2 = 0 := by omega
  unfold rectified thermoBit
  rw [hd, hd', if_pos hm, if_neg hm']
  split <;> omega

namespace SparseTernaryLayer

variable {n t : ℕ}

/-- The rows of the first layer: each has the one input and a threshold. -/
theorem parallelRelu_row (hn : n ≤ 2 ^ 19) {r : ℕ} (hr : r < 2 * n) :
    (parallelRelu n).posIndices.getD r [] = [0] ∧ (parallelRelu n).negIndices.getD r [] = [] ∧
      ((parallelRelu n).bias.getD r 0).toInt = -((r / 2 : ℕ) : ℤ) + if r % 2 = 0 then 1 else 0 := by
  have hhalf : r / 2 < 2 ^ 19 := by omega
  refine ⟨?_, ?_, ?_⟩
  · show ((List.range n).flatMap fun _ => [[0], [0]]).getD r [] = [0]
    rw [getD_flatMap_pair _ _ _ _ _ hr]
    split <;> rfl
  · show ((List.range n).flatMap fun _ => [[], []]).getD r [] = []
    rw [getD_flatMap_pair _ _ _ _ _ hr]
    split <;> rfl
  · show (((List.range n).flatMap fun i : ℕ => [Int64.ofInt (1 - i), Int64.ofInt (-i)]).getD r 0).toInt = _
    rw [getD_flatMap_pair _ _ _ _ _ hr]
    split
    · rw [toInt_ofInt_small (by rw [abs_le]; omega)]
      omega
    · rw [toInt_ofInt_small (by rw [abs_le]; omega)]
      omega

/-- The first layer gives the two rectified lines of every threshold. -/
theorem output_parallelRelu (hn : n ≤ 2 ^ 19) :
    (parallelRelu n).output [(t : ℤ)] = (List.range (2 * n)).map (rectified t) := by
  apply List.map_congr_left
  intro r hr
  obtain ⟨hpos, hneg, hbias⟩ := parallelRelu_row hn (List.mem_range.mp hr)
  have hcol : columnSum [(t : ℤ)] [0] = t := by simp [columnSum]
  rw [exact, hpos, hneg, hbias, hcol, columnSum_nil]
  unfold activate rectified
  simp only [parallelRelu, Bool.true_and, decide_eq_true_eq]
  split <;> omega

/-- The rows of the second layer: one pair each. -/
theorem thermoDecode_row {i : ℕ} (hi : i < n) :
    (thermoDecode n).posIndices.getD i [] = [UInt32.ofNat (2 * i)] ∧
      (thermoDecode n).negIndices.getD i [] = [UInt32.ofNat (2 * i + 1)] ∧
      ((thermoDecode n).bias.getD i 0).toInt = 0 := by
  refine ⟨getD_map_range _ _ _ _ hi, getD_map_range _ _ _ _ hi, ?_⟩
  rw [show (thermoDecode n).bias = List.replicate n 0 from rfl, List.getD_replicate _ hi]
  rfl

/-- The second layer gives the thermometer code. -/
theorem output_thermoDecode (hn : n ≤ 2 ^ 19) :
    (thermoDecode n).output ((List.range (2 * n)).map (rectified t)) =
      (List.range n).map (thermoBit t) := by
  apply List.map_congr_left
  intro i hi
  have hi : i < n := List.mem_range.mp hi
  obtain ⟨hpos, hneg, hbias⟩ := thermoDecode_row hi
  have heven : (UInt32.ofNat (2 * i)).toNat = 2 * i :=
    UInt32.toNat_ofNat_of_lt' (show 2 * i < 2 ^ 32 by omega)
  have hodd : (UInt32.ofNat (2 * i + 1)).toNat = 2 * i + 1 :=
    UInt32.toNat_ofNat_of_lt' (show 2 * i + 1 < 2 ^ 32 by omega)
  have hvalue : (thermoDecode n).exact ((List.range (2 * n)).map (rectified t)) i = thermoBit t i := by
    rw [exact, hpos, hneg, hbias, columnSum_cons, columnSum_cons, columnSum_nil, heven, hodd,
      getD_map_range _ _ _ _ (by omega), getD_map_range _ _ _ _ (by omega), ← rectified_pair]
    omega
  rw [hvalue]
  rfl

/-- The rows of a projection read both halves of the code. -/
theorem projection_row {lastPos lastNeg : List UInt32} {lastBias : Int64} {k : ℕ} (hk : k < 256) :
    (projection n lastPos lastNeg lastBias).posIndices.getD k [] =
        [UInt32.ofNat k, UInt32.ofNat (k + 256)] ∧
      (projection n lastPos lastNeg lastBias).negIndices.getD k [] =
        [UInt32.ofNat (k + 1), UInt32.ofNat (k + 257)] ∧
      ((projection n lastPos lastNeg lastBias).bias.getD k 0).toInt = 0 := by
  refine ⟨?_, ?_, ?_⟩
  · show (List.map _ (List.range 256) ++ [lastPos]).getD k [] = _
    rw [List.getD_append _ _ _ _ (by rwa [List.length_map, List.length_range])]
    exact getD_map_range _ _ _ _ hk
  · show (List.map _ (List.range 256) ++ [lastNeg]).getD k [] = _
    rw [List.getD_append _ _ _ _ (by rwa [List.length_map, List.length_range])]
    exact getD_map_range _ _ _ _ hk
  · show ((List.replicate 256 0 ++ [lastBias]).getD k 0).toInt = 0
    rw [List.getD_append _ _ _ _ (by rwa [List.length_replicate]), List.getD_replicate _ hk]
    rfl

/-- Its last row is the one that differs between the networks. -/
theorem projection_last (lastPos lastNeg : List UInt32) (lastBias : Int64) :
    (projection n lastPos lastNeg lastBias).posIndices.getD 256 [] = lastPos ∧
      (projection n lastPos lastNeg lastBias).negIndices.getD 256 [] = lastNeg ∧
      (projection n lastPos lastNeg lastBias).bias.getD 256 0 = lastBias := by
  refine ⟨?_, ?_, ?_⟩
  · exact getD_append_last _ _ (by rw [List.length_map, List.length_range])
  · exact getD_append_last _ _ (by rw [List.length_map, List.length_range])
  · exact getD_append_last _ _ List.length_replicate

/-- A one-hot row: the thermometer steps down behind `k` or behind `k + 256`. -/
theorem projection_exact {lastPos lastNeg : List UInt32} {lastBias : Int64} (ht : t < 512) {k : ℕ}
    (hk : k < 256) :
    (projection 513 lastPos lastNeg lastBias).exact ((List.range 513).map (thermoBit t)) k =
      if k = t % 256 then 1 else 0 := by
  obtain ⟨hpos, hneg, hbias⟩ := projection_row (n := 513) hk
  have hcol : ∀ j < 513, columnSum ((List.range 513).map (thermoBit t)) [UInt32.ofNat j] =
      thermoBit t j := by
    intro j hj
    rw [columnSum_cons, columnSum_nil, UInt32.toNat_ofNat_of_lt' (show j < 2 ^ 32 by omega),
      getD_map_range _ _ _ _ hj, add_zero]
  have hpair : ∀ i j : ℕ, i < 513 → j < 513 →
      columnSum ((List.range 513).map (thermoBit t)) [UInt32.ofNat i, UInt32.ofNat j] =
        thermoBit t i + thermoBit t j := by
    intro i j hi hj
    rw [← List.singleton_append, columnSum_append, hcol i hi, hcol j hj]
  rw [exact, hpos, hneg, hbias, hpair k (k + 256) (by omega) (by omega),
    hpair (k + 1) (k + 257) (by omega) (by omega)]
  unfold thermoBit
  by_cases hres : k = t % 256
  · rw [if_pos hres]
    split <;> split <;> split <;> split <;> omega
  · rw [if_neg hres]
    split <;> split <;> split <;> split <;> omega

/-- The one-hot rows find the residue of `t`, the last row stays as it is. -/
theorem output_projection (lastPos lastNeg : List UInt32) (lastBias : Int64) (ht : t < 512) :
    (projection 513 lastPos lastNeg lastBias).output ((List.range 513).map (thermoBit t)) =
      (List.range 256).map (fun k => if k = t % 256 then 1 else 0) ++
        [lastBias.toInt + columnSum ((List.range 513).map (thermoBit t)) lastPos -
          columnSum ((List.range 513).map (thermoBit t)) lastNeg] := by
  have hrange : List.range (projection 513 lastPos lastNeg lastBias).outputDim =
      List.range 256 ++ [256] := List.range_succ
  obtain ⟨hpos, hneg, hbias⟩ := projection_last (n := 513) lastPos lastNeg lastBias
  have hrows : (List.range 256).map (fun i => (projection 513 lastPos lastNeg lastBias).activate
      ((projection 513 lastPos lastNeg lastBias).exact ((List.range 513).map (thermoBit t)) i)) =
      (List.range 256).map (fun k => if k = t % 256 then 1 else 0) := by
    apply List.map_congr_left
    intro k hk
    rw [projection_exact ht (List.mem_range.mp hk)]
    rfl
  rw [output, hrange, List.map_append, hrows, List.map_singleton, exact, hpos, hneg, hbias]
  rfl

/-! ## The invariants of the shared layers -/

theorem toNat_ofNat_le (n : ℕ) : (UInt32.ofNat n).toNat ≤ n := Nat.mod_le _ _

theorem wellFormed_parallelRelu : (parallelRelu n).WellFormed := by
  have hlen : ∀ {α : Type} (f : ℕ → List α), (∀ i, (f i).length = 2) →
      ((List.range n).flatMap f).length = 2 * n := by
    intro α f hf
    simp [List.length_flatMap, hf]
    omega
  refine ⟨hlen _ fun _ => rfl, hlen _ fun _ => rfl, hlen _ fun _ => rfl, ?_, ?_⟩
  · intro row hrow j hj
    obtain ⟨i, -, hi⟩ := List.mem_flatMap.mp hrow
    have hzero : row = [0] := by simpa using hi
    rw [hzero, List.mem_singleton] at hj
    subst hj
    exact Nat.one_pos
  · intro row hrow j hj
    obtain ⟨i, -, hi⟩ := List.mem_flatMap.mp hrow
    have hempty : row = [] := by simpa using hi
    rw [hempty] at hj
    exact (List.not_mem_nil hj).elim

theorem wellFormed_thermoDecode : (thermoDecode n).WellFormed := by
  refine ⟨by simp [thermoDecode], by simp [thermoDecode], by simp [thermoDecode], ?_, ?_⟩
  · intro row hrow j hj
    obtain ⟨i, hi, rfl⟩ := List.mem_map.mp hrow
    have hi := List.mem_range.mp hi
    have hle := toNat_ofNat_le (2 * i)
    rw [List.mem_singleton.mp hj]
    show _ < 2 * n
    omega
  · intro row hrow j hj
    obtain ⟨i, hi, rfl⟩ := List.mem_map.mp hrow
    have hi := List.mem_range.mp hi
    have hle := toNat_ofNat_le (2 * i + 1)
    rw [List.mem_singleton.mp hj]
    show _ < 2 * n
    omega

/-- The projection is well formed whatever its last row reads. -/
theorem wellFormed_projection {lastPos lastNeg : List UInt32} {lastBias : Int64}
    (hpos : ∀ j ∈ lastPos, j.toNat < 513) (hneg : ∀ j ∈ lastNeg, j.toNat < 513) :
    (projection 513 lastPos lastNeg lastBias).WellFormed := by
  have hlen : ∀ {α : Type} (f : ℕ → α) (v : α), ((List.range 256).map f ++ [v]).length = 257 := by
    intro α f v
    rw [List.length_append, List.length_map, List.length_range, List.length_singleton]
  refine ⟨hlen _ _, hlen _ _, ?_, ?_, ?_⟩
  · show (List.replicate 256 (0 : Int64) ++ [lastBias]).length = 257
    rw [List.length_append, List.length_replicate, List.length_singleton]
  · intro row hrow j hj
    rcases List.mem_append.mp hrow with hrow | hrow
    · obtain ⟨k, hk, rfl⟩ := List.mem_map.mp hrow
      have hk := List.mem_range.mp hk
      have hle := toNat_ofNat_le k
      have hle' := toNat_ofNat_le (k + 256)
      show j.toNat < 513
      rcases List.mem_pair.mp hj with rfl | rfl <;> omega
    · rw [List.mem_singleton.mp hrow] at hj
      exact hpos j hj
  · intro row hrow j hj
    rcases List.mem_append.mp hrow with hrow | hrow
    · obtain ⟨k, hk, rfl⟩ := List.mem_map.mp hrow
      have hk := List.mem_range.mp hk
      have hle := toNat_ofNat_le (k + 1)
      have hle' := toNat_ofNat_le (k + 257)
      show j.toNat < 513
      rcases List.mem_pair.mp hj with rfl | rfl <;> omega
    · rw [List.mem_singleton.mp hrow] at hj
      exact hneg j hj

/-- No row has more than `m` entries of either sign. -/
def RowsWithin (l : SparseTernaryLayer) (m : ℕ) : Prop :=
  (∀ row ∈ l.posIndices, row.length ≤ m) ∧ ∀ row ∈ l.negIndices, row.length ≤ m

theorem rowsWithin_parallelRelu : (parallelRelu n).RowsWithin 1 := by
  refine ⟨?_, ?_⟩
  · intro row hrow
    obtain ⟨i, -, hi⟩ := List.mem_flatMap.mp hrow
    have hzero : row = [0] := by simpa using hi
    rw [hzero, List.length_singleton]
  · intro row hrow
    obtain ⟨i, -, hi⟩ := List.mem_flatMap.mp hrow
    have hempty : row = [] := by simpa using hi
    rw [hempty]
    exact Nat.zero_le _

theorem rowsWithin_thermoDecode : (thermoDecode n).RowsWithin 1 := by
  refine ⟨?_, ?_⟩
  · intro row hrow
    obtain ⟨i, -, rfl⟩ := List.mem_map.mp hrow
    exact Nat.le_refl 1
  · intro row hrow
    obtain ⟨i, -, rfl⟩ := List.mem_map.mp hrow
    exact Nat.le_refl 1

theorem rowsWithin_projection {lastPos lastNeg : List UInt32} {lastBias : Int64} {m : ℕ} (hm : 2 ≤ m)
    (hpos : lastPos.length ≤ m) (hneg : lastNeg.length ≤ m) :
    (projection n lastPos lastNeg lastBias).RowsWithin m := by
  refine ⟨?_, ?_⟩
  · intro row hrow
    rcases List.mem_append.mp hrow with hrow | hrow
    · obtain ⟨k, -, rfl⟩ := List.mem_map.mp hrow
      exact hm
    · rwa [List.mem_singleton.mp hrow]
  · intro row hrow
    rcases List.mem_append.mp hrow with hrow | hrow
    · obtain ⟨k, -, rfl⟩ := List.mem_map.mp hrow
      exact hm
    · rwa [List.mem_singleton.mp hrow]

theorem RowsWithin.mono {l : SparseTernaryLayer} {m m' : ℕ} (h : l.RowsWithin m) (hm : m ≤ m') :
    l.RowsWithin m' :=
  ⟨fun row hrow => (h.1 row hrow).trans hm, fun row hrow => (h.2 row hrow).trans hm⟩

/-- A layer of moderate size can be packed. -/
theorem nnz_lt_of_rowsWithin {l : SparseTernaryLayer} (hwf : l.WellFormed) (h : l.RowsWithin 514)
    (hdim : l.outputDim ≤ 2 ^ 20) : nnz l.posIndices < 2 ^ 32 ∧ nnz l.negIndices < 2 ^ 32 := by
  have hp := nnz_le h.1
  have hn := nnz_le h.2
  rw [hwf.posRows] at hp
  rw [hwf.negRows] at hn
  constructor <;> omega

/-! ## The four layers together -/

section RowFits

variable {B : ℤ} (hB : 0 ≤ B) (hB' : B ≤ 2 ^ 20)

include hB hB'

theorem rowFits_parallelRelu (hn : n ≤ 2 ^ 19) {r : ℕ} (hr : r < 2 * n) :
    (parallelRelu n).RowFits B r := by
  obtain ⟨hpos, hneg, hbias⟩ := parallelRelu_row hn hr
  have hhalf : r / 2 < 2 ^ 19 := by omega
  apply rowFits_of_moderate hB hB'
  · rw [hbias, abs_le]
    split <;> omega
  · rw [hpos]
    decide
  · rw [hneg]
    decide

theorem rowFits_thermoDecode {i : ℕ} (hi : i < n) : (thermoDecode n).RowFits B i := by
  obtain ⟨hpos, hneg, hbias⟩ := thermoDecode_row hi
  apply rowFits_of_moderate hB hB'
  · rw [hbias]
    decide
  · rw [hpos, List.length_singleton]
    decide
  · rw [hneg, List.length_singleton]
    decide

/-- Rows with few columns cannot overflow on small inputs. -/
theorem rowFits_projection {lastPos lastNeg : List UInt32} {lastBias : Int64}
    (hpos : lastPos.length ≤ 2 ^ 20) (hneg : lastNeg.length ≤ 2 ^ 20)
    (hbias : |lastBias.toInt| ≤ 2 ^ 20) {k : ℕ} (hk : k < 257) :
    (projection n lastPos lastNeg lastBias).RowFits B k := by
  by_cases hlast : k < 256
  · obtain ⟨hp, hn, hb⟩ := projection_row (n := n) hlast
    apply rowFits_of_moderate hB hB'
    · rw [hb]
      decide
    · rw [hp]
      show 2 ≤ 2 ^ 20
      decide
    · rw [hn]
      show 2 ≤ 2 ^ 20
      decide
  · have hk : k = 256 := by omega
    subst hk
    obtain ⟨hp, hn, hb⟩ := projection_last (n := n) lastPos lastNeg lastBias
    apply rowFits_of_moderate hB hB'
    · rwa [hb]
    · rwa [hp]
    · rwa [hn]

end RowFits

/-- The rectified lines stay small on a byte sum. -/
theorem abs_rectified_le {r : ℕ} (ht : t < 512) : |rectified t r| ≤ 512 := by
  unfold rectified
  rw [abs_le]
  split <;> omega

end SparseTernaryLayer

open SparseTernaryLayer

/-- The layers of a byte primitive: its own first layer and the shared ones. -/
def byteLayers (first : SparseTernaryLayer) (lastPos lastNeg : List UInt32) (lastBias : Int64) :
    List SparseTernaryLayer :=
  [first, parallelRelu 513, thermoDecode 513, projection 513 lastPos lastNeg lastBias]

/-- Once the first layer has computed `t`, the output is the one-hot code of its residue and
the last row. -/
theorem forwardFrom_byteLayers {first : SparseTernaryLayer} (lastPos lastNeg : List UInt32)
    (lastBias : Int64) {x : List ℤ} {t : ℕ} (ht : t < 512)
    (hfirst : first.forward x first.outputDim 0 = .ok [(t : ℤ)])
    (hpos : lastPos.length ≤ 2 ^ 20) (hneg : lastNeg.length ≤ 2 ^ 20)
    (hbias : |lastBias.toInt| ≤ 2 ^ 20) :
    TernaryNetwork.forwardFrom (byteLayers first lastPos lastNeg lastBias) 0 x =
      .ok ((List.range 256).map (fun k => if k = t % 256 then 1 else 0) ++
        [lastBias.toInt + columnSum ((List.range 513).map (thermoBit t)) lastPos -
          columnSum ((List.range 513).map (thermoBit t)) lastNeg]) := by
  have hrelu : (parallelRelu 513).forward [(t : ℤ)] (parallelRelu 513).outputDim 1 =
      .ok ((List.range (2 * 513)).map (rectified t)) := by
    rw [forward_eq_output (B := 512) rfl (by decide) _ _ 1, output_parallelRelu (by decide)]
    · intro v hv
      rw [List.mem_singleton.mp hv, abs_le]
      omega
    · intro r hr
      exact rowFits_parallelRelu (by decide) (by decide) (by decide) hr
  have hthermo : (thermoDecode 513).forward ((List.range (2 * 513)).map (rectified t))
      (thermoDecode 513).outputDim 2 = .ok ((List.range 513).map (thermoBit t)) := by
    rw [forward_eq_output (B := 512) _ (by decide) _ _ 2, output_thermoDecode (by decide)]
    · rw [List.length_map, List.length_range]
      rfl
    · intro v hv
      obtain ⟨r, -, rfl⟩ := List.mem_map.mp hv
      exact abs_rectified_le ht
    · intro i hi
      exact rowFits_thermoDecode (by decide) (by decide) hi
  have hproject : (projection 513 lastPos lastNeg lastBias).forward
      ((List.range 513).map (thermoBit t)) (projection 513 lastPos lastNeg lastBias).outputDim 3 =
      .ok ((projection 513 lastPos lastNeg lastBias).output ((List.range 513).map (thermoBit t))) := by
    apply forward_eq_output (B := 1) _ (by decide) _ _ 3
    · rw [List.length_map, List.length_range]
      rfl
    · intro v hv
      obtain ⟨i, -, rfl⟩ := List.mem_map.mp hv
      exact abs_thermoBit_le t i
    · intro k hk
      exact rowFits_projection (by decide) (by decide) hpos hneg hbias hk
  rw [byteLayers, TernaryNetwork.forwardFrom_cons hfirst, TernaryNetwork.forwardFrom_cons hrelu,
    TernaryNetwork.forwardFrom_cons hthermo, TernaryNetwork.forwardFrom_cons hproject,
    TernaryNetwork.forwardFrom, output_projection lastPos lastNeg lastBias ht]

end PslBank.Ternary
