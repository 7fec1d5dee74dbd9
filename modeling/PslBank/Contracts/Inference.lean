import PslBank.Contracts.Guarded

/-!
# A transfer gated by a model

`agent_contracts/src/inference.rs`: four features go through a network of four layers, and a
transfer is run where its one output is 1. The second and third layers turn a score `s` and
a threshold `t` into `ReLU(s - t + 1) - ReLU(s - t)`, which is 1 from the threshold on and 0
below it; the last layer is the conjunction of the two thresholds.
-/
namespace PslBank.Contracts

open PslBank.Lib PslBank.Crypto PslBank.Ternary

set_option autoImplicit false

def modelName : String := "credit_risk_model_v1"

def minNetCredit : Int64 := 500

def maxRiskFlags : Int64 := 10

/-- The feature vector in the order of the model. -/
structure Features where
  income : UInt16
  debt : UInt16
  collateral : UInt16
  riskFlags : UInt16
  deriving DecidableEq

def Features.vector (f : Features) : List ℤ :=
  [(f.income.toNat : ℤ), (f.debt.toNat : ℤ), (f.collateral.toNat : ℤ), (f.riskFlags.toNat : ℤ)]

/-! ## The model -/

/-- Net credit and risk headroom. -/
def creditLayer1 : SparseTernaryLayer where
  inputDim := 4
  outputDim := 2
  posIndices := [[0, 2], []]
  negIndices := [[1], [3]]
  bias := [0, maxRiskFlags]
  relu := false

/-- The rectified distances of both scores from their thresholds. -/
def creditLayer2 : SparseTernaryLayer where
  inputDim := 2
  outputDim := 4
  posIndices := [[0], [0], [1], [1]]
  negIndices := [[], [], [], []]
  bias := [1 - minNetCredit, -minNetCredit, 1, 0]
  relu := true

/-- Both thresholds as bits. -/
def creditLayer3 : SparseTernaryLayer where
  inputDim := 4
  outputDim := 2
  posIndices := [[0], [2]]
  negIndices := [[1], [3]]
  bias := [0, 0]
  relu := false

/-- The conjunction. -/
def creditLayer4 : SparseTernaryLayer where
  inputDim := 2
  outputDim := 1
  posIndices := [[0, 1]]
  negIndices := [[]]
  bias := [-1]
  relu := true

def creditLayers : List SparseTernaryLayer := [creditLayer1, creditLayer2, creditLayer3, creditLayer4]

theorem wellFormed_creditLayers : ∀ l ∈ creditLayers, l.WellFormed := by
  decide

theorem nnz_creditLayers :
    ∀ l ∈ creditLayers, nnz l.posIndices < 2 ^ 32 ∧ nnz l.negIndices < 2 ^ 32 := by
  decide

section Build

variable [Blake3Xof]

def buildCreditModel : TernaryNetwork :=
  let packed := (packWeightsDual modelName 4 1 creditLayers).get
    (packWeightsDual_isSome modelName 4 1 nnz_creditLayers)
  { header := ⟨1, modelName, 4, 1, packed.2.1, packed.2.2⟩
    layers := creditLayers
    wellFormed := wellFormed_creditLayers }

end Build

/-! ## What the model decides -/

/-- The documented decision. -/
def Features.Approved (f : Features) : Prop :=
  500 ≤ (f.income.toNat : ℤ) + f.collateral.toNat - f.debt.toNat ∧ f.riskFlags.toNat ≤ 10

instance (f : Features) : Decidable f.Approved :=
  inferInstanceAs (Decidable (_ ≤ _ ∧ _ ≤ _))

section Layers

open SparseTernaryLayer

variable {l : SparseTernaryLayer} {x : List ℤ}

/-- A small layer, checked row by row, on inputs of moderate size. -/
theorem forward_of_moderate {B : ℤ} (hlen : x.length = l.inputDim) (hB : 0 ≤ B) (hB' : B ≤ 2 ^ 20)
    (hx : ∀ v ∈ x, |v| ≤ B)
    (hrows : ∀ i < l.outputDim, |(l.bias.getD i 0).toInt| ≤ 2 ^ 20 ∧
      (l.posIndices.getD i []).length ≤ 2 ^ 20 ∧ (l.negIndices.getD i []).length ≤ 2 ^ 20)
    (layerIdx : ℕ) : l.forward x l.outputDim layerIdx = .ok (l.output x) := by
  apply forward_eq_output hlen hB hx
  intro i hi
  obtain ⟨hbias, hpos, hneg⟩ := hrows i hi
  exact rowFits_of_moderate hB hB' hbias hpos hneg

end Layers

section Forward

open SparseTernaryLayer

theorem activate_of_relu {l : SparseTernaryLayer} (h : l.relu = true) (v : ℤ) :
    l.activate v = max 0 v := by
  unfold activate
  rw [h, Bool.true_and]
  simp only [decide_eq_true_eq]
  split <;> omega

theorem output_creditLayer1 (a b c d : ℤ) :
    creditLayer1.output [a, b, c, d] = [a + c - b, 10 - d] := by
  show [(0 : Int64).toInt + (a + (c + 0)) - (b + 0), maxRiskFlags.toInt + 0 - (d + 0)] = _
  rw [show (0 : Int64).toInt = 0 by decide, show maxRiskFlags.toInt = 10 by decide]
  simp

theorem output_creditLayer2 (n0 n1 : ℤ) :
    creditLayer2.output [n0, n1] = [max 0 (n0 - 499), max 0 (n0 - 500), max 0 (n1 + 1), max 0 n1] := by
  have hrelu := activate_of_relu (l := creditLayer2) rfl
  show [creditLayer2.activate ((1 - minNetCredit).toInt + (n0 + 0) - 0),
    creditLayer2.activate ((-minNetCredit).toInt + (n0 + 0) - 0),
    creditLayer2.activate ((1 : Int64).toInt + (n1 + 0) - 0),
    creditLayer2.activate ((0 : Int64).toInt + (n1 + 0) - 0)] = _
  rw [hrelu, hrelu, hrelu, hrelu, show (1 - minNetCredit).toInt = -499 by decide,
    show (-minNetCredit).toInt = -500 by decide, show (1 : Int64).toInt = 1 by decide,
    show (0 : Int64).toInt = 0 by decide]
  simp only [add_zero, sub_zero, add_comm, Int.sub_eq_add_neg]

theorem output_creditLayer3 (a b c d : ℤ) : creditLayer3.output [a, b, c, d] = [a - b, c - d] := by
  show [(0 : Int64).toInt + (a + 0) - (b + 0), (0 : Int64).toInt + (c + 0) - (d + 0)] = _
  rw [show (0 : Int64).toInt = 0 by decide]
  simp

theorem output_creditLayer4 (b1 b2 : ℤ) : creditLayer4.output [b1, b2] = [max 0 (b1 + b2 - 1)] := by
  show [creditLayer4.activate ((-1 : Int64).toInt + (b1 + (b2 + 0)) - 0)] = _
  rw [activate_of_relu rfl, show (-1 : Int64).toInt = -1 by decide]
  congr 2
  omega

theorem and_gate (p q : Prop) [Decidable p] [Decidable q] :
    max 0 ((if p then 1 else 0) + (if q then 1 else 0) - 1 : ℤ) = if p ∧ q then 1 else 0 := by
  by_cases hp : p <;> by_cases hq : q <;> simp [hp, hq]

/-- The four layers on features of 16 bits. -/
theorem forwardFrom_creditLayers {a b c d : ℤ} (ha : 0 ≤ a ∧ a < 2 ^ 16) (hb : 0 ≤ b ∧ b < 2 ^ 16)
    (hc : 0 ≤ c ∧ c < 2 ^ 16) (hd : 0 ≤ d ∧ d < 2 ^ 16) :
    TernaryNetwork.forwardFrom creditLayers 0 [a, b, c, d] =
      .ok [if 500 ≤ a + c - b ∧ d ≤ 10 then 1 else 0] := by
  have h1 := forward_of_moderate (l := creditLayer1) (x := [a, b, c, d]) (B := 2 ^ 18) rfl
    (by decide) (by decide) (by
      intro v hv
      simp only [List.mem_cons, List.not_mem_nil, or_false] at hv
      rw [abs_le]
      rcases hv with rfl | rfl | rfl | rfl <;> omega) (by decide) 0
  have h2 := forward_of_moderate (l := creditLayer2) (x := [a + c - b, 10 - d]) (B := 2 ^ 18) rfl
    (by decide) (by decide) (by
      intro v hv
      rw [abs_le]
      rcases List.mem_pair.mp hv with rfl | rfl <;> omega) (by decide) 1
  have h3 := forward_of_moderate (l := creditLayer3)
    (x := [max 0 (a + c - b - 499), max 0 (a + c - b - 500), max 0 (10 - d + 1), max 0 (10 - d)])
    (B := 2 ^ 18) rfl (by decide) (by decide) (by
      intro v hv
      simp only [List.mem_cons, List.not_mem_nil, or_false] at hv
      rw [abs_le]
      rcases hv with rfl | rfl | rfl | rfl <;> omega) (by decide) 2
  have hcredit : max 0 (a + c - b - 499) - max 0 (a + c - b - 500) =
      if 500 ≤ a + c - b then 1 else 0 := by
    split <;> omega
  have hwithin : max 0 (10 - d + 1) - max 0 (10 - d) = if d ≤ 10 then 1 else 0 := by
    split <;> omega
  have h4 := forward_of_moderate (l := creditLayer4)
    (x := [if 500 ≤ a + c - b then 1 else 0, if d ≤ 10 then 1 else 0]) (B := 1) rfl
    (by decide) (by decide) (by
      intro v hv
      rw [abs_le]
      rcases List.mem_pair.mp hv with rfl | rfl <;> split <;> decide) (by decide) 3
  rw [output_creditLayer1] at h1
  rw [output_creditLayer2] at h2
  rw [output_creditLayer3, hcredit, hwithin] at h3
  rw [output_creditLayer4, and_gate] at h4
  rw [creditLayers, TernaryNetwork.forwardFrom_cons h1, TernaryNetwork.forwardFrom_cons h2,
    TernaryNetwork.forwardFrom_cons h3, TernaryNetwork.forwardFrom_cons h4, TernaryNetwork.forwardFrom]

/-- The network decides the documented condition on every feature vector. -/
theorem forward_buildCreditModel [Blake3Xof] (f : Features) :
    buildCreditModel.forward f.vector = .ok [if f.Approved then 1 else 0] := by
  have hincome := f.income.toNat_lt
  have hdebt := f.debt.toNat_lt
  have hcollateral := f.collateral.toNat_lt
  have hrisk := f.riskFlags.toNat_lt
  have hlayers := forwardFrom_creditLayers (a := f.income.toNat) (b := f.debt.toNat)
    (c := f.collateral.toNat) (d := f.riskFlags.toNat) (by omega) (by omega) (by omega) (by omega)
  have hrisk' : (f.riskFlags.toNat : ℤ) ≤ 10 ↔ f.riskFlags.toNat ≤ 10 := by omega
  simp only [hrisk'] at hlayers
  exact hlayers

end Forward

/-! ## The contract -/

structure RiskGatedTransfer where
  riskModel : TernaryNetwork
  byteAdd : TernaryNetwork
  byteSub : TernaryNetwork
  programHash : Hash
  programHashV2 : ProgramHash

/-- The features at 56, in little-endian pairs of bytes. -/
def featuresAt (input : Bytes) : Features where
  income := UInt16.ofNat (leNat (slice input 56 2))
  debt := UInt16.ofNat (leNat (slice input 58 2))
  collateral := UInt16.ofNat (leNat (slice input 60 2))
  riskFlags := UInt16.ofNat (leNat (slice input 62 2))

/-- `pack_input`. -/
def packInput (from_ to_ amount : BitVec 128) (nonce : UInt64) (f : Features) : Bytes :=
  toLe 16 from_.toNat ++ toLe 16 to_.toNat ++ toLe 16 amount.toNat ++ toLe 8 nonce.toNat ++
    toLe 2 f.income.toNat ++ toLe 2 f.debt.toNat ++ toLe 2 f.collateral.toNat ++
    toLe 2 f.riskFlags.toNat

namespace RiskGatedTransfer

def modelDecision (c : RiskGatedTransfer) (features : Features) : Except ContractError Bool := do
  let out ← (c.riskModel.forward features.vector).mapError .primitive
  return out.headD 0 == 1

def run (c : RiskGatedTransfer) (input : Bytes) : Except ContractError Bytes :=
  if input.length ≠ 64 then .error (.inputShape "risk_gated_transfer" input.length 64)
  else do
    let decision ← (c.riskModel.forward (featuresAt input).vector).mapError .primitive
    if decision.headD 0 ≠ 1 then return noOpOutput 40
    wrappedTransfer c.byteAdd c.byteSub (slice input 0 16) (slice input 16 16) (slice input 32 16)
      (slice input 48 8)

/-- The declared output: the transfer where the model approves, the sender has the amount and
the receiver's balance stays in range; zeros elsewhere. -/
def declared (x : Bytes) : Bytes :=
  if (featuresAt x).Approved ∧ leNat (slice x 32 16) ≤ leNat (slice x 0 16) ∧
      leNat (slice x 16 16) + leNat (slice x 32 16) < 2 ^ 128 then
    settled (leNat (slice x 0 16)) (leNat (slice x 16 16)) (leNat (slice x 32 16))
      (leNat (slice x 48 8))
  else List.replicate 40 0

section Build

variable [Blake3Xof]

def build : RiskGatedTransfer :=
  let riskModel := buildCreditModel
  let byteAdd := ByteAddWithCarry.build
  let byteSub := ByteSubWithBorrow.build
  let hashes := buildProgramHashes "risk_gated_transfer" [riskModel, byteAdd, byteSub]
  ⟨riskModel, byteAdd, byteSub, hashes.2, hashes.1⟩

theorem modelDecision_build (f : Features) : build.modelDecision f = .ok (decide f.Approved) := by
  have hforward := forward_buildCreditModel f
  unfold modelDecision
  rw [show build.riskModel = buildCreditModel from rfl, hforward]
  by_cases hok : f.Approved
  · rw [if_pos hok, decide_eq_true hok]
    rfl
  · rw [if_neg hok, decide_eq_false hok]
    rfl

theorem run_build {x : Bytes} (hlen : x.length = 64) : build.run x = .ok (declared x) := by
  have hforward := forward_buildCreditModel (featuresAt x)
  have hslice : ∀ off len : ℕ, off + len ≤ 64 → (slice x off len).length = len :=
    fun _ _ => length_slice_of_length hlen
  have htransfer := wrappedTransfer_build (hslice 0 16 (by decide)) (hslice 16 16 (by decide))
    (hslice 32 16 (by decide)) (hslice 48 8 (by decide))
  unfold run declared
  rw [if_neg (not_not.mpr hlen), show build.riskModel = buildCreditModel from rfl, hforward]
  by_cases hok : (featuresAt x).Approved
  · rw [if_pos hok]
    simp only [hok, true_and]
    exact htransfer
  · rw [if_neg hok, if_neg fun h => hok h.1]
    rfl

omit [Blake3Xof] in
theorem slices_packInput (from_ to_ amount : BitVec 128) (nonce : UInt64) (f : Features) :
    slice (packInput from_ to_ amount nonce f) 0 16 = toLe 16 from_.toNat ∧
      slice (packInput from_ to_ amount nonce f) 16 16 = toLe 16 to_.toNat ∧
      slice (packInput from_ to_ amount nonce f) 32 16 = toLe 16 amount.toNat ∧
      slice (packInput from_ to_ amount nonce f) 48 8 = toLe 8 nonce.toNat := by
  simp [packInput, slice, List.drop_append, List.drop_of_length_le]

omit [Blake3Xof] in
theorem featuresAt_packInput (from_ to_ amount : BitVec 128) (nonce : UInt64) (f : Features) :
    featuresAt (packInput from_ to_ amount nonce f) = f := by
  have hfield : ∀ n : UInt16, UInt16.ofNat (leNat (toLe 2 n.toNat)) = n := by
    intro n
    rw [leNat_toLe_of_lt n.toNat_lt, UInt16.ofNat_toNat]
  obtain ⟨income, debt, collateral, riskFlags⟩ := f
  simp [featuresAt, packInput, slice, List.drop_append, List.drop_of_length_le, List.take_of_length_le,
    hfield]

/-- A packed witness is run on the values it was packed from. -/
theorem run_packInput (from_ to_ amount : BitVec 128) (nonce : UInt64) (f : Features) :
    build.run (packInput from_ to_ amount nonce f) =
      .ok (if f.Approved ∧ amount.toNat ≤ from_.toNat ∧ to_.toNat + amount.toNat < 2 ^ 128 then
        settled from_.toNat to_.toNat amount.toNat nonce.toNat
      else List.replicate 40 0) := by
  have hlen : (packInput from_ to_ amount nonce f).length = 64 := by simp [packInput]
  obtain ⟨hfrom, hto, hamount, hnonce⟩ := slices_packInput from_ to_ amount nonce f
  rw [run_build hlen, declared, featuresAt_packInput, hfrom, hto, hamount, hnonce,
    leNat_toLe_of_lt (show from_.toNat < 256 ^ 16 from from_.isLt),
    leNat_toLe_of_lt (show to_.toNat < 256 ^ 16 from to_.isLt),
    leNat_toLe_of_lt (show amount.toNat < 256 ^ 16 from amount.isLt),
    leNat_toLe_of_lt (show nonce.toNat < 256 ^ 8 from nonce.toNat_lt)]

/-- The model is exact on every feature vector, and the contract computes its declared
function on every byte string. -/
theorem risk_gated_run_eq_declared (f : Features) (x : Bytes) :
    buildCreditModel.forward f.vector = .ok [if f.Approved then 1 else 0] ∧
    build.modelDecision f = .ok (decide f.Approved) ∧
    build.run x = (if x.length ≠ 64 then .error (.inputShape "risk_gated_transfer" x.length 64)
      else .ok (declared x)) ∧
    (declared x).length = 40 := by
  refine ⟨forward_buildCreditModel f, modelDecision_build f, ?_, ?_⟩
  · by_cases hlen : x.length = 64
    · rw [run_build hlen, if_neg (not_not.mpr hlen)]
    · rw [if_pos hlen]
      exact if_pos hlen
  · unfold declared
    split
    · simp [settled]
    · rfl

end Build

end RiskGatedTransfer

end PslBank.Contracts
