import PslBank.Ternary.Network
import PslBank.Lib.Ripple

/-!
# Byte addition and subtraction, and the chains over them

`primitives/byte_add_with_carry.rs`, `byte_sub_with_borrow.rs`, `transfer_check.rs` and
`transfer_finalize.rs` of `ternary_vm`. The two byte primitives differ in the first layer,
in the last row of the last layer and in their names; what they share is written once,
with these as parameters.
-/
namespace PslBank.Ternary

open PslBank.Lib PslBank.Crypto SparseTernaryLayer

set_option autoImplicit false

/-! ## Encoding, decoding and running -/

/-- `encode_input`: two bytes and a bit as thermometers. -/
def encodeByteInput (primitive : String) (a b c : UInt8) : Except TernaryError (List ℤ) :=
  if 1 < c then .error (.inputRange primitive c.toNat 1)
  else
    .ok (thermoEncode (a.toNat : ℤ) 255 ++ thermoEncode (b.toNat : ℤ) 255 ++
      thermoEncode (c.toNat : ℤ) 1)

/-- `decode_output`: the hot position of the first 256 rows, and the last row as a bit. -/
def decodeByteOutput (label flagName : String) (out : List ℤ) : Except TernaryError (UInt8 × UInt8) :=
  if out.length ≠ 257 then
    let got := out.length
    .error (.outputDecode s!"{label} expected 257 outputs, got {got}")
  else do
    let byte ← argmax (out.take 256)
    let flag := out.getD 256 0
    if 0 ≤ flag ∧ flag ≤ 1 then return (UInt8.ofNat byte, UInt8.ofNat flag.toNat)
    else .error (.outputDecode s!"{label} {flagName} must be 0 or 1, got {flag}")

/-- The input vector of two bytes and a bit. -/
def byteInput (a b c : ℕ) : List ℤ := thermoEncode a 255 ++ thermoEncode b 255 ++ thermoEncode c 1

theorem encodeByteInput_eq (primitive : String) {a b c : UInt8} (hc : c.toNat ≤ 1) :
    encodeByteInput primitive a b c = .ok (byteInput a.toNat b.toNat c.toNat) := by
  have hle : ¬ 1 < c := by
    rw [UInt8.lt_iff_toNat_lt]
    show ¬ 1 < c.toNat
    omega
  exact if_neg hle

section Blocks

variable {a b c : ℕ} (ha : a ≤ 255) (hb : b ≤ 255) (hc : c ≤ 1)

include ha hb hc

theorem length_blocks : (thermoEncode (a : ℤ) 255).length = 256 ∧
    (thermoEncode (b : ℤ) 255).length = 256 ∧ (thermoEncode (c : ℤ) 1).length = 2 :=
  ⟨length_thermoEncode ha, length_thermoEncode hb, length_thermoEncode hc⟩

theorem sum_blocks : (thermoEncode (a : ℤ) 255).sum = a + 1 ∧
    (thermoEncode (b : ℤ) 255).sum = b + 1 ∧ (thermoEncode (c : ℤ) 1).sum = c + 1 :=
  ⟨sum_thermoEncode ha, sum_thermoEncode hb, sum_thermoEncode hc⟩

theorem length_byteInput : (byteInput a b c).length = 514 := by
  obtain ⟨hla, hlb, hlc⟩ := length_blocks ha hb hc
  rw [byteInput, List.length_append, List.length_append, hla, hlb, hlc]

/-- The columns of each block sum to its value and one. -/
theorem columnSum_blocks : columnSum (byteInput a b c) (u32Range 0 256) = a + 1 ∧
    columnSum (byteInput a b c) (u32Range 256 512) = b + 1 ∧
      columnSum (byteInput a b c) (u32Range 512 514) = c + 1 := by
  obtain ⟨hsa, hsb, hsc⟩ := sum_blocks ha hb hc
  obtain ⟨hla, hlb, hlc⟩ := length_blocks ha hb hc
  refine ⟨?_, ?_, ?_⟩
  · rw [← hsa, byteInput, List.append_assoc, ← List.nil_append (thermoEncode (a : ℤ) 255)]
    exact columnSum_u32Range rfl (by rw [hla]) (by decide)
  · rw [← hsb]
    exact columnSum_u32Range hla (by rw [hlb]) (by decide)
  · rw [← hsc, byteInput, ← List.append_nil (_ ++ thermoEncode (c : ℤ) 1)]
    exact columnSum_u32Range (by rw [List.length_append, hla, hlb]) (by rw [hlc]) (by decide)

theorem abs_le_one_of_mem_byteInput {v : ℤ} (hv : v ∈ byteInput a b c) : |v| ≤ 1 := by
  rcases List.mem_append.mp hv with hv | hv
  · rcases List.mem_append.mp hv with hv | hv
    · exact abs_le_one_of_mem_thermoEncode ha hv
    · exact abs_le_one_of_mem_thermoEncode hb hv
  · exact abs_le_one_of_mem_thermoEncode hc hv

end Blocks

theorem decodeByteOutput_oneHot (label flagName : String) {t : ℕ} {flag : ℕ} (hflag : flag ≤ 1) :
    decodeByteOutput label flagName
        ((List.range 256).map (fun k => if k = t % 256 then 1 else 0) ++ [(flag : ℤ)]) =
      .ok (UInt8.ofNat t, UInt8.ofNat flag) := by
  have hlen : ((List.range 256).map (fun k => if k = t % 256 then (1 : ℤ) else 0)).length = 256 := by
    rw [List.length_map, List.length_range]
  have hbyte : UInt8.ofNat (t % 256) = UInt8.ofNat t := ofNat_eq_of_mod (Nat.mod_mod t 256)
  unfold decodeByteOutput
  rw [if_neg (by rw [List.length_append, hlen, List.length_singleton]; decide),
    List.take_left' hlen, getD_append_last _ _ hlen, argmax_oneHot (Nat.mod_lt t (by decide))]
  show (if 0 ≤ (flag : ℤ) ∧ (flag : ℤ) ≤ 1 then
    Except.ok (UInt8.ofNat (t % 256), UInt8.ofNat (flag : ℤ).toNat) else _) = _
  rw [if_pos (by omega), hbyte, Int.toNat_natCast]

/-! ## The first layer of a primitive -/

/-- A layer with one row, without activation. -/
def totalLayer (pos neg : List UInt32) (bias : Int64) : SparseTernaryLayer :=
  ⟨514, 1, [pos], [neg], [bias], false⟩

theorem forward_totalLayer (pos neg : List UInt32) (bias : Int64) {x : List ℤ} (layerIdx : ℕ)
    (hlen : x.length = 514) (hx : ∀ v ∈ x, |v| ≤ 1) (hpos : pos.length ≤ 2 ^ 20)
    (hneg : neg.length ≤ 2 ^ 20) (hbias : |bias.toInt| ≤ 2 ^ 20) :
    (totalLayer pos neg bias).forward x (totalLayer pos neg bias).outputDim layerIdx =
      .ok [bias.toInt + columnSum x pos - columnSum x neg] := by
  rw [forward_eq_output (B := 1) hlen (by decide) hx _ layerIdx]
  · rfl
  · intro i hi
    have hzero : i = 0 := Nat.lt_one_iff.mp hi
    subst hzero
    exact rowFits_of_moderate (by decide) (by decide) hbias hpos hneg

theorem wellFormed_totalLayer {pos neg : List UInt32} (bias : Int64) (hpos : ∀ j ∈ pos, j.toNat < 514)
    (hneg : ∀ j ∈ neg, j.toNat < 514) : (totalLayer pos neg bias).WellFormed :=
  ⟨rfl, rfl, rfl, List.forall_mem_singleton.mpr hpos, List.forall_mem_singleton.mpr hneg⟩

/-! ## Byte primitives -/

/-- What tells the two byte primitives apart: their names, the one row of the first layer and
the last row of the last layer. -/
structure BytePrimitive where
  primitive : String
  label : String
  flagName : String
  pos : List UInt32
  neg : List UInt32
  bias : Int64
  lastPos : List UInt32
  lastNeg : List UInt32
  lastBias : Int64
  posCols : ∀ j ∈ pos, j.toNat < 514
  negCols : ∀ j ∈ neg, j.toNat < 514
  lastPosCols : ∀ j ∈ lastPos, j.toNat < 513
  lastNegCols : ∀ j ∈ lastNeg, j.toNat < 513
  moderate : pos.length ≤ 514 ∧ neg.length ≤ 514 ∧ lastPos.length ≤ 514 ∧ lastNeg.length ≤ 514
  moderateBias : |bias.toInt| ≤ 2 ^ 20 ∧ |lastBias.toInt| ≤ 2 ^ 20

namespace BytePrimitive

variable (p : BytePrimitive)

def layers : List SparseTernaryLayer :=
  byteLayers (totalLayer p.pos p.neg p.bias) p.lastPos p.lastNeg p.lastBias

theorem wellFormed_layers : ∀ l ∈ p.layers, l.WellFormed := by
  intro l hl
  simp only [layers, byteLayers, List.mem_cons, List.not_mem_nil, or_false] at hl
  rcases hl with rfl | rfl | rfl | rfl
  · exact wellFormed_totalLayer p.bias p.posCols p.negCols
  · exact wellFormed_parallelRelu
  · exact wellFormed_thermoDecode
  · exact wellFormed_projection p.lastPosCols p.lastNegCols

/-- No row is longer than the input, so the row pointers of the packed form fit. -/
theorem nnz_layers : ∀ l ∈ p.layers, nnz l.posIndices < 2 ^ 32 ∧ nnz l.negIndices < 2 ^ 32 := by
  obtain ⟨hpos, hneg, hlp, hln⟩ := p.moderate
  intro l hl
  have hwf := p.wellFormed_layers l hl
  simp only [layers, byteLayers, List.mem_cons, List.not_mem_nil, or_false] at hl
  rcases hl with rfl | rfl | rfl | rfl
  · exact nnz_lt_of_rowsWithin hwf
      ⟨List.forall_mem_singleton.mpr hpos, List.forall_mem_singleton.mpr hneg⟩ (Nat.le_of_ble_eq_true rfl)
  · exact nnz_lt_of_rowsWithin hwf (rowsWithin_parallelRelu.mono (by decide)) (by decide)
  · exact nnz_lt_of_rowsWithin hwf (rowsWithin_thermoDecode.mono (by decide)) (by decide)
  · exact nnz_lt_of_rowsWithin hwf (rowsWithin_projection (by decide) hlp hln)
      (Nat.le_of_ble_eq_true rfl)

section

variable [Blake3Xof]

/-- The network with both digests of its packed weights. -/
def build : TernaryNetwork :=
  let packed := (packWeightsDual p.primitive 514 257 p.layers).get
    (packWeightsDual_isSome p.primitive 514 257 p.nnz_layers)
  { header := ⟨1, p.primitive, 514, 257, packed.2.1, packed.2.2⟩
    layers := p.layers
    wellFormed := p.wellFormed_layers }

omit [Blake3Xof] in
def run (net : TernaryNetwork) (a b c : UInt8) : Except TernaryError (UInt8 × UInt8) := do
  let input ← encodeByteInput p.primitive a b c
  let output ← net.forward input
  decodeByteOutput p.label p.flagName output

/-- A primitive is correct when its first layer computes `t` and its last row the bit. -/
theorem run_build {a b c : UInt8} (hc : c.toNat ≤ 1) {t flag : ℕ} (ht : t < 512) (hflag : flag ≤ 1)
    (htotal : p.bias.toInt + columnSum (byteInput a.toNat b.toNat c.toNat) p.pos -
      columnSum (byteInput a.toNat b.toNat c.toNat) p.neg = t)
    (hlast : p.lastBias.toInt + columnSum ((List.range 513).map (thermoBit t)) p.lastPos -
      columnSum ((List.range 513).map (thermoBit t)) p.lastNeg = flag) :
    p.run p.build a b c = .ok (UInt8.ofNat t, UInt8.ofNat flag) := by
  have ha := a.toNat_lt
  have hb := b.toNat_lt
  obtain ⟨hpos, hneg, hlp, hln⟩ := p.moderate
  have hlen := length_byteInput (Nat.le_of_lt_succ ha) (Nat.le_of_lt_succ hb) hc
  have hfirst := forward_totalLayer p.pos p.neg p.bias 0 hlen
    (fun v hv => abs_le_one_of_mem_byteInput (by omega) (by omega) hc hv) (by omega) (by omega)
    p.moderateBias.1
  rw [htotal] at hfirst
  have hforward : p.build.forward (byteInput a.toNat b.toNat c.toNat) =
      .ok ((List.range 256).map (fun k => if k = t % 256 then 1 else 0) ++ [(flag : ℤ)]) := by
    have hlayers := forwardFrom_byteLayers p.lastPos p.lastNeg p.lastBias ht hfirst (by omega)
      (by omega) p.moderateBias.2
    rw [hlast] at hlayers
    show (if (byteInput a.toNat b.toNat c.toNat).length ≠ 514 then _
      else TernaryNetwork.forwardFrom p.layers 0 (byteInput a.toNat b.toNat c.toNat)) = _
    rw [if_neg (not_not.mpr hlen)]
    exact hlayers
  rw [run, encodeByteInput_eq p.primitive hc]
  show (do
    let output ← p.build.forward (byteInput a.toNat b.toNat c.toNat)
    decodeByteOutput p.label p.flagName output) = _
  rw [hforward]
  exact decodeByteOutput_oneHot p.label p.flagName hflag

end

end BytePrimitive

theorem columnSum_thermo_256 (t : ℕ) :
    columnSum ((List.range 513).map (thermoBit t)) [256] = if 256 ≤ t then 1 else 0 := by
  rw [columnSum_cons, columnSum_nil, add_zero]
  exact getD_map_range _ _ _ _ (by decide)

theorem u32Range_append {lo mid hi : ℕ} (h : lo ≤ mid) (h' : mid ≤ hi) :
    u32Range lo mid ++ u32Range mid hi = u32Range lo hi := by
  have hlen : hi - lo = (mid - lo) + (hi - mid) := by omega
  have hmid : lo + (mid - lo) = mid := by omega
  rw [u32Range, u32Range, u32Range, ← List.map_append, hlen, ← List.range'_append_1, hmid]

namespace ByteAddWithCarry

/-- First layer: all columns, bias −3. Last row: the carry is position 256 of the
thermometer. -/
def primitive : BytePrimitive where
  primitive := "byte_add_with_carry"
  label := "byte_add"
  flagName := "carry_out"
  pos := u32Range 0 514
  neg := []
  bias := -3
  lastPos := [256]
  lastNeg := []
  lastBias := 0
  posCols := fun _ => toNat_lt_of_mem_u32Range
  negCols := fun _ hj => (List.not_mem_nil hj).elim
  lastPosCols := List.forall_mem_singleton.mpr (by decide)
  lastNegCols := fun _ hj => (List.not_mem_nil hj).elim
  moderate := ⟨by rw [length_u32Range], by decide, by decide, by decide⟩
  moderateBias := ⟨by decide, by decide⟩

def run (net : TernaryNetwork) (a b c : UInt8) : Except TernaryError (UInt8 × UInt8) :=
  primitive.run net a b c

variable [Blake3Xof]

def build : TernaryNetwork := primitive.build

/-- The built network is a full adder for one byte. -/
theorem fullAdder_run : FullAdder (run build) := by
  intro a b c hc
  have ha := a.toNat_lt
  have hb := b.toNat_lt
  obtain ⟨hA, hB, hC⟩ := columnSum_blocks (Nat.le_of_lt_succ ha) (Nat.le_of_lt_succ hb) hc
  apply primitive.run_build hc (by omega) (by omega)
  · have hbias : (-3 : Int64).toInt = -3 := by decide
    have hcols : u32Range 0 514 = u32Range 0 256 ++ u32Range 256 512 ++ u32Range 512 514 := by
      rw [u32Range_append (by decide) (by decide), u32Range_append (by decide) (by decide)]
    show (-3 : Int64).toInt + columnSum _ (u32Range 0 514) - columnSum _ [] = _
    rw [hbias, hcols, columnSum_append, columnSum_append, hA, hB, hC, columnSum_nil]
    push_cast
    omega
  · have hbias : (0 : Int64).toInt = 0 := by decide
    show (0 : Int64).toInt + columnSum _ [256] - columnSum _ [] = _
    rw [columnSum_thermo_256, columnSum_nil, hbias]
    split <;> omega

end ByteAddWithCarry

namespace ByteSubWithBorrow

/-- First layer: the minuend counts up, the subtrahend and the borrow count down, bias 257.
Last row: no borrow when position 256 of the thermometer is reached. -/
def primitive : BytePrimitive where
  primitive := "byte_sub_with_borrow"
  label := "byte_sub"
  flagName := "borrow_out"
  pos := u32Range 0 256
  neg := u32Range 256 512 ++ u32Range 512 514
  bias := 257
  lastPos := []
  lastNeg := [256]
  lastBias := 1
  posCols := fun _ hj => (toNat_lt_of_mem_u32Range hj).trans (by decide)
  negCols := by
    intro j hj
    rw [u32Range_append (by decide) (by decide)] at hj
    exact toNat_lt_of_mem_u32Range hj
  lastPosCols := fun _ hj => (List.not_mem_nil hj).elim
  lastNegCols := List.forall_mem_singleton.mpr (by decide)
  moderate := by
    rw [u32Range_append (by decide) (by decide), length_u32Range, length_u32Range]
    decide
  moderateBias := ⟨by decide, by decide⟩

def run (net : TernaryNetwork) (m s b : UInt8) : Except TernaryError (UInt8 × UInt8) :=
  primitive.run net m s b

variable [Blake3Xof]

def build : TernaryNetwork := primitive.build

/-- The built network is a full subtractor for one byte. -/
theorem fullSubtractor_run : FullSubtractor (run build) := by
  intro m s b hb
  have hm := m.toNat_lt
  have hs := s.toNat_lt
  obtain ⟨hM, hS, hB⟩ := columnSum_blocks (Nat.le_of_lt_succ hm) (Nat.le_of_lt_succ hs) hb
  apply primitive.run_build hb (by omega) (by omega)
  · have hbias : (257 : Int64).toInt = 257 := by decide
    show (257 : Int64).toInt + columnSum _ (u32Range 0 256) -
      columnSum _ (u32Range 256 512 ++ u32Range 512 514) = _
    rw [hbias, columnSum_append, hM, hS, hB]
    omega
  · have hbias : (1 : Int64).toInt = 1 := by decide
    show (1 : Int64).toInt + columnSum _ [] - columnSum _ [256] = _
    rw [columnSum_thermo_256, columnSum_nil, hbias]
    split <;> omega

end ByteSubWithBorrow

/-! ## Chained programs -/

namespace TransferCheck

/-- 16 bytes against 16 bytes: 1 where no borrow is left at the end. -/
def run (byteSubNet : TernaryNetwork) (from_ amount : Bytes) : Except TernaryError UInt8 := do
  let (_, borrow) ← chain (ByteSubWithBorrow.run byteSubNet) from_ amount 0
  return 1 - borrow

variable [Blake3Xof]

def build : TernaryNetwork := ByteSubWithBorrow.build

theorem run_build {from_ amount : Bytes} (hlen : from_.length = amount.length) :
    run build from_ amount = .ok (if leNat amount ≤ leNat from_ then 1 else 0) := by
  have hchain := ByteSubWithBorrow.fullSubtractor_run.chain_zero from_ amount hlen
  rw [run, build, hchain]
  by_cases hle : leNat amount ≤ leNat from_
  · rw [if_pos hle, if_neg (Nat.not_lt.mpr hle)]
    rfl
  · rw [if_neg hle, if_pos (Nat.not_le.mp hle)]
    rfl

end TransferCheck

namespace TransferFinalize

/-- The nonce plus one: a carry runs through its 8 bytes, the last one is dropped. -/
def run (byteAddNet : TernaryNetwork) (nonce : Bytes) : Except TernaryError Bytes := do
  let (newNonce, _) ← chain (ByteAddWithCarry.run byteAddNet) nonce (List.replicate 8 0) 1
  return newNonce

variable [Blake3Xof]

def build : TernaryNetwork := ByteAddWithCarry.build

theorem run_build {nonce : Bytes} (hlen : nonce.length = 8) :
    run build nonce = .ok (toLe 8 (leNat nonce + 1)) := by
  have hzero : leNat (List.replicate 8 0) = 0 := by decide
  have hchain := ByteAddWithCarry.fullAdder_run.chain_eq nonce (List.replicate 8 0)
    (by rw [hlen, List.length_replicate]) 1 (by decide)
  rw [run, build, hchain, hzero, hlen]
  rfl

end TransferFinalize

end PslBank.Ternary
