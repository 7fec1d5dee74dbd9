import PslBank.Ternary.ByteOps
import PslBank.Sequencer.Trace

/-!
# The freeze pipeline and the record pass-through

`primitives/freeze_setup.rs`, `freeze_apply.rs` and `mpt_emit_record.rs` of `ternary_vm`. The
first picks the flag and byte 47 out of a witness of 65 bytes, the second makes the new byte
47, the third emits a record. Each `encode_input` is a sequence of thermometers, one a byte,
and a row over the columns of one thermometer reads that byte.
-/
namespace PslBank.Ternary

open PslBank.Lib PslBank.Crypto SparseTernaryLayer

set_option autoImplicit false

/-! ## Blocks of thermometers -/

/-- The bytes one after another, each as a thermometer of 256 entries. -/
def byteBlocks (bs : Bytes) : List ℤ := bs.flatMap fun b => thermoEncode (b.toNat : ℤ) 255

theorem length_thermoByte (b : UInt8) : (thermoEncode (b.toNat : ℤ) 255).length = 256 :=
  length_thermoEncode (Nat.lt_succ_iff.mp b.toNat_lt)

theorem length_byteBlocks (bs : Bytes) : (byteBlocks bs).length = 256 * bs.length := by
  induction bs with
  | nil => rfl
  | cons b bs ih =>
    have hcons : byteBlocks (b :: bs) = thermoEncode (b.toNat : ℤ) 255 ++ byteBlocks bs := rfl
    rw [hcons, List.length_append, length_thermoByte, ih, List.length_cons]
    omega

theorem abs_le_one_of_mem_byteBlocks {bs : Bytes} {v : ℤ} (hv : v ∈ byteBlocks bs) : |v| ≤ 1 := by
  obtain ⟨b, -, hb⟩ := List.mem_flatMap.mp hv
  exact abs_le_one_of_mem_thermoEncode (Nat.lt_succ_iff.mp b.toNat_lt) hb

/-- The columns of one block sum to the byte and one. -/
theorem columnSum_byteBlocks (lead : List ℤ) (front back : Bytes) (b : UInt8) {lo : ℕ}
    (hlo : lead.length + 256 * front.length = lo) (h : lo + 256 < 2 ^ 32) :
    columnSum (lead ++ byteBlocks (front ++ b :: back)) (u32Range lo (lo + 256)) = b.toNat + 1 := by
  have hsplit : lead ++ byteBlocks (front ++ b :: back) =
      (lead ++ byteBlocks front) ++ thermoEncode (b.toNat : ℤ) 255 ++ byteBlocks back := by
    simp only [byteBlocks, List.flatMap_append, List.flatMap_cons, List.append_assoc]
  rw [hsplit, columnSum_u32Range (by rw [List.length_append, length_byteBlocks, hlo])
    (by rw [length_thermoByte]) h]
  exact sum_thermoEncode (Nat.lt_succ_iff.mp b.toNat_lt)

theorem split_at_byte (bs : Bytes) {i : ℕ} (hi : i < bs.length) :
    bs = bs.take i ++ bs.get ⟨i, hi⟩ :: bs.drop (i + 1) := by
  rw [List.get_eq_getElem, ← List.drop_eq_getElem_cons hi, List.take_append_drop]

/-- The block of position `i`. -/
theorem columnSum_byteBlocks_get (lead : List ℤ) (bs : Bytes) (i : ℕ) {lo : ℕ} (hi : i < bs.length)
    (hlo : lead.length + 256 * i = lo) (h : lo + 256 < 2 ^ 32) :
    columnSum (lead ++ byteBlocks bs) (u32Range lo (lo + 256)) = (bs.get ⟨i, hi⟩).toNat + 1 := by
  have htake : (bs.take i).length = i := by rw [List.length_take]; omega
  have hsum := columnSum_byteBlocks lead (bs.take i) (bs.drop (i + 1)) (bs.get ⟨i, hi⟩)
    (by rw [htake, hlo]) h
  rwa [← split_at_byte bs hi] at hsum

/-! ## Networks of given layers -/

/-- What `build` makes of the layers of a primitive: `pack_weights_dual` digests them. -/
def networkOf [Blake3Xof] (primitive : String) (inputDim outputDim : UInt32)
    (layers : List SparseTernaryLayer) (hwf : ∀ l ∈ layers, l.WellFormed)
    (hnnz : ∀ l ∈ layers, nnz l.posIndices < 2 ^ 32 ∧ nnz l.negIndices < 2 ^ 32) : TernaryNetwork :=
  let packed := (packWeightsDual primitive inputDim outputDim layers).get
    (packWeightsDual_isSome primitive inputDim outputDim hnnz)
  { header := ⟨1, primitive, inputDim, outputDim, packed.2.1, packed.2.2⟩
    layers := layers
    wellFormed := hwf }

/-- A network whose first layer is small enough for thermometers. -/
theorem forward_of_first {net : TernaryNetwork} {l : SparseTernaryLayer} {ls : List SparseTernaryLayer}
    {x : List ℤ} (hnet : net.layers = l :: ls) (hlen : x.length = l.inputDim) (hx : ∀ v ∈ x, |v| ≤ 1)
    (hfits : ∀ i < l.outputDim, l.RowFits 1 i) :
    net.forward x = TernaryNetwork.forwardFrom ls 1 (l.output x) := by
  rw [TernaryNetwork.forward, hnet]
  show (if x.length ≠ l.inputDim then _ else TernaryNetwork.forwardFrom (l :: ls) 0 x) = _
  rw [if_neg (not_not.mpr hlen),
    TernaryNetwork.forwardFrom_cons (forward_eq_output hlen (by decide) hx hfits 0)]

/-- `thermo::encode` of a bit: the second entry is the bit. -/
theorem thermoEncode_bit {c : ℕ} (hc : c ≤ 1) : thermoEncode (c : ℤ) 1 = [1, (c : ℤ)] := by
  interval_cases c <;> rfl

/-! ## `mpt_emit_record` -/

namespace MptEmitRecord

/-- `build_layer1`: row `i` reads the block of byte `i`. -/
def layer1 : SparseTernaryLayer where
  inputDim := 16384
  outputDim := 64
  posIndices := (List.range 64).map fun i => u32Range (i * 256) (i * 256 + 256)
  negIndices := (List.range 64).map fun _ => []
  bias := List.replicate 64 (-1)
  relu := false

def encodeInput (record : ByteArr 64) : List ℤ := byteBlocks record.toList

/-- The loop of `decode_output` from position `i` on. -/
def decodeBytes : List ℤ → ℕ → Except TernaryError Bytes
  | [], _ => .ok []
  | b :: out, i =>
      if 0 ≤ b ∧ b ≤ 255 then do
        let rest ← decodeBytes out (i + 1)
        return UInt8.ofNat b.toNat :: rest
      else .error (.outputDecode s!"mpt_emit byte[{i}] out of range: {b}")

def decodeOutput (out : List ℤ) : Except TernaryError Bytes :=
  if out.length ≠ 64 then
    let got := out.length
    .error (.outputDecode s!"mpt_emit expected 64 outputs, got {got}")
  else decodeBytes out 0

def run (net : TernaryNetwork) (record : ByteArr 64) : Except TernaryError Bytes := do
  let output ← net.forward (encodeInput record)
  decodeOutput output

theorem layer1_row {i : ℕ} (hi : i < 64) : layer1.posIndices.getD i [] = u32Range (i * 256) (i * 256 + 256) ∧
    layer1.negIndices.getD i [] = [] ∧ (layer1.bias.getD i 0).toInt = -1 := by
  refine ⟨getD_map_range _ _ _ _ hi, getD_map_range _ _ _ _ hi, ?_⟩
  show ((List.replicate 64 (-1 : Int64)).getD i 0).toInt = -1
  rw [List.getD_eq_getElem _ _ (by simpa using hi), List.getElem_replicate]
  decide

theorem wellFormed_layer1 : layer1.WellFormed := by
  refine ⟨by simp [layer1], by simp [layer1], by simp [layer1], ?_, ?_⟩
  · intro row hrow j hj
    obtain ⟨i, hi, rfl⟩ := List.mem_map.mp hrow
    have hlt := toNat_lt_of_mem_u32Range hj
    have hi := List.mem_range.mp hi
    show j.toNat < 16384
    omega
  · intro row hrow j hj
    obtain ⟨i, -, rfl⟩ := List.mem_map.mp hrow
    exact absurd hj List.not_mem_nil

theorem rowsWithin_layer1 : layer1.RowsWithin 514 := by
  refine ⟨?_, ?_⟩
  · intro row hrow
    obtain ⟨i, -, rfl⟩ := List.mem_map.mp hrow
    rw [length_u32Range]
    omega
  · intro row hrow
    obtain ⟨i, -, rfl⟩ := List.mem_map.mp hrow
    exact Nat.zero_le _

theorem rowFits_layer1 : ∀ i < layer1.outputDim, layer1.RowFits 1 i := by
  intro i hi
  obtain ⟨hpos, hneg, hbias⟩ := layer1_row hi
  apply rowFits_of_moderate (by decide) (by decide)
  · rw [hbias]
    decide
  · rw [hpos, length_u32Range]
    omega
  · rw [hneg]
    exact Nat.zero_le _

def build [Blake3Xof] : TernaryNetwork :=
  networkOf "mpt_emit_record" 16384 64 [layer1] (List.forall_mem_singleton.mpr wellFormed_layer1)
    (List.forall_mem_singleton.mpr (nnz_lt_of_rowsWithin wellFormed_layer1 rowsWithin_layer1
      (by decide)))

theorem output_layer1 (bs : Bytes) (hlen : bs.length = 64) :
    layer1.output (byteBlocks bs) = bs.map fun b => (b.toNat : ℤ) := by
  apply List.ext_getElem
  · simp [output, layer1, hlen]
  · intro i hi hi'
    have hi64 : i < 64 := by simpa [output, layer1] using hi
    obtain ⟨hpos, hneg, hbias⟩ := layer1_row hi64
    have hsum : columnSum ([] ++ byteBlocks bs) (u32Range (i * 256) (i * 256 + 256)) = _ :=
      columnSum_byteBlocks_get [] bs i (by omega) (by rw [List.length_nil]; omega) (by omega)
    have hexact : layer1.exact (byteBlocks bs) i = (bs[i].toNat : ℤ) := by
      rw [List.nil_append, List.get_eq_getElem] at hsum
      rw [exact, hpos, hneg, hbias, hsum, columnSum_nil]
      show -1 + ((bs[i].toNat : ℤ) + 1) - 0 = _
      omega
    simp only [output, List.getElem_map, List.getElem_range, hexact]
    rfl

theorem decodeBytes_map (bs : Bytes) (i : ℕ) :
    decodeBytes (bs.map fun b => (b.toNat : ℤ)) i = .ok bs := by
  induction bs generalizing i with
  | nil => rfl
  | cons b bs ih =>
    have hb := b.toNat_lt
    rw [List.map_cons, decodeBytes, if_pos (by omega), ih]
    show Except.ok (UInt8.ofNat (b.toNat : ℤ).toNat :: bs) = _
    rw [Int.toNat_natCast, UInt8.ofNat_toNat]

/-- The network is the identity on records. -/
theorem run_build [Blake3Xof] (record : ByteArr 64) : run build record = .ok record.toList := by
  have hlen := record.toList_length
  have hinput : (encodeInput record).length = 16384 := by
    rw [encodeInput, length_byteBlocks, hlen]
  have hforward : build.forward (encodeInput record) =
      .ok (record.toList.map fun b => (b.toNat : ℤ)) := by
    rw [forward_of_first (l := layer1) rfl hinput (fun v => abs_le_one_of_mem_byteBlocks) rowFits_layer1,
      TernaryNetwork.forwardFrom, encodeInput, output_layer1 _ hlen]
  rw [run, hforward]
  show decodeOutput _ = _
  rw [decodeOutput, if_neg (by rw [List.length_map, hlen]; decide), decodeBytes_map]

end MptEmitRecord

/-! ## `freeze_setup` -/

namespace FreezeSetup

/-- `build_layer1`: the flag, and the block of byte 47. -/
def layer1 : SparseTernaryLayer where
  inputDim := 16386
  outputDim := 2
  posIndices := [[1], u32Range 12034 12290]
  negIndices := [[], []]
  bias := [0, -1]
  relu := false

def encodeInput (witness : ByteArr 65) : Except TernaryError (List ℤ) :=
  let flag := witness.head
  if 1 < flag then .error (.inputRange "freeze_setup" flag.toNat 1)
  else .ok (thermoEncode (flag.toNat : ℤ) 1 ++ byteBlocks witness.tail.toList)

def decodeOutput (out : List ℤ) : Except TernaryError (UInt8 × UInt8) :=
  if out.length ≠ 2 then
    let got := out.length
    .error (.outputDecode s!"freeze_setup expected 2 outputs, got {got}")
  else
    let flag := out.getD 0 0
    let byte47 := out.getD 1 0
    if ¬ (0 ≤ flag ∧ flag ≤ 1) then .error (.outputDecode s!"flag out of range: {flag}")
    else if ¬ (0 ≤ byte47 ∧ byte47 ≤ 255) then
      .error (.outputDecode s!"byte47 out of range: {byte47}")
    else .ok (UInt8.ofNat flag.toNat, UInt8.ofNat byte47.toNat)

def run (net : TernaryNetwork) (witness : ByteArr 65) : Except TernaryError (UInt8 × UInt8) := do
  let input ← encodeInput witness
  let output ← net.forward input
  decodeOutput output

theorem wellFormed_layer1 : layer1.WellFormed := by
  refine ⟨rfl, rfl, rfl, ?_, ?_⟩
  · intro row hrow j hj
    rcases List.mem_pair.mp hrow with rfl | rfl
    · rw [List.mem_singleton.mp hj]
      decide
    · have hlt := toNat_lt_of_mem_u32Range hj
      show j.toNat < 16386
      omega
  · intro row hrow j hj
    rcases List.mem_pair.mp hrow with rfl | rfl <;> exact absurd hj List.not_mem_nil

theorem rowsWithin_layer1 : layer1.RowsWithin 514 := by
  refine ⟨?_, ?_⟩
  · intro row hrow
    rcases List.mem_pair.mp hrow with rfl | rfl
    · decide
    · rw [length_u32Range]
      decide
  · intro row hrow
    rcases List.mem_pair.mp hrow with rfl | rfl <;> exact Nat.zero_le _

theorem rowFits_layer1 : ∀ i < layer1.outputDim, layer1.RowFits 1 i := by
  intro i hi
  have hi : i < 2 := hi
  apply rowFits_of_moderate (by decide) (by decide)
  · interval_cases i <;> decide
  · interval_cases i
    · show [(1 : UInt32)].length ≤ 2 ^ 20
      decide
    · show (u32Range 12034 12290).length ≤ 2 ^ 20
      rw [length_u32Range]
      decide
  · interval_cases i <;> exact Nat.zero_le _

def build [Blake3Xof] : TernaryNetwork :=
  networkOf "freeze_setup" 16386 2 [layer1] (List.forall_mem_singleton.mpr wellFormed_layer1)
    (List.forall_mem_singleton.mpr (nnz_lt_of_rowsWithin wellFormed_layer1 rowsWithin_layer1
      (by decide)))

theorem output_layer1 (x : List ℤ) :
    layer1.output x = [x.getD 1 0, columnSum x (u32Range 12034 12290) - 1] := by
  have hfirst : layer1.exact x 0 = x.getD 1 0 := by
    show 0 + columnSum x [1] - columnSum x [] = x.getD 1 0
    rw [columnSum_cons, columnSum_nil]
    show 0 + (x.getD 1 0 + 0) - 0 = x.getD 1 0
    ring
  have hsecond : layer1.exact x 1 = columnSum x (u32Range 12034 12290) - 1 := by
    show -1 + columnSum x (u32Range 12034 12290) - columnSum x [] = _
    rw [columnSum_nil]
    ring
  show [layer1.exact x 0, layer1.exact x 1] = _
  rw [hfirst, hsecond]

theorem output_input {flag : ℕ} (hflag : flag ≤ 1) {bs : Bytes} (hlen : bs.length = 64) :
    layer1.output (thermoEncode (flag : ℤ) 1 ++ byteBlocks bs) =
      [(flag : ℤ), ((bs.get ⟨47, by omega⟩).toNat : ℤ)] := by
  have hlead : (thermoEncode (flag : ℤ) 1).length + 256 * 47 = 12034 := by
    rw [thermoEncode_bit hflag]
    simp
  have hsum := columnSum_byteBlocks_get (thermoEncode (flag : ℤ) 1) bs 47 (by omega) hlead
    (by norm_num)
  rw [output_layer1, hsum, thermoEncode_bit hflag]
  simp

theorem decodeOutput_pair {flag : UInt8} (hflag : flag.toNat ≤ 1) (byte47 : UInt8) :
    decodeOutput [(flag.toNat : ℤ), (byte47.toNat : ℤ)] = .ok (flag, byte47) := by
  have hbyte := byte47.toNat_lt
  unfold decodeOutput
  rw [if_neg (by simp), List.getD_cons_zero, List.getD_cons_succ, List.getD_cons_zero,
    if_neg (by omega), if_neg (by omega), Int.toNat_natCast, Int.toNat_natCast,
    UInt8.ofNat_toNat, UInt8.ofNat_toNat]

/-- On a flag of 0 or 1 the network gives the flag and byte 47 of the record. -/
theorem run_build [Blake3Xof] (flag : UInt8) (hflag : flag.toNat ≤ 1) (record : ByteArr 64) :
    run build (flag ::ᵥ record) = .ok (flag, record.get ⟨47, by decide⟩) := by
  have hlen := record.toList_length
  have hle : ¬ 1 < flag := by
    rw [UInt8.lt_iff_toNat_lt]
    show ¬ 1 < flag.toNat
    omega
  have hencode : encodeInput (flag ::ᵥ record) =
      .ok (thermoEncode (flag.toNat : ℤ) 1 ++ byteBlocks record.toList) := by
    simp only [encodeInput, List.Vector.head_cons, List.Vector.tail_cons, if_neg hle]
  have hforward : build.forward (thermoEncode (flag.toNat : ℤ) 1 ++ byteBlocks record.toList) =
      .ok [(flag.toNat : ℤ), ((record.toList.get ⟨47, by omega⟩).toNat : ℤ)] := by
    rw [forward_of_first (l := layer1) rfl _ _ rowFits_layer1, TernaryNetwork.forwardFrom,
      output_input hflag hlen]
    · rw [List.length_append, thermoEncode_bit hflag, length_byteBlocks, hlen]
      simp [layer1]
    · intro v hv
      rcases List.mem_append.mp hv with hv | hv
      · exact abs_le_one_of_mem_thermoEncode hflag hv
      · exact abs_le_one_of_mem_byteBlocks hv
  rw [run, hencode]
  show (build.forward _ >>= decodeOutput) = _
  rw [hforward, List.Vector.get_eq_get_toList]
  exact decodeOutput_pair hflag _

end FreezeSetup

/-! ## `freeze_apply` -/

/-- A thermometer entry by entry. -/
theorem thermoEncode_eq_map {n m : ℕ} (h : n ≤ m) :
    thermoEncode (n : ℤ) m = (List.range (m + 1)).map (thermoBit n) := by
  apply List.ext_getElem
  · rw [length_thermoEncode h, List.length_map, List.length_range]
  · intro i hi hi'
    simp only [thermoEncode_eq h, List.getElem_append, List.length_replicate, List.getElem_replicate,
      List.getElem_map, List.getElem_range, thermoBit]
    by_cases hle : i ≤ n
    · rw [dif_pos (by omega), if_pos hle]
    · rw [dif_neg (by omega), if_neg hle]

theorem sum_thermoBit_range (t n : ℕ) : ((List.range n).map (thermoBit t)).sum = min (t + 1) n := by
  induction n with
  | zero => simp
  | succ n ih =>
    rw [List.range_succ, List.map_append, List.sum_append, ih, List.map_singleton, List.sum_singleton,
      thermoBit]
    split <;> omega

namespace FreezeApply

/-- `build_layer1`: `ReLU(t[k] - t[k + 128] - t[128])`, then `t[k]` of the upper half, then the
flag. -/
def layer1 : SparseTernaryLayer where
  inputDim := 258
  outputDim := 257
  posIndices := (List.range 128).map (fun k => [UInt32.ofNat (2 + k)]) ++
    (List.range' 128 128).map (fun k => [UInt32.ofNat (2 + k)]) ++ [[1]]
  negIndices := (List.range 128).map (fun k => [UInt32.ofNat (2 + k + 128), 130]) ++
    (List.range' 128 128).map (fun _ => []) ++ [[]]
  bias := List.replicate 257 0
  relu := true

/-- `build_layer2`: the low seven bits, and the flag. -/
def layer2 : SparseTernaryLayer where
  inputDim := 257
  outputDim := 2
  posIndices := [u32Range 0 128 ++ u32Range 128 256, [256]]
  negIndices := [[], []]
  bias := [-1, 0]
  relu := false

def encodeInput (flag byte47 : UInt8) : Except TernaryError (List ℤ) :=
  if 1 < flag then .error (.inputRange "freeze_apply" flag.toNat 1)
  else .ok (thermoEncode (flag.toNat : ℤ) 1 ++ thermoEncode (byte47.toNat : ℤ) 255)

def decodeOutput (out : List ℤ) : Except TernaryError UInt8 :=
  if out.length ≠ 2 then
    let got := out.length
    .error (.outputDecode s!"freeze_apply expected 2 outputs, got {got}")
  else
    let low7 := out.getD 0 0
    let flag := out.getD 1 0
    if ¬ (0 ≤ low7 ∧ low7 ≤ 127) then .error (.outputDecode s!"LOW7 out of range: {low7}")
    else if ¬ (0 ≤ flag ∧ flag ≤ 1) then .error (.outputDecode s!"flag out of range: {flag}")
    else .ok (UInt8.ofNat (low7 + 128 * flag).toNat)

def run (net : TernaryNetwork) (flag byte47 : UInt8) : Except TernaryError UInt8 := do
  let input ← encodeInput flag byte47
  let output ← net.forward input
  decodeOutput output

/-! The rows of the first layer, in its three parts. -/

theorem layer1_low {k : ℕ} (hk : k < 128) : layer1.posIndices.getD k [] = [UInt32.ofNat (2 + k)] ∧
    layer1.negIndices.getD k [] = [UInt32.ofNat (2 + k + 128), 130] := by
  constructor <;>
  · show (_ ++ _ ++ _ : List (List UInt32)).getD k [] = _
    rw [List.getD_append _ _ _ _ (by simp; omega), List.getD_append _ _ _ _ (by simp; omega),
      getD_map_range _ _ _ _ hk]

theorem layer1_high {k : ℕ} (hk : 128 ≤ k) (hk' : k < 256) :
    layer1.posIndices.getD k [] = [UInt32.ofNat (2 + k)] ∧ layer1.negIndices.getD k [] = [] := by
  have hidx : k - 128 < 128 := by omega
  have hsum : 128 + (k - 128) = k := by omega
  constructor <;>
  · show (_ ++ _ ++ _ : List (List UInt32)).getD k [] = _
    rw [List.getD_append _ _ _ _ (by simp; omega), List.getD_append_right _ _ _ _ (by simp; omega),
      List.getD_eq_getElem _ _ (by simpa using hidx), List.getElem_map] <;>
    simp only [List.getElem_range', List.length_map, List.length_range, Nat.one_mul, hsum]

theorem layer1_flag : layer1.posIndices.getD 256 [] = [1] ∧ layer1.negIndices.getD 256 [] = [] := by
  constructor <;>
  · show (_ ++ _ ++ _ : List (List UInt32)).getD 256 [] = _
    exact getD_append_last _ _ (by simp)

theorem layer1_bias {k : ℕ} (hk : k < 257) : (layer1.bias.getD k 0).toInt = 0 := by
  show ((List.replicate 257 (0 : Int64)).getD k 0).toInt = 0
  rw [List.getD_eq_getElem _ _ (by rw [List.length_replicate]; exact hk), List.getElem_replicate]
  rfl

theorem layer1_cases {k : ℕ} (hk : k < 257) : k < 128 ∨ (128 ≤ k ∧ k < 256) ∨ k = 256 := by omega

theorem length_layer1 : layer1.posIndices.length = 257 ∧ layer1.negIndices.length = 257 ∧
    layer1.bias.length = 257 := by
  refine ⟨?_, ?_, List.length_replicate⟩ <;>
  · show (_ ++ _ ++ _ : List (List UInt32)).length = 257
    simp only [List.length_append, List.length_map, List.length_range, List.length_range',
      List.length_singleton]

theorem layer1_lengths {k : ℕ} (hk : k < 257) : (layer1.posIndices.getD k []).length ≤ 1 ∧
    (layer1.negIndices.getD k []).length ≤ 2 := by
  rcases layer1_cases hk with h | ⟨h, h'⟩ | rfl
  · rw [(layer1_low h).1, (layer1_low h).2]
    exact ⟨Nat.le_refl 1, Nat.le_refl 2⟩
  · rw [(layer1_high h h').1, (layer1_high h h').2]
    exact ⟨Nat.le_refl 1, Nat.zero_le 2⟩
  · rw [layer1_flag.1, layer1_flag.2]
    exact ⟨Nat.le_refl 1, Nat.zero_le 2⟩

theorem wellFormed_layer1 : layer1.WellFormed := by
  refine ⟨length_layer1.1, length_layer1.2.1, length_layer1.2.2, ?_, ?_⟩
  · intro row hrow j hj
    show j.toNat < 258
    rcases List.mem_append.mp hrow with hrow | hrow
    · rcases List.mem_append.mp hrow with hrow | hrow
      · obtain ⟨k, hk, rfl⟩ := List.mem_map.mp hrow
        have hk := List.mem_range.mp hk
        have hle := toNat_ofNat_le (2 + k)
        rw [List.mem_singleton.mp hj]
        omega
      · obtain ⟨k, hk, rfl⟩ := List.mem_map.mp hrow
        have hk := (List.mem_range'_1.mp hk).2
        have hle := toNat_ofNat_le (2 + k)
        rw [List.mem_singleton.mp hj]
        omega
    · rw [List.mem_singleton.mp hrow] at hj
      rw [List.mem_singleton.mp hj]
      decide
  · intro row hrow j hj
    show j.toNat < 258
    rcases List.mem_append.mp hrow with hrow | hrow
    · rcases List.mem_append.mp hrow with hrow | hrow
      · obtain ⟨k, hk, rfl⟩ := List.mem_map.mp hrow
        have hk := List.mem_range.mp hk
        have hle := toNat_ofNat_le (2 + k + 128)
        rcases List.mem_pair.mp hj with rfl | rfl
        · omega
        · decide
      · obtain ⟨k, -, rfl⟩ := List.mem_map.mp hrow
        exact absurd hj List.not_mem_nil
    · rw [List.mem_singleton.mp hrow] at hj
      exact absurd hj List.not_mem_nil

theorem wellFormed_layer2 : layer2.WellFormed := by
  refine ⟨rfl, rfl, rfl, ?_, ?_⟩
  · intro row hrow j hj
    show j.toNat < 257
    rcases List.mem_pair.mp hrow with rfl | rfl
    · rcases List.mem_append.mp hj with hj | hj
      · have hlt := toNat_lt_of_mem_u32Range hj
        omega
      · have hlt := toNat_lt_of_mem_u32Range hj
        omega
    · rw [List.mem_singleton.mp hj]
      decide
  · intro row hrow j hj
    rcases List.mem_pair.mp hrow with rfl | rfl <;> exact absurd hj List.not_mem_nil

theorem rowsWithin_layer1 : layer1.RowsWithin 514 := by
  refine ⟨?_, ?_⟩
  · intro row hrow
    obtain ⟨k, hk, rfl⟩ := List.mem_iff_getElem.mp hrow
    rw [length_layer1.1] at hk
    have hle := (layer1_lengths hk).1
    rw [List.getD_eq_getElem _ _ (by rwa [length_layer1.1])] at hle
    omega
  · intro row hrow
    obtain ⟨k, hk, rfl⟩ := List.mem_iff_getElem.mp hrow
    rw [length_layer1.2.1] at hk
    have hle := (layer1_lengths hk).2
    rw [List.getD_eq_getElem _ _ (by rwa [length_layer1.2.1])] at hle
    omega

theorem rowsWithin_layer2 : layer2.RowsWithin 514 := by
  refine ⟨?_, ?_⟩
  · intro row hrow
    rcases List.mem_pair.mp hrow with rfl | rfl
    · simp
    · decide
  · intro row hrow
    rcases List.mem_pair.mp hrow with rfl | rfl <;> exact Nat.zero_le _

theorem rowFits_layer1 : ∀ k < layer1.outputDim, layer1.RowFits 1 k := by
  intro k hk
  obtain ⟨hpos, hneg⟩ := layer1_lengths hk
  apply rowFits_of_moderate (by decide) (by decide)
  · rw [layer1_bias hk]
    decide
  · omega
  · omega

theorem rowFits_layer2 : ∀ i < layer2.outputDim, layer2.RowFits 1 i := by
  intro i hi
  have hi : i < 2 := hi
  apply rowFits_of_moderate (by decide) (by decide)
  · interval_cases i <;> decide
  · interval_cases i
    · show (u32Range 0 128 ++ u32Range 128 256).length ≤ 2 ^ 20
      rw [List.length_append, length_u32Range, length_u32Range]
      decide
    · show [(256 : UInt32)].length ≤ 2 ^ 20
      decide
  · interval_cases i <;> exact Nat.zero_le _

def build [Blake3Xof] : TernaryNetwork :=
  networkOf "freeze_apply" 258 2 [layer1, layer2]
    (List.forall_mem_cons.mpr ⟨wellFormed_layer1, List.forall_mem_singleton.mpr wellFormed_layer2⟩)
    (List.forall_mem_cons.mpr
      ⟨nnz_lt_of_rowsWithin wellFormed_layer1 rowsWithin_layer1 (by decide),
        List.forall_mem_singleton.mpr
          (nnz_lt_of_rowsWithin wellFormed_layer2 rowsWithin_layer2 (by decide))⟩)

/-- The low half of the first layer on the thermometer of `b`. -/
def lowBit (b k : ℕ) : ℤ := max 0 (thermoBit b k - thermoBit b (k + 128) - thermoBit b 128)

/-- What the first layer makes of a flag and a byte. -/
def middle (flag b : ℕ) : List ℤ :=
  (List.range 128).map (lowBit b) ++ (List.range' 128 128).map (thermoBit b) ++ [(flag : ℤ)]

theorem getD_input {flag b : ℕ} (hflag : flag ≤ 1) (hb : b ≤ 255) {k : ℕ} (hk : k < 256) :
    (thermoEncode (flag : ℤ) 1 ++ thermoEncode (b : ℤ) 255).getD (UInt32.ofNat (2 + k)).toNat 0 =
      thermoBit b k := by
  have hcode : thermoEncode (b : ℤ) 255 = (List.range 256).map (thermoBit b) := thermoEncode_eq_map hb
  rw [UInt32.toNat_ofNat_of_lt' (show 2 + k < 2 ^ 32 by omega), thermoEncode_bit hflag,
    List.getD_append_right _ _ _ _ (by simp), hcode]
  have hsub : 2 + k - [1, (flag : ℤ)].length = k := by
    rw [show [1, (flag : ℤ)].length = 2 from rfl]
    omega
  rw [hsub, getD_map_range _ _ _ _ hk]

theorem range_parts : List.range 257 = List.range 128 ++ List.range' 128 128 ++ [256] := by
  rw [List.range_succ, List.range_eq_range', List.range_eq_range', List.range'_append_1]

section Middle

variable {flag b : ℕ} (hflag : flag ≤ 1) (hb : b ≤ 255)

include hflag hb

theorem activate_low {k : ℕ} (hk : k < 128) :
    layer1.activate (layer1.exact (thermoEncode (flag : ℤ) 1 ++ thermoEncode (b : ℤ) 255) k) =
      lowBit b k := by
  obtain ⟨hpos, hneg⟩ := layer1_low hk
  have hshift : UInt32.ofNat (2 + k + 128) = UInt32.ofNat (2 + (k + 128)) := rfl
  have hexact : layer1.exact (thermoEncode (flag : ℤ) 1 ++ thermoEncode (b : ℤ) 255) k =
      thermoBit b k - thermoBit b (k + 128) - thermoBit b 128 := by
    rw [exact, layer1_bias (by omega), hpos, hneg, columnSum_cons, columnSum_nil, columnSum_cons,
      columnSum_cons, columnSum_nil, getD_input hflag hb (by omega), hshift,
      getD_input hflag hb (by omega), show (130 : UInt32) = UInt32.ofNat (2 + 128) from rfl,
      getD_input hflag hb (by omega)]
    ring
  rw [hexact, activate, lowBit]
  show (if (true && decide (_ < (0 : ℤ))) = true then (0 : ℤ) else _) = _
  rw [Bool.true_and]
  by_cases hneg : thermoBit b k - thermoBit b (k + 128) - thermoBit b 128 < 0
  · rw [if_pos (decide_eq_true hneg), max_eq_left (Int.le_of_lt hneg)]
  · rw [if_neg (by rw [decide_eq_true_iff]; exact hneg), max_eq_right (not_lt.mp hneg)]

theorem activate_high {k : ℕ} (hk : 128 ≤ k) (hk' : k < 256) :
    layer1.activate (layer1.exact (thermoEncode (flag : ℤ) 1 ++ thermoEncode (b : ℤ) 255) k) =
      thermoBit b k := by
  obtain ⟨hpos, hneg⟩ := layer1_high hk hk'
  have hexact : layer1.exact (thermoEncode (flag : ℤ) 1 ++ thermoEncode (b : ℤ) 255) k =
      thermoBit b k := by
    rw [exact, layer1_bias (by omega), hpos, hneg, columnSum_cons, columnSum_nil,
      getD_input hflag hb hk']
    ring
  have hnonneg : ¬ thermoBit b k < 0 := by
    unfold thermoBit
    split <;> omega
  rw [hexact, activate, decide_eq_false hnonneg, Bool.and_false, if_neg Bool.false_ne_true]

omit hb in
theorem activate_flag :
    layer1.activate (layer1.exact (thermoEncode (flag : ℤ) 1 ++ thermoEncode (b : ℤ) 255) 256) =
      flag := by
  obtain ⟨hpos, hneg⟩ := layer1_flag
  have hexact : layer1.exact (thermoEncode (flag : ℤ) 1 ++ thermoEncode (b : ℤ) 255) 256 = flag := by
    rw [exact, layer1_bias (by omega), hpos, hneg, columnSum_cons, columnSum_nil,
      thermoEncode_bit hflag]
    show 0 + ((flag : ℤ) + 0) - 0 = flag
    ring
  rw [hexact, activate, decide_eq_false (by omega), Bool.and_false, if_neg Bool.false_ne_true]

theorem output_layer1 :
    layer1.output (thermoEncode (flag : ℤ) 1 ++ thermoEncode (b : ℤ) 255) = middle flag b := by
  show (List.range 257).map _ = _
  rw [range_parts, List.map_append, List.map_append, List.map_singleton, middle]
  congr 1
  · congr 1
    · exact List.map_congr_left fun k hk => activate_low hflag hb (List.mem_range.mp hk)
    · apply List.map_congr_left
      intro k hk
      obtain ⟨hge, hlt⟩ := List.mem_range'_1.mp hk
      exact activate_high hflag hb hge hlt
  · rw [activate_flag hflag]

end Middle

theorem length_middle (flag b : ℕ) : (middle flag b).length = 257 := by
  simp only [middle, List.length_append, List.length_map, List.length_range, List.length_range',
    List.length_singleton]

theorem abs_middle_le {flag b : ℕ} (hflag : flag ≤ 1) {v : ℤ} (hv : v ∈ middle flag b) : |v| ≤ 1 := by
  have hbit : ∀ k, thermoBit b k = 0 ∨ thermoBit b k = 1 := by
    intro k
    unfold thermoBit
    split
    · exact Or.inr rfl
    · exact Or.inl rfl
  rw [abs_le]
  rcases List.mem_append.mp hv with hv | hv
  · rcases List.mem_append.mp hv with hv | hv
    · obtain ⟨k, -, rfl⟩ := List.mem_map.mp hv
      have h1 := hbit k
      have h2 := hbit (k + 128)
      have h3 := hbit 128
      unfold lowBit
      omega
    · obtain ⟨k, -, rfl⟩ := List.mem_map.mp hv
      have h := hbit k
      omega
  · rw [List.mem_singleton.mp hv]
    omega

/-- Below 128 the lower half counts the byte, from 128 on it is empty. -/
theorem sum_lowBit (b : ℕ) : ((List.range 128).map (lowBit b)).sum = if b < 128 then (b + 1 : ℤ) else 0 := by
  by_cases hb : b < 128
  · have heq : (List.range 128).map (lowBit b) = (List.range 128).map (thermoBit b) := by
      apply List.map_congr_left
      intro k hk
      have hk := List.mem_range.mp hk
      simp only [lowBit, thermoBit]
      rw [if_neg (show ¬ k + 128 ≤ b by omega), if_neg (show ¬ 128 ≤ b by omega)]
      split <;> decide
    rw [heq, sum_thermoBit_range, if_pos hb]
    omega
  · have heq : (List.range 128).map (lowBit b) = (List.range 128).map fun _ => 0 := by
      apply List.map_congr_left
      intro k hk
      have hk := List.mem_range.mp hk
      simp only [lowBit, thermoBit]
      rw [if_pos (show k ≤ b by omega), if_pos (show 128 ≤ b by omega)]
      split <;> decide
    rw [heq, if_neg hb]
    simp

theorem sum_highBits (b : ℕ) :
    ((List.range' 128 128).map (thermoBit b)).sum =
      ((min (b + 1) 256 : ℕ) : ℤ) - ((min (b + 1) 128 : ℕ) : ℤ) := by
  have hall := sum_thermoBit_range b 256
  have hparts : List.range 256 = List.range 128 ++ List.range' 128 128 := by
    rw [List.range_eq_range', List.range_eq_range', List.range'_append_1]
  rw [hparts, List.map_append, List.sum_append, sum_thermoBit_range] at hall
  push_cast at hall
  omega

theorem output_layer2 (y : List ℤ) : layer2.output y =
    [columnSum y (u32Range 0 128) + columnSum y (u32Range 128 256) - 1, y.getD 256 0] := by
  have hfirst : layer2.exact y 0 =
      columnSum y (u32Range 0 128) + columnSum y (u32Range 128 256) - 1 := by
    show -1 + columnSum y (u32Range 0 128 ++ u32Range 128 256) - columnSum y [] = _
    rw [columnSum_append, columnSum_nil]
    ring
  have hsecond : layer2.exact y 1 = y.getD 256 0 := by
    show 0 + columnSum y [256] - columnSum y [] = _
    rw [columnSum_cons, columnSum_nil]
    show 0 + (y.getD 256 0 + 0) - 0 = y.getD 256 0
    ring
  show [layer2.exact y 0, layer2.exact y 1] = _
  rw [hfirst, hsecond]

theorem output_middle (flag : ℕ) {b : ℕ} (hb : b ≤ 255) :
    layer2.output (middle flag b) = [((b % 128 : ℕ) : ℤ), (flag : ℤ)] := by
  have hlow : columnSum (middle flag b) (u32Range 0 128) = ((List.range 128).map (lowBit b)).sum := by
    rw [middle, List.append_assoc, ← List.nil_append ((List.range 128).map (lowBit b))]
    exact columnSum_u32Range rfl (by rw [List.length_map, List.length_range]) (by decide)
  have hhigh : columnSum (middle flag b) (u32Range 128 256) = _ :=
    columnSum_u32Range (by rw [List.length_map, List.length_range])
      (by rw [List.length_map, List.length_range']) (by decide)
  have hlast : (middle flag b).getD 256 0 = flag :=
    getD_append_last _ _ (by simp only [List.length_append, List.length_map, List.length_range,
      List.length_range'])
  have hvalue : (if b < 128 then (b + 1 : ℤ) else 0) +
      (((min (b + 1) 256 : ℕ) : ℤ) - ((min (b + 1) 128 : ℕ) : ℤ)) - 1 =
      ((b % 128 : ℕ) : ℤ) := by
    split <;> omega
  rw [output_layer2, hlow, hhigh, hlast, sum_lowBit, sum_highBits, hvalue]

theorem decodeOutput_pair {low7 flag : ℕ} (hlow : low7 ≤ 127) (hflag : flag ≤ 1) :
    decodeOutput [(low7 : ℤ), (flag : ℤ)] = .ok (UInt8.ofNat (low7 + 128 * flag)) := by
  unfold decodeOutput
  rw [if_neg (by simp), List.getD_cons_zero, List.getD_cons_succ, List.getD_cons_zero,
    if_neg (by omega), if_neg (by omega)]
  rfl

/-- On a flag of 0 or 1 the network gives the low seven bits under the flag. -/
theorem run_build [Blake3Xof] (flag : UInt8) (hflag : flag.toNat ≤ 1) (byte47 : UInt8) :
    run build flag byte47 = .ok (UInt8.ofNat (byte47.toNat % 128 + 128 * flag.toNat)) := by
  have hb : byte47.toNat ≤ 255 := Nat.lt_succ_iff.mp byte47.toNat_lt
  have hle : ¬ 1 < flag := by
    rw [UInt8.lt_iff_toNat_lt]
    show ¬ 1 < flag.toNat
    omega
  have hforward :
      build.forward (thermoEncode (flag.toNat : ℤ) 1 ++ thermoEncode (byte47.toNat : ℤ) 255) =
        .ok [((byte47.toNat % 128 : ℕ) : ℤ), (flag.toNat : ℤ)] := by
    rw [forward_of_first (l := layer1) rfl _ _ rowFits_layer1, output_layer1 hflag hb,
      TernaryNetwork.forwardFrom_cons (forward_eq_output (length_middle _ _) (by decide)
        (fun v => abs_middle_le hflag) rowFits_layer2 1), output_middle _ hb,
      TernaryNetwork.forwardFrom]
    · rw [List.length_append, thermoEncode_bit hflag, length_thermoByte]
      rfl
    · intro v hv
      rcases List.mem_append.mp hv with hv | hv
      · exact abs_le_one_of_mem_thermoEncode hflag hv
      · exact abs_le_one_of_mem_thermoEncode hb hv
  rw [run, encodeInput, if_neg hle]
  show (build.forward _ >>= decodeOutput) = _
  rw [hforward]
  exact decodeOutput_pair (by omega) hflag

end FreezeApply

/-! ## The pipeline -/

/-- The new byte is the one `set_frozen` writes. -/
theorem ofNat_low7_flag (b flag : UInt8) (hflag : flag.toNat ≤ 1) :
    UInt8.ofNat (b.toNat % 128 + 128 * flag.toNat) =
      if flag != 0 then b ||| Account.frozenFlag else b &&& ~~~Account.frozenFlag := by
  have hb := b.toNat_lt
  apply UInt8.toNat_inj.mp
  rw [UInt8.toNat_ofNat_of_lt' (by show _ < 256; omega)]
  by_cases hzero : flag = 0
  · subst hzero
    rw [if_neg (by decide), Account.masked_toNat]
    rfl
  · have hone : flag.toNat = 1 := by
      have hne : flag.toNat ≠ 0 := by
        intro h
        exact hzero (UInt8.toNat_inj.mp h)
      omega
    rw [if_pos (bne_iff_ne.mpr hzero), Account.raised_toNat, hone]

section Pipeline

variable [Blake3Xof]

/-- The three primitives as they follow one another: the witness gives the flag and byte 47,
these give the new byte, and the record with it is emitted. -/
def freezePipeline (a : Account) (flag : UInt8) : Except TernaryError Bytes := do
  let (flag', byte47) ← FreezeSetup.run FreezeSetup.build (flag ::ᵥ a.bytes)
  let newByte ← FreezeApply.run FreezeApply.build flag' byte47
  MptEmitRecord.run MptEmitRecord.build (a.write Account.flagsByte [newByte] (by simp [Account.flagsByte])).bytes

/-- The pipeline of networks and the native executor freeze and unfreeze alike, on every
record; a flag other than 0 and 1 stops the pipeline at its first primitive. -/
theorem freezePipeline_eq_native (epoch : UInt32) (a : Account) (amount : ByteArr 16) (flag : UInt8) :
    (flag.toNat ≤ 1 → ∃ b : Account,
      Sequencer.NativeTraceExecutor.freeze ⟨epoch, [a], amount, flag⟩ = .ok (Sequencer.applied [b]) ∧
        freezePipeline a flag = .ok b.bytes.toList) ∧
      (1 < flag.toNat →
        freezePipeline a flag = .error (.inputRange "freeze_setup" flag.toNat 1)) := by
  constructor
  · intro hflag
    refine ⟨a.setFrozen (flag != 0), rfl, ?_⟩
    have hnew := FreezeApply.run_build flag hflag a.flags
    rw [ofNat_low7_flag _ _ hflag] at hnew
    have hwrite : a.setFrozen (flag != 0) = a.write Account.flagsByte
        [if flag != 0 then a.flags ||| Account.frozenFlag else a.flags &&& ~~~Account.frozenFlag]
        (by simp [Account.flagsByte]) := by
      unfold Account.setFrozen
      split <;> rfl
    rw [freezePipeline, FreezeSetup.run_build flag hflag]
    show (FreezeApply.run FreezeApply.build flag a.flags >>= fun newByte =>
      MptEmitRecord.run MptEmitRecord.build (a.write Account.flagsByte [newByte] _).bytes) = _
    rw [hnew, hwrite]
    exact MptEmitRecord.run_build _
  · intro hflag
    have hlt : 1 < flag := by
      rw [UInt8.lt_iff_toNat_lt]
      exact hflag
    have hencode : FreezeSetup.encodeInput (flag ::ᵥ a.bytes) =
        .error (.inputRange "freeze_setup" flag.toNat 1) := by
      simp only [FreezeSetup.encodeInput, List.Vector.head_cons, if_pos hlt]
    rw [freezePipeline, FreezeSetup.run, hencode]
    rfl

end Pipeline

end PslBank.Ternary
