import PslBank.Ternary.Weights

/-!
# Reading packed weights back

`unpack_weights` against the format in the header of `weights.rs`. A `WeightFile` is a
file of that format field by field, before the row pointers are applied to the columns.
The decoder accepts the files whose fields have the stated sizes, whose name is UTF-8 and
whose row pointers delimit slices; it does not look at the version, takes any flag byte,
lets row pointers skip columns and ignores what follows the last layer.
-/
namespace PslBank.Ternary

open PslBank.Lib PslBank.Crypto

set_option autoImplicit false

/-! ## Fields -/

section Fields

open Reader

theorem reads_take (n : ℕ) : Reads (fun b : Bytes => b.length = n) id (Cursor.take n) :=
  Reads.take Cursor.prematureEof n

theorem reads_u8 : Reads (fun _ : UInt8 => True) (fun b => [b]) Cursor.readU8 := by
  apply Reads.field
  · exact fun _ _ => rfl
  · intro b hb
    obtain ⟨x, rfl⟩ := List.length_eq_one_iff.mp hb
    exact ⟨trivial, rfl⟩
  · exact fun _ _ => rfl

theorem reads_u16 : Reads (fun _ : UInt16 => True) (fun n => toBe 2 n.toNat) Cursor.readU16 :=
  Reads.be UInt16.toNat UInt16.ofNat UInt16.toNat_lt (fun _ => UInt16.toNat_ofNat_of_lt')
    fun _ => UInt16.ofNat_toNat

theorem reads_u32 : Reads (fun _ : UInt32 => True) u32Be Cursor.readU32 :=
  Reads.be UInt32.toNat UInt32.ofNat UInt32.toNat_lt (fun _ => UInt32.toNat_ofNat_of_lt')
    fun _ => UInt32.ofNat_toNat

theorem reads_u64 : Reads (fun _ : UInt64 => True) (fun n => toBe 8 n.toNat) Cursor.readU64 :=
  Reads.be UInt64.toNat UInt64.ofNat UInt64.toNat_lt (fun _ => UInt64.toNat_ofNat_of_lt')
    fun _ => UInt64.ofNat_toNat

theorem reads_i64 : Reads (fun _ : Int64 => True) i64Be Cursor.readI64 := by
  apply Reads.be (fun n : Int64 => n.toUInt64.toNat) fun n => (UInt64.ofNat n).toInt64
  · exact fun n => n.toUInt64.toNat_lt
  · intro n hn
    rw [UInt64.toUInt64_toInt64, UInt64.toNat_ofNat_of_lt' hn]
  · intro n
    rw [UInt64.ofNat_toNat, Int64.toInt64_toUInt64]

end Fields

/-! ## Layers as they are stored -/

namespace RawLayer

def bytes (raw : RawLayer) : Bytes :=
  u32Be raw.inputDim ++ (u32Be raw.outputDim ++ ([raw.relu] ++ (toBe 8 raw.posCols.length ++
    (toBe 8 raw.negCols.length ++ (raw.posPtrs.flatMap u32Be ++ (raw.posCols.flatMap u32Be ++
      (raw.negPtrs.flatMap u32Be ++ (raw.negCols.flatMap u32Be ++ raw.bias.flatMap i64Be))))))))

/-- The lists have the lengths that the stored dimensions and counts announce. -/
structure Sized (raw : RawLayer) : Prop where
  posPtrs : raw.posPtrs.length = raw.outputDim.toNat + 1
  negPtrs : raw.negPtrs.length = raw.outputDim.toNat + 1
  bias : raw.bias.length = raw.outputDim.toNat
  posCols : raw.posCols.length < 2 ^ 64
  negCols : raw.negCols.length < 2 ^ 64

end RawLayer

open Reader in
theorem reads_layer : Reads RawLayer.Sized RawLayer.bytes readLayer := by
  intro c c' raw
  have hu32s := fun n => reads_u32.many n
  have hi64s := fun n => reads_i64.many n
  simp only [readLayer, reads_u32.bind_ok_iff, reads_u8.bind_ok_iff, reads_u64.bind_ok_iff,
    (hu32s _).bind_ok_iff, (hi64s _).bind_ok_iff, pure_ok_iff]
  constructor
  · intro hyp
    obtain ⟨inputDim, r1, -, h1, outputDim, r2, -, h2, relu, r3, -, h3, nnzPos, r4, -, h4, nnzNeg,
      r5, -, h5, posPtrs, r6, ⟨hpp, -⟩, h6, posCols, r7, ⟨hpc, -⟩, h7, negPtrs, r8, ⟨hnp, -⟩, h8,
      negCols, r9, ⟨hnc, -⟩, h9, bias, r10, ⟨hb, -⟩, h10, rfl, rfl⟩ := hyp
    refine ⟨⟨hpp, hnp, hb, ?_, ?_⟩, ?_, ?_⟩
    · rw [hpc]
      exact nnzPos.toNat_lt
    · rw [hnc]
      exact nnzNeg.toNat_lt
    · simp only [RawLayer.bytes, hpc, hnc, List.append_assoc]
      rw [h1, h2, h3, h4, h5, h6, h7, h8, h9, h10]
    · simp only [RawLayer.bytes, hpc, hnc, List.length_append]
      omega
  · intro hyp
    obtain ⟨hsized, hrest, hoff⟩ := hyp
    have hpos : (UInt64.ofNat raw.posCols.length).toNat = raw.posCols.length :=
      UInt64.toNat_ofNat_of_lt' hsized.posCols
    have hneg : (UInt64.ofNat raw.negCols.length).toNat = raw.negCols.length :=
      UInt64.toNat_ofNat_of_lt' hsized.negCols
    have hall : ∀ {α : Type} (l : List α), ∀ a ∈ l, True := fun _ _ _ => trivial
    simp only [RawLayer.bytes, List.append_assoc] at hrest
    refine ⟨raw.inputDim, _, trivial, hrest, raw.outputDim, _, trivial, rfl, raw.relu, _, trivial, rfl,
      UInt64.ofNat raw.posCols.length, _, trivial, by rw [hpos], UInt64.ofNat raw.negCols.length, _,
      trivial, by rw [hneg], raw.posPtrs, _, ⟨hsized.posPtrs, hall _⟩, rfl, raw.posCols, _,
      ⟨hpos.symm, hall _⟩, rfl, raw.negPtrs, _, ⟨hsized.negPtrs, hall _⟩, rfl, raw.negCols, _,
      ⟨hneg.symm, hall _⟩, rfl, raw.bias, c'.rest, ⟨hsized.bias, hall _⟩, rfl, rfl, ?_⟩
    obtain ⟨rest, off⟩ := c'
    simp only [RawLayer.bytes, List.length_append] at hoff
    subst hoff
    simp only [hpos, hneg, Nat.add_assoc]

theorem unpackLayers_ok_iff {n : ℕ} {c c' : Lib.Cursor} {layers : List SparseTernaryLayer} :
    unpackLayer.many n c = .ok (layers, c') ↔
      ∃ raws : List RawLayer, raws.length = n ∧ (∀ raw ∈ raws, raw.Sized) ∧
        raws.mapM RawLayer.layer = .ok layers ∧ c.rest = raws.flatMap RawLayer.bytes ++ c'.rest ∧
        c'.off = c.off + (raws.flatMap RawLayer.bytes).length :=
  reads_layer.many_lift_ok_iff RawLayer.layer n

/-! ## Files -/

/-- A file of the format, field by field, with what follows its last layer. -/
structure WeightFile where
  version : UInt32
  name : Bytes
  inputDim : UInt32
  outputDim : UInt32
  layers : List RawLayer
  trailing : Bytes

namespace WeightFile

variable (f : WeightFile)

/-- Everything before the digest. -/
def payload : Bytes :=
  magic ++ (u32Be f.version ++ (toBe 2 f.name.length ++ (f.name ++ (u32Be f.inputDim ++
    (u32Be f.outputDim ++ (toBe 4 f.layers.length ++
      (f.layers.flatMap RawLayer.bytes ++ f.trailing)))))))

theorem magic_le_payload : magic.length ≤ f.payload.length := by
  rw [payload, List.length_append]
  exact Nat.le_add_right _ _

/-- The counts fit their fields. -/
structure Sized : Prop where
  name : f.name.length < 2 ^ 16
  count : f.layers.length < 2 ^ 32
  layers : ∀ raw ∈ f.layers, raw.Sized

/-- The file with its digest. -/
def stream [Blake3] : Bytes := f.payload ++ (Blake3.digest f.payload).toList

variable [Blake3Xof]

/-- The file decodes to this header and these layers. -/
def Decodes (header : WeightsHeader) (layers : List SparseTernaryLayer) : Prop :=
  ∃ primitive, fromUtf8 f.name = .ok primitive ∧ f.layers.mapM RawLayer.layer = .ok layers ∧
    header = ⟨f.version, primitive, f.inputDim, f.outputDim, Blake3.digest f.payload,
      Blake3Xof.fill64 f.payload⟩

end WeightFile

section Unpack

variable [Blake3Xof]

open Reader

theorem unpackPayload_ok_iff {grants : ℕ → Bool} {payload : Bytes} {header : WeightsHeader}
    {layers : List SparseTernaryLayer} :
    (∃ c', unpackPayload grants payload (Blake3.digest payload) ⟨payload, 0⟩ =
        .ok ((header, layers), c')) ↔
      ∃ f : WeightFile, f.Sized ∧ payload = f.payload ∧ f.Decodes header layers ∧
        Granted grants f.layers.length := by
  simp only [unpackPayload, (reads_take _).bind_ok_iff, guard_ok_iff, reads_u32.bind_ok_iff,
    reads_u16.bind_ok_iff, bind_ok_iff, lift_ok_iff, withCapacity_ok_iff, unpackLayers_ok_iff, pure_ok_iff]
  constructor
  · intro hyp
    obtain ⟨c', got, r1, -, h1, hgot, version, r2, -, h2, nameLen, r3, -, h3, name, r4, hname, h4,
      primitive, d, ⟨hutf8, rfl⟩, inputDim, r5, -, h5, outputDim, r6, -, h6, nLayers, r7, -, h7,
      -, d7, ⟨hgranted, rfl⟩, layers', d', ⟨raws, hcount, hsized, hraws, h8, -⟩, hres, rfl⟩ := hyp
    obtain ⟨rfl, rfl⟩ := Prod.mk.inj hres
    have hfile : payload = (WeightFile.mk version name inputDim outputDim raws d'.rest).payload := by
      simp only at h5 h8
      rw [h1, h2, h3, h4, h5, h6, h7, h8, not_not.mp hgot, WeightFile.payload, hname, hcount]
      rfl
    refine ⟨⟨version, name, inputDim, outputDim, raws, d'.rest⟩, ⟨?_, ?_, hsized⟩, hfile,
      ⟨primitive, hutf8, hraws, ?_⟩, ?_⟩
    · rw [hname]
      exact nameLen.toNat_lt
    · rw [hcount]
      exact nLayers.toNat_lt
    · rw [hfile]
    · rw [hcount]
      exact hgranted
  · intro hyp
    obtain ⟨f, hsized, rfl, ⟨primitive, hutf8, hraws, rfl⟩, hgranted⟩ := hyp
    have hname : (UInt16.ofNat f.name.length).toNat = f.name.length :=
      UInt16.toNat_ofNat_of_lt' hsized.name
    have hcount : (UInt32.ofNat f.layers.length).toNat = f.layers.length :=
      UInt32.toNat_ofNat_of_lt' hsized.count
    exact ⟨⟨f.trailing, _⟩, magic, _, by decide, rfl, not_not.mpr rfl, f.version, _, trivial, rfl,
      UInt16.ofNat f.name.length, _, trivial, congrArg (toBe 2 · ++ _) hname.symm, f.name, _,
      hname.symm, rfl, primitive, _, ⟨hutf8, rfl⟩, f.inputDim, _, trivial, rfl, f.outputDim, _, trivial, rfl,
      UInt32.ofNat f.layers.length, _, trivial, congrArg (toBe 4 · ++ _) hcount.symm, (), _,
      ⟨by rw [hcount]; exact hgranted, rfl⟩, layers, _,
      ⟨f.layers, hcount.symm, hsized.layers, hraws, rfl, rfl⟩, rfl, rfl⟩

/-- A payload with its digest passes the checks in front of the reads. -/
theorem unpackWeightsIn_append (grants : ℕ → Bool) {payload : Bytes} (h : magic.length ≤ payload.length) :
    unpackWeightsIn grants (payload ++ (Blake3.digest payload).toList) =
      (unpackPayload grants payload (Blake3.digest payload) ⟨payload, 0⟩).map (·.1) := by
  have hlen : (payload ++ (Blake3.digest payload).toList).length = payload.length + 32 := by
    rw [List.length_append, List.Vector.toList_length]
  have hcut : (payload ++ (Blake3.digest payload).toList).length - 32 = payload.length := by omega
  simp only [unpackWeightsIn, hcut, List.take_left, List.drop_left]
  rw [if_neg (by omega), if_neg (not_not.mpr rfl)]

/-- What passes the checks in front of the reads is a payload with its digest. -/
theorem unpackWeightsIn_cases (grants : ℕ → Bool) (b : Bytes) :
    (∃ e, unpackWeightsIn grants b = .error (.error e)) ∨
      ∃ payload, magic.length ≤ payload.length ∧ b = payload ++ (Blake3.digest payload).toList := by
  by_cases hshort : b.length < 32 + magic.length
  · exact .inl ⟨_, if_pos hshort⟩
  · by_cases hdigest : b.drop (b.length - 32) ≠ (Blake3.digest (b.take (b.length - 32))).toList
    · refine .inl ⟨.weightsHashMismatch (hexStr (b.drop (b.length - 32)))
        (hexStr (Blake3.digest (b.take (b.length - 32))).toList), ?_⟩
      simp only [unpackWeightsIn]
      rw [if_neg hshort, if_pos hdigest]
    · refine .inr ⟨b.take (b.length - 32), ?_, ?_⟩
      · rw [List.length_take]
        omega
      · rw [← not_not.mp hdigest, List.take_append_drop]

theorem unpackWeightsIn_ok_iff {grants : ℕ → Bool} {b : Bytes} {header : WeightsHeader}
    {layers : List SparseTernaryLayer} :
    unpackWeightsIn grants b = .ok (header, layers) ↔
      ∃ f : WeightFile, f.Sized ∧ b = f.stream ∧ f.Decodes header layers ∧
        Granted grants f.layers.length := by
  constructor
  · intro h
    rcases unpackWeightsIn_cases grants b with ⟨e, herror⟩ | ⟨payload, hmagic, rfl⟩
    · rw [herror] at h
      cases h
    · rw [unpackWeightsIn_append grants hmagic] at h
      cases hres : unpackPayload grants payload (Blake3.digest payload) ⟨payload, 0⟩ with
      | error e =>
        rw [hres] at h
        cases h
      | ok res =>
        rw [hres] at h
        obtain ⟨val, c'⟩ := res
        obtain rfl : val = (header, layers) := Except.ok.inj h
        obtain ⟨f, hsized, rfl, hdec, hgranted⟩ := unpackPayload_ok_iff.mp ⟨c', hres⟩
        exact ⟨f, hsized, rfl, hdec, hgranted⟩
  · intro hyp
    obtain ⟨f, hsized, rfl, hdec, hgranted⟩ := hyp
    obtain ⟨c', hres⟩ := unpackPayload_ok_iff.mpr ⟨f, hsized, rfl, hdec, hgranted⟩
    rw [WeightFile.stream, unpackWeightsIn_append grants f.magic_le_payload, hres]
    rfl

theorem unpackWeights_ok_iff {b : Bytes} {header : WeightsHeader} {layers : List SparseTernaryLayer} :
    unpackWeights b = .ok (header, layers) ↔
      ∃ f : WeightFile, f.Sized ∧ b = f.stream ∧ f.Decodes header layers := by
  refine unpackWeightsIn_ok_iff.trans ?_
  constructor
  · intro hyp
    obtain ⟨f, hsized, hb, hdec, -⟩ := hyp
    exact ⟨f, hsized, hb, hdec⟩
  · intro hyp
    obtain ⟨f, hsized, hb, hdec⟩ := hyp
    exact ⟨f, hsized, hb, hdec, .inr rfl⟩

/-- What is loaded over some allocator is what is loaded where all is granted. -/
theorem unpackWeights_of_in {grants : ℕ → Bool} {b : Bytes} {res : WeightsHeader × List SparseTernaryLayer}
    (h : unpackWeightsIn grants b = .ok res) : unpackWeights b = .ok res := by
  obtain ⟨f, hsized, hb, hdec, -⟩ := unpackWeightsIn_ok_iff.mp h
  exact unpackWeights_ok_iff.mpr ⟨f, hsized, hb, hdec⟩

end Unpack

/-! ## Row pointers -/

/-- Slicing succeeds only along the running sums of the row lengths. -/
theorem sliceRows_ok {cols ptrs : List UInt32} {lo : UInt32} {rows : List (List UInt32)}
    (h : sliceRows cols (lo :: ptrs) = .ok rows) :
    rowPtrs rows lo = some (lo :: ptrs) ∧ rows.length = ptrs.length ∧
      (ptrs.getLastD lo).toNat = lo.toNat + nnz rows ∧
      rows.flatten = (cols.drop lo.toNat).take (nnz rows) := by
  induction ptrs generalizing lo rows with
  | nil =>
    obtain rfl := Except.ok.inj h
    exact ⟨rfl, rfl, rfl, rfl⟩
  | cons hi ptrs ih =>
    rw [sliceRows] at h
    obtain ⟨row, hrow, h⟩ := bind_eq_ok_iff.mp h
    obtain ⟨rows', hrows, h⟩ := bind_eq_ok_iff.mp h
    obtain rfl := Except.ok.inj h
    obtain ⟨hptrs, hlen, hlast, hflat⟩ := ih hrows
    unfold sliceCols at hrow
    split at hrow
    · rename_i hbounds
      obtain rfl := Except.ok.inj hrow
      have hhi := hi.toNat_lt
      have hwidth : ((cols.drop lo.toNat).take (hi.toNat - lo.toNat)).length = hi.toNat - lo.toNat := by
        rw [List.length_take, List.length_drop]
        omega
      have hnext : lo.toNat + (UInt32.ofNat (hi.toNat - lo.toNat)).toNat = hi.toNat := by
        rw [UInt32.toNat_ofNat_of_lt' (show hi.toNat - lo.toNat < 2 ^ 32 by omega)]
        omega
      refine ⟨?_, ?_, ?_, ?_⟩
      · rw [rowPtrs, hwidth, hnext]
        simp only [if_pos hhi, UInt32.ofNat_toNat, hptrs, Option.map_some]
      · rw [List.length_cons, List.length_cons, hlen]
      · rw [List.getLastD_cons, hlast, nnz_cons, hwidth]
        omega
      · rw [List.flatten_cons, hflat, nnz_cons, hwidth, List.take_add, List.drop_drop]
        congr 3
        omega
    · cases hrow

/-- The running sums, and slicing the columns along them. -/
theorem rowPtrs_eq_some (rows : List (List UInt32)) {lo : UInt32} (h : lo.toNat + nnz rows < 2 ^ 32) :
    ∃ ptrs, rowPtrs rows lo = some (lo :: ptrs) ∧
      ∀ front : List UInt32, front.length = lo.toNat →
        sliceRows (front ++ rows.flatten) (lo :: ptrs) = .ok rows := by
  induction rows generalizing lo with
  | nil => exact ⟨[], rfl, fun _ _ => rfl⟩
  | cons row rows ih =>
    rw [nnz_cons] at h
    have hrow : (UInt32.ofNat row.length).toNat = row.length :=
      UInt32.toNat_ofNat_of_lt' (show row.length < 2 ^ 32 by omega)
    have hnext : (UInt32.ofNat (lo.toNat + row.length)).toNat = lo.toNat + row.length :=
      UInt32.toNat_ofNat_of_lt' (show lo.toNat + row.length < 2 ^ 32 by omega)
    obtain ⟨ptrs, hptrs, hslice⟩ := @ih (UInt32.ofNat (lo.toNat + row.length)) (by omega)
    refine ⟨UInt32.ofNat (lo.toNat + row.length) :: ptrs, ?_, ?_⟩
    · rw [rowPtrs, hrow]
      simp only [if_pos (show lo.toNat + row.length < 2 ^ 32 by omega), hptrs, Option.map_some]
    · intro front hfront
      have hcols : sliceCols (front ++ (row :: rows).flatten) lo.toNat (lo.toNat + row.length) =
          .ok row := by
        rw [sliceCols, if_pos]
        · rw [← hfront, List.drop_left' rfl, List.flatten_cons, Nat.add_sub_cancel_left,
            List.take_left' rfl]
        · rw [List.length_append, List.flatten_cons, List.length_append]
          omega
      have hrest := hslice (front ++ row) (by rw [List.length_append, hfront, hnext])
      rw [List.append_assoc, ← List.flatten_cons] at hrest
      rw [sliceRows, hnext, hcols]
      show (sliceRows _ _ >>= fun rows => pure (row :: rows)) = _
      rw [hrest]
      rfl

/-- The row pointers start at the first column and end behind the last one. -/
def Covers (ptrs cols : List UInt32) : Prop :=
  ptrs.head? = some 0 ∧ (ptrs.getLastD 0).toNat = cols.length

/-- Rows sliced along covering pointers are packed to the same pointers and columns. -/
theorem csrBytes_of_sliceRows {cols ptrs : List UInt32} {rows : List (List UInt32)}
    (hcovers : Covers ptrs cols) (h : sliceRows cols ptrs = .ok rows) :
    csrBytes rows = some (ptrs.flatMap u32Be ++ cols.flatMap u32Be) ∧ nnz rows = cols.length := by
  obtain ⟨hhead, hlast⟩ := hcovers
  cases ptrs with
  | nil => cases hhead
  | cons lo ptrs =>
    obtain rfl : lo = 0 := Option.some.inj hhead
    obtain ⟨hptrs, -, hsum, hflat⟩ := sliceRows_ok h
    have hzero : (0 : UInt32).toNat = 0 := rfl
    rw [List.getLastD_cons, hsum, hzero, Nat.zero_add] at hlast
    rw [hzero, List.drop_zero, hlast, List.take_length] at hflat
    rw [csrBytes, hptrs, hflat]
    exact ⟨rfl, hlast⟩

/-- Every list of rows of storable size has covering pointers that give it back. -/
theorem exists_sliceRows {rows : List (List UInt32)} (h : nnz rows < 2 ^ 32) :
    ∃ ptrs, ptrs.length = rows.length + 1 ∧ Covers ptrs rows.flatten ∧
      sliceRows rows.flatten ptrs = .ok rows := by
  have hzero : (0 : UInt32).toNat = 0 := rfl
  obtain ⟨ptrs, -, hslice⟩ := rowPtrs_eq_some rows (show (0 : UInt32).toNat + nnz rows < 2 ^ 32 by omega)
  have hrows := hslice [] rfl
  rw [List.nil_append] at hrows
  obtain ⟨-, hlen, hsum, -⟩ := sliceRows_ok hrows
  refine ⟨0 :: ptrs, by rw [List.length_cons, hlen], ⟨rfl, ?_⟩, hrows⟩
  rw [List.getLastD_cons, hsum, length_flatten_eq_nnz, hzero, Nat.zero_add]

/-! ## Packing is the inverse -/

/-- The layer has the shape and the size that the format can hold. -/
structure Storable (layer : SparseTernaryLayer) : Prop where
  inputDim : layer.inputDim < 2 ^ 32
  outputDim : layer.outputDim < 2 ^ 32
  posRows : layer.posIndices.length = layer.outputDim
  negRows : layer.negIndices.length = layer.outputDim
  biasRows : layer.bias.length = layer.outputDim
  nnzPos : nnz layer.posIndices < 2 ^ 32
  nnzNeg : nnz layer.negIndices < 2 ^ 32

/-- The layer block is one that `pack_weights` writes. -/
structure RawLayer.Canonical (raw : RawLayer) : Prop where
  relu : raw.relu = 0 ∨ raw.relu = 1
  pos : Covers raw.posPtrs raw.posCols
  neg : Covers raw.negPtrs raw.negCols

theorem RawLayer.layer_ok_iff {raw : RawLayer} {layer : SparseTernaryLayer} :
    raw.layer = .ok layer ↔ ∃ pos neg, sliceRows raw.posCols raw.posPtrs = .ok pos ∧
      sliceRows raw.negCols raw.negPtrs = .ok neg ∧
      layer = ⟨raw.inputDim.toNat, raw.outputDim.toNat, pos, neg, raw.bias, raw.relu != 0⟩ := by
  unfold RawLayer.layer
  rw [bind_eq_ok_iff]
  constructor
  · intro hyp
    obtain ⟨pos, hpos, h⟩ := hyp
    obtain ⟨neg, hneg, h⟩ := bind_eq_ok_iff.mp h
    exact ⟨pos, neg, hpos, hneg, (Except.ok.inj h).symm⟩
  · intro hyp
    obtain ⟨pos, neg, hpos, hneg, rfl⟩ := hyp
    exact ⟨pos, hpos, bind_eq_ok_iff.mpr ⟨neg, hneg, rfl⟩⟩

/-- The rows behind `n + 1` pointers. -/
theorem sliceRows_size {cols ptrs : List UInt32} {rows : List (List UInt32)} {n : ℕ}
    (hlen : ptrs.length = n + 1) (h : sliceRows cols ptrs = .ok rows) :
    rows.length = n ∧ nnz rows < 2 ^ 32 := by
  cases ptrs with
  | nil => cases hlen
  | cons lo ptrs =>
    obtain ⟨-, hrows, hsum, -⟩ := sliceRows_ok h
    have hlt := (ptrs.getLastD lo).toNat_lt
    exact ⟨hrows.trans (Nat.succ_inj.mp hlen), by omega⟩

/-- What is decoded can be packed again. -/
theorem RawLayer.Sized.storable {raw : RawLayer} (hsized : raw.Sized) {layer : SparseTernaryLayer}
    (h : raw.layer = .ok layer) : Storable layer := by
  obtain ⟨pos, neg, hpos, hneg, rfl⟩ := RawLayer.layer_ok_iff.mp h
  obtain ⟨hposRows, hposLt⟩ := sliceRows_size hsized.posPtrs hpos
  obtain ⟨hnegRows, hnegLt⟩ := sliceRows_size hsized.negPtrs hneg
  exact ⟨raw.inputDim.toNat_lt, raw.outputDim.toNat_lt, hposRows, hnegRows, hsized.bias, hposLt, hnegLt⟩

/-- A canonical block is what its layer is packed to. -/
theorem RawLayer.Canonical.layerBytes_eq {raw : RawLayer} (hcanon : raw.Canonical)
    {layer : SparseTernaryLayer} (h : raw.layer = .ok layer) : layerBytes layer = some raw.bytes := by
  obtain ⟨pos, neg, hpos, hneg, rfl⟩ := RawLayer.layer_ok_iff.mp h
  obtain ⟨hposBytes, hnnzPos⟩ := csrBytes_of_sliceRows hcanon.pos hpos
  obtain ⟨hnegBytes, hnnzNeg⟩ := csrBytes_of_sliceRows hcanon.neg hneg
  have hrelu : (if (raw.relu != 0) = true then (1 : UInt8) else 0) = raw.relu := by
    rcases hcanon.relu with h | h <;> rw [h] <;> rfl
  simp only [layerBytes, hposBytes, hnegBytes, hnnzPos, hnnzNeg, hrelu, RawLayer.bytes, u32Be]
  simp only [Option.bind_eq_bind, Option.bind_some, List.append_assoc]
  rfl

/-- Every storable layer has a canonical block. -/
theorem Storable.exists_raw {layer : SparseTernaryLayer} (h : Storable layer) :
    ∃ raw : RawLayer, raw.Sized ∧ raw.Canonical ∧ raw.layer = .ok layer := by
  obtain ⟨posPtrs, hposLen, hposCovers, hpos⟩ := exists_sliceRows h.nnzPos
  obtain ⟨negPtrs, hnegLen, hnegCovers, hneg⟩ := exists_sliceRows h.nnzNeg
  have hin : (UInt32.ofNat layer.inputDim).toNat = layer.inputDim :=
    UInt32.toNat_ofNat_of_lt' h.inputDim
  have hout : (UInt32.ofNat layer.outputDim).toNat = layer.outputDim :=
    UInt32.toNat_ofNat_of_lt' h.outputDim
  have hnnzPos := length_flatten_eq_nnz layer.posIndices
  have hnnzNeg := length_flatten_eq_nnz layer.negIndices
  have hposLt := h.nnzPos
  have hnegLt := h.nnzNeg
  refine ⟨⟨UInt32.ofNat layer.inputDim, UInt32.ofNat layer.outputDim, if layer.relu then 1 else 0,
    posPtrs, layer.posIndices.flatten, negPtrs, layer.negIndices.flatten, layer.bias⟩, ?_, ?_, ?_⟩
  · refine ⟨?_, ?_, ?_, ?_, ?_⟩
    · rw [hposLen, h.posRows, hout]
    · rw [hnegLen, h.negRows, hout]
    · rw [h.biasRows, hout]
    · show layer.posIndices.flatten.length < 2 ^ 64
      omega
    · show layer.negIndices.flatten.length < 2 ^ 64
      omega
  · refine ⟨?_, hposCovers, hnegCovers⟩
    cases layer.relu with
    | false => exact .inl rfl
    | true => exact .inr rfl
  · apply RawLayer.layer_ok_iff.mpr
    refine ⟨layer.posIndices, layer.negIndices, hpos, hneg, ?_⟩
    rw [hin, hout]
    obtain ⟨inputDim, outputDim, posIndices, negIndices, bias, relu⟩ := layer
    cases relu with
    | false => rfl
    | true => rfl

/-- The layers of the file, one by one. -/
abbrev LayersOf (raws : List RawLayer) (layers : List SparseTernaryLayer) : Prop :=
  List.Forall₂ (fun raw layer => RawLayer.layer raw = .ok layer) raws layers

section Layers

variable {raws : List RawLayer} {layers : List SparseTernaryLayer}

theorem mapM_layerBytes_of_canonical (h : LayersOf raws layers)
    (hcanon : ∀ raw ∈ raws, raw.Canonical) :
    layers.mapM layerBytes = some (raws.map RawLayer.bytes) := by
  induction h with
  | nil => rfl
  | cons hlayer _ ih =>
    obtain ⟨hhead, hrest⟩ := List.forall_mem_cons.mp hcanon
    rw [List.mapM_cons, hhead.layerBytes_eq hlayer, ih hrest]
    rfl

theorem storable_of_sized (h : LayersOf raws layers) (hsized : ∀ raw ∈ raws, raw.Sized) :
    ∀ layer ∈ layers, Storable layer := by
  induction h with
  | nil => exact fun _ hl => (List.not_mem_nil hl).elim
  | cons hlayer _ ih =>
    obtain ⟨hhead, hrest⟩ := List.forall_mem_cons.mp hsized
    exact List.forall_mem_cons.mpr ⟨hhead.storable hlayer, ih hrest⟩

theorem exists_raws (h : ∀ layer ∈ layers, Storable layer) :
    ∃ raws, LayersOf raws layers ∧ (∀ raw ∈ raws, raw.Sized) ∧ ∀ raw ∈ raws, raw.Canonical := by
  induction layers with
  | nil =>
    exact ⟨[], .nil, fun _ hr => (List.not_mem_nil hr).elim, fun _ hr => (List.not_mem_nil hr).elim⟩
  | cons layer layers ih =>
    obtain ⟨hhead, hrest⟩ := List.forall_mem_cons.mp h
    obtain ⟨raw, hsized, hcanon, hlayer⟩ := hhead.exists_raw
    obtain ⟨raws, hraws, hall, hall'⟩ := ih hrest
    exact ⟨raw :: raws, .cons hlayer hraws, List.forall_mem_cons.mpr ⟨hsized, hall⟩,
      List.forall_mem_cons.mpr ⟨hcanon, hall'⟩⟩

end Layers

theorem fromUtf8_ok_iff {b : Bytes} {s : String} : fromUtf8 b = .ok s ↔ b = utf8 s := by
  unfold fromUtf8 String.fromUTF8?
  constructor
  · intro h
    by_cases hvalid : (ByteArray.mk b.toArray).IsValidUTF8
    · rw [dif_pos hvalid] at h
      obtain rfl := Except.ok.inj h
      rfl
    · rw [dif_neg hvalid] at h
      cases h
  · rintro rfl
    rw [dif_pos (show (ByteArray.mk (utf8 s).toArray).IsValidUTF8 from s.isValidUTF8)]
    rfl

namespace WeightFile

/-- The file is one that `pack_weights` writes: version 1, flag bytes 0 or 1, row pointers
that cover the columns, nothing behind the last layer. -/
structure Canonical (f : WeightFile) : Prop where
  version : f.version = 1
  layers : ∀ raw ∈ f.layers, raw.Canonical
  trailing : f.trailing = []

variable {f : WeightFile}

/-- A canonical file is what its contents are packed to. -/
theorem Canonical.packPayload_eq (hcanon : f.Canonical) {primitive : String}
    {layers : List SparseTernaryLayer} (hname : f.name = utf8 primitive)
    (hlayers : LayersOf f.layers layers) :
    packPayload primitive f.inputDim f.outputDim layers = some f.payload := by
  rw [packPayload, mapM_layerBytes_of_canonical hlayers hcanon.layers, WeightFile.payload,
    hcanon.version, hcanon.trailing, hname, ← hlayers.length_eq, List.append_nil]
  simp only [Option.map_some, List.append_assoc]
  rfl

/-- A byte string is laid out in one way only. -/
theorem stream_inj [Blake3] {f g : WeightFile} (hf : f.Sized) (hg : g.Sized)
    (h : f.stream = g.stream) : f = g := by
  have hpayload : f.payload = g.payload := by
    apply (List.append_inj' h _).1
    rw [List.Vector.toList_length, List.Vector.toList_length]
  unfold payload at hpayload
  have h1 := List.append_cancel_left hpayload
  obtain ⟨hversion, h2⟩ := reads_u32.selfDelimiting trivial trivial h1
  obtain ⟨hlen, h3⟩ := delimiting_be 2 hf.name hg.name h2
  obtain ⟨hname, h4⟩ := List.append_inj h3 hlen
  obtain ⟨hin, h5⟩ := reads_u32.selfDelimiting trivial trivial h4
  obtain ⟨hout, h6⟩ := reads_u32.selfDelimiting trivial trivial h5
  obtain ⟨hcount, h7⟩ := delimiting_be 4 hf.count hg.count h6
  obtain ⟨hlayers, htrailing⟩ := (reads_layer.many f.layers.length).selfDelimiting
    ⟨rfl, hf.layers⟩ ⟨hcount.symm, hg.layers⟩ h7
  obtain ⟨version, name, inputDim, outputDim, layers, trailing⟩ := f
  simp only at hversion hname hin hout hlayers htrailing
  rw [hversion, hname, hin, hout, hlayers, htrailing]

end WeightFile

section Codec

variable [Blake3Xof]

theorem weightsHashV2_append (payload : Bytes) (digest : Hash) :
    weightsHashV2 (payload ++ digest.toList) = Blake3Xof.fill64 payload := by
  have hlen : (payload ++ digest.toList).length = payload.length + 32 := by
    rw [List.length_append, List.Vector.toList_length]
  rw [weightsHashV2, if_neg (by omega), hlen, Nat.add_sub_cancel, List.take_left' rfl]

/-- Storable layers are packed to a canonical file, which is read back to what went in. -/
theorem exists_canonical_file {name : String} (inputDim outputDim : UInt32)
    {layers : List SparseTernaryLayer} (hname : (utf8 name).length < 2 ^ 16)
    (hcount : layers.length < 2 ^ 32) (hlayers : ∀ layer ∈ layers, Storable layer) :
    ∃ f : WeightFile, f.Sized ∧ f.Canonical ∧
      packPayload name inputDim outputDim layers = some f.payload ∧
      f.Decodes ⟨1, name, inputDim, outputDim, Blake3.digest f.payload, Blake3Xof.fill64 f.payload⟩
        layers := by
  obtain ⟨raws, hraws, hsized, hcanon⟩ := exists_raws hlayers
  have hlen := hraws.length_eq
  have hfile : (WeightFile.mk 1 (utf8 name) inputDim outputDim raws []).Canonical :=
    ⟨rfl, hcanon, rfl⟩
  refine ⟨⟨1, utf8 name, inputDim, outputDim, raws, []⟩, ⟨hname, ?_, hsized⟩, hfile,
    hfile.packPayload_eq rfl hraws, name, fromUtf8_ok_iff.mpr rfl, mapM_eq_ok_iff.mpr hraws, rfl⟩
  show raws.length < 2 ^ 32
  omega

/-- What is packed is unpacked to the same layers, name and dimensions, with both digests. -/
theorem unpack_packWeightsDual (name : String) (inputDim outputDim : UInt32)
    (layers : List SparseTernaryLayer) (hname : (utf8 name).length < 2 ^ 16)
    (hcount : layers.length < 2 ^ 32) (hlayers : ∀ layer ∈ layers, Storable layer) :
    ∃ bytes digest digestV2,
      packWeights name inputDim outputDim layers = some (bytes, digest) ∧
      packWeightsDual name inputDim outputDim layers = some (bytes, digest, digestV2) ∧
      unpackWeights bytes = .ok (⟨1, name, inputDim, outputDim, digest, digestV2⟩, layers) := by
  obtain ⟨f, hsized, -, hpack, hdec⟩ := exists_canonical_file inputDim outputDim hname hcount hlayers
  have hweights : packWeights name inputDim outputDim layers =
      some (f.stream, Blake3.digest f.payload) := by
    rw [packWeights, hpack]
    rfl
  refine ⟨f.stream, Blake3.digest f.payload, Blake3Xof.fill64 f.payload, hweights, ?_, ?_⟩
  · rw [packWeightsDual, hweights, Option.map_some, WeightFile.stream, weightsHashV2_append]
  · exact unpackWeights_ok_iff.mpr ⟨f, hsized, rfl, hdec⟩

end Codec

/-- Stand-in digests for evaluating statements on concrete files. -/
abbrev sampleBlake3Xof : Blake3Xof where
  digest := sampleDigest
  fill64 := fun b => ⟨toLe 64 b.length, length_toLe 64 b.length⟩

/-- Two layers, with empty rows on both sides. -/
def sampleLayers : List SparseTernaryLayer :=
  [⟨3, 1, [[0, 2]], [[]], [-3], true⟩, ⟨1, 2, [[], [0]], [[0], []], [5, 0], false⟩]

theorem unpack_packWeightsDual_sampleLayers :
    ∃ bytes digest digestV2,
      @packWeights sampleBlake3Xof "sample" 3 2 sampleLayers = some (bytes, digest) ∧
      @packWeightsDual sampleBlake3Xof "sample" 3 2 sampleLayers = some (bytes, digest, digestV2) ∧
      @unpackWeights sampleBlake3Xof bytes =
        .ok (⟨1, "sample", 3, 2, digest, digestV2⟩, sampleLayers) := by
  apply @unpack_packWeightsDual sampleBlake3Xof "sample" 3 2 sampleLayers (by decide) (by decide)
  intro layer hl
  simp only [sampleLayers, List.mem_cons, List.not_mem_nil, or_false] at hl
  rcases hl with rfl | rfl
  · exact ⟨by decide, by decide, rfl, rfl, rfl, by decide, by decide⟩
  · exact ⟨by decide, by decide, rfl, rfl, rfl, by decide, by decide⟩

section Canonical

variable [Blake3Xof]

/-- The byte string is a file that `pack_weights` writes. -/
def WrittenForm (b : Bytes) : Prop := ∃ f : WeightFile, f.Sized ∧ b = f.stream ∧ f.Canonical

theorem packWeights_eq_self_iff {b : Bytes} {header : WeightsHeader}
    {layers : List SparseTernaryLayer} (h : unpackWeights b = .ok (header, layers)) :
    (packWeights header.primitive header.inputDim header.outputDim layers).map Prod.fst = some b ↔
      WrittenForm b := by
  obtain ⟨f, hsized, rfl, primitive, hutf8, hraws, rfl⟩ := unpackWeights_ok_iff.mp h
  have hlayers : LayersOf f.layers layers := mapM_eq_ok_iff.mp hraws
  have hname := fromUtf8_ok_iff.mp hutf8
  have hnameLen := hsized.name
  have hcount := hsized.count
  rw [hname] at hnameLen
  rw [hlayers.length_eq] at hcount
  constructor
  · intro hpack
    -- whatever was accepted can be packed, and packing writes canonical files only
    obtain ⟨g, hg, hcanon, hpayload, -⟩ := exists_canonical_file f.inputDim f.outputDim hnameLen hcount
      (storable_of_sized hlayers hsized.layers)
    rw [packWeights, hpayload] at hpack
    exact ⟨g, hg, (Option.some.inj hpack).symm, hcanon⟩
  · intro hyp
    obtain ⟨g, hg, hstream, hcanon⟩ := hyp
    obtain rfl := WeightFile.stream_inj hsized hg hstream
    rw [packWeights, hcanon.packPayload_eq hname hlayers]
    rfl

/-- An accepted file is packed again to itself exactly when it is one that `pack_weights`
writes; among these, the network determines the file. -/
theorem pack_unpackWeights_iff {b : Bytes} {header : WeightsHeader} {layers : List SparseTernaryLayer}
    (h : unpackWeights b = .ok (header, layers)) :
    ((packWeights header.primitive header.inputDim header.outputDim layers).map Prod.fst = some b ↔
      WrittenForm b) ∧
    (WrittenForm b → ∀ b' header', WrittenForm b' → unpackWeights b' = .ok (header', layers) →
      header'.primitive = header.primitive → header'.inputDim = header.inputDim →
      header'.outputDim = header.outputDim → b' = b) := by
  refine ⟨packWeights_eq_self_iff h, ?_⟩
  intro hb b' header' hb' h' hprim hin hout
  have hpack := (packWeights_eq_self_iff h).mpr hb
  have hpack' := (packWeights_eq_self_iff h').mpr hb'
  rw [hprim, hin, hout, hpack] at hpack'
  exact (Option.some.inj hpack').symm

end Canonical

/-- One layer of two rows, the first with two columns on one side and the second with one on the other,
and a flag byte. -/
def flagFile (relu : UInt8) : WeightFile :=
  ⟨1, utf8 "gate", 3, 2, [⟨3, 2, relu, [0, 2, 2], [0, 2], [0, 0, 1], [1], [5, -1]⟩], []⟩

def flagLayer : SparseTernaryLayer := ⟨3, 2, [[0, 2], []], [[], [1]], [5, -1], true⟩

def flagHeader [Blake3Xof] (relu : UInt8) : WeightsHeader :=
  ⟨1, "gate", 3, 2, Blake3.digest (flagFile relu).payload,
    Blake3Xof.fill64 (flagFile relu).payload⟩

theorem sized_flagFile (relu : UInt8) : (flagFile relu).Sized := by
  have hname : (utf8 "gate").length < 2 ^ 16 := by decide
  have htwo : 2 < 2 ^ 64 := by decide
  have hone : 1 < 2 ^ 64 := by decide
  refine ⟨hname, Nat.one_lt_two_pow (by decide), ?_⟩
  intro raw hraw
  obtain rfl := List.mem_singleton.mp hraw
  exact ⟨rfl, rfl, rfl, htwo, hone⟩

/-- Every flag byte but 0 is accepted as the same layer. -/
theorem unpack_flagFile [Blake3Xof] {relu : UInt8} (h : relu ≠ 0) :
    unpackWeights (flagFile relu).stream = .ok (flagHeader relu, [flagLayer]) := by
  apply unpackWeights_ok_iff.mpr
  refine ⟨flagFile relu, sized_flagFile relu, rfl, "gate", fromUtf8_ok_iff.mpr rfl, ?_, rfl⟩
  have hrelu : (relu != 0) = true := bne_iff_ne.mpr h
  show Except.ok [SparseTernaryLayer.mk 3 2 [[0, 2], []] [[], [1]] [5, -1] (relu != 0)] = _
  rw [hrelu]
  rfl

theorem writtenForm_flagFile_iff [Blake3Xof] (relu : UInt8) :
    WrittenForm (flagFile relu).stream ↔ relu = 0 ∨ relu = 1 := by
  constructor
  · intro hyp
    obtain ⟨g, hg, hstream, hcanon⟩ := hyp
    obtain rfl := WeightFile.stream_inj (sized_flagFile relu) hg hstream
    exact (hcanon.layers _ List.mem_cons_self).relu
  · intro hrelu
    refine ⟨_, sized_flagFile relu, rfl, rfl, ?_, rfl⟩
    intro raw hraw
    obtain rfl := List.mem_singleton.mp hraw
    exact ⟨hrelu, ⟨rfl, rfl⟩, ⟨rfl, rfl⟩⟩

theorem pack_unpackWeights_iff_flagOne :
    @unpackWeights sampleBlake3Xof (@WeightFile.stream (flagFile 1) sampleBlake3Xof.toBlake3) =
        .ok (@flagHeader sampleBlake3Xof 1, [flagLayer]) ∧
      (@packWeights sampleBlake3Xof "gate" 3 2 [flagLayer]).map Prod.fst =
        some (@WeightFile.stream (flagFile 1) sampleBlake3Xof.toBlake3) := by
  have h := @unpack_flagFile sampleBlake3Xof 1 (by decide)
  exact ⟨h, (@pack_unpackWeights_iff sampleBlake3Xof _ _ _ h).1.mpr
    ((@writtenForm_flagFile_iff sampleBlake3Xof 1).mpr (.inr rfl))⟩

/-- The flag bytes 1 and 2 give two files for one network, and packing returns the first. -/
theorem flagTwo_not_packed_back :
    @unpackWeights sampleBlake3Xof (@WeightFile.stream (flagFile 2) sampleBlake3Xof.toBlake3) =
        .ok (@flagHeader sampleBlake3Xof 2, [flagLayer]) ∧
      (@packWeights sampleBlake3Xof "gate" 3 2 [flagLayer]).map Prod.fst ≠
        some (@WeightFile.stream (flagFile 2) sampleBlake3Xof.toBlake3) ∧
      @unpackWeights sampleBlake3Xof (@WeightFile.stream (flagFile 1) sampleBlake3Xof.toBlake3) =
        .ok (@flagHeader sampleBlake3Xof 1, [flagLayer]) ∧
      @WeightFile.stream (flagFile 1) sampleBlake3Xof.toBlake3 ≠
        @WeightFile.stream (flagFile 2) sampleBlake3Xof.toBlake3 := by
  have h := @unpack_flagFile sampleBlake3Xof 2 (by decide)
  refine ⟨h, ?_, @unpack_flagFile sampleBlake3Xof 1 (by decide), ?_⟩
  · intro hpack
    have hwritten := (@packWeights_eq_self_iff sampleBlake3Xof _ _ _ h).mp hpack
    have hrelu := (@writtenForm_flagFile_iff sampleBlake3Xof 2).mp hwritten
    revert hrelu
    decide
  · intro heq
    have hfile := @WeightFile.stream_inj sampleBlake3Xof.toBlake3 _ _ (sized_flagFile 1)
      (sized_flagFile 2) heq
    have hrelu := congrArg (fun f : WeightFile => f.layers.map RawLayer.relu) hfile
    revert hrelu
    decide

end PslBank.Ternary
