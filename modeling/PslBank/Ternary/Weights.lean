import PslBank.Crypto.Hash
import PslBank.Lib.Reader
import PslBank.Ternary.Layer

/-!
# The packed weight format

`ternary_vm/src/weights.rs`. Everything is big-endian. The two index lists of a layer
are stored as row pointers, the running sums of the row lengths, and the columns of all
rows. `pack_weights` panics when a running sum leaves `u32`, which is `none` here;
`unpack_weights` panics when a row pointer does not delimit a slice of the columns,
which is `Fault.panic`.
-/
namespace PslBank.Ternary

open PslBank.Lib PslBank.Crypto

set_option autoImplicit false

structure WeightsHeader where
  version : UInt32
  primitive : String
  inputDim : UInt32
  outputDim : UInt32
  weightsHash : Hash
  weightsHashV2 : ByteArr 64
  deriving DecidableEq

/-- `b"TVMW0001"`. -/
def magic : Bytes := utf8 "TVMW0001"

/-! ## Packing -/

def u32Be (n : UInt32) : Bytes := toBe 4 n.toNat

def i64Be (n : Int64) : Bytes := toBe 8 n.toUInt64.toNat

/-- The nonzero entries of a half, as many as its rows have columns. -/
def nnz (rows : List (List UInt32)) : ℕ := (rows.map List.length).sum

/-- The row pointers from `ptr` on, with the end of the last row. -/
def rowPtrs : List (List UInt32) → UInt32 → Option (List UInt32)
  | [], ptr => some [ptr]
  | row :: rows, ptr =>
      let next := ptr.toNat + (UInt32.ofNat row.length).toNat
      if next < 2 ^ 32 then (rowPtrs rows (UInt32.ofNat next)).map (ptr :: ·) else none

/-- The row pointers of a half, then its columns row by row. -/
def csrBytes (rows : List (List UInt32)) : Option Bytes :=
  (rowPtrs rows 0).map fun ptrs => ptrs.flatMap u32Be ++ rows.flatten.flatMap u32Be

/-- `None` is the panic of a running sum that leaves `u32`. -/
def layerBytes (layer : SparseTernaryLayer) : Option Bytes := do
  let pos ← csrBytes layer.posIndices
  let neg ← csrBytes layer.negIndices
  return toBe 4 layer.inputDim ++ toBe 4 layer.outputDim ++ [if layer.relu then 1 else 0] ++
    toBe 8 (nnz layer.posIndices) ++ toBe 8 (nnz layer.negIndices) ++ pos ++ neg ++
    layer.bias.flatMap i64Be

/-- The stream without its digest. -/
def packPayload (primitive : String) (inputDim outputDim : UInt32)
    (layers : List SparseTernaryLayer) : Option Bytes :=
  (layers.mapM layerBytes).map fun blocks =>
    magic ++ toBe 4 1 ++ toBe 2 (utf8 primitive).length ++ utf8 primitive ++ u32Be inputDim ++
      u32Be outputDim ++ toBe 4 layers.length ++ blocks.flatten

section

variable [Blake3Xof]

def packWeights (primitive : String) (inputDim outputDim : UInt32)
    (layers : List SparseTernaryLayer) : Option (Bytes × Hash) :=
  (packPayload primitive inputDim outputDim layers).map fun payload =>
    (payload ++ (Blake3.digest payload).toList, Blake3.digest payload)

/-- The second digest is over the payload, as the first one is. -/
def weightsHashV2 (packed : Bytes) : ByteArr 64 :=
  if packed.length < 32 then List.Vector.replicate 64 0
  else Blake3Xof.fill64 (packed.take (packed.length - 32))

/-- `pack_weights` and both of its digests. -/
def packWeightsDual (primitive : String) (inputDim outputDim : UInt32)
    (layers : List SparseTernaryLayer) : Option (Bytes × Hash × ByteArr 64) :=
  (packWeights primitive inputDim outputDim layers).map fun packed =>
    (packed.1, packed.2, weightsHashV2 packed.1)

end

/-! ## When packing does not panic -/

theorem nnz_cons (row : List UInt32) (rows : List (List UInt32)) :
    nnz (row :: rows) = row.length + nnz rows := rfl

theorem length_flatten_eq_nnz (rows : List (List UInt32)) : rows.flatten.length = nnz rows :=
  List.length_flatten

theorem nnz_le {rows : List (List UInt32)} {n : ℕ} (h : ∀ row ∈ rows, row.length ≤ n) :
    nnz rows ≤ rows.length * n := by
  induction rows with
  | nil => exact Nat.zero_le _
  | cons row rows ih =>
    have hrow := h row List.mem_cons_self
    have hrows := ih fun r hr => h r (List.mem_cons_of_mem _ hr)
    rw [nnz_cons, List.length_cons, Nat.succ_mul]
    omega

/-- Below `2 ^ 32` indices the running sums stay in `u32`. -/
theorem rowPtrs_isSome (rows : List (List UInt32)) {ptr : UInt32} (h : ptr.toNat + nnz rows < 2 ^ 32) :
    (rowPtrs rows ptr).isSome = true := by
  induction rows generalizing ptr with
  | nil => rfl
  | cons row rows ih =>
    rw [nnz_cons] at h
    have hrow : (UInt32.ofNat row.length).toNat = row.length :=
      UInt32.toNat_ofNat_of_lt' (show row.length < 2 ^ 32 by omega)
    have hnext : ptr.toNat + (UInt32.ofNat row.length).toNat < 2 ^ 32 := by omega
    rw [rowPtrs, if_pos hnext, Option.isSome_map]
    apply ih
    rw [UInt32.toNat_ofNat_of_lt' hnext]
    omega

/-- A layer with fewer than `2 ^ 32` columns in each half has a block. -/
theorem layerBytes_isSome {layer : SparseTernaryLayer} (hpos : nnz layer.posIndices < 2 ^ 32)
    (hneg : nnz layer.negIndices < 2 ^ 32) : (layerBytes layer).isSome = true := by
  have hzero : (0 : UInt32).toNat = 0 := rfl
  obtain ⟨pos, hp⟩ := Option.isSome_iff_exists.mp
    (rowPtrs_isSome layer.posIndices (show (0 : UInt32).toNat + _ < 2 ^ 32 by omega))
  obtain ⟨neg, hn⟩ := Option.isSome_iff_exists.mp
    (rowPtrs_isSome layer.negIndices (show (0 : UInt32).toNat + _ < 2 ^ 32 by omega))
  simp [layerBytes, csrBytes, hp, hn]

theorem mapM_layerBytes_isSome {layers : List SparseTernaryLayer}
    (h : ∀ l ∈ layers, (layerBytes l).isSome = true) : (layers.mapM layerBytes).isSome = true := by
  induction layers with
  | nil => rfl
  | cons l layers ih =>
    obtain ⟨block, hb⟩ := Option.isSome_iff_exists.mp (h l List.mem_cons_self)
    obtain ⟨blocks, hbs⟩ := Option.isSome_iff_exists.mp
      (ih fun m hm => h m (List.mem_cons_of_mem _ hm))
    simp [List.mapM_cons, hb, hbs]

/-- Packing never panics below that bound. -/
theorem packWeightsDual_isSome [Blake3Xof] (primitive : String) (inputDim outputDim : UInt32)
    {layers : List SparseTernaryLayer}
    (h : ∀ l ∈ layers, nnz l.posIndices < 2 ^ 32 ∧ nnz l.negIndices < 2 ^ 32) :
    (packWeightsDual primitive inputDim outputDim layers).isSome = true := by
  have hblocks := mapM_layerBytes_isSome fun l hl => layerBytes_isSome (h l hl).1 (h l hl).2
  simpa [packWeightsDual, packWeights, packPayload] using hblocks

/-! ## Unpacking -/

/-- How a call ends that does not return a value. -/
inductive Fault where
  | error (e : TernaryError)
  | panic
  | abort
  deriving DecidableEq, Repr

/-- An allocator, by the capacities that it grants, has room for `n` entries. None take no room. -/
def Granted (grants : ℕ → Bool) (n : ℕ) : Prop := n = 0 ∨ grants n = true

instance (grants : ℕ → Bool) (n : ℕ) : Decidable (Granted grants n) :=
  inferInstanceAs (Decidable (n = 0 ∨ grants n = true))

/-- `Vec::with_capacity`. -/
def withCapacity (grants : ℕ → Bool) (n : ℕ) : Except Fault Unit :=
  if Granted grants n then .ok () else .error .abort

theorem withCapacity_ok_iff {grants : ℕ → Bool} {n : ℕ} {u : Unit} :
    withCapacity grants n = .ok u ↔ Granted grants n := by
  unfold withCapacity
  by_cases hn : Granted grants n
  · simp [hn]
  · simp [hn]

theorem withCapacity_error_iff {grants : ℕ → Bool} {n : ℕ} {fault : Fault} :
    withCapacity grants n = .error fault ↔ ¬ Granted grants n ∧ fault = .abort := by
  unfold withCapacity
  by_cases hn : Granted grants n
  · simp [hn]
  · simp [hn, eq_comm]

/-- `b"{byte:02x}"` for every byte. -/
def hexStr (b : Bytes) : String :=
  String.join (b.map fun byte =>
    String.ofList [Nat.digitChar (byte.toNat / 16), Nat.digitChar (byte.toNat % 16)])

/-- A byte that goes on with a character of several bytes. -/
def isContinuation (b : UInt8) : Bool := 0x80 ≤ b && b < 0xC0

/-- The first position that is not UTF-8, as `std::str::Utf8Error` gives it: how much is
valid, and the length of the invalid sequence unless the input ends inside one. -/
def utf8Error : Bytes → ℕ → Option (ℕ × Option ℕ)
  | [], _ => none
  | b :: bs, i =>
      if b < 0x80 then utf8Error bs (i + 1)
      else if 0xC2 ≤ b && b ≤ 0xDF then
        match bs with
        | [] => some (i, none)
        | b1 :: bs => if isContinuation b1 then utf8Error bs (i + 2) else some (i, some 1)
      else if 0xE0 ≤ b && b ≤ 0xEF then
        match bs with
        | [] => some (i, none)
        | b1 :: bs =>
            if !isContinuation b1 || (b == 0xE0 && b1 < 0xA0) || (b == 0xED && 0x9F < b1) then
              some (i, some 1)
            else
              match bs with
              | [] => some (i, none)
              | b2 :: bs => if isContinuation b2 then utf8Error bs (i + 3) else some (i, some 2)
      else if 0xF0 ≤ b && b ≤ 0xF4 then
        match bs with
        | [] => some (i, none)
        | b1 :: bs =>
            if !isContinuation b1 || (b == 0xF0 && b1 < 0x90) || (b == 0xF4 && 0x8F < b1) then
              some (i, some 1)
            else
              match bs with
              | [] => some (i, none)
              | b2 :: bs =>
                  if !isContinuation b2 then some (i, some 2)
                  else
                    match bs with
                    | [] => some (i, none)
                    | b3 :: bs => if isContinuation b3 then utf8Error bs (i + 4) else some (i, some 3)
      else some (i, some 1)

/-- The text of a `Utf8Error`. -/
def utf8ErrorText (b : Bytes) : String :=
  match utf8Error b 0 with
  | some (i, some len) => s!"invalid utf-8 sequence of {len} bytes from index {i}"
  | some (i, none) => s!"incomplete utf-8 byte sequence from index {i}"
  | none => ""

/-- `String::from_utf8`. -/
def fromUtf8 (b : Bytes) : Except Fault String :=
  match String.fromUTF8? ⟨b.toArray⟩ with
  | some s => .ok s
  | none => .error (.error (.outputDecode ("primitive name utf8: " ++ utf8ErrorText b)))

namespace Cursor

def prematureEof (n off : ℕ) : Fault :=
  .error (.outputDecode s!"premature EOF: need {n} at offset {off}")

def take (n : ℕ) : Reader Fault Bytes := Reader.take prematureEof n

def readU8 : Reader Fault UInt8 := do
  let s ← take 1
  pure (s.getD 0 0)

def readU16 : Reader Fault UInt16 := do
  let s ← take 2
  pure (UInt16.ofNat (beNat s))

def readU32 : Reader Fault UInt32 := do
  let s ← take 4
  pure (UInt32.ofNat (beNat s))

def readU64 : Reader Fault UInt64 := do
  let s ← take 8
  pure (UInt64.ofNat (beNat s))

def readI64 : Reader Fault Int64 := do
  let s ← take 8
  pure (UInt64.ofNat (beNat s)).toInt64

end Cursor

/-- The fields of a layer block as they stand in the stream. -/
structure RawLayer where
  inputDim : UInt32
  outputDim : UInt32
  relu : UInt8
  posPtrs : List UInt32
  posCols : List UInt32
  negPtrs : List UInt32
  negCols : List UInt32
  bias : List Int64
  deriving DecidableEq

/-- The reads of one layer. The counts `nnz_pos` and `nnz_neg` are the lengths of the
column lists. -/
def readLayer : Reader Fault RawLayer := do
  let inputDim ← Cursor.readU32
  let outputDim ← Cursor.readU32
  let relu ← Cursor.readU8
  let nnzPos ← Cursor.readU64
  let nnzNeg ← Cursor.readU64
  let posPtrs ← Cursor.readU32.many (outputDim.toNat + 1)
  let posCols ← Cursor.readU32.many nnzPos.toNat
  let negPtrs ← Cursor.readU32.many (outputDim.toNat + 1)
  let negCols ← Cursor.readU32.many nnzNeg.toNat
  let bias ← Cursor.readI64.many outputDim.toNat
  pure ⟨inputDim, outputDim, relu, posPtrs, posCols, negPtrs, negCols, bias⟩

/-- The slice `cols[lo..hi]`, which panics unless `lo ≤ hi ≤ cols.len()`. -/
def sliceCols (cols : List UInt32) (lo hi : ℕ) : Except Fault (List UInt32) :=
  if lo ≤ hi ∧ hi ≤ cols.length then .ok ((cols.drop lo).take (hi - lo)) else .error .panic

/-- Row `i` is `cols[ptrs[i]..ptrs[i + 1]]`. -/
def sliceRows (cols : List UInt32) : List UInt32 → Except Fault (List (List UInt32))
  | lo :: hi :: ptrs => do
      let row ← sliceCols cols lo.toNat hi.toNat
      let rows ← sliceRows cols (hi :: ptrs)
      return row :: rows
  | _ => .ok []

def RawLayer.layer (raw : RawLayer) : Except Fault SparseTernaryLayer := do
  let posIndices ← sliceRows raw.posCols raw.posPtrs
  let negIndices ← sliceRows raw.negCols raw.negPtrs
  return ⟨raw.inputDim.toNat, raw.outputDim.toNat, posIndices, negIndices, raw.bias, raw.relu != 0⟩

/-- One turn of the loop over the layers. -/
def unpackLayer : Reader Fault SparseTernaryLayer := do
  let raw ← readLayer
  Reader.lift raw.layer

section

variable [Blake3Xof]

def unpackPayload (grants : ℕ → Bool) (payload : Bytes) (digest : Hash) :
    Reader Fault (WeightsHeader × List SparseTernaryLayer) := do
  let got ← Cursor.take 8
  if got ≠ magic then
    Reader.lift (.error (.error (.outputDecode ("bad magic: " ++ toString (got.map UInt8.toNat)))))
  let version ← Cursor.readU32
  let nameLen ← Cursor.readU16
  let nameBytes ← Cursor.take nameLen.toNat
  let primitive ← Reader.lift (fromUtf8 nameBytes)
  let inputDim ← Cursor.readU32
  let outputDim ← Cursor.readU32
  let nLayers ← Cursor.readU32
  Reader.lift (withCapacity grants nLayers.toNat)
  let layers ← unpackLayer.many nLayers.toNat
  pure (⟨version, primitive, inputDim, outputDim, digest, Blake3Xof.fill64 payload⟩, layers)

/-- `unpack_weights` over an allocator. -/
def unpackWeightsIn (grants : ℕ → Bool) (bytes : Bytes) :
    Except Fault (WeightsHeader × List SparseTernaryLayer) :=
  if bytes.length < 32 + magic.length then
    .error (.error (.outputDecode "weights file too short"))
  else
    let payload := bytes.take (bytes.length - 32)
    let stored := bytes.drop (bytes.length - 32)
    let computed := Blake3.digest payload
    if stored ≠ computed.toList then
      .error (.error (.weightsHashMismatch (hexStr stored) (hexStr computed.toList)))
    else (unpackPayload grants payload computed ⟨payload, 0⟩).map (·.1)

/-- `unpack_weights` where every allocation is granted. -/
def unpackWeights (bytes : Bytes) : Except Fault (WeightsHeader × List SparseTernaryLayer) :=
  unpackWeightsIn (fun _ => true) bytes

end

end PslBank.Ternary
