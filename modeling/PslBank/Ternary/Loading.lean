import PslBank.Ternary.Kernel
import PslBank.Ternary.WeightsCodec

/-!
# What the loader lets through

`unpack_weights` bounds-checks every read, but it asks for the space of as many layers as the
file says it has, and it slices the columns with row pointers that it has not checked. So it
fails to return on exactly two kinds of files: those read up to a number of layers that the
allocator has no room for, and those read up to a layer block with a pair of row pointers that
delimits no slice. Of the documented invariants of a layer it ensures the number of rows; the
rest holds of what it loads exactly when the fields of the file fit together.
-/
namespace PslBank.Ternary

open PslBank.Lib PslBank.Crypto

set_option autoImplicit false

/-! ## Row pointers that delimit slices -/

/-- Consecutive row pointers delimit slices of the columns. -/
def Delimits (cols ptrs : List UInt32) : Prop :=
  ptrs.IsChain fun lo hi => lo.toNat ≤ hi.toNat ∧ hi.toNat ≤ cols.length

instance (cols ptrs : List UInt32) : Decidable (Delimits cols ptrs) :=
  inferInstanceAs (Decidable (List.IsChain _ _))

/-- The slices of the columns along the row pointers. -/
def rowsBetween (cols : List UInt32) : List UInt32 → List (List UInt32)
  | lo :: hi :: ptrs =>
      (cols.drop lo.toNat).take (hi.toNat - lo.toNat) :: rowsBetween cols (hi :: ptrs)
  | _ => []

/-- Slicing by pointers gives the rows between them or panics, and nothing else. -/
theorem sliceRows_eq_ite (cols ptrs : List UInt32) :
    sliceRows cols ptrs =
      if Delimits cols ptrs then .ok (rowsBetween cols ptrs) else .error .panic := by
  induction ptrs with
  | nil => exact (if_pos List.isChain_nil).symm
  | cons lo ptrs ih =>
    cases ptrs with
    | nil => exact (if_pos (List.isChain_singleton lo)).symm
    | cons hi ptrs =>
      have hchain : Delimits cols (lo :: hi :: ptrs) ↔ _ := List.isChain_cons_cons
      rw [sliceRows, ih, sliceCols]
      by_cases hslice : lo.toNat ≤ hi.toNat ∧ hi.toNat ≤ cols.length
      · rw [if_pos hslice]
        by_cases hrest : Delimits cols (hi :: ptrs)
        · rw [if_pos hrest, if_pos (hchain.mpr ⟨hslice, hrest⟩)]
          rfl
        · rw [if_neg hrest, if_neg fun h => hrest (hchain.mp h).2]
          rfl
      · rw [if_neg hslice, if_neg fun h => hslice (hchain.mp h).1]
        rfl

namespace RawLayer

variable (raw : RawLayer)

/-- The row pointers of both halves delimit slices. -/
def Sliceable : Prop := Delimits raw.posCols raw.posPtrs ∧ Delimits raw.negCols raw.negPtrs

instance : Decidable raw.Sliceable := inferInstanceAs (Decidable (_ ∧ _))

/-- The layer that the block stores, if its rows can be sliced. -/
def sliced : SparseTernaryLayer :=
  ⟨raw.inputDim.toNat, raw.outputDim.toNat, rowsBetween raw.posCols raw.posPtrs,
    rowsBetween raw.negCols raw.negPtrs, raw.bias, raw.relu != 0⟩

/-- Building a layer panics exactly on pointers that slice badly. -/
theorem layer_eq_ite : raw.layer = if raw.Sliceable then .ok raw.sliced else .error .panic := by
  rw [layer, sliceRows_eq_ite, sliceRows_eq_ite]
  by_cases hpos : Delimits raw.posCols raw.posPtrs
  · by_cases hneg : Delimits raw.negCols raw.negPtrs
    · rw [if_pos hpos, if_pos hneg, if_pos (show raw.Sliceable from ⟨hpos, hneg⟩)]
      rfl
    · rw [if_pos hpos, if_neg hneg, if_neg (show ¬ raw.Sliceable from fun h => hneg h.2)]
      rfl
  · rw [if_neg hpos, if_neg (show ¬ raw.Sliceable from fun h => hpos h.1)]
    rfl

end RawLayer

/-! ## The reads fail with errors alone -/

section Avoids

open Reader

variable {fault : Fault} (hfault : ∀ e, Fault.error e ≠ fault)

include hfault

/-- A read off the end is an error of the file, never the fault. -/
theorem avoids_take (n : ℕ) : Avoids fault (Cursor.take n) := .take (fun _ _ => hfault _) n

theorem avoids_readU8 : Avoids fault Cursor.readU8 := (avoids_take hfault 1).bind fun _ => .pure _

theorem avoids_readU16 : Avoids fault Cursor.readU16 := (avoids_take hfault 2).bind fun _ => .pure _

theorem avoids_readU32 : Avoids fault Cursor.readU32 := (avoids_take hfault 4).bind fun _ => .pure _

theorem avoids_readU64 : Avoids fault Cursor.readU64 := (avoids_take hfault 8).bind fun _ => .pure _

theorem avoids_readI64 : Avoids fault Cursor.readI64 := (avoids_take hfault 8).bind fun _ => .pure _

/-- So are all errors of reading a layer, up to the row pointers. -/
theorem avoids_readLayer : Avoids fault readLayer := by
  have h8 := avoids_readU8 hfault
  have h32 := avoids_readU32 hfault
  have h64 := avoids_readU64 hfault
  unfold readLayer
  refine h32.bind fun inputDim => h32.bind fun outputDim => h8.bind fun relu => h64.bind fun nnzPos =>
    h64.bind fun nnzNeg => ?_
  refine (h32.many _).bind fun posPtrs => (h32.many _).bind fun posCols =>
    (h32.many _).bind fun negPtrs => (h32.many _).bind fun negCols => ?_
  exact ((avoids_readI64 hfault).many _).bind fun bias => .pure _

/-- A name that is no UTF-8 is an error of the file. -/
theorem fromUtf8_ne_fault (b : Bytes) : fromUtf8 b ≠ .error fault := by
  unfold fromUtf8
  split
  · intro h
    cases h
  · intro h
    exact hfault _ (Except.error.inj h)

end Avoids

theorem error_ne_panic (e : TernaryError) : Fault.error e ≠ .panic := fun h => by cases h

theorem error_ne_abort (e : TernaryError) : Fault.error e ≠ .abort := fun h => by cases h

/-- Slicing panics, it does not allocate. -/
theorem avoids_unpackLayer : Reader.Avoids .abort unpackLayer := by
  refine (avoids_readLayer error_ne_abort).bind fun raw c h => ?_
  rw [Reader.lift_error_iff, raw.layer_eq_ite] at h
  split at h
  · cases h
  · cases h

/-! ## Which files make the loader panic -/

/-- A file up to a layer block whose rows cannot be sliced, and whatever follows. -/
structure BrokenFile where
  version : UInt32
  name : Bytes
  inputDim : UInt32
  outputDim : UInt32
  count : UInt32
  layers : List RawLayer
  broken : RawLayer
  rest : Bytes

namespace BrokenFile

variable (f : BrokenFile)

def payload : Bytes :=
  magic ++ (u32Be f.version ++ (toBe 2 f.name.length ++ (f.name ++ (u32Be f.inputDim ++
    (u32Be f.outputDim ++ (u32Be f.count ++
      (f.layers.flatMap RawLayer.bytes ++ (f.broken.bytes ++ f.rest))))))))

theorem magic_le_payload : magic.length ≤ f.payload.length := by
  rw [payload, List.length_append]
  exact Nat.le_add_right _ _

/-- The reads succeed up to the block, which is the first one that cannot be sliced. -/
structure Reached : Prop where
  name : f.name.length < 2 ^ 16
  utf8 : ∃ primitive, fromUtf8 f.name = .ok primitive
  count : f.layers.length < f.count.toNat
  layers : ∀ raw ∈ f.layers, raw.Sized ∧ raw.Sliceable
  sized : f.broken.Sized
  broken : ¬ f.broken.Sliceable

/-- The file with its digest. -/
def stream [Blake3] : Bytes := f.payload ++ (Blake3.digest f.payload).toList

end BrokenFile

/-- A file up to the number of its layers, and whatever follows. -/
structure CountedFile where
  version : UInt32
  name : Bytes
  inputDim : UInt32
  outputDim : UInt32
  count : UInt32
  rest : Bytes

namespace CountedFile

variable (f : CountedFile)

def payload : Bytes :=
  magic ++ (u32Be f.version ++ (toBe 2 f.name.length ++ (f.name ++ (u32Be f.inputDim ++
    (u32Be f.outputDim ++ (u32Be f.count ++ f.rest))))))

theorem magic_le_payload : magic.length ≤ f.payload.length := by
  rw [payload, List.length_append]
  exact Nat.le_add_right _ _

/-- The reads succeed up to the number. -/
structure Reached : Prop where
  name : f.name.length < 2 ^ 16
  utf8 : ∃ primitive, fromUtf8 f.name = .ok primitive

def stream [Blake3] : Bytes := f.payload ++ (Blake3.digest f.payload).toList

end CountedFile

/-- A file that breaks at a layer was read up to its number of layers. -/
def BrokenFile.counted (f : BrokenFile) : CountedFile :=
  ⟨f.version, f.name, f.inputDim, f.outputDim, f.count,
    f.layers.flatMap RawLayer.bytes ++ (f.broken.bytes ++ f.rest)⟩

/-- What reaches the broken layer has passed the allocation. -/
theorem BrokenFile.Reached.counted {f : BrokenFile} (h : f.Reached) : f.counted.Reached := ⟨h.name, h.utf8⟩

/-- The call ends with a value or an error of its type. -/
def Returns {α : Type} (res : Except Fault α) : Prop := ∃ r : Except TernaryError α, res = r.mapError .error

/-- To return is to neither panic nor abort. -/
theorem returns_iff {α : Type} {res : Except Fault α} :
    Returns res ↔ res ≠ .error .panic ∧ res ≠ .error .abort := by
  constructor
  · intro hyp
    obtain ⟨r, rfl⟩ := hyp
    cases r <;> exact ⟨fun h => (by cases h), fun h => (by cases h)⟩
  · intro hyp
    obtain ⟨hpanic, habort⟩ := hyp
    cases res with
    | ok a => exact ⟨.ok a, rfl⟩
    | error fault =>
      cases fault with
      | error e => exact ⟨.error e, rfl⟩
      | panic => exact absurd rfl hpanic
      | abort => exact absurd rfl habort

section Panic

open Reader

/-- The loop over the layers panics at the first one that slices badly. -/
theorem unpackLayers_panic_iff {n : ℕ} {c : Lib.Cursor} :
    unpackLayer.many n c = .error .panic ↔
      ∃ (raws : List RawLayer) (broken : RawLayer) (rest : Bytes), raws.length < n ∧
        (∀ raw ∈ raws, raw.Sized ∧ raw.Sliceable) ∧ broken.Sized ∧ ¬ broken.Sliceable ∧
        c.rest = raws.flatMap RawLayer.bytes ++ (broken.bytes ++ rest) := by
  have hok : ∀ raw : RawLayer, (∃ l, raw.layer = .ok l) ↔ raw.Sliceable := by
    intro raw
    rw [raw.layer_eq_ite]
    split <;> simp_all
  have hpanic : ∀ raw : RawLayer, raw.layer = .error .panic ↔ ¬ raw.Sliceable := by
    intro raw
    rw [raw.layer_eq_ite]
    split <;> simp_all
  refine (reads_layer.many_lift_error_iff (avoids_readLayer error_ne_panic) RawLayer.layer n).trans ?_
  simp only [hok, hpanic]

variable [Blake3Xof]

/-- A payload panics at a layer that breaks, if the space for all layers was granted. -/
theorem unpackPayload_panic_iff {grants : ℕ → Bool} {payload : Bytes} {digest : Hash} :
    unpackPayload grants payload digest ⟨payload, 0⟩ = .error .panic ↔
      ∃ f : BrokenFile, f.Reached ∧ payload = f.payload ∧ Granted grants f.count.toNat := by
  simp only [unpackPayload, (reads_take _).bind_error_iff (avoids_take error_ne_panic _),
    guard_error_iff (error_ne_panic _), reads_u32.bind_error_iff (avoids_readU32 error_ne_panic),
    reads_u16.bind_error_iff (avoids_readU16 error_ne_panic), bind_error_iff, lift_error_iff,
    lift_ok_iff, withCapacity_error_iff, withCapacity_ok_iff, unpackLayers_panic_iff, pure_ne_error,
    fromUtf8_ne_fault error_ne_panic, reduceCtorEq, false_or, and_false, exists_false, or_false]
  constructor
  · intro hyp
    obtain ⟨got, r1, -, h1, hgot, version, r2, -, h2, nameLen, r3, -, h3, name, r4, hname, h4,
      primitive, d, ⟨hutf8, rfl⟩, inputDim, r5, -, h5, outputDim, r6, -, h6, count, r7, -, h7,
      -, d', ⟨hgranted, rfl⟩, raws, broken, rest, hcount, hraws, hsized, hbroken, h8⟩ := hyp
    refine ⟨⟨version, name, inputDim, outputDim, count, raws, broken, rest⟩,
      ⟨?_, ⟨primitive, hutf8⟩, hcount, hraws, hsized, hbroken⟩, ?_, hgranted⟩
    · rw [hname]
      exact nameLen.toNat_lt
    · simp only at h5 h8
      rw [h1, h2, h3, h4, h5, h6, h7, h8, not_not.mp hgot, BrokenFile.payload, hname]
      rfl
  · intro hyp
    obtain ⟨f, hf, rfl, hgranted⟩ := hyp
    obtain ⟨primitive, hutf8⟩ := hf.utf8
    have hname : (UInt16.ofNat f.name.length).toNat = f.name.length :=
      UInt16.toNat_ofNat_of_lt' hf.name
    exact ⟨magic, _, by decide, rfl, not_not.mpr rfl, f.version, _, trivial, rfl,
      UInt16.ofNat f.name.length, _, trivial, congrArg (toBe 2 · ++ _) hname.symm, f.name, _,
      hname.symm, rfl, primitive, _, ⟨hutf8, rfl⟩, f.inputDim, _, trivial, rfl, f.outputDim, _,
      trivial, rfl, f.count, _, trivial, rfl, (), _, ⟨hgranted, rfl⟩, f.layers, f.broken, f.rest,
      hf.count, hf.layers, hf.sized, hf.broken, rfl⟩

/-- A payload aborts where the space for all layers is refused. -/
theorem unpackPayload_abort_iff {grants : ℕ → Bool} {payload : Bytes} {digest : Hash} :
    unpackPayload grants payload digest ⟨payload, 0⟩ = .error .abort ↔
      ∃ f : CountedFile, f.Reached ∧ payload = f.payload ∧ ¬ Granted grants f.count.toNat := by
  have hlayers : ∀ n c, ¬ unpackLayer.many n c = .error .abort := fun n c => avoids_unpackLayer.many n c
  simp only [unpackPayload, (reads_take _).bind_error_iff (avoids_take error_ne_abort _),
    guard_error_iff (error_ne_abort _), reads_u32.bind_error_iff (avoids_readU32 error_ne_abort),
    reads_u16.bind_error_iff (avoids_readU16 error_ne_abort), bind_error_iff, lift_error_iff,
    lift_ok_iff, withCapacity_error_iff, withCapacity_ok_iff, hlayers, pure_ne_error,
    fromUtf8_ne_fault error_ne_abort, false_or, and_false, and_true, exists_false, or_false]
  constructor
  · intro hyp
    obtain ⟨got, r1, -, h1, hgot, version, r2, -, h2, nameLen, r3, -, h3, name, r4, hname, h4,
      primitive, d, ⟨hutf8, rfl⟩, inputDim, r5, -, h5, outputDim, r6, -, h6, count, r7, -, h7,
      hrefused⟩ := hyp
    refine ⟨⟨version, name, inputDim, outputDim, count, r7⟩, ⟨?_, primitive, hutf8⟩, ?_, hrefused⟩
    · rw [hname]
      exact nameLen.toNat_lt
    · simp only at h5
      rw [h1, h2, h3, h4, h5, h6, h7, not_not.mp hgot, CountedFile.payload, hname]
      rfl
  · intro hyp
    obtain ⟨f, hf, rfl, hrefused⟩ := hyp
    obtain ⟨primitive, hutf8⟩ := hf.utf8
    have hname : (UInt16.ofNat f.name.length).toNat = f.name.length :=
      UInt16.toNat_ofNat_of_lt' hf.name
    exact ⟨magic, _, by decide, rfl, not_not.mpr rfl, f.version, _, trivial, rfl,
      UInt16.ofNat f.name.length, _, trivial, congrArg (toBe 2 · ++ _) hname.symm, f.name, _,
      hname.symm, rfl, primitive, _, ⟨hutf8, rfl⟩, f.inputDim, _, trivial, rfl, f.outputDim, _,
      trivial, rfl, f.count, _, trivial, rfl, hrefused⟩

/-- A failure that is no error comes out of the payload, behind its digest. -/
theorem unpackWeightsIn_fault_iff {grants : ℕ → Bool} {b : Bytes} {fault : Fault}
    (hfault : ∀ e, Fault.error e ≠ fault) :
    unpackWeightsIn grants b = .error fault ↔
      ∃ payload, magic.length ≤ payload.length ∧ b = payload ++ (Blake3.digest payload).toList ∧
        unpackPayload grants payload (Blake3.digest payload) ⟨payload, 0⟩ = .error fault := by
  have hmap : ∀ payload : Bytes,
      (unpackPayload grants payload (Blake3.digest payload) ⟨payload, 0⟩).map (·.1) = .error fault ↔
        unpackPayload grants payload (Blake3.digest payload) ⟨payload, 0⟩ = .error fault := by
    intro payload
    cases unpackPayload grants payload (Blake3.digest payload) ⟨payload, 0⟩ <;> simp [Except.map]
  constructor
  · intro h
    rcases unpackWeightsIn_cases grants b with ⟨e, herror⟩ | ⟨payload, hmagic, rfl⟩
    · rw [herror] at h
      exact absurd (Except.error.inj h) (hfault e)
    · rw [unpackWeightsIn_append grants hmagic, hmap] at h
      exact ⟨payload, hmagic, rfl, h⟩
  · intro hyp
    obtain ⟨payload, hmagic, rfl, h⟩ := hyp
    rw [unpackWeightsIn_append grants hmagic, hmap]
    exact h

/-- The loader panics on the files with a reachable layer that slices badly, if it gets there. -/
theorem unpackWeightsIn_panic_iff {grants : ℕ → Bool} {b : Bytes} :
    unpackWeightsIn grants b = .error .panic ↔
      ∃ f : BrokenFile, f.Reached ∧ b = f.stream ∧ Granted grants f.count.toNat := by
  rw [unpackWeightsIn_fault_iff error_ne_panic]
  constructor
  · intro hyp
    obtain ⟨payload, -, rfl, h⟩ := hyp
    obtain ⟨f, hf, rfl, hgranted⟩ := unpackPayload_panic_iff.mp h
    exact ⟨f, hf, rfl, hgranted⟩
  · intro hyp
    obtain ⟨f, hf, rfl, hgranted⟩ := hyp
    exact ⟨f.payload, f.magic_le_payload, rfl, unpackPayload_panic_iff.mpr ⟨f, hf, rfl, hgranted⟩⟩

/-- It aborts on the files whose layer count is reached and not granted. -/
theorem unpackWeightsIn_abort_iff {grants : ℕ → Bool} {b : Bytes} :
    unpackWeightsIn grants b = .error .abort ↔
      ∃ f : CountedFile, f.Reached ∧ b = f.stream ∧ ¬ Granted grants f.count.toNat := by
  rw [unpackWeightsIn_fault_iff error_ne_abort]
  constructor
  · intro hyp
    obtain ⟨payload, -, rfl, h⟩ := hyp
    obtain ⟨f, hf, rfl, hrefused⟩ := unpackPayload_abort_iff.mp h
    exact ⟨f, hf, rfl, hrefused⟩
  · intro hyp
    obtain ⟨f, hf, rfl, hrefused⟩ := hyp
    exact ⟨f.payload, f.magic_le_payload, rfl, unpackPayload_abort_iff.mpr ⟨f, hf, rfl, hrefused⟩⟩

/-- Over any allocator the loader returns, except on files that break at a layer and on files whose
layers it finds no room for. -/
theorem unpackWeights_returns_iff (grants : ℕ → Bool) (b : Bytes) :
    Returns (unpackWeightsIn grants b) ↔ (¬ ∃ f : BrokenFile, f.Reached ∧ b = f.stream) ∧
      ∀ f : CountedFile, f.Reached → b = f.stream → Granted grants f.count.toNat := by
  have hroom : (∀ f : CountedFile, f.Reached → b = f.stream → Granted grants f.count.toNat) ↔
      ¬ unpackWeightsIn grants b = .error .abort := by
    rw [unpackWeightsIn_abort_iff]
    constructor
    · rintro h ⟨f, hf, hb, hrefused⟩
      exact hrefused (h f hf hb)
    · intro h f hf hb
      by_contra hrefused
      exact h ⟨f, hf, hb, hrefused⟩
  rw [returns_iff, hroom]
  refine and_congr_left fun habort => not_congr ?_
  rw [unpackWeightsIn_panic_iff]
  constructor
  · intro hyp
    obtain ⟨f, hf, hb, -⟩ := hyp
    exact ⟨f, hf, hb⟩
  · intro hyp
    obtain ⟨f, hf, hb⟩ := hyp
    exact ⟨f, hf, hb, hroom.mpr habort f.counted hf.counted hb⟩

end Panic

/-- One layer with one row, whose pointers are 1 and 0. -/
def reversedFile : BrokenFile :=
  ⟨1, [], 1, 1, 1, [], ⟨1, 1, 0, [1, 0], [], [0, 0], [], [0]⟩, []⟩

theorem reached_reversedFile : reversedFile.Reached := by
  refine ⟨by decide, ⟨"", fromUtf8_ok_iff.mpr rfl⟩, by decide, ?_, ?_, by decide⟩
  · intro raw hraw
    cases hraw
  · exact ⟨rfl, rfl, rfl, by decide, by decide⟩

/-- The largest number of layers and none of them: 58 bytes. -/
def fullCountFile : CountedFile := ⟨1, [], 1, 1, 0xFFFFFFFF, []⟩

theorem reached_fullCountFile : fullCountFile.Reached := ⟨by decide, "", fromUtf8_ok_iff.mpr rfl⟩

/-- One file panics where all is granted, the other one aborts where room for a million layers is not. -/
theorem unpackWeights_panics_reversedFile :
    (¬ ∀ b, Returns (@unpackWeightsIn sampleBlake3Xof (fun _ => true) b)) ∧
      ¬ ∀ b, Returns (@unpackWeightsIn sampleBlake3Xof (fun n => decide (n < 1000000)) b) := by
  constructor
  · intro h
    have hreturns := h (@BrokenFile.stream reversedFile sampleBlake3Xof.toBlake3)
    exact (returns_iff.mp hreturns).1 ((@unpackWeightsIn_panic_iff sampleBlake3Xof _ _).mpr
      ⟨reversedFile, reached_reversedFile, rfl, .inr rfl⟩)
  · intro h
    have hreturns := h (@CountedFile.stream fullCountFile sampleBlake3Xof.toBlake3)
    exact (returns_iff.mp hreturns).2 ((@unpackWeightsIn_abort_iff sampleBlake3Xof _ _).mpr
      ⟨fullCountFile, reached_fullCountFile, rfl, by decide⟩)

/-! ## Which accepted files are networks -/

namespace SparseTernaryLayer

/-- The invariants in the documentation of a layer. -/
structure Invariants (l : SparseTernaryLayer) : Prop where
  wellFormed : l.WellFormed
  disjoint : ∀ i, List.Disjoint (l.posIndices.getD i []) (l.negIndices.getD i [])

end SparseTernaryLayer

/-- The layers are what the documentation and the header say, and running them cannot panic. -/
structure Runnable (header : WeightsHeader) (layers : List SparseTernaryLayer) : Prop where
  invariants : ∀ l ∈ layers, l.Invariants
  linked : Linked layers
  inputDim : ∀ l ∈ layers.head?, l.inputDim = header.inputDim.toNat
  outputDim : ∀ l ∈ layers.getLast?, l.outputDim = header.outputDim.toNat
  forward : ∀ x : List Int64, Kernel.forward layers (x.map Int64.toInt) ≠ .error .panic

/-- The columns of the rows of a block are inputs, none of them on both sides. -/
structure RawLayer.Consistent (raw : RawLayer) : Prop where
  posCols : ∀ row ∈ rowsBetween raw.posCols raw.posPtrs, ∀ j ∈ row, j.toNat < raw.inputDim.toNat
  negCols : ∀ row ∈ rowsBetween raw.negCols raw.negPtrs, ∀ j ∈ row, j.toNat < raw.inputDim.toNat
  disjoint : ∀ i, List.Disjoint ((rowsBetween raw.posCols raw.posPtrs).getD i [])
    ((rowsBetween raw.negCols raw.negPtrs).getD i [])

/-- The fields of a file fit together, which the loader does not check. -/
structure WeightFile.Consistent (f : WeightFile) : Prop where
  layers : ∀ raw ∈ f.layers, raw.Consistent
  linked : f.layers.IsChain fun raw next => raw.outputDim = next.inputDim
  inputDim : ∀ raw ∈ f.layers.head?, raw.inputDim = f.inputDim
  outputDim : ∀ raw ∈ f.layers.getLast?, raw.outputDim = f.outputDim

/-- One row less than there are pointers. -/
theorem length_rowsBetween (cols ptrs : List UInt32) :
    (rowsBetween cols ptrs).length = ptrs.length - 1 := by
  induction ptrs with
  | nil => rfl
  | cons lo ptrs ih =>
    cases ptrs with
    | nil => rfl
    | cons hi ptrs =>
      rw [rowsBetween, List.length_cons, ih]
      rfl

namespace RawLayer

variable {raw : RawLayer}

/-- The checks `SparseTernaryLayer::new` would make, on the raw layer. -/
theorem invariants_sliced_iff (hsized : raw.Sized) : raw.sliced.Invariants ↔ raw.Consistent := by
  constructor
  · intro h
    exact ⟨h.wellFormed.posCols, h.wellFormed.negCols, h.disjoint⟩
  · intro h
    refine ⟨⟨?_, ?_, hsized.bias, h.posCols, h.negCols⟩, h.disjoint⟩
    · show (rowsBetween raw.posCols raw.posPtrs).length = raw.outputDim.toNat
      rw [length_rowsBetween, hsized.posPtrs, Nat.add_sub_cancel]
    · show (rowsBetween raw.negCols raw.negPtrs).length = raw.outputDim.toNat
      rw [length_rowsBetween, hsized.negPtrs, Nat.add_sub_cancel]

/-- A layer that is built is the sliced one. -/
theorem eq_sliced {l : SparseTernaryLayer} (h : raw.layer = .ok l) : raw.sliced = l := by
  rw [layer_eq_ite] at h
  split at h
  · exact Except.ok.inj h
  · cases h

theorem eq_map_sliced {raws : List RawLayer} {layers : List SparseTernaryLayer}
    (h : raws.mapM layer = .ok layers) : layers = raws.map sliced := by
  have hall : List.Forall₂ Eq (raws.map sliced) layers :=
    List.forall₂_map_left_iff.mpr ((mapM_eq_ok_iff.mp h).imp fun _ _ hl => eq_sliced hl)
  rw [List.forall₂_eq_eq_eq] at hall
  exact hall.symm

end RawLayer

/-- Well-formed layers run without a panic. -/
theorem forward_ne_panic {layers : List SparseTernaryLayer} (hwf : ∀ l ∈ layers, l.WellFormed)
    (x : List ℤ) : Kernel.forward layers x ≠ .error .panic := by
  intro h
  unfold Kernel.forward at h
  split at h
  · cases h
  · split at h
    · cases h
    · rw [Kernel.forwardFrom_eq hwf] at h
      cases hres : TernaryNetwork.forwardFrom _ 0 x with
      | error e =>
        rw [hres] at h
        cases h
      | ok y =>
        rw [hres] at h
        cases h

section Accepted

variable [Blake3Xof]

/-- A decoded network runs without a panic exactly when its layers fit one another. -/
theorem runnable_iff {f : WeightFile} (hsized : f.Sized) {header : WeightsHeader}
    {layers : List SparseTernaryLayer} (h : f.Decodes header layers) :
    Runnable header layers ↔ f.Consistent := by
  obtain ⟨primitive, -, hlayers, rfl⟩ := h
  obtain rfl := RawLayer.eq_map_sliced hlayers
  constructor
  · intro hrun
    constructor
    · intro raw hraw
      exact (RawLayer.invariants_sliced_iff (hsized.layers raw hraw)).mp
        (hrun.invariants _ (List.mem_map_of_mem hraw))
    · have hlinked := (List.isChain_map _).mp hrun.linked
      exact hlinked.imp fun _ _ heq => UInt32.toNat_inj.mp heq
    · intro raw hraw
      apply UInt32.toNat_inj.mp
      apply hrun.inputDim raw.sliced
      rw [List.head?_map, hraw]
      rfl
    · intro raw hraw
      apply UInt32.toNat_inj.mp
      apply hrun.outputDim raw.sliced
      rw [List.getLast?_map, hraw]
      rfl
  · intro hcons
    have hinv : ∀ l ∈ f.layers.map RawLayer.sliced, l.Invariants :=
      List.forall_mem_map.mpr fun raw hraw =>
        (RawLayer.invariants_sliced_iff (hsized.layers raw hraw)).mpr (hcons.layers raw hraw)
    constructor
    · exact hinv
    · apply (List.isChain_map _).mpr
      exact hcons.linked.imp fun _ _ heq => congrArg UInt32.toNat heq
    · intro l hl
      rw [List.head?_map] at hl
      obtain ⟨raw, hraw, rfl⟩ := Option.map_eq_some_iff.mp hl
      exact congrArg UInt32.toNat (hcons.inputDim raw hraw)
    · intro l hl
      rw [List.getLast?_map] at hl
      obtain ⟨raw, hraw, rfl⟩ := Option.map_eq_some_iff.mp hl
      exact congrArg UInt32.toNat (hcons.outputDim raw hraw)
    · intro x
      exact forward_ne_panic (fun l hl => (hinv l hl).wellFormed) _

/-- What is loaded is a network, and runs, exactly if the fields of the file fit together. -/
theorem unpackWeights_runnable_iff {b : Bytes} {header : WeightsHeader}
    {layers : List SparseTernaryLayer} (h : unpackWeights b = .ok (header, layers)) :
    Runnable header layers ↔ ∃ f : WeightFile, f.Sized ∧ b = f.stream ∧ f.Consistent := by
  obtain ⟨f, hsized, rfl, hdec⟩ := unpackWeights_ok_iff.mp h
  rw [runnable_iff hsized hdec]
  constructor
  · intro hcons
    exact ⟨f, hsized, rfl, hcons⟩
  · intro hyp
    obtain ⟨g, hg, hstream, hcons⟩ := hyp
    obtain rfl := WeightFile.stream_inj hsized hg hstream
    exact hcons

end Accepted

/-- One layer with one row, which lists the one column `j`. -/
def columnFile (j : UInt32) : WeightFile :=
  ⟨1, [], 1, 1, [⟨1, 1, 0, [0, 1], [j], [0, 0], [], [0]⟩], []⟩

theorem sized_columnFile (j : UInt32) : (columnFile j).Sized := by
  refine ⟨Nat.two_pow_pos 16, Nat.one_lt_two_pow (by decide), ?_⟩
  intro raw hraw
  obtain rfl := List.mem_singleton.mp hraw
  exact ⟨rfl, rfl, rfl, Nat.one_lt_two_pow (by decide), Nat.two_pow_pos 64⟩

/-- The header `unpack_weights` gives for that file. -/
def columnHeader [Blake3Xof] (j : UInt32) : WeightsHeader :=
  ⟨1, "", 1, 1, Blake3.digest (columnFile j).payload, Blake3Xof.fill64 (columnFile j).payload⟩

/-- The loader takes the file, whatever the column. -/
theorem unpack_columnFile [Blake3Xof] (j : UInt32) :
    unpackWeights (columnFile j).stream =
      .ok (columnHeader j, [⟨1, 1, [[j]], [[]], [0], false⟩]) := by
  apply unpackWeights_ok_iff.mpr
  exact ⟨columnFile j, sized_columnFile j, rfl, "", fromUtf8_ok_iff.mpr rfl, rfl, rfl⟩

theorem unpackWeights_runnable_columnZero :
    Runnable (@columnHeader sampleBlake3Xof 0) [⟨1, 1, [[0]], [[]], [0], false⟩] := by
  apply (@unpackWeights_runnable_iff sampleBlake3Xof _ _ _ (@unpack_columnFile sampleBlake3Xof 0)).mpr
  refine ⟨columnFile 0, sized_columnFile 0, rfl, ?_, ?_, ?_, ?_⟩
  · intro raw hraw
    obtain rfl := List.mem_singleton.mp hraw
    refine ⟨by simp [rowsBetween], by simp [rowsBetween], ?_⟩
    intro i j _ hj
    cases i with
    | zero => cases hj
    | succ i => cases hj
  · exact List.isChain_singleton _
  · intro raw hraw
    obtain rfl := Option.some.inj hraw
    rfl
  · intro raw hraw
    obtain rfl := Option.some.inj hraw
    rfl

/-- Column 5 of one input is accepted, and the first run panics. -/
theorem columnFive_not_runnable :
    ¬ ∀ b header layers, @unpackWeights sampleBlake3Xof b = .ok (header, layers) →
      Runnable header layers := by
  intro h
  have hrun := h _ _ _ (@unpack_columnFile sampleBlake3Xof 5)
  exact hrun.forward [0] rfl

end PslBank.Ternary
