import PslBank.Lib.CheckedSum
import PslBank.Ternary.Network

/-!
# The kernel on arbitrary layers

`SparseTernaryLayer::forward` and `TernaryNetwork::forward` of `network.rs` once more, with
the indexing of the source: a bias, a row or an input that is not there panics. On well
formed layers nothing panics and the kernel is the one of `Network`. There it computes the
exact integer function of the network as long as every partial sum of every row stays in
`i64`, and otherwise names the first row, layer by layer, where one does not.
-/
namespace PslBank.Ternary

open PslBank.Lib

set_option autoImplicit false

/-! ## The code -/

namespace Kernel

/-- `v[i]`. -/
def index {α : Type} (v : List α) (i : ℕ) : Except Fault α :=
  match v[i]? with
  | some a => .ok a
  | none => .error .panic

/-- `ok_or(TernaryError::Overflow { layer, row })`. -/
def okOr (layerIdx row : ℕ) : Option ℤ → Except Fault ℤ
  | some acc => .ok acc
  | none => .error (.error (.overflow layerIdx row))

/-- One of the two loops over the columns of a row. -/
def accumulate (op : ℤ → ℤ → Option ℤ) (x : List ℤ) (layerIdx row : ℕ) :
    List UInt32 → ℤ → Except Fault ℤ
  | [], acc => .ok acc
  | j :: js, acc => do
      let v ← index x j.toNat
      let acc ← okOr layerIdx row (op acc v)
      accumulate op x layerIdx row js acc

/-- One row of the kernel, with the panics of its indexing kept. -/
def rowForward (l : SparseTernaryLayer) (x : List ℤ) (layerIdx i : ℕ) : Except Fault ℤ := do
  let bias ← index l.bias i
  let pos ← index l.posIndices i
  let acc ← accumulate checkedAdd x layerIdx i pos bias.toInt
  let neg ← index l.negIndices i
  let acc ← accumulate checkedSub x layerIdx i neg acc
  return l.activate acc

/-- `SparseTernaryLayer::forward`, with an output buffer of `yLen` entries. -/
def layerForward (l : SparseTernaryLayer) (x : List ℤ) (yLen layerIdx : ℕ) :
    Except Fault (List ℤ) :=
  if x.length ≠ l.inputDim then .error (.error (.layerShape layerIdx x.length l.inputDim))
  else if yLen ≠ l.outputDim then .error (.error (.layerShape layerIdx yLen l.outputDim))
  else (List.range yLen).mapM (rowForward l x layerIdx)

/-- The loop over the layers, from layer `li` on. -/
def forwardFrom : List SparseTernaryLayer → ℕ → List ℤ → Except Fault (List ℤ)
  | [], _, current => .ok current
  | layer :: layers, li, current => do
      let next ← layerForward layer current layer.outputDim li
      forwardFrom layers (li + 1) next

/-- `TernaryNetwork::forward`. -/
def forward (layers : List SparseTernaryLayer) (input : List ℤ) : Except Fault (List ℤ) :=
  match layers with
  | [] => .ok input
  | first :: _ =>
      if input.length ≠ first.inputDim then
        .error (.error (.inputShape input.length first.inputDim))
      else forwardFrom layers 0 input

/-! ## Well-formed layers do not panic -/

/-- An index in range is not a panic. -/
theorem index_of_lt {α : Type} {v : List α} {i : ℕ} (h : i < v.length) (d : α) :
    index v i = .ok (v.getD i d) := by
  rw [index, List.getElem?_eq_getElem h, List.getD_eq_getElem _ _ h]

/-- With all columns in range the loop never panics. -/
theorem accumulate_eq {op : ℤ → ℤ → Option ℤ} {x : List ℤ} (layerIdx i : ℕ) {js : List UInt32}
    (hjs : ∀ j ∈ js, j.toNat < x.length) (acc : ℤ) :
    accumulate op x layerIdx i js acc = okOr layerIdx i (Ternary.accumulate op x js acc) := by
  induction js generalizing acc with
  | nil => rfl
  | cons j js ih =>
    obtain ⟨hj, hjs⟩ := List.forall_mem_cons.mp hjs
    rw [accumulate, Ternary.accumulate, index_of_lt hj 0]
    show (okOr layerIdx i (op acc (x.getD j.toNat 0)) >>= accumulate op x layerIdx i js) = _
    cases op acc (x.getD j.toNat 0) with
    | none => rfl
    | some acc' => exact ih hjs acc'

section WellFormed

variable {l : SparseTernaryLayer} {x : List ℤ}

/-- On a well-formed layer the kernel does what the layer does. -/
theorem rowForward_eq (hl : l.WellFormed) (hlen : x.length = l.inputDim) (layerIdx : ℕ) {i : ℕ}
    (hi : i < l.outputDim) :
    rowForward l x layerIdx i = (l.rowForward x layerIdx i).mapError .error := by
  have hcols : ∀ {rows : List (List UInt32)}, (∀ row ∈ rows, ∀ j ∈ row, j.toNat < l.inputDim) →
      ∀ j ∈ rows.getD i [], j.toNat < x.length := by
    intro rows h j hj
    rw [hlen]
    by_cases hrow : i < rows.length
    · rw [List.getD_eq_getElem _ _ hrow] at hj
      exact h _ (List.getElem_mem hrow) j hj
    · rw [List.getD_eq_default _ _ (Nat.le_of_not_lt hrow)] at hj
      cases hj
  have hbias := index_of_lt (show i < l.bias.length by rw [hl.biasRows]; exact hi) 0
  have hpos := index_of_lt (show i < l.posIndices.length by rw [hl.posRows]; exact hi) []
  have hneg := index_of_lt (show i < l.negIndices.length by rw [hl.negRows]; exact hi) []
  unfold rowForward SparseTernaryLayer.rowForward
  rw [hbias, hpos, hneg]
  show (accumulate checkedAdd x layerIdx i (l.posIndices.getD i []) (l.bias.getD i 0).toInt >>= _) = _
  rw [accumulate_eq layerIdx i (hcols hl.posCols)]
  cases Ternary.accumulate checkedAdd x (l.posIndices.getD i []) (l.bias.getD i 0).toInt with
  | none => rfl
  | some acc =>
    show (accumulate checkedSub x layerIdx i (l.negIndices.getD i []) acc >>= _) = _
    rw [accumulate_eq layerIdx i (hcols hl.negCols)]
    cases hsub : Ternary.accumulate checkedSub x (l.negIndices.getD i []) acc with
    | none =>
      simp only [hsub]
      rfl
    | some acc' =>
      simp only [hsub]
      rfl

theorem layerForward_eq (hl : l.WellFormed) (x : List ℤ) (layerIdx : ℕ) :
    layerForward l x l.outputDim layerIdx =
      (l.forward x l.outputDim layerIdx).mapError .error := by
  unfold layerForward SparseTernaryLayer.forward
  by_cases hlen : x.length = l.inputDim
  · rw [if_neg (not_not.mpr hlen), if_neg (not_not.mpr hlen), if_neg (not_not.mpr rfl),
      if_neg (not_not.mpr rfl), ← mapM_mapError]
    exact mapM_congr fun i hi => rowForward_eq hl hlen layerIdx (List.mem_range.mp hi)
  · rw [if_pos hlen, if_pos hlen]
    rfl

/-- And so does the loop over the layers. -/
theorem forwardFrom_eq {layers : List SparseTernaryLayer} (hwf : ∀ l ∈ layers, l.WellFormed) (li : ℕ)
    (x : List ℤ) :
    forwardFrom layers li x = (TernaryNetwork.forwardFrom layers li x).mapError .error := by
  induction layers generalizing li x with
  | nil => rfl
  | cons l layers ih =>
    obtain ⟨hl, hrest⟩ := List.forall_mem_cons.mp hwf
    rw [forwardFrom, TernaryNetwork.forwardFrom, layerForward_eq hl, mapError_bind]
    congr 1
    funext next
    exact ih hrest (li + 1) next

end WellFormed

/-- Under the invariants of its layers a network is run without a panic. -/
theorem forward_eq (net : TernaryNetwork) (x : List ℤ) :
    forward net.layers x = (net.forward x).mapError .error := by
  obtain ⟨header, layers, hwf⟩ := net
  unfold forward TernaryNetwork.forward
  cases layers with
  | nil => rfl
  | cons first rest =>
    simp only
    split
    · rfl
    · exact forwardFrom_eq hwf 0 x

end Kernel

/-! ## When a row overflows -/

/-- A checked loop runs through when every partial sum is in range. -/
theorem accumulate_checkedAdd_eq {x : List ℤ} (js : List UInt32) {acc : ℤ}
    (hacc : -2 ^ 63 ≤ acc ∧ acc ≤ 2 ^ 63 - 1) :
    accumulate checkedAdd x js acc =
      if Within (-2 ^ 63) (2 ^ 63 - 1) acc (js.map fun j => x.getD j.toNat 0) then
        some (acc + columnSum x js)
      else none := by
  induction js generalizing acc with
  | nil => rw [List.map_nil, if_pos (within_nil.mpr hacc), columnSum_nil, add_zero, accumulate]
  | cons j js ih =>
    rw [List.map_cons, accumulate, checkedAdd]
    by_cases hnext : -2 ^ 63 ≤ acc + x.getD j.toNat 0 ∧ acc + x.getD j.toNat 0 < 2 ^ 63
    · have hcons := @within_cons (-2 ^ 63) (2 ^ 63 - 1) acc (x.getD j.toNat 0)
        (js.map fun j => x.getD j.toNat 0)
      rw [if_pos hnext, Option.bind_some, ih ⟨hnext.1, Int.le_sub_one_of_lt hnext.2⟩, columnSum_cons,
        ← add_assoc]
      by_cases hw : Within (-2 ^ 63) (2 ^ 63 - 1) (acc + x.getD j.toNat 0)
          (js.map fun j => x.getD j.toNat 0)
      · rw [if_pos hw, if_pos (hcons.mpr ⟨hacc, hw⟩)]
      · rw [if_neg hw, if_neg fun h => hw (hcons.mp h).2]
    · rw [if_neg hnext, Option.bind_none, if_neg]
      intro h
      have hstart := (within_cons.mp h).2.start
      exact hnext ⟨hstart.1, Int.lt_of_le_sub_one hstart.2⟩

namespace SparseTernaryLayer

variable (l : SparseTernaryLayer) (x : List ℤ) (i : ℕ)

def posTerms : List ℤ := (l.posIndices.getD i []).map fun j => x.getD j.toNat 0

def negTerms : List ℤ := (l.negIndices.getD i []).map fun j => -x.getD j.toNat 0

/-- What row `i` adds to its bias, in the order of the kernel. -/
def terms : List ℤ := l.posTerms x i ++ l.negTerms x i

/-- Every partial sum of row `i` is an `i64`. -/
def RowStays : Prop := Within (-2 ^ 63) (2 ^ 63 - 1) (l.bias.getD i 0).toInt (l.terms x i)

instance : Decidable (l.RowStays x i) := decidableWithin _ _ _ _

theorem map_getD_neg (x : List ℤ) (js : List UInt32) :
    (js.map fun j => (x.map Neg.neg).getD j.toNat 0) = js.map fun j => -x.getD j.toNat 0 :=
  List.map_congr_left fun j _ => getD_map_neg x j.toNat

variable {l x i}

/-- The exact value is the bias, the positive terms and the negative terms. -/
theorem exact_eq_terms :
    l.exact x i = (l.bias.getD i 0).toInt + (l.posTerms x i).sum + (l.negTerms x i).sum := by
  have hneg := @columnSum_map_neg x (l.negIndices.getD i [])
  rw [columnSum, map_getD_neg] at hneg
  rw [exact, negTerms, hneg, sub_eq_add_neg]
  rfl

/-- A row stays in range exactly when both of its sums do, one after the other. -/
theorem rowStays_iff :
    l.RowStays x i ↔
      Within (-2 ^ 63) (2 ^ 63 - 1) (l.bias.getD i 0).toInt (l.posTerms x i) ∧
        Within (-2 ^ 63) (2 ^ 63 - 1) ((l.bias.getD i 0).toInt + (l.posTerms x i).sum)
          (l.negTerms x i) :=
  within_append

theorem bias_mem (l : SparseTernaryLayer) (i : ℕ) :
    -2 ^ 63 ≤ (l.bias.getD i 0).toInt ∧ (l.bias.getD i 0).toInt ≤ 2 ^ 63 - 1 :=
  ⟨Int64.le_toInt _, Int.le_sub_one_of_lt (Int64.toInt_lt _)⟩

/-- A row gives its exact value, or the overflow that names it. -/
theorem rowForward_eq_ite (layerIdx : ℕ) :
    l.rowForward x layerIdx i =
      if l.RowStays x i then .ok (l.activate (l.exact x i)) else .error (.overflow layerIdx i) := by
  rw [rowForward, accumulate_checkedAdd_eq _ (bias_mem l i), ← posTerms]
  by_cases hpos : Within (-2 ^ 63) (2 ^ 63 - 1) (l.bias.getD i 0).toInt (l.posTerms x i)
  · have hsum : -2 ^ 63 ≤ (l.bias.getD i 0).toInt + columnSum x (l.posIndices.getD i []) ∧
        (l.bias.getD i 0).toInt + columnSum x (l.posIndices.getD i []) ≤ 2 ^ 63 - 1 := hpos.total
    simp only [if_pos hpos]
    rw [accumulate_sub_eq_add, accumulate_checkedAdd_eq _ hsum, map_getD_neg, ← negTerms]
    by_cases hrest : Within (-2 ^ 63) (2 ^ 63 - 1)
        ((l.bias.getD i 0).toInt + columnSum x (l.posIndices.getD i [])) (l.negTerms x i)
    · rw [if_pos hrest, if_pos (rowStays_iff.mpr ⟨hpos, hrest⟩), columnSum_map_neg, exact,
        sub_eq_add_neg]
    · rw [if_neg hrest, if_neg fun h => hrest (rowStays_iff.mp h).2]
  · simp only [if_neg hpos]
    rw [if_neg fun h => hpos (rowStays_iff.mp h).1]

/-- Row `i` is the first one that overflows. -/
def OverflowsAt (l : SparseTernaryLayer) (x : List ℤ) (i : ℕ) : Prop :=
  i < l.outputDim ∧ (∀ k < i, l.RowStays x k) ∧ ¬ l.RowStays x i

/-- Either every row stays in range or there is a first one that does not. -/
theorem stays_or_overflowsAt (l : SparseTernaryLayer) (x : List ℤ) :
    (∀ i < l.outputDim, l.RowStays x i) ∨ ∃ i, l.OverflowsAt x i := by
  by_cases h : ∃ i, i < l.outputDim ∧ ¬ l.RowStays x i
  · obtain ⟨hlt, hover⟩ := Nat.find_spec h
    refine .inr ⟨Nat.find h, hlt, ?_, hover⟩
    intro k hk
    by_contra hk'
    exact Nat.find_min h hk ⟨hk.trans hlt, hk'⟩
  · refine .inl fun i hi => ?_
    by_contra hover
    exact h ⟨i, hi, hover⟩

/-- Without an overflow the layer gives its exact output. -/
theorem forward_of_stays (hlen : x.length = l.inputDim) (layerIdx : ℕ)
    (h : ∀ i < l.outputDim, l.RowStays x i) :
    l.forward x l.outputDim layerIdx = .ok (l.output x) := by
  rw [forward, if_neg (not_not.mpr hlen), if_neg (not_not.mpr rfl)]
  exact mapM_eq_ok fun i hi =>
    (rowForward_eq_ite layerIdx).trans (if_pos (h i (List.mem_range.mp hi)))

/-- The first row that overflows is the one reported. -/
theorem forward_of_overflowsAt (hlen : x.length = l.inputDim) (layerIdx : ℕ)
    (h : l.OverflowsAt x i) :
    l.forward x l.outputDim layerIdx = .error (.overflow layerIdx i) := by
  obtain ⟨hi, hbefore, hover⟩ := h
  obtain ⟨n, hn⟩ := Nat.exists_eq_add_of_lt hi
  have hrange : List.range l.outputDim = List.range i ++ i :: (List.range n).map (i + 1 + ·) := by
    rw [hn, Nat.add_right_comm, List.range_add, List.range_succ, List.append_assoc]
    rfl
  rw [forward, if_neg (not_not.mpr hlen), if_neg (not_not.mpr rfl), hrange]
  apply mapM_eq_error_iff.mpr
  refine ⟨_, _, _, rfl, ?_, (rowForward_eq_ite layerIdx).trans (if_neg hover)⟩
  intro k hk
  exact ⟨_, (rowForward_eq_ite layerIdx).trans (if_pos (hbefore k (List.mem_range.mp hk)))⟩

theorem length_output (l : SparseTernaryLayer) (x : List ℤ) : (l.output x).length = l.outputDim := by
  rw [output, List.length_map, List.length_range]

end SparseTernaryLayer

/-! ## Networks -/

/-- Each layer takes what the one before it gives. -/
def Linked (layers : List SparseTernaryLayer) : Prop :=
  layers.IsChain fun l m => l.outputDim = m.inputDim

instance (layers : List SparseTernaryLayer) : Decidable (Linked layers) :=
  inferInstanceAs (Decidable (List.IsChain _ _))

/-- The first layer, if there is one, takes inputs of this length. -/
def Accepts (layers : List SparseTernaryLayer) (n : ℕ) : Prop := ∀ l ∈ layers.head?, n = l.inputDim

/-- The integer function of the network. -/
def exactOutput (layers : List SparseTernaryLayer) (x : List ℤ) : List ℤ :=
  layers.foldl (fun x l => l.output x) x

@[simp] theorem exactOutput_cons (l : SparseTernaryLayer) (layers : List SparseTernaryLayer)
    (x : List ℤ) : exactOutput (l :: layers) x = exactOutput layers (l.output x) := rfl

/-- Every row of every layer is as `P` says, on the exact input of its layer. -/
def EveryRow (P : SparseTernaryLayer → List ℤ → ℕ → Prop) : List SparseTernaryLayer → List ℤ → Prop
  | [], _ => True
  | l :: layers, x => (∀ i < l.outputDim, P l x i) ∧ EveryRow P layers (l.output x)

/-- Row `row` of layer `li` is the first one that overflows, with the layers before it exact. -/
def OverflowsAt (layers : List SparseTernaryLayer) (x : List ℤ) (li row : ℕ) : Prop :=
  ∃ front l back, layers = front ++ l :: back ∧ front.length = li ∧
    EveryRow SparseTernaryLayer.RowStays front x ∧ l.OverflowsAt (exactOutput front x) row

section Network

variable {layers : List SparseTernaryLayer} {x : List ℤ}

theorem Linked.tail {l : SparseTernaryLayer} (h : Linked (l :: layers)) :
    Accepts layers l.outputDim ∧ Linked layers :=
  List.isChain_cons.mp h

/-- The same over the layers of a network. -/
theorem everyRow_or_overflowsAt (layers : List SparseTernaryLayer) (x : List ℤ) :
    EveryRow SparseTernaryLayer.RowStays layers x ∨ ∃ li row, OverflowsAt layers x li row := by
  induction layers generalizing x with
  | nil => exact .inl trivial
  | cons l layers ih =>
    rcases l.stays_or_overflowsAt x with hstays | ⟨i, hi⟩
    · rcases ih (l.output x) with h | ⟨li, row, front, m, back, rfl, rfl, hfront, hrow⟩
      · exact .inl ⟨hstays, h⟩
      · exact .inr ⟨_, row, l :: front, m, back, rfl, rfl, ⟨hstays, hfront⟩, hrow⟩
    · exact .inr ⟨0, i, [], l, layers, rfl, rfl, trivial, hi⟩

namespace TernaryNetwork

/-- Without an overflow the network gives its exact output. -/
theorem forwardFrom_of_everyRow (hlinked : Linked layers) (hlen : Accepts layers x.length) (li : ℕ)
    (h : EveryRow SparseTernaryLayer.RowStays layers x) :
    forwardFrom layers li x = .ok (exactOutput layers x) := by
  induction layers generalizing li x with
  | nil => rfl
  | cons l layers ih =>
    obtain ⟨haccepts, hrest⟩ := hlinked.tail
    have hl := SparseTernaryLayer.forward_of_stays (hlen l rfl) li h.1
    rw [forwardFrom_cons hl]
    apply ih hrest _ _ h.2
    rwa [SparseTernaryLayer.length_output]

theorem forwardFrom_of_overflowsAt (hlinked : Linked layers) (hlen : Accepts layers x.length) (li : ℕ)
    {k row : ℕ} (h : OverflowsAt layers x k row) :
    forwardFrom layers li x = .error (.overflow (li + k) row) := by
  obtain ⟨front, l, back, rfl, rfl, hfront, hrow⟩ := h
  induction front generalizing li x with
  | nil =>
    have hl := SparseTernaryLayer.forward_of_overflowsAt (hlen l rfl) li hrow
    rw [List.nil_append, forwardFrom, hl]
    rfl
  | cons m front ih =>
    obtain ⟨haccepts, hrest⟩ := hlinked.tail
    have hm := SparseTernaryLayer.forward_of_stays (hlen m rfl) li hfront.1
    have hnext := ih (li + 1) hrest (by rwa [SparseTernaryLayer.length_output]) hfront.2 hrow
    rw [List.cons_append, forwardFrom_cons hm, hnext, List.length_cons, Nat.add_right_comm]
    rfl

end TernaryNetwork

end Network

/-! ## The whole call -/

namespace Kernel

variable {net : TernaryNetwork} {x : List ℤ}

theorem forward_of_not_accepts (h : ¬ Accepts net.layers x.length) :
    ∃ first rest, net.layers = first :: rest ∧ x.length ≠ first.inputDim ∧
      forward net.layers x = .error (.error (.inputShape x.length first.inputDim)) := by
  cases hlayers : net.layers with
  | nil =>
    rw [hlayers] at h
    exact absurd (fun l hl => by cases hl) h
  | cons first rest =>
    rw [hlayers] at h
    have hne : x.length ≠ first.inputDim := by
      intro heq
      exact h fun l hl => by rwa [← Option.some.inj hl]
    exact ⟨first, rest, rfl, hne, if_pos hne⟩

theorem forward_of_accepts (h : Accepts net.layers x.length) :
    forward net.layers x = (TernaryNetwork.forwardFrom net.layers 0 x).mapError .error := by
  rw [forward_eq, TernaryNetwork.forward]
  cases hlayers : net.layers with
  | nil => rfl
  | cons first rest =>
    rw [hlayers] at h
    simp only
    rw [if_neg (not_not.mpr (h first rfl))]

theorem forward_of_everyRow (hlinked : Linked net.layers) (hlen : Accepts net.layers x.length)
    (h : EveryRow SparseTernaryLayer.RowStays net.layers x) :
    forward net.layers x = .ok (exactOutput net.layers x) := by
  rw [forward_of_accepts hlen, TernaryNetwork.forwardFrom_of_everyRow hlinked hlen 0 h]
  rfl

theorem forward_of_overflowsAt (hlinked : Linked net.layers) (hlen : Accepts net.layers x.length)
    {li row : ℕ} (h : OverflowsAt net.layers x li row) :
    forward net.layers x = .error (.error (.overflow li row)) := by
  rw [forward_of_accepts hlen, TernaryNetwork.forwardFrom_of_overflowsAt hlinked hlen 0 h, zero_add]
  rfl

/-- The three ways a call on a linked network ends. -/
theorem forward_cases (hlinked : Linked net.layers) (x : List ℤ) :
    (∃ first rest, net.layers = first :: rest ∧ x.length ≠ first.inputDim ∧
      forward net.layers x = .error (.error (.inputShape x.length first.inputDim))) ∨
    (Accepts net.layers x.length ∧ EveryRow SparseTernaryLayer.RowStays net.layers x ∧
      forward net.layers x = .ok (exactOutput net.layers x)) ∨
    (Accepts net.layers x.length ∧ ∃ li row, OverflowsAt net.layers x li row ∧
      forward net.layers x = .error (.error (.overflow li row))) := by
  by_cases hlen : Accepts net.layers x.length
  · rcases everyRow_or_overflowsAt net.layers x with h | ⟨li, row, h⟩
    · exact .inr (.inl ⟨hlen, h, forward_of_everyRow hlinked hlen h⟩)
    · exact .inr (.inr ⟨hlen, li, row, h, forward_of_overflowsAt hlinked hlen h⟩)
  · exact .inl (forward_of_not_accepts hlen)

theorem eq_exactOutput_of_forward (hlinked : Linked net.layers) {y : List ℤ}
    (h : forward net.layers x = .ok y) : y = exactOutput net.layers x := by
  rcases forward_cases hlinked x with ⟨first, rest, -, -, hres⟩ | ⟨-, -, hres⟩ | ⟨-, li, row, -, hres⟩
  · rw [hres] at h
    cases h
  · rw [hres] at h
    exact (Except.ok.inj h).symm
  · rw [hres] at h
    cases h

theorem forward_inputShape_iff (hlinked : Linked net.layers) {got expected : ℕ} :
    forward net.layers x = .error (.error (.inputShape got expected)) ↔
      ∃ first rest, net.layers = first :: rest ∧ x.length ≠ first.inputDim ∧ got = x.length ∧
        expected = first.inputDim := by
  constructor
  · intro h
    rcases forward_cases hlinked x with
      ⟨first, rest, hlayers, hne, hres⟩ | ⟨-, -, hres⟩ | ⟨-, li, row, -, hres⟩
    · rw [hres] at h
      cases h
      exact ⟨first, rest, hlayers, hne, rfl, rfl⟩
    · rw [hres] at h
      cases h
    · rw [hres] at h
      cases h
  · intro hyp
    obtain ⟨first, rest, hlayers, hne, rfl, rfl⟩ := hyp
    rw [hlayers]
    exact if_pos hne

theorem forward_overflow_iff (hlinked : Linked net.layers) {li row : ℕ} :
    forward net.layers x = .error (.error (.overflow li row)) ↔
      Accepts net.layers x.length ∧ OverflowsAt net.layers x li row := by
  constructor
  · intro h
    rcases forward_cases hlinked x with
      ⟨first, rest, -, -, hres⟩ | ⟨-, -, hres⟩ | ⟨hlen, li', row', hover, hres⟩
    · rw [hres] at h
      cases h
    · rw [hres] at h
      cases h
    · rw [hres] at h
      cases h
      exact ⟨hlen, hover⟩
  · intro hyp
    exact forward_of_overflowsAt hlinked hyp.1 hyp.2

theorem fault_of_forward (hlinked : Linked net.layers) {fault : Fault}
    (h : forward net.layers x = .error fault) :
    (∃ got expected, fault = .error (.inputShape got expected)) ∨
      ∃ li row, fault = .error (.overflow li row) := by
  rcases forward_cases hlinked x with ⟨first, rest, -, -, hres⟩ | ⟨-, -, hres⟩ | ⟨-, li, row, -, hres⟩
  · exact .inl ⟨_, _, (Except.error.inj (hres.symm.trans h)).symm⟩
  · rw [hres] at h
    cases h
  · exact .inr ⟨li, row, (Except.error.inj (hres.symm.trans h)).symm⟩

/-- The kernel computes the exact function of the network, or names what stopped it. -/
theorem forward_exact (net : TernaryNetwork) (hlinked : Linked net.layers) (x : List Int64) :
    (∀ y, forward net.layers (x.map Int64.toInt) = .ok y →
      y = exactOutput net.layers (x.map Int64.toInt)) ∧
    (∀ got expected,
      forward net.layers (x.map Int64.toInt) = .error (.error (.inputShape got expected)) ↔
        ∃ first rest, net.layers = first :: rest ∧ x.length ≠ first.inputDim ∧
          got = x.length ∧ expected = first.inputDim) ∧
    (∀ li row, forward net.layers (x.map Int64.toInt) = .error (.error (.overflow li row)) ↔
      Accepts net.layers x.length ∧ OverflowsAt net.layers (x.map Int64.toInt) li row) ∧
    (∀ fault, forward net.layers (x.map Int64.toInt) = .error fault →
      (∃ got expected, fault = .error (.inputShape got expected)) ∨
        ∃ li row, fault = .error (.overflow li row)) := by
  have hlen : (x.map Int64.toInt).length = x.length := List.length_map _
  have hshape := fun got expected =>
    @forward_inputShape_iff net (x.map Int64.toInt) hlinked got expected
  have hover := fun li row => @forward_overflow_iff net (x.map Int64.toInt) hlinked li row
  rw [hlen] at hshape hover
  exact ⟨fun y => eq_exactOutput_of_forward hlinked, hshape, hover, fun fault => fault_of_forward hlinked⟩

/-- A first row of zeros, then the largest bias plus the input. -/
def brimNetwork : TernaryNetwork where
  header := ⟨1, "brim", 1, 2, List.Vector.replicate 32 0, List.Vector.replicate 64 0⟩
  layers := [⟨1, 1, [[0]], [[]], [0], true⟩, ⟨1, 2, [[], [0]], [[0], []], [0, Int64.maxValue], false⟩]
  wellFormed := by decide

/-- One more than the largest bias overflows in the second row of the second layer. -/
theorem forward_exact_brim :
    forward brimNetwork.layers ([1].map Int64.toInt) = .error (.error (.overflow 1 1)) := by
  apply ((forward_exact brimNetwork (by decide) [1]).2.2.1 1 1).mpr
  refine ⟨by simp [Accepts, brimNetwork], [⟨1, 1, [[0]], [[]], [0], true⟩],
    ⟨1, 2, [[], [0]], [[0], []], [0, Int64.maxValue], false⟩, [], rfl, rfl, ?_, ?_⟩
  · exact ⟨by decide, trivial⟩
  · exact ⟨by decide, by decide, by decide⟩

end Kernel

end PslBank.Ternary
