import PslBank.Primitives.Ledger
import PslBank.Lib.ExchangeSort

/-!
# Account deltas in canonical order

`docs/archive/primitives/mpt_apply_delta.c`: up to eight pairs of an account index and a record
are read, the slots are sorted by index, and the pairs are printed in that order. What is
hashed from the output must not depend on the order of the input.
-/
namespace PslBank.Primitives.MptApplyDelta

open PslBank.Lib PslBank.Crypto

set_option autoImplicit false

def maxPairs : ℤ := 8

/-- The loop that fills `g_indices` and `g_records`. -/
def readPairs : ℕ → Bytes → Except Undefined (List (ℤ × Bytes))
  | 0, _ => .ok []
  | n + 1, p => do
      let (idx, p) ← parseNext p
      let (record, p) ← parseBytes 64 p
      let rest ← readPairs n p
      return (idx, record) :: rest

/-- One pair after another one, or after nothing. -/
def printPairs : List (ℤ × Bytes) → Bool → Bytes
  | [], _ => []
  | (idx, record) :: rest, first =>
      (if first then printInt idx else 32 :: printInt idx) ++ spaced (nums record) ++ printPairs rest false

def compute (input : Bytes) : Except Undefined Bytes := do
  let n ← scanOne input
  let n := if n < 0 then 0 else if maxPairs < n then maxPairs else n
  let pairs ← readPairs n.toNat (skipDecimals 1 input)
  let slot := fun i => pairs.getD i (0, [])
  let order := exchangeSort (fun i => (slot i).1) (List.range pairs.length)
  return printPairs (order.map slot) true ++ [10]

/-! ## Pairs on the wire -/

/-- A pair as the wire carries it. -/
abbrev Delta := ℕ × ByteArr 64

def Delta.nums (d : Delta) : List ℕ := d.1 :: Primitives.nums d.2.toList

/-- The pair as it is read. -/
def Delta.pair (d : Delta) : ℤ × Bytes := (d.1, d.2.toList)

def deltaNums (ds : List Delta) : List ℕ := ds.flatMap Delta.nums

def deltaWire (ds : List Delta) : Bytes := wire (ds.length :: deltaNums ds)

theorem readPairs_eq (n : ℕ) (ds : List Delta) (hn : n ≤ ds.length) (hidx : ∀ d ∈ ds, d.1 < 2 ^ 31) :
    readPairs n (spaced (deltaNums ds)) = .ok ((ds.take n).map Delta.pair) := by
  induction n generalizing ds with
  | zero => rfl
  | succ n ih =>
    cases ds with
    | nil => exact absurd hn (by simp)
    | cons d ds =>
      obtain ⟨idx, record⟩ := d
      have htail : NoDigit (spaced (deltaNums ds)) := by simpa using noDigit_spaced (deltaNums ds) noDigit_nil
      have hsplit : spaced (deltaNums ((idx, record) :: ds)) =
          32 :: (decimal idx ++ (spaced (nums record.toList) ++ spaced (deltaNums ds))) := by
        show spaced ((idx :: nums record.toList) ++ deltaNums ds) = _
        rw [spaced_append]
        show (32 :: (decimal idx ++ spaced (nums record.toList))) ++ spaced (deltaNums ds) = _
        rw [List.cons_append, List.append_assoc]
      have hfirst : parseNext (spaced (deltaNums ((idx, record) :: ds))) =
          .ok ((idx : ℤ), spaced (nums record.toList) ++ spaced (deltaNums ds)) := by
        rw [hsplit, parseNext_blank,
          parseNext_decimal (hidx _ List.mem_cons_self) (noDigit_spaced (nums record.toList) htail)]
      have hsecond := parseBytes_spaced record.toList htail
      rw [record.toList_length] at hsecond
      have hrest := ih ds (Nat.le_of_succ_le_succ hn) fun d hd => hidx d (List.mem_cons_of_mem _ hd)
      refine bind_eq_ok_iff.mpr ⟨_, hfirst, bind_eq_ok_iff.mpr ⟨_, hsecond, bind_eq_ok_iff.mpr
        ⟨_, hrest, ?_⟩⟩⟩
      rfl

theorem printPairs_spaced (ds : List Delta) : printPairs (ds.map Delta.pair) false = spaced (deltaNums ds) := by
  induction ds with
  | nil => rfl
  | cons d ds ih =>
    show (32 :: printInt (d.1 : ℤ)) ++ spaced (nums d.2.toList) ++ printPairs (ds.map Delta.pair) false = _
    rw [ih, printInt_natCast]
    show (32 :: decimal d.1) ++ spaced (nums d.2.toList) ++ spaced (deltaNums ds) =
      spaced ((d.1 :: nums d.2.toList) ++ deltaNums ds)
    rw [spaced_append]
    rfl

theorem printPairs_wire (ds : List Delta) : printPairs (ds.map Delta.pair) true = wire (deltaNums ds) := by
  cases ds with
  | nil => rfl
  | cons d ds =>
    show printInt (d.1 : ℤ) ++ spaced (nums d.2.toList) ++ printPairs (ds.map Delta.pair) false = _
    rw [printPairs_spaced, printInt_natCast]
    show decimal d.1 ++ spaced (nums d.2.toList) ++ spaced (deltaNums ds) =
      decimal d.1 ++ spaced (nums d.2.toList ++ deltaNums ds)
    rw [spaced_append, List.append_assoc]

/-! ## The order of the output -/

/-- The deltas in the order of the slots. -/
def sortedDeltas (ds : List Delta) : List Delta :=
  (exchangeSort (fun i => (ds.map Delta.pair).getD i (0, []) |>.1) (List.range ds.length)).map fun i =>
    ds.getD i (0, List.Vector.replicate 64 0)

theorem map_range_getD {α : Type} (l : List α) (d : α) : (List.range l.length).map (fun i => l.getD i d) = l := by
  apply List.ext_getElem
  · simp
  · intro i hi hi'
    simp [hi']

theorem sortedDeltas_perm (ds : List Delta) : (sortedDeltas ds).Perm ds := by
  have hperm := (exchangeSort_perm (fun i => ((ds.map Delta.pair).getD i (0, [])).1)
    (List.range ds.length)).map fun i => ds.getD i (0, List.Vector.replicate 64 0)
  rwa [map_range_getD] at hperm

theorem getD_pair (ds : List Delta) {i : ℕ} (hi : i < ds.length) :
    (ds.map Delta.pair).getD i (0, []) = (ds.getD i (0, List.Vector.replicate 64 0)).pair := by
  rw [List.getD_eq_getElem _ _ (by simpa using hi), List.getD_eq_getElem _ _ hi, List.getElem_map]

theorem sortedDeltas_sorted (ds : List Delta) : (sortedDeltas ds).Pairwise fun d e => d.1 ≤ e.1 := by
  have hsorted := exchangeSort_sorted (fun i => ((ds.map Delta.pair).getD i (0, [])).1)
    (List.range ds.length)
  have hmem : ∀ i ∈ exchangeSort (fun i => ((ds.map Delta.pair).getD i (0, [])).1) (List.range ds.length),
      i < ds.length := by
    intro i hi
    exact List.mem_range.mp ((exchangeSort_perm _ _).mem_iff.mp hi)
  rw [sortedDeltas, List.pairwise_map]
  refine hsorted.imp_of_mem ?_
  intro i j hi hj hle
  rw [getD_pair ds (hmem i hi), getD_pair ds (hmem j hj)] at hle
  exact Int.ofNat_le.mp hle

theorem compute_deltas (ds : List Delta) (hn : ds.length < 2 ^ 31) (hidx : ∀ d ∈ ds, d.1 < 2 ^ 31) :
    compute (deltaWire ds) = .ok (wire (deltaNums (sortedDeltas (ds.take 8))) ++ [10]) := by
  have hscan := scanOne_wire hn (deltaNums ds)
  have hskip : skipDecimals 1 (deltaWire ds) = spaced (deltaNums ds) := skip_first _ _
  have hclamp : (if (ds.length : ℤ) < 0 then 0 else if maxPairs < (ds.length : ℤ) then maxPairs
      else ds.length).toNat = min ds.length 8 := by
    unfold maxPairs
    split
    · omega
    · split <;> omega
  have hread := readPairs_eq (min ds.length 8) ds (Nat.min_le_left _ _) hidx
  have htake : ds.take (min ds.length 8) = ds.take 8 := by
    rw [Nat.min_comm, ← List.take_take, List.take_length]
  rw [htake] at hread
  have hslots : ((exchangeSort (fun i => (((ds.take 8).map Delta.pair).getD i (0, [])).1)
      (List.range ((ds.take 8).map Delta.pair).length)).map fun i =>
        ((ds.take 8).map Delta.pair).getD i (0, [])) = (sortedDeltas (ds.take 8)).map Delta.pair := by
    rw [sortedDeltas, List.map_map, List.length_map]
    apply List.map_congr_left
    intro i hi
    exact getD_pair _ (List.mem_range.mp ((exchangeSort_perm _ _).mem_iff.mp hi))
  refine bind_eq_ok_iff.mpr ⟨_, hscan,
    bind_eq_ok_iff.mpr ⟨(ds.take 8).map Delta.pair, ?_, ?_⟩⟩
  · rw [hclamp, hskip]
    exact hread
  · show Except.ok (printPairs _ true ++ [10]) = _
    rw [hslots, printPairs_wire]

/-- The output is the first eight pairs in ascending order of the index, each once; and pairs with
different indices are printed alike whatever order they are given in. -/
theorem apply_delta_canonical (ds : List Delta) (hn : ds.length < 2 ^ 31) (hidx : ∀ d ∈ ds, d.1 < 2 ^ 31) :
    (∃ es : List Delta, es.Perm (ds.take 8) ∧ (es.Pairwise fun d e => d.1 ≤ e.1) ∧
      compute (deltaWire ds) = .ok (wire (deltaNums es) ++ [10])) ∧
    ∀ ds' : List Delta, ds'.Perm ds → ds.length ≤ 8 → (ds.map Prod.fst).Nodup →
      compute (deltaWire ds') = compute (deltaWire ds) := by
  refine ⟨⟨_, sortedDeltas_perm _, sortedDeltas_sorted _, compute_deltas ds hn hidx⟩, ?_⟩
  intro ds' hperm hle hnodup
  have hlen : ds'.length = ds.length := hperm.length_eq
  rw [compute_deltas ds hn hidx, compute_deltas ds' (by omega) fun d hd => hidx d (hperm.mem_iff.mp hd),
    List.take_of_length_le hle, List.take_of_length_le (by omega)]
  have heq : sortedDeltas ds' = sortedDeltas ds := by
    have hsame : (sortedDeltas ds').Perm (sortedDeltas ds) :=
      ((sortedDeltas_perm ds').trans hperm).trans (sortedDeltas_perm ds).symm
    refine hsame.eq_of_pairwise ?_ (sortedDeltas_sorted ds') (sortedDeltas_sorted ds)
    -- one index, one delta
    intro d e hd he hde hed
    have hd' := (sortedDeltas_perm ds).mem_iff.mp (hsame.mem_iff.mp hd)
    have he' := (sortedDeltas_perm ds).mem_iff.mp he
    exact List.inj_on_of_nodup_map hnodup hd' he' (Nat.le_antisymm hde hed)
  rw [heq]

/-- Two deltas in descending order. -/
theorem apply_delta_two : compute (deltaWire [(1, List.Vector.replicate 64 0), (2, List.Vector.replicate 64 9)]) =
    compute (deltaWire [(2, List.Vector.replicate 64 9), (1, List.Vector.replicate 64 0)]) :=
  (apply_delta_canonical [(2, List.Vector.replicate 64 9), (1, List.Vector.replicate 64 0)] (by decide)
    (by decide)).2 _ (List.Perm.swap _ _ _) (by decide) (by decide)

end PslBank.Primitives.MptApplyDelta
