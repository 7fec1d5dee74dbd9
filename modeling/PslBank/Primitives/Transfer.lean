import PslBank.Primitives.Ledger

/-!
# The transfer in pieces

`docs/archive/primitives/transfer_*.c`. A whole transfer ran too long a trace, so it was cut
into programs in several ways: text records are parsed to a slice that a second program computes on,
single fields are checked, debited, credited and counted on the wire or in raw bytes, one
program does all fields in raw bytes, and the scripts under `tools/` also go byte by byte. The
theorems compare every cut with one description of the fields a transfer writes.
-/
namespace PslBank.Primitives

open PslBank.Lib PslBank.Crypto PslBank.Sequencer

set_option autoImplicit false

/-! ## The stages on fields -/

/-- The branch of `transfer_sub`. -/
def subStage (success : ℤ) (fromBalance amount : Bytes) : Except Undefined Bytes :=
  if success ≠ 0 then do
    let (fromBalance, _) ← u128SubInplace fromBalance amount
    return fromBalance
  else .ok (List.replicate 16 0)

/-- The branch of `transfer_add`. -/
def addStage (success : ℤ) (toBalance amount : Bytes) : Except Undefined Bytes :=
  if success ≠ 0 then do
    let (toBalance, _) ← u128AddInplace toBalance amount
    return toBalance
  else .ok (List.replicate 16 0)

/-- The branch of `transfer_nonce`. -/
def nonceStage (success : ℤ) (fromNonce : Bytes) : Bytes :=
  if success ≠ 0 then u64IncInplace fromNonce else List.replicate 8 0

/-- The branch of `transfer_balance`. -/
def balanceStage (success : ℤ) (fromBalance toBalance amount : Bytes) : Except Undefined (Bytes × Bytes) :=
  if success ≠ 0 then do
    let (fromBalance, _) ← u128SubInplace fromBalance amount
    let (toBalance, _) ← u128AddInplace toBalance amount
    return (fromBalance, toBalance)
  else .ok (List.replicate 16 0, List.replicate 16 0)

/-- The branch of `transfer_compute` and `transfer_binary`: all three fields. -/
def fieldsStage (success : ℤ) (fromBalance toBalance amount fromNonce : Bytes) :
    Except Undefined (Bytes × Bytes × Bytes) :=
  if success ≠ 0 then do
    let (fromBalance, _) ← u128SubInplace fromBalance amount
    let (toBalance, _) ← u128AddInplace toBalance amount
    return (fromBalance, toBalance, u64IncInplace fromNonce)
  else .ok (List.replicate 16 0, List.replicate 16 0, List.replicate 8 0)

/-! ## The programs in decimal text -/

namespace TransferSub

def compute (input : Bytes) : Except Undefined Bytes := do
  let (success, p) ← parseNext input
  let (fromBalance, p) ← parseBytes 16 p
  let (amount, _) ← parseBytes 16 p
  let fromBalance ← subStage success fromBalance amount
  return printBytes fromBalance ++ [10]

end TransferSub

namespace TransferAdd

def compute (input : Bytes) : Except Undefined Bytes := do
  let (success, p) ← parseNext input
  let (toBalance, p) ← parseBytes 16 p
  let (amount, _) ← parseBytes 16 p
  let toBalance ← addStage success toBalance amount
  return printBytes toBalance ++ [10]

end TransferAdd

namespace TransferNonce

def compute (input : Bytes) : Except Undefined Bytes := do
  let (success, p) ← parseNext input
  let (fromNonce, _) ← parseBytes 8 p
  return printBytes (nonceStage success fromNonce) ++ [10]

end TransferNonce

namespace TransferBalance

def compute (input : Bytes) : Except Undefined Bytes := do
  let (success, p) ← parseNext input
  let (fromBalance, p) ← parseBytes 16 p
  let (toBalance, p) ← parseBytes 16 p
  let (amount, _) ← parseBytes 16 p
  let (fromBalance, toBalance) ← balanceStage success fromBalance toBalance amount
  return printBytes fromBalance ++ spaced (nums toBalance) ++ [10]

end TransferBalance

namespace TransferParse

def compute (input : Bytes) : Except Undefined Bytes := do
  let (epoch, p) ← parseNext input
  let (fromAcc, p) ← parseBytes 64 p
  let (toAcc, p) ← parseBytes 64 p
  let (amount, _) ← parseBytes 16 p
  let epochLo := epoch % 256
  let frozen : ℤ := if fromAcc.getD 47 0 &&& 0x80 ≠ 0 then 1 else 0
  return printInt epochLo ++ 32 :: printInt frozen ++ spaced (nums (slice fromAcc 32 16)) ++
    spaced (nums (slice toAcc 32 16)) ++ spaced (nums amount) ++ spaced (nums (slice fromAcc 48 8)) ++
    -- the reserved bytes
    spaced [0, 0, 0] ++ [10]

end TransferParse

namespace TransferCompute

def compute (input : Bytes) : Except Undefined Bytes := do
  let (_, p) ← parseNext input
  let (frozen, p) ← parseNext p
  let (fromBalance, p) ← parseBytes 16 p
  let (toBalance, p) ← parseBytes 16 p
  let (amount, p) ← parseBytes 16 p
  let (fromNonce, _) ← parseBytes 8 p
  let hasBalance := u128Geq fromBalance amount
  let success : ℤ := if frozen = 0 ∧ hasBalance = true then 1 else 0
  let (fromBalance, toBalance, fromNonce) ← fieldsStage success fromBalance toBalance amount fromNonce
  return printInt success ++ spaced (nums fromBalance) ++ spaced (nums toBalance) ++
    spaced (nums fromNonce) ++ [10]

end TransferCompute

/-! ## The programs on raw bytes -/

namespace TransferCheckBinary

def compute (input : Bytes) : Except Undefined Bytes :=
  if input.length < 33 then .error .outOfBounds
  else
    let frozen := input.getD 0 0
    let hasBalance := u128Geq (slice input 1 16) (slice input 17 16)
    .ok [if frozen = 0 ∧ hasBalance = true then 1 else 0]

end TransferCheckBinary

namespace TransferSubBinary

def compute (input : Bytes) : Except Undefined Bytes :=
  if input.length < 33 then .error .outOfBounds
  else subStage (input.getD 0 0).toNat (slice input 1 16) (slice input 17 16)

end TransferSubBinary

namespace TransferAddBinary

def compute (input : Bytes) : Except Undefined Bytes :=
  if input.length < 33 then .error .outOfBounds
  else addStage (input.getD 0 0).toNat (slice input 1 16) (slice input 17 16)

end TransferAddBinary

namespace TransferNonceBinary

def compute (input : Bytes) : Except Undefined Bytes :=
  if input.length < 9 then .error .outOfBounds
  else .ok (nonceStage (input.getD 0 0).toNat (slice input 1 8))

end TransferNonceBinary

namespace TransferBinary

/-- The frozen bit is checked by the caller, in `success_in`. -/
def compute (input : Bytes) : Except Undefined Bytes :=
  if input.length < 57 then .error .outOfBounds
  else do
    let successIn := input.getD 0 0
    let hasBalance := u128Geq (slice input 1 16) (slice input 33 16)
    let successOut : UInt8 := if successIn ≠ 0 ∧ hasBalance = true then 1 else 0
    let (fromBalance, toBalance, fromNonce) ← fieldsStage successOut.toNat (slice input 1 16)
      (slice input 17 16) (slice input 33 16) (slice input 49 8)
    return successOut :: (fromBalance ++ (toBalance ++ fromNonce))

end TransferBinary

/-! ## The cuts of a transfer -/

/-- The fields a transfer reads; `make_witness` of the scripts. -/
structure TransferWitness where
  frozen : UInt8
  fromBalance : ByteArr 16
  toBalance : ByteArr 16
  amount : ByteArr 16
  fromNonce : ByteArr 8

namespace TransferWitness

variable (w : TransferWitness)

/-- `run_transfer_4stage_10k.py`: the flag of the check goes into the three other stages. -/
def fourStages : Except Undefined Bytes := do
  let success ← TransferCheckBinary.compute (w.frozen :: (w.fromBalance.toList ++ w.amount.toList))
  let newFrom ← TransferSubBinary.compute (success ++ (w.fromBalance.toList ++ w.amount.toList))
  let newTo ← TransferAddBinary.compute (success ++ (w.toBalance.toList ++ w.amount.toList))
  let newNonce ← TransferNonceBinary.compute (success ++ w.fromNonce.toList)
  return success ++ (newFrom ++ (newTo ++ newNonce))

/-- A program for one byte as a position of a chain. -/
def position (program : Bytes → Except Undefined Bytes) (a b flag : UInt8) :
    Except Undefined (UInt8 × UInt8) := do
  match ← program [a, b, flag] with
  | [byte, flag] => return (byte, flag)
  | _ => .error .outOfBounds

/-- `run_transfer_chain_10k.py`: the check stops nothing, all positions run. -/
def byteStages : Except Undefined Bytes := do
  let ok ← TransferCheck.compute (w.fromBalance.toList ++ w.amount.toList)
  let (newFrom, _) ← chain (position ByteSubWithBorrow.compute) w.fromBalance.toList w.amount.toList 0
  let (newTo, _) ← chain (position ByteAddWithCarry.compute) w.toBalance.toList w.amount.toList 0
  let newNonce ← TransferFinalize.compute w.fromNonce.toList
  return ok ++ (newFrom ++ (newTo ++ newNonce))

/-- `int.to_bytes(len, "little")`; `none` is an `OverflowError`. -/
def intToBytes (n len : ℕ) : Option Bytes := if n < 256 ^ len then some (toLe len n) else none

/-- `native_results`, what the scripts compare the stages with. -/
def nativeResults : Option Bytes :=
  let fromInt := leNat w.fromBalance.toList
  let toInt := leNat w.toBalance.toList
  let amtInt := leNat w.amount.toList
  let nonceInt := leNat w.fromNonce.toList
  if w.frozen = 0 ∧ amtInt ≤ fromInt then do
    let newFrom ← intToBytes (fromInt - amtInt) 16
    let newTo ← intToBytes (toInt + amtInt) 16
    let newNonce ← intToBytes (nonceInt + 1) 8
    return 1 :: (newFrom ++ (newTo ++ newNonce))
  else some (0 :: (List.replicate 16 0 ++ (List.replicate 16 0 ++ List.replicate 8 0)))

end TransferWitness

/-! ## What a transfer writes -/

/-- The flag, both balances and the nonce. -/
structure TransferFields where
  success : UInt8
  fromBalance : Bytes
  toBalance : Bytes
  fromNonce : Bytes

/-- The fields one after the other. -/
def TransferFields.bytes (r : TransferFields) : Bytes :=
  r.success :: (r.fromBalance ++ (r.toBalance ++ r.fromNonce))

/-- The fields written into two records; zeros for a refused transfer. -/
def TransferFields.apply (r : TransferFields) (a b : Account) (epoch : UInt32) : Bytes :=
  if r.success = 0 then List.replicate 128 0
  else splice (splice (splice a.bytes.toList 32 r.fromBalance) 48 r.fromNonce) 56 (toLe 8 epoch.toNat) ++
    splice (splice b.bytes.toList 32 r.toBalance) 56 (toLe 8 epoch.toNat)

namespace TransferWitness

variable (w : TransferWitness)

/-- The condition on a transfer. -/
def Accepted : Prop := w.frozen = 0 ∧ leNat w.amount.toList ≤ leNat w.fromBalance.toList

instance : Decidable w.Accepted := inferInstanceAs (Decidable (_ ∧ _))

/-- The fields after a transfer. A sum wraps at the width of its field. -/
def fields : TransferFields :=
  if w.Accepted then
    { success := 1
      fromBalance := toLe 16 (leNat w.fromBalance.toList - leNat w.amount.toList)
      toBalance := toLe 16 (leNat w.toBalance.toList + leNat w.amount.toList)
      fromNonce := toLe 8 (leNat w.fromNonce.toList + 1) }
  else
    { success := 0
      fromBalance := List.replicate 16 0
      toBalance := List.replicate 16 0
      fromNonce := List.replicate 8 0 }

/-! ## The stages -/

theorem success_eq : w.fields.success = if w.Accepted then 1 else 0 := by
  unfold fields
  split <;> rfl

theorem geq_eq : (u128Geq w.fromBalance.toList w.amount.toList = true) ↔
    leNat w.amount.toList ≤ leNat w.fromBalance.toList := by
  rw [geqLoop_reverse _ _ (by rw [w.fromBalance.toList_length, w.amount.toList_length]), decide_eq_true_iff]

theorem sub_eq (h : w.Accepted) : u128SubInplace w.fromBalance.toList w.amount.toList =
    .ok (toLe 16 (leNat w.fromBalance.toList - leNat w.amount.toList), 0) :=
  u128SubInplace_eq w.fromBalance.toList_length w.amount.toList_length h.2

theorem add_eq : u128AddInplace w.toBalance.toList w.amount.toList =
    .ok (toLe 16 (leNat w.toBalance.toList + leNat w.amount.toList),
      if 2 ^ 128 ≤ leNat w.toBalance.toList + leNat w.amount.toList then 1 else 0) :=
  u128AddInplace_eq w.toBalance.toList_length w.amount.toList_length

theorem inc_eq : u64IncInplace w.fromNonce.toList = toLe 8 (leNat w.fromNonce.toList + 1) := by
  rw [u64IncInplace_eq, w.fromNonce.toList_length]

theorem subStage_eq : subStage (w.fields.success.toNat : ℕ) w.fromBalance.toList w.amount.toList =
    .ok w.fields.fromBalance := by
  by_cases h : w.Accepted
  · rw [fields, if_pos h]
    show (u128SubInplace _ _ >>= _) = _
    rw [w.sub_eq h]
    rfl
  · rw [fields, if_neg h]
    rfl

theorem addStage_eq : addStage (w.fields.success.toNat : ℕ) w.toBalance.toList w.amount.toList =
    .ok w.fields.toBalance := by
  by_cases h : w.Accepted
  · rw [fields, if_pos h]
    show (u128AddInplace _ _ >>= _) = _
    rw [w.add_eq]
    rfl
  · rw [fields, if_neg h]
    rfl

theorem nonceStage_eq : nonceStage (w.fields.success.toNat : ℕ) w.fromNonce.toList = w.fields.fromNonce := by
  by_cases h : w.Accepted
  · rw [fields, if_pos h]
    exact w.inc_eq
  · rw [fields, if_neg h]
    rfl

/-- The program for both balances is the two programs one after the other. -/
theorem balanceStage_cut (success : ℤ) (fromBalance toBalance amount : Bytes) :
    balanceStage success fromBalance toBalance amount = (do
      let fromBalance ← subStage success fromBalance amount
      let toBalance ← addStage success toBalance amount
      return (fromBalance, toBalance)) := by
  unfold balanceStage subStage addStage
  split
  · simp only [bind_assoc, pure_bind]
  · rfl

/-- The program for all fields is the three programs one after the other. -/
theorem fieldsStage_cut (success : ℤ) (fromBalance toBalance amount fromNonce : Bytes) :
    fieldsStage success fromBalance toBalance amount fromNonce = (do
      let (fromBalance, toBalance) ← balanceStage success fromBalance toBalance amount
      return (fromBalance, toBalance, nonceStage success fromNonce)) := by
  unfold fieldsStage balanceStage nonceStage
  split
  · simp only [bind_assoc, pure_bind]
  · rfl

theorem balanceStage_eq : balanceStage (w.fields.success.toNat : ℕ) w.fromBalance.toList
    w.toBalance.toList w.amount.toList = .ok (w.fields.fromBalance, w.fields.toBalance) := by
  rw [balanceStage_cut, w.subStage_eq, w.addStage_eq]
  rfl

theorem fieldsStage_eq : fieldsStage (w.fields.success.toNat : ℕ) w.fromBalance.toList w.toBalance.toList
    w.amount.toList w.fromNonce.toList =
      .ok (w.fields.fromBalance, w.fields.toBalance, w.fields.fromNonce) := by
  rw [fieldsStage_cut, w.balanceStage_eq, w.nonceStage_eq]
  rfl

/-! ## The programs on raw bytes -/

/-- A flag and two fields of sixteen bytes. -/
theorem slices_pair (flag : UInt8) (x y : ByteArr 16) :
    (flag :: (x.toList ++ y.toList)).length = 33 ∧ slice (flag :: (x.toList ++ y.toList)) 1 16 = x.toList ∧
      slice (flag :: (x.toList ++ y.toList)) 17 16 = y.toList := by
  refine ⟨?_, ?_, ?_⟩
  · rw [List.length_cons, List.length_append, x.toList_length, y.toList_length]
  · exact @slice_middle [flag] _ 1 16 rfl x.toList_length y.toList
  · have hfront : (flag :: x.toList).length = 17 := by rw [List.length_cons, x.toList_length]
    have hslice := slice_middle hfront y.toList_length []
    rwa [List.append_nil] at hslice

theorem compute_checkBinary : TransferCheckBinary.compute
    (w.frozen :: (w.fromBalance.toList ++ w.amount.toList)) = .ok [w.fields.success] := by
  obtain ⟨hlen, hfrom, hamount⟩ := slices_pair w.frozen w.fromBalance w.amount
  have hcond : (w.frozen = 0 ∧ u128Geq w.fromBalance.toList w.amount.toList = true) ↔ w.Accepted :=
    and_congr_right fun _ => w.geq_eq
  rw [TransferCheckBinary.compute, if_neg (by omega), hfrom, hamount, w.success_eq]
  exact congrArg (fun success => Except.ok [success]) (if_congr hcond rfl rfl)

theorem compute_subBinary : TransferSubBinary.compute
    (w.fields.success :: (w.fromBalance.toList ++ w.amount.toList)) = .ok w.fields.fromBalance := by
  obtain ⟨hlen, hfrom, hamount⟩ := slices_pair w.fields.success w.fromBalance w.amount
  rw [TransferSubBinary.compute, if_neg (by omega), hfrom, hamount]
  exact w.subStage_eq

theorem compute_addBinary : TransferAddBinary.compute
    (w.fields.success :: (w.toBalance.toList ++ w.amount.toList)) = .ok w.fields.toBalance := by
  obtain ⟨hlen, hto, hamount⟩ := slices_pair w.fields.success w.toBalance w.amount
  rw [TransferAddBinary.compute, if_neg (by omega), hto, hamount]
  exact w.addStage_eq

theorem compute_nonceBinary : TransferNonceBinary.compute (w.fields.success :: w.fromNonce.toList) =
    .ok w.fields.fromNonce := by
  have hlen : (w.fields.success :: w.fromNonce.toList).length = 9 := by
    rw [List.length_cons, w.fromNonce.toList_length]
  have hnonce : slice (w.fields.success :: w.fromNonce.toList) 1 8 = w.fromNonce.toList := by
    have hslice := @slice_middle [w.fields.success] _ 1 8 rfl w.fromNonce.toList_length []
    rwa [List.append_nil] at hslice
  rw [TransferNonceBinary.compute, if_neg (by omega), hnonce]
  exact congrArg Except.ok w.nonceStage_eq

/-- The caller's check of the frozen bit. -/
def successIn : UInt8 := if w.frozen = 0 then 1 else 0

/-- The input of `transfer_binary`. -/
def binaryInput : Bytes :=
  w.successIn ::
    (w.fromBalance.toList ++ (w.toBalance.toList ++ (w.amount.toList ++ w.fromNonce.toList)))

theorem compute_binary : TransferBinary.compute w.binaryInput = .ok w.fields.bytes := by
  have hfrom := w.fromBalance.toList_length
  have hto := w.toBalance.toList_length
  have hamount := w.amount.toList_length
  have hnonce := w.fromNonce.toList_length
  have hlen : w.binaryInput.length = 57 := by
    simp only [binaryInput, List.length_cons, List.length_append, hfrom, hto, hamount, hnonce]
  have h1 : slice w.binaryInput 1 16 = w.fromBalance.toList := @slice_middle [w.successIn] _ 1 16 rfl hfrom _
  have h17 : slice w.binaryInput 17 16 = w.toBalance.toList :=
    @slice_middle (w.successIn :: w.fromBalance.toList) _ 17 16 (by rw [List.length_cons, hfrom]) hto _
  have h33 : slice w.binaryInput 33 16 = w.amount.toList := by
    have hslice := @slice_middle (w.successIn :: (w.fromBalance.toList ++ w.toBalance.toList)) _ 33 16
      (by rw [List.length_cons, List.length_append, hfrom, hto]) hamount w.fromNonce.toList
    rwa [List.cons_append, List.append_assoc] at hslice
  have h49 : slice w.binaryInput 49 8 = w.fromNonce.toList := by
    have hslice := @slice_middle (w.successIn :: (w.fromBalance.toList ++ (w.toBalance.toList ++ w.amount.toList))) _
      49 8 (by simp only [List.length_cons, List.length_append, hfrom, hto, hamount]) hnonce []
    rwa [List.append_nil, List.cons_append, List.append_assoc, List.append_assoc] at hslice
  have hsuccess : (if w.binaryInput.getD 0 0 ≠ 0 ∧ u128Geq w.fromBalance.toList w.amount.toList = true
      then (1 : UInt8) else 0) = w.fields.success := by
    have hfrozen : w.binaryInput.getD 0 0 ≠ 0 ↔ w.frozen = 0 := by
      show w.successIn ≠ 0 ↔ _
      by_cases hzero : w.frozen = 0
      · simp [successIn, hzero]
      · simp [successIn, hzero]
    rw [w.success_eq]
    exact if_congr (and_congr hfrozen w.geq_eq) rfl rfl
  rw [TransferBinary.compute, if_neg (by omega), h1, h17, h33, h49]
  simp only [hsuccess]
  rw [w.fieldsStage_eq]
  rfl

theorem fourStages_eq : w.fourStages = .ok w.fields.bytes := by
  refine bind_eq_ok_iff.mpr ⟨_, w.compute_checkBinary, bind_eq_ok_iff.mpr ⟨_, w.compute_subBinary,
    bind_eq_ok_iff.mpr ⟨_, w.compute_addBinary, bind_eq_ok_iff.mpr ⟨_, w.compute_nonceBinary, rfl⟩⟩⟩⟩

/-! ## Byte by byte -/

theorem fullAdder_position : FullAdder (position ByteAddWithCarry.compute) := by
  intro a b c hc
  rw [position, compute_add a b c hc]
  rfl

theorem fullSubtractor_position : FullSubtractor (position ByteSubWithBorrow.compute) := by
  intro m s b hb
  rw [position, compute_sub m s b hb]
  rfl

/-- All positions run, so a short balance gives its difference from `2 ^ 128`, and the frozen
bit plays no part. -/
theorem byteStages_eq : w.byteStages =
    .ok ((if leNat w.amount.toList ≤ leNat w.fromBalance.toList then 1 else 0) ::
      (toLe 16 (leNat w.fromBalance.toList + 2 ^ 128 - leNat w.amount.toList) ++
        (toLe 16 (leNat w.toBalance.toList + leNat w.amount.toList) ++
          toLe 8 (leNat w.fromNonce.toList + 1)))) := by
  have hcheck := compute_check _ _ w.fromBalance.toList_length w.amount.toList_length
  have hsub := fullSubtractor_position.chain_zero w.fromBalance.toList w.amount.toList
    (by rw [w.fromBalance.toList_length, w.amount.toList_length])
  have hadd := fullAdder_position.chain_zero w.toBalance.toList w.amount.toList
    (by rw [w.toBalance.toList_length, w.amount.toList_length])
  have hfinalize := compute_finalize _ w.fromNonce.toList_length
  rw [w.fromBalance.toList_length] at hsub
  rw [w.toBalance.toList_length] at hadd
  exact bind_eq_ok_iff.mpr ⟨_, hcheck, bind_eq_ok_iff.mpr ⟨_, hsub, bind_eq_ok_iff.mpr ⟨_, hadd,
    bind_eq_ok_iff.mpr ⟨_, hfinalize, rfl⟩⟩⟩⟩

/-- The stages for single bytes give the fields of the transfer only where it is accepted. -/
theorem byteStages_iff : w.byteStages = .ok w.fields.bytes ↔ w.Accepted := by
  have hfrom := leNat_lt w.fromBalance.toList
  have hamount := leNat_lt w.amount.toList
  rw [w.fromBalance.toList_length] at hfrom
  rw [w.amount.toList_length] at hamount
  rw [w.byteStages_eq, fields]
  by_cases h : w.Accepted
  · have hshift : toLe 16 (leNat w.fromBalance.toList + 2 ^ 128 - leNat w.amount.toList) =
        toLe 16 (leNat w.fromBalance.toList - leNat w.amount.toList) := by
      have hle := h.2
      apply toLe_congr
      have hsum : leNat w.fromBalance.toList + 2 ^ 128 - leNat w.amount.toList =
          (leNat w.fromBalance.toList - leNat w.amount.toList) + 256 ^ 16 := by omega
      rw [hsum, Nat.add_mod_right]
    rw [if_pos h, if_pos h.2, hshift]
    exact iff_of_true rfl h
  · rw [if_neg h]
    refine iff_of_false (fun heq => h ?_) h
    obtain ⟨hflag, hrest⟩ := List.cons.inj (Except.ok.inj heq)
    obtain ⟨hdiff, -⟩ := List.append_inj hrest (by rw [length_toLe, List.length_replicate])
    have hshort : ¬ leNat w.amount.toList ≤ leNat w.fromBalance.toList := by
      intro hle
      rw [if_pos hle] at hflag
      exact absurd hflag (by decide)
    -- the difference of a short balance is not zero
    have hvalue : leNat (toLe 16 (leNat w.fromBalance.toList + 2 ^ 128 - leNat w.amount.toList)) = 0 :=
      congrArg leNat hdiff
    rw [leNat_toLe_of_lt (by omega)] at hvalue
    omega

/-! ## The comparison of the scripts -/

/-- Both sums fit their fields. -/
def Fits : Prop :=
  leNat w.toBalance.toList + leNat w.amount.toList < 2 ^ 128 ∧ leNat w.fromNonce.toList + 1 < 2 ^ 64

instance : Decidable w.Fits := inferInstanceAs (Decidable (_ ∧ _))

/-- The results of the scripts are the fields, but for sums that wrap: there Python raises. -/
theorem nativeResults_eq :
    w.nativeResults = if w.Accepted → w.Fits then some w.fields.bytes else none := by
  have hfrom := leNat_lt w.fromBalance.toList
  rw [w.fromBalance.toList_length] at hfrom
  unfold nativeResults
  by_cases h : w.Accepted
  · have hdiff : intToBytes (leNat w.fromBalance.toList - leNat w.amount.toList) 16 =
        some (toLe 16 (leNat w.fromBalance.toList - leNat w.amount.toList)) := if_pos (by omega)
    rw [fields, if_pos h, if_pos (show w.frozen = 0 ∧ _ from h), hdiff]
    by_cases hfits : w.Fits
    · have hsum : intToBytes (leNat w.toBalance.toList + leNat w.amount.toList) 16 = some _ :=
        if_pos hfits.1
      have hnonce : intToBytes (leNat w.fromNonce.toList + 1) 8 = some _ := if_pos hfits.2
      rw [if_pos (fun _ => hfits), hsum, hnonce]
      rfl
    · rw [if_neg (fun himp => hfits (himp h))]
      by_cases hsum : leNat w.toBalance.toList + leNat w.amount.toList < 2 ^ 128
      · have hnonce : intToBytes (leNat w.fromNonce.toList + 1) 8 = none :=
          if_neg fun hlt => hfits ⟨hsum, hlt⟩
        rw [hnonce]
        cases intToBytes (leNat w.toBalance.toList + leNat w.amount.toList) 16 <;> rfl
      · have hover : intToBytes (leNat w.toBalance.toList + leNat w.amount.toList) 16 = none :=
          if_neg hsum
        rw [hover]
        rfl
  · rw [fields, if_neg h, if_neg (show ¬ (w.frozen = 0 ∧ _) from h), if_pos (fun hok => absurd hok h)]
    rfl

/-! ## The programs in text -/

theorem parse_field {bs : Bytes} {n : ℕ} (hlen : bs.length = n) (rest : Bytes) :
    parseBytes n (spaced (nums (bs ++ rest))) = .ok (bs, spaced (nums rest)) := by
  rw [← hlen]
  exact parseBytes_field bs rest

theorem parse_last {bs : Bytes} {n : ℕ} (hlen : bs.length = n) :
    parseBytes n (spaced (nums bs)) = .ok (bs, []) := by
  have hparse := parse_field hlen []
  rwa [List.append_nil] at hparse

theorem success_lt : w.fields.success.toNat < 2 ^ 31 := by
  have hlt := w.fields.success.toNat_lt
  omega

theorem compute_sub_text : TransferSub.compute
    (wire (w.fields.success.toNat :: nums (w.fromBalance.toList ++ w.amount.toList))) =
      .ok (printBytes w.fields.fromBalance ++ [10]) :=
  bind_eq_ok_iff.mpr ⟨_, parseNext_wire w.success_lt _,
    bind_eq_ok_iff.mpr ⟨_, parse_field w.fromBalance.toList_length _,
      bind_eq_ok_iff.mpr ⟨_, parse_last w.amount.toList_length,
        bind_eq_ok_iff.mpr ⟨_, w.subStage_eq, rfl⟩⟩⟩⟩

theorem compute_add_text : TransferAdd.compute
    (wire (w.fields.success.toNat :: nums (w.toBalance.toList ++ w.amount.toList))) =
      .ok (printBytes w.fields.toBalance ++ [10]) :=
  bind_eq_ok_iff.mpr ⟨_, parseNext_wire w.success_lt _,
    bind_eq_ok_iff.mpr ⟨_, parse_field w.toBalance.toList_length _,
      bind_eq_ok_iff.mpr ⟨_, parse_last w.amount.toList_length,
        bind_eq_ok_iff.mpr ⟨_, w.addStage_eq, rfl⟩⟩⟩⟩

theorem compute_nonce_text : TransferNonce.compute
    (wire (w.fields.success.toNat :: nums w.fromNonce.toList)) =
      .ok (printBytes w.fields.fromNonce ++ [10]) := by
  refine bind_eq_ok_iff.mpr ⟨_, parseNext_wire w.success_lt _,
    bind_eq_ok_iff.mpr ⟨_, parse_last w.fromNonce.toList_length, ?_⟩⟩
  rw [← w.nonceStage_eq]
  rfl

theorem compute_balance_text : TransferBalance.compute
    (wire (w.fields.success.toNat ::
      nums (w.fromBalance.toList ++ (w.toBalance.toList ++ w.amount.toList)))) =
        .ok (printBytes w.fields.fromBalance ++ spaced (nums w.fields.toBalance) ++ [10]) :=
  bind_eq_ok_iff.mpr ⟨_, parseNext_wire w.success_lt _,
    bind_eq_ok_iff.mpr ⟨_, parse_field w.fromBalance.toList_length _,
      bind_eq_ok_iff.mpr ⟨_, parse_field w.toBalance.toList_length _,
        bind_eq_ok_iff.mpr ⟨_, parse_last w.amount.toList_length,
          bind_eq_ok_iff.mpr ⟨_, w.balanceStage_eq, rfl⟩⟩⟩⟩⟩

/-- The 61 numbers `transfer_parse` hands to `transfer_compute`. -/
def sliceNums (epochLo : ℕ) : List ℕ :=
  epochLo :: w.frozen.toNat :: nums (w.fromBalance.toList ++ (w.toBalance.toList ++
    (w.amount.toList ++ (w.fromNonce.toList ++ [0, 0, 0]))))

theorem compute_compute {epochLo : ℕ} (hepoch : epochLo < 2 ^ 31) :
    TransferCompute.compute (wire (w.sliceNums epochLo)) = .ok (printBytes w.fields.bytes ++ [10]) := by
  have hfrozen := w.frozen.toNat_lt
  have hsuccess : (if (w.frozen.toNat : ℤ) = 0 ∧ u128Geq w.fromBalance.toList w.amount.toList = true
      then (1 : ℤ) else 0) = (w.fields.success.toNat : ℕ) := by
    have hzero : (w.frozen.toNat : ℤ) = 0 ↔ w.frozen = 0 := by
      rw [Nat.cast_eq_zero]
      exact UInt8.toNat_inj (b := 0)
    rw [w.success_eq]
    by_cases h : w.Accepted
    · rw [if_pos h, if_pos ⟨hzero.mpr h.1, w.geq_eq.mpr h.2⟩]
      rfl
    · rw [if_neg h, if_neg fun hboth => h ⟨hzero.mp hboth.1, w.geq_eq.mp hboth.2⟩]
      rfl
  refine bind_eq_ok_iff.mpr ⟨_, parseNext_wire hepoch _,
    bind_eq_ok_iff.mpr ⟨_, parseNext_spaced (by omega) _,
      bind_eq_ok_iff.mpr ⟨_, parse_field w.fromBalance.toList_length _,
        bind_eq_ok_iff.mpr ⟨_, parse_field w.toBalance.toList_length _,
          bind_eq_ok_iff.mpr ⟨_, parse_field w.amount.toList_length _,
            bind_eq_ok_iff.mpr ⟨_, parse_field w.fromNonce.toList_length _, ?_⟩⟩⟩⟩⟩⟩
  have hprint : printInt (w.fields.success.toNat : ℕ) ++ spaced (nums w.fields.fromBalance) ++
      spaced (nums w.fields.toBalance) ++ spaced (nums w.fields.fromNonce) =
        printBytes w.fields.bytes := by
    show _ = decimal w.fields.success.toNat ++ spaced (nums (_ ++ (_ ++ _)))
    rw [printInt_natCast, nums_append, nums_append, spaced_append, spaced_append, List.append_assoc,
      List.append_assoc]
  simp only [hsuccess]
  rw [w.fieldsStage_eq, ← hprint]
  rfl

/-! ## All cuts -/

/-- A field of a record. -/
def field (a : Account) (off len : ℕ) (h : off + len ≤ 64) : ByteArr len :=
  ⟨a.read off len, a.length_read h⟩

/-- What `transfer_parse` extracts. -/
def ofRecords (a b : Account) (amount : ByteArr 16) : TransferWitness where
  frozen := if a.isFrozen then 1 else 0
  fromBalance := field a 32 16 (by decide)
  toBalance := field b 32 16 (by decide)
  amount := amount
  fromNonce := field a 48 8 (by decide)

section Records

variable (a b : Account) (amount : ByteArr 16) (epoch : UInt32)

theorem accepted_ofRecords : (ofRecords a b amount).Accepted ↔
    (a.isFrozen || decide (a.balance < leNat amount.toList)) = false := by
  have hraw := a.rawBalance_eq_fields
  have hfield : leNat (ofRecords a b amount).fromBalance.toList = a.rawBalance := rfl
  rw [Accepted, hfield]
  cases hf : a.isFrozen
  · rw [hf, if_neg Bool.false_ne_true, Nat.add_zero] at hraw
    have hzero : (ofRecords a b amount).frozen = 0 := by simp [ofRecords, hf]
    rw [hraw, Bool.false_or, decide_eq_false_iff_not, Nat.not_lt]
    exact and_iff_right hzero
  · have hone : (ofRecords a b amount).frozen = 1 := by simp [ofRecords, hf]
    rw [hone]
    simp

theorem parse_slice (hepoch : epoch.toNat < 2 ^ 31) :
    TransferParse.compute (transferWire epoch a b amount) =
      .ok (wire ((ofRecords a b amount).sliceNums (epoch.toNat % 256)) ++ [10]) := by
  have hfrozen : (if a.bytes.toList.getD 47 0 &&& 0x80 ≠ 0 then (1 : ℤ) else 0) =
      ((ofRecords a b amount).frozen.toNat : ℕ) := by
    by_cases hf : a.isFrozen = true
    · rw [if_pos ((frozen_byte a).mpr hf)]
      simp [ofRecords, hf]
    · rw [if_neg fun hbyte => hf ((frozen_byte a).mp hbyte)]
      simp [ofRecords, hf]
  refine bind_eq_ok_iff.mpr ⟨_, parseNext_wire hepoch _,
    bind_eq_ok_iff.mpr ⟨_, parse_field a.bytes.toList_length _,
      bind_eq_ok_iff.mpr ⟨_, parse_field b.bytes.toList_length _,
        bind_eq_ok_iff.mpr ⟨_, parse_last amount.toList_length, ?_⟩⟩⟩⟩
  have hlow : (epoch.toNat : ℤ) % 256 = ((epoch.toNat % 256 : ℕ) : ℤ) := by omega
  simp only [hfrozen, hlow, printInt_natCast]
  refine congrArg Except.ok ?_
  show _ = (decimal (epoch.toNat % 256) ++ (32 :: decimal _ ++ spaced (nums (a.read 32 16 ++ (b.read 32 16 ++
    (amount.toList ++ (a.read 48 8 ++ [0, 0, 0]))))))) ++ [10]
  rw [nums_append, nums_append, nums_append, nums_append, spaced_append, spaced_append, spaced_append,
    spaced_append]
  simp only [List.append_assoc, List.cons_append]
  rfl

theorem debited_bytes : (debited a amount epoch).bytes.toList =
    splice (splice (splice a.bytes.toList 32 (toLe 16 (a.rawBalance - leNat amount.toList))) 48
      (toLe 8 (leNat (a.read 48 8) + 1))) 56 (toLe 8 epoch.toNat) := by
  have hinc := inc_nonce a
  rw [u64IncInplace_eq, a.length_read (by decide)] at hinc
  have hnonce : (writeBalance a (a.rawBalance - leNat amount.toList)).nonce = a.nonce :=
    congrArg (fun bs => UInt64.ofNat (leNat bs)) (read_writeBalance_above a _ (by decide))
  rw [hinc, ← hnonce, ← UInt32.toNat_toUInt64]
  rfl

theorem compute_ledger (hepoch : epoch.toNat < 2 ^ 31) :
    LedgerTransfer.compute (transferWire epoch a b amount) =
      .ok (printBytes ((ofRecords a b amount).fields.apply a b epoch) ++ [10]) := by
  rw [compute_transfer a b amount epoch hepoch, transferRecords, fields]
  by_cases h : (a.isFrozen || decide (a.balance < leNat amount.toList)) = true
  · have hnot : ¬ (ofRecords a b amount).Accepted := by
      rw [accepted_ofRecords, h]
      exact Bool.noConfusion
    rw [if_pos h, if_neg hnot]
    rfl
  · have hok : (ofRecords a b amount).Accepted :=
      (accepted_ofRecords a b amount).mpr (Bool.eq_false_of_not_eq_true h)
    rw [if_neg h, if_pos hok, recordBytes_pair, debited_bytes]
    rfl

theorem length_sliceNums (w : TransferWitness) (epochLo : ℕ) : (w.sliceNums epochLo).length = 61 := by
  simp only [sliceNums, nums, List.length_cons, List.length_map, List.length_append,
    w.fromBalance.toList_length, w.toBalance.toList_length, w.amount.toList_length,
    w.fromNonce.toList_length, List.length_nil]

/-- `transfer_parse` hands 61 numbers to `transfer_compute`, and the fields this one prints,
written into the two records, are the records that `ledger_transfer` prints. -/
theorem transfer_slice_writes_ledger (hepoch : epoch.toNat < 2 ^ 31) :
    TransferParse.compute (transferWire epoch a b amount) =
        .ok (wire ((ofRecords a b amount).sliceNums (epoch.toNat % 256)) ++ [10]) ∧
      ((ofRecords a b amount).sliceNums (epoch.toNat % 256)).length = 61 ∧
      TransferCompute.compute (wire ((ofRecords a b amount).sliceNums (epoch.toNat % 256))) =
        .ok (printBytes (ofRecords a b amount).fields.bytes ++ [10]) ∧
      LedgerTransfer.compute (transferWire epoch a b amount) =
        .ok (printBytes ((ofRecords a b amount).fields.apply a b epoch) ++ [10]) := by
  have hlow : epoch.toNat % 256 < 2 ^ 31 := by omega
  exact ⟨parse_slice a b amount epoch hepoch, length_sliceNums _ _, compute_compute _ hlow,
    compute_ledger a b amount epoch hepoch⟩

/-- Five units to a frozen receiver, in an epoch of two bytes of which the slice keeps one. -/
theorem transfer_slice_writes_ledger_funded :
    let a := Account.default.setBalance 40
    let b := (Account.default.setBalance 7).setFrozen true
    let w := ofRecords a b ⟨toLe 16 5, rfl⟩
    w.Accepted ∧
      TransferParse.compute (transferWire 300 a b ⟨toLe 16 5, rfl⟩) = .ok (wire (w.sliceNums 44) ++ [10]) ∧
      TransferCompute.compute (wire (w.sliceNums 44)) = .ok (printBytes w.fields.bytes ++ [10]) := by
  intro a b w
  obtain ⟨hparse, -, hcompute, -⟩ := transfer_slice_writes_ledger a b ⟨toLe 16 5, rfl⟩ 300 (by decide)
  exact ⟨(accepted_ofRecords a b _).mpr (by decide +kernel), hparse, hcompute⟩

end Records

end TransferWitness

end PslBank.Primitives
