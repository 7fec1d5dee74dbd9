import PslBank.Contracts.Program
import PslBank.Ternary.ByteOps

/-!
# Guarded transfers

`agent_contracts/src/guarded.rs`, the program hashes of `program.rs`, and the seven
contracts of `transfer.rs`, `escrow.rs` and `conditional.rs`. The contracts check the
length of their input, evaluate a guard and run one wrapped transfer; they differ in their
name, their layout and their guard. A `?` on a primitive's error wraps it in
`ContractError::Primitive`. The arrays of the source are slices of the input, whose lengths
follow from the check of the input's length.
-/
namespace PslBank.Contracts

open PslBank.Lib PslBank.Crypto PslBank.Ternary

set_option autoImplicit false

/-! ## The wrapped transfer -/

def u128SubChain (byteSub : TernaryNetwork) (a b : Bytes) : Except ContractError (Bytes × UInt8) :=
  (chain (ByteSubWithBorrow.run byteSub) a b 0).mapError .primitive

def u128AddChain (byteAdd : TernaryNetwork) (a b : Bytes) : Except ContractError (Bytes × UInt8) :=
  (chain (ByteAddWithCarry.run byteAdd) a b 0).mapError .primitive

/-- `a ≥ b` for 8-byte numbers, padded to the 16 bytes of `transfer_check`. -/
def u64Ge (byteSub : TernaryNetwork) (a b : Bytes) : Except ContractError UInt8 :=
  (TransferCheck.run byteSub (a ++ List.replicate 8 0) (b ++ List.replicate 8 0)).mapError .primitive

def noOpOutput (len : ℕ) : Bytes := List.replicate len 0

def wrappedTransfer (byteAdd byteSub : TernaryNetwork) (fromBalance toBalance amount nonce : Bytes) :
    Except ContractError Bytes := do
  let ok ← (TransferCheck.run byteSub fromBalance amount).mapError .primitive
  if ok ≠ 1 then return noOpOutput 40
  let (newFrom, _) ← u128SubChain byteSub fromBalance amount
  let (newTo, carry) ← u128AddChain byteAdd toBalance amount
  if carry = 1 then return noOpOutput 40
  let newNonce ← (TransferFinalize.run byteAdd nonce).mapError .primitive
  return newFrom ++ newTo ++ newNonce

/-! ## The contracts -/

/-- What each of the seven contract structures holds. -/
structure GuardedContract where
  byteAdd : TernaryNetwork
  byteSub : TernaryNetwork
  programHash : Hash
  programHashV2 : ProgramHash

/-- The `run` the seven contracts share: the length, the guard, the wrapped transfer. -/
def guardedRun (contract : String) (inputLen nonceOff : ℕ)
    (guard : TernaryNetwork → Bytes → Except ContractError Bool) (c : GuardedContract)
    (input : Bytes) : Except ContractError Bytes :=
  if input.length ≠ inputLen then .error (.inputShape contract input.length inputLen)
  else do
    let holds ← guard c.byteSub input
    if holds then
      wrappedTransfer c.byteAdd c.byteSub (slice input 0 16) (slice input 16 16) (slice input 32 16)
        (slice input nonceOff 8)
    else return noOpOutput 40

def noGuard : TernaryNetwork → Bytes → Except ContractError Bool := fun _ _ => .ok true

/-- One byte of the input is 1. -/
def flagGuard (off : ℕ) : TernaryNetwork → Bytes → Except ContractError Bool :=
  fun _ input => .ok (input.getD off 0 == 1)

/-- The time at 56 has reached the one at 64. -/
def timeGuard : TernaryNetwork → Bytes → Except ContractError Bool := fun byteSub input => do
  let ge ← u64Ge byteSub (slice input 56 8) (slice input 64 8)
  return ge == 1

/-- Three flags, no other value than 0 and 1, at least two set. -/
def multisigGuard : TernaryNetwork → Bytes → Except ContractError Bool := fun _ input =>
  let s0 := input.getD 56 0
  let s1 := input.getD 57 0
  let s2 := input.getD 58 0
  if 1 < s0 ∨ 1 < s1 ∨ 1 < s2 then .ok false
  else if s0.toNat + s1.toNat + s2.toNat < 2 then .ok false
  else .ok true

def TransferContract.run : GuardedContract → Bytes → Except ContractError Bytes :=
  guardedRun "transfer" 56 48 noGuard

def EscrowCreate.run : GuardedContract → Bytes → Except ContractError Bytes :=
  guardedRun "escrow_create" 56 48 noGuard

def EscrowRelease.run : GuardedContract → Bytes → Except ContractError Bytes :=
  guardedRun "escrow_release" 57 49 (flagGuard 48)

def EscrowRefund.run : GuardedContract → Bytes → Except ContractError Bytes :=
  guardedRun "escrow_refund" 57 49 (flagGuard 48)

def TimeLockedRelease.run : GuardedContract → Bytes → Except ContractError Bytes :=
  guardedRun "time_locked_release" 72 48 timeGuard

def Multisig2of3.run : GuardedContract → Bytes → Except ContractError Bytes :=
  guardedRun "multisig_2of3" 59 48 multisigGuard

def ConditionalPayment.run : GuardedContract → Bytes → Except ContractError Bytes :=
  guardedRun "conditional_payment" 57 48 (flagGuard 56)

/-- The seven contracts by name. -/
inductive Standard where
  | transfer
  | escrowCreate
  | escrowRelease
  | escrowRefund
  | timeLockedRelease
  | multisig2of3
  | conditionalPayment
  deriving DecidableEq

namespace Standard

def name : Standard → String
  | transfer => "transfer"
  | escrowCreate => "escrow_create"
  | escrowRelease => "escrow_release"
  | escrowRefund => "escrow_refund"
  | timeLockedRelease => "time_locked_release"
  | multisig2of3 => "multisig_2of3"
  | conditionalPayment => "conditional_payment"

def run : Standard → GuardedContract → Bytes → Except ContractError Bytes
  | transfer => TransferContract.run
  | escrowCreate => EscrowCreate.run
  | escrowRelease => EscrowRelease.run
  | escrowRefund => EscrowRefund.run
  | timeLockedRelease => TimeLockedRelease.run
  | multisig2of3 => Multisig2of3.run
  | conditionalPayment => ConditionalPayment.run

end Standard

section Build

variable [Blake3Xof]

def programHashV1 (name : String) (networks : List TernaryNetwork) : Hash :=
  Blake3.digest (utf8 name ++ networks.flatMap fun n => n.header.weightsHash.toList)

def programHashV2 (name : String) (networks : List TernaryNetwork) : ProgramHash :=
  ⟨Blake3Xof.fill64 (utf8 name ++ networks.flatMap fun n => n.header.weightsHashV2.toList)⟩

def buildProgramHashes (name : String) (networks : List TernaryNetwork) : ProgramHash × Hash :=
  (programHashV2 name networks, programHashV1 name networks)

/-- The `build` the seven contracts share. -/
def GuardedContract.build (name : String) : GuardedContract :=
  let byteAdd := ByteAddWithCarry.build
  let byteSub := ByteSubWithBorrow.build
  let hashes := buildProgramHashes name [byteAdd, byteSub]
  ⟨byteAdd, byteSub, hashes.2, hashes.1⟩

/-- A built contract as a program. -/
def Standard.program (k : Standard) : TernaryProgram :=
  let c := GuardedContract.build k.name
  ⟨k.name, k.run c, c.programHashV2, c.programHash⟩

end Build

/-! ## What the contracts are for -/

namespace Standard

/-- The documented length of the input. -/
def inputLen : Standard → ℕ
  | transfer | escrowCreate => 56
  | escrowRelease | escrowRefund | conditionalPayment => 57
  | multisig2of3 => 59
  | timeLockedRelease => 72

/-- The documented offset of the nonce. -/
def nonceOff : Standard → ℕ
  | escrowRelease | escrowRefund => 49
  | transfer | escrowCreate | timeLockedRelease | multisig2of3 | conditionalPayment => 48

/-- The documented condition on the input. -/
def Guard : Standard → Bytes → Prop
  | transfer, _ | escrowCreate, _ => True
  | escrowRelease, x | escrowRefund, x => x.getD 48 0 = 1
  | timeLockedRelease, x => leNat (slice x 64 8) ≤ leNat (slice x 56 8)
  | multisig2of3, x => (∀ s ∈ [x.getD 56 0, x.getD 57 0, x.getD 58 0], s = 0 ∨ s = 1) ∧
      2 ≤ [x.getD 56 0, x.getD 57 0, x.getD 58 0].count 1
  | conditionalPayment, x => x.getD 56 0 = 1

instance decidableGuard : (k : Standard) → (x : Bytes) → Decidable (k.Guard x)
  | transfer, _ | escrowCreate, _ => inferInstanceAs (Decidable True)
  | escrowRelease, x | escrowRefund, x => inferInstanceAs (Decidable (x.getD 48 0 = 1))
  | timeLockedRelease, x =>
      inferInstanceAs (Decidable (leNat (slice x 64 8) ≤ leNat (slice x 56 8)))
  | multisig2of3, x =>
      inferInstanceAs (Decidable
        ((∀ s ∈ [x.getD 56 0, x.getD 57 0, x.getD 58 0], s = 0 ∨ s = 1) ∧
          2 ≤ [x.getD 56 0, x.getD 57 0, x.getD 58 0].count 1))
  | conditionalPayment, x => inferInstanceAs (Decidable (x.getD 56 0 = 1))

end Standard

/-- The balances and the nonce after a transfer. -/
def settled (fromBalance toBalance amount nonce : ℕ) : Bytes :=
  toLe 16 (fromBalance - amount) ++ toLe 16 (toBalance + amount) ++ toLe 8 ((nonce + 1) % 2 ^ 64)

/-- The declared output: the transfer where the guard holds, the sender has the amount and
the receiver's balance stays in range; zeros elsewhere. -/
def Standard.declared (k : Standard) (x : Bytes) : Bytes :=
  let fromBalance := leNat (slice x 0 16)
  let toBalance := leNat (slice x 16 16)
  let amount := leNat (slice x 32 16)
  if k.Guard x ∧ amount ≤ fromBalance ∧ toBalance + amount < 2 ^ 128 then
    settled fromBalance toBalance amount (leNat (slice x k.nonceOff 8))
  else List.replicate 40 0

theorem Standard.length_declared (k : Standard) (x : Bytes) : (k.declared x).length = 40 := by
  simp only [declared]
  split
  · simp [settled]
  · rfl

section Correct

variable [Blake3Xof]

theorem u128SubChain_eq {a b : Bytes} (ha : a.length = 16) (hb : b.length = 16) :
    u128SubChain ByteSubWithBorrow.build a b =
      .ok (toLe 16 (leNat a + 2 ^ 128 - leNat b), if leNat a < leNat b then 1 else 0) := by
  have hchain := ByteSubWithBorrow.fullSubtractor_run.chain_zero a b (ha.trans hb.symm)
  rw [ha] at hchain
  rw [u128SubChain, hchain]
  rfl

theorem u128SubChain_build {a b : Bytes} (ha : a.length = 16) (hb : b.length = 16)
    (hle : leNat b ≤ leNat a) :
    ∃ borrow, u128SubChain ByteSubWithBorrow.build a b = .ok (toLe 16 (leNat a - leNat b), borrow) := by
  have hdiff : toLe 16 (leNat a + 2 ^ 128 - leNat b) = toLe 16 (leNat a - leNat b) := by
    apply toLe_congr
    have hshift : leNat a + 2 ^ 128 - leNat b = leNat a - leNat b + 256 ^ 16 := by omega
    rw [hshift, Nat.add_mod_right]
  rw [u128SubChain_eq ha hb, hdiff]
  exact ⟨_, rfl⟩

theorem u128AddChain_build {a b : Bytes} (ha : a.length = 16) (hb : b.length = 16) :
    u128AddChain ByteAddWithCarry.build a b =
      .ok (toLe 16 (leNat a + leNat b), if 2 ^ 128 ≤ leNat a + leNat b then 1 else 0) := by
  have hchain := ByteAddWithCarry.fullAdder_run.chain_zero a b (ha.trans hb.symm)
  rw [ha] at hchain
  rw [u128AddChain, hchain]
  rfl

theorem u64Ge_build {a b : Bytes} (ha : a.length = 8) (hb : b.length = 8) :
    u64Ge ByteSubWithBorrow.build a b = .ok (if leNat b ≤ leNat a then 1 else 0) := by
  have hpad : ∀ c : Bytes, leNat (c ++ List.replicate 8 0) = leNat c := by
    intro c
    rw [leNat_append, show leNat (List.replicate 8 0) = 0 by decide, Nat.mul_zero, Nat.add_zero]
  have hlen : (a ++ List.replicate 8 0).length = (b ++ List.replicate 8 (0 : UInt8)).length := by
    rw [List.length_append, List.length_append, ha, hb]
  have hcheck := TransferCheck.run_build hlen
  rw [hpad, hpad] at hcheck
  unfold u64Ge
  rw [show ByteSubWithBorrow.build = TransferCheck.build from rfl, hcheck]
  rfl

omit [Blake3Xof] in
/-- A flag, as the contracts test it. -/
theorem flag_eq_one_iff {p : Prop} [Decidable p] : (if p then (1 : UInt8) else 0) = 1 ↔ p := by
  split
  · exact ⟨fun _ => ‹p›, fun _ => rfl⟩
  · exact ⟨fun h => absurd h (by decide), fun h => absurd h ‹¬ p›⟩

omit [Blake3Xof] in
theorem toLe_mod_u64 (n : ℕ) : toLe 8 (n % 2 ^ 64) = toLe 8 n := toLe_congr (Nat.mod_mod _ _)

omit [Blake3Xof] in
/-- The shifted difference of two numbers of 16 bytes is their difference modulo `2 ^ 128`. -/
theorem sub_mod_u128 {a b : ℕ} (ha : a < 2 ^ 128) (hb : b < 2 ^ 128) :
    (((a : ℤ) - b) % 2 ^ 128).toNat = (a + 2 ^ 128 - b) % 2 ^ 128 := by
  omega

/-- The chains over the built networks compute on whole numbers, from what the networks
compute on every two bytes and flag. -/
theorem multi_byte_arithmetic :
    FullAdder (ByteAddWithCarry.run ByteAddWithCarry.build) ∧
    FullSubtractor (ByteSubWithBorrow.run ByteSubWithBorrow.build) ∧
    (∀ a b : ByteArr 16,
      u128AddChain ByteAddWithCarry.build a.toList b.toList =
          .ok (toLe 16 ((leNat a.toList + leNat b.toList) % 2 ^ 128),
            if 2 ^ 128 ≤ leNat a.toList + leNat b.toList then 1 else 0) ∧
        u128SubChain ByteSubWithBorrow.build a.toList b.toList =
          .ok (toLe 16 (((leNat a.toList : ℤ) - leNat b.toList) % 2 ^ 128).toNat,
            if leNat a.toList < leNat b.toList then 1 else 0) ∧
        TransferCheck.run ByteSubWithBorrow.build a.toList b.toList =
          .ok (if leNat b.toList ≤ leNat a.toList then 1 else 0)) ∧
    ∀ a b : ByteArr 8,
      u64Ge ByteSubWithBorrow.build a.toList b.toList =
          .ok (if leNat b.toList ≤ leNat a.toList then 1 else 0) ∧
        TransferFinalize.run ByteAddWithCarry.build a.toList =
          .ok (toLe 8 ((leNat a.toList + 1) % 2 ^ 64)) := by
  refine ⟨ByteAddWithCarry.fullAdder_run, ByteSubWithBorrow.fullSubtractor_run, ?_, ?_⟩
  · intro a b
    have ha := a.toList_length
    have hb := b.toList_length
    have hlta := leNat_lt a.toList
    have hltb := leNat_lt b.toList
    rw [ha] at hlta
    rw [hb] at hltb
    have hmod : ∀ n, toLe 16 (n % 2 ^ 128) = toLe 16 n := fun n => toLe_congr (Nat.mod_mod n _)
    refine ⟨?_, ?_, TransferCheck.run_build (ha.trans hb.symm)⟩
    · rw [u128AddChain_build ha hb, hmod]
    · rw [u128SubChain_eq ha hb, sub_mod_u128 hlta hltb, hmod]
  · intro a b
    refine ⟨u64Ge_build a.toList_length b.toList_length, ?_⟩
    rw [toLe_mod_u64]
    exact TransferFinalize.run_build a.toList_length

theorem wrappedTransfer_build {fromBalance toBalance amount nonce : Bytes}
    (hfrom : fromBalance.length = 16) (hto : toBalance.length = 16) (hamount : amount.length = 16)
    (hnonce : nonce.length = 8) :
    wrappedTransfer ByteAddWithCarry.build ByteSubWithBorrow.build fromBalance toBalance amount nonce =
      .ok (if leNat amount ≤ leNat fromBalance ∧ leNat toBalance + leNat amount < 2 ^ 128 then
        settled (leNat fromBalance) (leNat toBalance) (leNat amount) (leNat nonce)
      else List.replicate 40 0) := by
  have hcheck := TransferCheck.run_build (hfrom.trans hamount.symm)
  have hadd := u128AddChain_build hto hamount
  have hfinal := TransferFinalize.run_build hnonce
  unfold wrappedTransfer
  rw [show ByteSubWithBorrow.build = TransferCheck.build from rfl, hcheck]
  by_cases hle : leNat amount ≤ leNat fromBalance
  · obtain ⟨borrow, hsub⟩ := u128SubChain_build hfrom hamount hle
    rw [if_pos hle]
    show (do
      let (newFrom, _) ← u128SubChain ByteSubWithBorrow.build fromBalance amount
      let (newTo, carry) ← u128AddChain ByteAddWithCarry.build toBalance amount
      if carry = 1 then return noOpOutput 40
      let newNonce ← (TransferFinalize.run ByteAddWithCarry.build nonce).mapError
        ContractError.primitive
      return newFrom ++ newTo ++ newNonce) = _
    rw [hsub, hadd]
    show (if (if 2 ^ 128 ≤ leNat toBalance + leNat amount then (1 : UInt8) else 0) = 1 then
        return noOpOutput 40
      else do
        let newNonce ← (TransferFinalize.run TransferFinalize.build nonce).mapError
          ContractError.primitive
        return toLe 16 (leNat fromBalance - leNat amount) ++
          toLe 16 (leNat toBalance + leNat amount) ++ newNonce) = _
    by_cases hover : 2 ^ 128 ≤ leNat toBalance + leNat amount
    · rw [if_pos (flag_eq_one_iff.mpr hover), if_neg (by omega)]
      rfl
    · rw [if_neg (fun h => hover (flag_eq_one_iff.mp h)), if_pos ⟨hle, by omega⟩, hfinal, settled, toLe_mod_u64]
      rfl
  · rw [if_neg hle, if_neg fun h => hle h.1]
    rfl

/-- A contract whose guard decides `P` on this input. -/
theorem guardedRun_build (name : String) {inputLen nonceOff : ℕ}
    {guard : TernaryNetwork → Bytes → Except ContractError Bool} {P : Prop} [Decidable P] (x : Bytes)
    (hoff : 48 ≤ inputLen ∧ nonceOff + 8 ≤ inputLen)
    (hguard : x.length = inputLen → guard ByteSubWithBorrow.build x = .ok (decide P)) :
    guardedRun name inputLen nonceOff guard (GuardedContract.build name) x =
      if x.length ≠ inputLen then .error (.inputShape name x.length inputLen)
      else .ok (if P ∧ leNat (slice x 32 16) ≤ leNat (slice x 0 16) ∧
          leNat (slice x 16 16) + leNat (slice x 32 16) < 2 ^ 128 then
        settled (leNat (slice x 0 16)) (leNat (slice x 16 16)) (leNat (slice x 32 16))
          (leNat (slice x nonceOff 8))
      else List.replicate 40 0) := by
  by_cases hlen : x.length = inputLen
  · rw [guardedRun, if_neg (not_not.mpr hlen), if_neg (not_not.mpr hlen)]
    show (do
      let holds ← guard ByteSubWithBorrow.build x
      if holds then
        wrappedTransfer ByteAddWithCarry.build ByteSubWithBorrow.build (slice x 0 16) (slice x 16 16)
          (slice x 32 16) (slice x nonceOff 8)
      else return noOpOutput 40) = _
    rw [hguard hlen]
    by_cases hP : P
    · rw [decide_eq_true hP]
      show wrappedTransfer ByteAddWithCarry.build ByteSubWithBorrow.build _ _ _ _ = _
      rw [wrappedTransfer_build (length_slice (by omega)) (length_slice (by omega))
        (length_slice (by omega)) (length_slice (by omega))]
      simp only [hP, true_and]
    · rw [decide_eq_false hP, if_neg fun h => hP h.1]
      rfl
  · rw [guardedRun, if_pos hlen, if_pos hlen]

theorem timeGuard_build {x : Bytes} (hlen : x.length = 72) :
    timeGuard ByteSubWithBorrow.build x = .ok (decide (Standard.timeLockedRelease.Guard x)) := by
  rw [timeGuard, u64Ge_build (length_slice (by omega)) (length_slice (by omega))]
  by_cases hge : leNat (slice x 64 8) ≤ leNat (slice x 56 8)
  · rw [if_pos hge, decide_eq_true (show Standard.timeLockedRelease.Guard x from hge)]
    rfl
  · rw [if_neg hge, decide_eq_false (show ¬ Standard.timeLockedRelease.Guard x from hge)]
    rfl

omit [Blake3Xof] in
theorem eq_zero_or_one {s : UInt8} (h : ¬ 1 < s) : s = 0 ∨ s = 1 := by
  rw [UInt8.lt_iff_toNat_lt] at h
  have hle : s.toNat = 0 ∨ s.toNat = 1 := by
    have hone : (1 : UInt8).toNat = 1 := rfl
    omega
  rcases hle with hle | hle
  · exact .inl (UInt8.toNat_inj.mp hle)
  · exact .inr (UInt8.toNat_inj.mp hle)

omit [Blake3Xof] in
/-- With flags in range, their sum is the number of set ones. -/
theorem sum_lt_two_iff {s0 s1 s2 : UInt8} (h : ∀ s ∈ [s0, s1, s2], s = 0 ∨ s = 1) :
    s0.toNat + s1.toNat + s2.toNat < 2 ↔ ¬ 2 ≤ [s0, s1, s2].count 1 := by
  rcases h s0 (by simp) with rfl | rfl <;> rcases h s1 (by simp) with rfl | rfl <;>
    rcases h s2 (by simp) with rfl | rfl <;> decide

omit [Blake3Xof] in
/-- The two tests of `multisig_2of3` decide its documented condition. -/
theorem multisigGuard_eq (byteSub : TernaryNetwork) (x : Bytes) :
    multisigGuard byteSub x = .ok (decide (Standard.multisig2of3.Guard x)) := by
  simp only [multisigGuard]
  by_cases hbig : 1 < x.getD 56 0 ∨ 1 < x.getD 57 0 ∨ 1 < x.getD 58 0
  · have hno : ¬ Standard.multisig2of3.Guard x := by
      intro hguard
      have hsmall : ∀ s : UInt8, s = 0 ∨ s = 1 → ¬ 1 < s := by
        rintro s (rfl | rfl) <;> decide
      rcases hbig with hbig | hbig | hbig
      · exact hsmall _ (hguard.1 _ (by simp)) hbig
      · exact hsmall _ (hguard.1 _ (by simp)) hbig
      · exact hsmall _ (hguard.1 _ (by simp)) hbig
    rw [if_pos hbig, decide_eq_false hno]
  · obtain ⟨h0, h1, h2⟩ : ¬ 1 < x.getD 56 0 ∧ ¬ 1 < x.getD 57 0 ∧ ¬ 1 < x.getD 58 0 := by
      exact ⟨fun h => hbig (.inl h), fun h => hbig (.inr (.inl h)), fun h => hbig (.inr (.inr h))⟩
    have hflags : ∀ s ∈ [x.getD 56 0, x.getD 57 0, x.getD 58 0], s = 0 ∨ s = 1 := by
      intro s hs
      simp only [List.mem_cons, List.not_mem_nil, or_false] at hs
      rcases hs with rfl | rfl | rfl
      · exact eq_zero_or_one h0
      · exact eq_zero_or_one h1
      · exact eq_zero_or_one h2
    have hsum := sum_lt_two_iff hflags
    rw [if_neg hbig]
    by_cases hcount : 2 ≤ [x.getD 56 0, x.getD 57 0, x.getD 58 0].count 1
    · have hguard : Standard.multisig2of3.Guard x := ⟨hflags, hcount⟩
      rw [if_neg (fun h => hsum.mp h hcount), decide_eq_true hguard]
    · have hno : ¬ Standard.multisig2of3.Guard x := fun hguard => hcount hguard.2
      rw [if_pos (hsum.mpr hcount), decide_eq_false hno]

/-- Every standard contract computes its declared function on every byte string. -/
theorem standard_run_eq_declared (k : Standard) (x : Bytes) :
    (k.program.run x = if x.length ≠ k.inputLen then
        .error (.inputShape k.name x.length k.inputLen)
      else .ok (k.declared x)) ∧ (k.declared x).length = 40 := by
  refine ⟨?_, k.length_declared x⟩
  cases k with
  | transfer => exact guardedRun_build "transfer" x (by decide) fun _ => rfl
  | escrowCreate => exact guardedRun_build "escrow_create" x (by decide) fun _ => rfl
  | escrowRelease => exact guardedRun_build "escrow_release" x (by decide) fun _ => rfl
  | escrowRefund => exact guardedRun_build "escrow_refund" x (by decide) fun _ => rfl
  | timeLockedRelease =>
    exact guardedRun_build "time_locked_release" x (by decide) fun hlen => timeGuard_build hlen
  | multisig2of3 =>
    exact guardedRun_build "multisig_2of3" x (by decide) fun _ => multisigGuard_eq _ x
  | conditionalPayment => exact guardedRun_build "conditional_payment" x (by decide) fun _ => rfl

end Correct

end PslBank.Contracts
