import PslBank.Primitives.Common
import PslBank.Ternary.Freeze

/-!
# The C primitives and the networks that mirror them

`primitives/*.c`: `byte_add_with_carry`, `byte_sub_with_borrow`, `transfer_check`,
`transfer_finalize` and `mpt_emit_record` work on raw bytes, `freeze_setup` and `freeze_apply`
on decimal text. Each `compute` gives the bytes it prints. The safety counters of the loops
run in step with their indices and are larger than their bounds, so no loop ends on one.
-/
namespace PslBank.Primitives

open PslBank.Lib PslBank.Crypto

set_option autoImplicit false

/-- `(unsigned char)input[i]`. -/
def byteAt (input : Bytes) (i : ℕ) : Except Undefined UInt8 :=
  match input[i]? with
  | some b => .ok b
  | none => .error .outOfBounds

/-! ## One position of an addition and of a subtraction -/

namespace ByteAddWithCarry

def compute (input : Bytes) : Except Undefined Bytes := do
  let augend ← byteAt input 0
  let addend ← byteAt input 1
  let carryIn ← byteAt input 2
  let sum := augend.toNat + addend.toNat + carryIn.toNat
  if 256 ≤ sum then return [toChar (sum - 256), 1] else return [toChar sum, 0]

end ByteAddWithCarry

namespace ByteSubWithBorrow

def compute (input : Bytes) : Except Undefined Bytes := do
  let minuend ← byteAt input 0
  let subtrahend ← byteAt input 1
  let borrowIn ← byteAt input 2
  let diffPlus : ℤ := minuend.toNat + 256 - subtrahend.toNat - borrowIn.toNat
  if diffPlus < 256 then return [toChar diffPlus, 1] else return [toChar (diffPlus - 256), 0]

end ByteSubWithBorrow

/-! ## Comparison, increment and pass-through -/

namespace TransferCheck

/-- The loop from the most significant byte down, with `decided` and `ok`. -/
def checkLoop : Bytes → Bytes → Bool → UInt8 → UInt8
  | b :: bs, a :: as, decided, ok =>
      if !decided then
        if a < b then checkLoop bs as true 1
        else if b < a then checkLoop bs as true 0
        else checkLoop bs as decided ok
      else checkLoop bs as decided ok
  | _, _, _, ok => ok

def compute (input : Bytes) : Except Undefined Bytes :=
  if input.length < 32 then .error .outOfBounds
  else .ok [checkLoop (slice input 0 16).reverse (slice input 16 16).reverse false 1]

/-- Once decided the answer stays. -/
theorem checkLoop_decided (bs as : Bytes) (ok : UInt8) : checkLoop bs as true ok = ok := by
  induction bs generalizing as with
  | nil => rfl
  | cons b bs ih =>
    cases as with
    | nil => rfl
    | cons a as => exact ih as

theorem checkLoop_eq (bs as : Bytes) : checkLoop bs as false 1 = if geqLoop bs as then 1 else 0 := by
  induction bs generalizing as with
  | nil => rfl
  | cons b bs ih =>
    cases as with
    | nil => rfl
    | cons a as =>
      rw [checkLoop, geqLoop]
      by_cases hgt : a < b
      · rw [if_pos hgt, if_pos hgt, if_pos rfl, checkLoop_decided]
        rfl
      · by_cases hlt : b < a
        · rw [if_neg hgt, if_pos hlt, if_neg hgt, if_pos hlt, checkLoop_decided]
          rfl
        · rw [if_neg hgt, if_neg hlt, if_neg hgt, if_neg hlt, ih as]
          rfl

end TransferCheck

namespace TransferFinalize

/-- The carry through the bytes, without an early end. -/
def carryLoop : Bytes → ℕ → Bytes
  | [], _ => []
  | b :: bs, carry =>
      if 256 ≤ b.toNat + carry then toChar (b.toNat + carry - 256) :: carryLoop bs 1
      else toChar (b.toNat + carry) :: carryLoop bs 0

def compute (input : Bytes) : Except Undefined Bytes :=
  if input.length < 8 then .error .outOfBounds else .ok (carryLoop (input.take 8) 1)

theorem carryLoop_eq (bs : Bytes) {carry : ℕ} (hcarry : carry ≤ 1) :
    carryLoop bs carry = toLe bs.length (leNat bs + carry) := by
  induction bs generalizing carry with
  | nil => rfl
  | cons b bs ih =>
    have hb := b.toNat_lt
    rw [carryLoop, List.length_cons, leNat_cons]
    by_cases hover : 256 ≤ b.toNat + carry
    · have hcast : (b.toNat : ℤ) + carry - 256 = ((b.toNat + carry - 256 : ℕ) : ℤ) := by omega
      have hdiv : (b.toNat + 256 * leNat bs + carry) / 256 = leNat bs + 1 := by omega
      rw [if_pos hover, ih (Nat.le_refl 1), hcast, toChar_natCast,
        @toLe_succ_of_split _ _ (b.toNat + carry - 256) _ (by omega) hdiv]
    · have hcast : (b.toNat : ℤ) + carry = ((b.toNat + carry : ℕ) : ℤ) := by omega
      have hdiv : (b.toNat + 256 * leNat bs + carry) / 256 = leNat bs + 0 := by omega
      rw [if_neg hover, ih (Nat.zero_le 1), hcast, toChar_natCast,
        @toLe_succ_of_split _ _ (b.toNat + carry) _ (by omega) hdiv]

end TransferFinalize

namespace MptEmitRecord

def compute (input : Bytes) : Except Undefined Bytes :=
  if input.length < 64 then .error .outOfBounds else .ok (input.take 64)

end MptEmitRecord

/-! ## The freeze pair, in text -/

namespace FreezeSetup

def compute (input : Bytes) : Except Undefined Bytes := do
  let flag ← scanOne input
  -- past the flag, then past bytes 0 to 46
  let p := skipDecimals 47 (skipDigits (skipBlanks input))
  let (byte47, _) ← parseNext p
  return printInt flag ++ 32 :: printInt byte47 ++ [10]

theorem compute_wire {flag : ℕ} (hflag : flag < 2 ^ 31) (front back : Bytes) (b : UInt8)
    (hfront : front.length = 47) :
    compute (wire (flag :: nums (front ++ b :: back))) = .ok (wire [flag, b.toNat] ++ [10]) := by
  have hb := b.toNat_lt
  have hrest : NoDigit (spaced (nums back)) := by simpa using noDigit_spaced (nums back) noDigit_nil
  have hall : NoDigit (spaced (nums (front ++ b :: back))) := by
    simpa using noDigit_spaced (nums (front ++ b :: back)) noDigit_nil
  have hsplit : spaced (nums (front ++ b :: back)) =
      spaced (nums front) ++ (32 :: (decimal b.toNat ++ spaced (nums back))) := by
    rw [nums_append, spaced_append]
    rfl
  have hskip : skipDecimals 47 (spaced (nums (front ++ b :: back))) =
      32 :: (decimal b.toNat ++ spaced (nums back)) := by
    have hlen : (nums front).length = 47 := by rw [nums, List.length_map, hfront]
    have hskips := skipDecimals_spaced (nums front)
      (noDigit_cons (c := 32) rfl (decimal b.toNat ++ spaced (nums back)))
    rwa [hlen, ← hsplit] at hskips
  have hparse : parseNext (32 :: (decimal b.toNat ++ spaced (nums back))) =
      .ok ((b.toNat : ℤ), spaced (nums back)) := by
    rw [parseNext_blank, parseNext_decimal (by omega) hrest]
  have hparsed : parseNext (skipDecimals 47
      (skipDigits (skipBlanks (wire (flag :: nums (front ++ b :: back)))))) =
        .ok ((b.toNat : ℤ), spaced (nums back)) := by
    rw [wire, skipNumber_decimal flag hall, hskip, hparse]
  have hprint : printInt (flag : ℤ) ++ 32 :: printInt (b.toNat : ℤ) ++ [10] =
      wire [flag, b.toNat] ++ [10] := by
    rw [printInt_natCast, printInt_natCast]
    simp [wire, spaced]
  refine bind_eq_ok_iff.mpr ⟨_, scanOne_wire hflag _, bind_eq_ok_iff.mpr ⟨_, hparsed, ?_⟩⟩
  exact congrArg Except.ok hprint

end FreezeSetup

namespace FreezeApply

def compute (input : Bytes) : Except Undefined Bytes := do
  let (flag, byte47) ← scanTwo input
  let low7 := byte47 % 128
  let freezeBit := if flag ≠ 0 then 128 else 0
  return printInt (low7 + freezeBit) ++ [10]

theorem compute_wire {flag : ℕ} (hflag : flag < 2 ^ 31) (b : UInt8) :
    compute (wire [flag, b.toNat]) =
      .ok (wire [b.toNat % 128 + if flag ≠ 0 then 128 else 0] ++ [10]) := by
  have hb := b.toNat_lt
  have hvalue : (b.toNat : ℤ) % 128 + (if (flag : ℤ) ≠ 0 then 128 else 0) =
      ((b.toNat % 128 + if flag ≠ 0 then 128 else 0 : ℕ) : ℤ) := by
    by_cases hzero : flag = 0
    · subst hzero
      rfl
    · rw [if_pos hzero, if_pos (by omega)]
      push_cast
      rfl
  unfold compute
  rw [scanTwo_wire hflag (by omega)]
  show Except.ok (printInt ((b.toNat : ℤ) % 128 + if (flag : ℤ) ≠ 0 then 128 else 0) ++ [10]) = _
  rw [hvalue, printInt_natCast]
  simp [wire, spaced]

end FreezeApply

/-! ## Networks and programs -/

/-- Both give a result, and the program prints what the network computes. -/
def Mirrors {α : Type} (network : Except Ternary.TernaryError α) (print : α → Bytes)
    (program : Except Undefined Bytes) : Prop :=
  ∃ r, network = .ok r ∧ program = .ok (print r)

theorem compute_add (a b c : UInt8) (hc : c.toNat ≤ 1) : ByteAddWithCarry.compute [a, b, c] =
    .ok [UInt8.ofNat (a.toNat + b.toNat + c.toNat), UInt8.ofNat ((a.toNat + b.toNat + c.toNat) / 256)] := by
  have ha := a.toNat_lt
  have hb := b.toNat_lt
  show (if 256 ≤ a.toNat + b.toNat + c.toNat then
    Except.ok [toChar (((a.toNat + b.toNat + c.toNat : ℕ) : ℤ) - 256), 1] else
      Except.ok [toChar ((a.toNat + b.toNat + c.toNat : ℕ) : ℤ), 0]) = _
  by_cases hsum : 256 ≤ a.toNat + b.toNat + c.toNat
  · have hcast : ((a.toNat + b.toNat + c.toNat : ℕ) : ℤ) - 256 =
        ((a.toNat + b.toNat + c.toNat - 256 : ℕ) : ℤ) := by omega
    have hquot : (a.toNat + b.toNat + c.toNat) / 256 = 1 := by omega
    rw [if_pos hsum, hcast, toChar_natCast, hquot, @ofNat_eq_of_mod
      (a.toNat + b.toNat + c.toNat - 256) (a.toNat + b.toNat + c.toNat) (by omega)]
    rfl
  · have hquot : (a.toNat + b.toNat + c.toNat) / 256 = 0 := by omega
    rw [if_neg hsum, toChar_natCast, hquot]
    rfl

theorem compute_sub (m s b : UInt8) (hb : b.toNat ≤ 1) : ByteSubWithBorrow.compute [m, s, b] =
    .ok [UInt8.ofNat (m.toNat + 256 - s.toNat - b.toNat),
      UInt8.ofNat (1 - (m.toNat + 256 - s.toNat - b.toNat) / 256)] := by
  have hm := m.toNat_lt
  have hs := s.toNat_lt
  have hcast : (m.toNat : ℤ) + 256 - s.toNat - b.toNat =
      ((m.toNat + 256 - s.toNat - b.toNat : ℕ) : ℤ) := by omega
  show (if (m.toNat : ℤ) + 256 - s.toNat - b.toNat < 256 then
    Except.ok [toChar ((m.toNat : ℤ) + 256 - s.toNat - b.toNat), 1] else
      Except.ok [toChar ((m.toNat : ℤ) + 256 - s.toNat - b.toNat - 256), 0]) = _
  rw [hcast]
  by_cases hlt : m.toNat + 256 - s.toNat - b.toNat < 256
  · have hquot : 1 - (m.toNat + 256 - s.toNat - b.toNat) / 256 = 1 := by omega
    rw [if_pos (by omega), toChar_natCast, hquot]
    rfl
  · have hshift : ((m.toNat + 256 - s.toNat - b.toNat : ℕ) : ℤ) - 256 =
        ((m.toNat + 256 - s.toNat - b.toNat - 256 : ℕ) : ℤ) := by omega
    have hquot : 1 - (m.toNat + 256 - s.toNat - b.toNat) / 256 = 0 := by omega
    rw [if_neg (by omega), hshift, toChar_natCast, hquot, @ofNat_eq_of_mod
      (m.toNat + 256 - s.toNat - b.toNat - 256) (m.toNat + 256 - s.toNat - b.toNat) (by omega)]
    rfl

theorem compute_check (balance amount : Bytes) (hb : balance.length = 16) (ha : amount.length = 16) :
    TransferCheck.compute (balance ++ amount) =
      .ok [if leNat amount ≤ leNat balance then 1 else 0] := by
  have hlen : (balance ++ amount).length = 32 := by rw [List.length_append, hb, ha]
  have hfirst : slice (balance ++ amount) 0 16 = balance := by
    rw [slice, List.drop_zero, List.take_left' hb]
  have hsecond : slice (balance ++ amount) 16 16 = amount := by
    rw [slice, List.drop_left' hb, ← ha, List.take_length]
  have hgeq := geqLoop_reverse balance amount (by rw [hb, ha])
  rw [u128Geq] at hgeq
  rw [TransferCheck.compute, if_neg (by omega), hfirst, hsecond, TransferCheck.checkLoop_eq, hgeq]
  simp only [decide_eq_true_eq]

theorem compute_finalize (nonce : Bytes) (hlen : nonce.length = 8) :
    TransferFinalize.compute nonce = .ok (toLe 8 (leNat nonce + 1)) := by
  have htake : nonce.take 8 = nonce := by rw [← hlen, List.take_length]
  rw [TransferFinalize.compute, if_neg (by omega), htake,
    TransferFinalize.carryLoop_eq nonce (Nat.le_refl 1), hlen]

theorem compute_emit (record : Bytes) (hlen : record.length = 64) :
    MptEmitRecord.compute record = .ok record := by
  rw [MptEmitRecord.compute, if_neg (by omega), ← hlen, List.take_length]

/-- The record around its byte 47. -/
theorem record_split (record : ByteArr 64) : ∃ front back, front.length = 47 ∧
    record.toList = front ++ record.get ⟨47, by decide⟩ :: back := by
  have hlen := record.toList_length
  refine ⟨record.toList.take 47, record.toList.drop 48, by rw [List.length_take]; omega, ?_⟩
  rw [List.Vector.get_eq_get_toList]
  exact Ternary.split_at_byte record.toList (by omega)

/-- Each network computes what the C primitive of the same name prints, on every input the
network accepts: all bytes and bits, all pairs of sixteen-byte fields, all nonces and records,
and in the text of the freeze pair all flags and records. -/
theorem networks_mirror_programs [Blake3Xof] :
    (∀ a b c : UInt8, c.toNat ≤ 1 → Mirrors (Ternary.ByteAddWithCarry.run Ternary.ByteAddWithCarry.build a b c)
      (fun r => [r.1, r.2]) (ByteAddWithCarry.compute [a, b, c])) ∧
    (∀ m s b : UInt8, b.toNat ≤ 1 → Mirrors (Ternary.ByteSubWithBorrow.run Ternary.ByteSubWithBorrow.build m s b)
      (fun r => [r.1, r.2]) (ByteSubWithBorrow.compute [m, s, b])) ∧
    (∀ balance amount : ByteArr 16,
      Mirrors (Ternary.TransferCheck.run Ternary.TransferCheck.build balance.toList amount.toList)
        (fun ok => [ok]) (TransferCheck.compute (balance.toList ++ amount.toList))) ∧
    (∀ nonce : ByteArr 8, Mirrors (Ternary.TransferFinalize.run Ternary.TransferFinalize.build nonce.toList)
      id (TransferFinalize.compute nonce.toList)) ∧
    (∀ record : ByteArr 64, Mirrors (Ternary.MptEmitRecord.run Ternary.MptEmitRecord.build record)
      id (MptEmitRecord.compute record.toList)) ∧
    (∀ (flag : UInt8) (record : ByteArr 64), flag.toNat ≤ 1 →
      Mirrors (Ternary.FreezeSetup.run Ternary.FreezeSetup.build (flag ::ᵥ record))
        (fun r => wire [r.1.toNat, r.2.toNat] ++ [10])
        (FreezeSetup.compute (wire (flag.toNat :: nums record.toList)))) ∧
    (∀ flag byte47 : UInt8, flag.toNat ≤ 1 →
      Mirrors (Ternary.FreezeApply.run Ternary.FreezeApply.build flag byte47)
        (fun new => wire [new.toNat] ++ [10]) (FreezeApply.compute (wire [flag.toNat, byte47.toNat]))) := by
  refine ⟨?add, ?sub, ?check, ?finalize, ?emit, ?setup, ?apply⟩
  case add =>
    intro a b c hc
    exact ⟨_, Ternary.ByteAddWithCarry.fullAdder_run a b c hc, compute_add a b c hc⟩
  case sub =>
    intro m s b hb
    exact ⟨_, Ternary.ByteSubWithBorrow.fullSubtractor_run m s b hb, compute_sub m s b hb⟩
  case check =>
    intro balance amount
    exact ⟨_, Ternary.TransferCheck.run_build (by rw [balance.toList_length, amount.toList_length]),
      compute_check _ _ balance.toList_length amount.toList_length⟩
  case finalize =>
    intro nonce
    exact ⟨_, Ternary.TransferFinalize.run_build nonce.toList_length,
      compute_finalize _ nonce.toList_length⟩
  case emit =>
    intro record
    exact ⟨_, Ternary.MptEmitRecord.run_build record, compute_emit _ record.toList_length⟩
  case setup =>
    intro flag record hflag
    obtain ⟨front, back, hfront, hrecord⟩ := record_split record
    refine ⟨_, Ternary.FreezeSetup.run_build flag hflag record, ?_⟩
    rw [hrecord]
    exact FreezeSetup.compute_wire (by omega) front back _ hfront
  case apply =>
    intro flag byte47 hflag
    have hb := byte47.toNat_lt
    refine ⟨_, Ternary.FreezeApply.run_build flag hflag byte47, ?_⟩
    have hnew : (UInt8.ofNat (byte47.toNat % 128 + 128 * flag.toNat)).toNat =
        byte47.toNat % 128 + if flag.toNat ≠ 0 then 128 else 0 := by
      rw [UInt8.toNat_ofNat_of_lt' (by show _ < 256; omega)]
      split <;> omega
    rw [FreezeApply.compute_wire (by omega) byte47, ← hnew]

end PslBank.Primitives
