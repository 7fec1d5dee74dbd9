import PslBank.Sequencer.Tx
import PslBank.Crypto.Account

/-!
# Trace executors

The trait `TraceExecutor` of `sequencer/src/trace.rs` and its native implementation. Each
primitive of `NativeTraceExecutor` works on a copy of the accounts in its witness.
`transfer` and `multi_asset` share one body, here `transferPair`; `nonce + 1` is the
wrapping `u64` sum of a release build.
-/
namespace PslBank.Sequencer

open PslBank.Lib PslBank.Crypto

set_option autoImplicit false

/-- What an executor is given for one transaction. -/
structure Witness where
  epoch : UInt32
  accounts : List Account
  amount : ByteArr 16
  flag : UInt8

/-- `TraceResult`: the records to write back, the digest of the trace, and whether the ledger
rules let the transaction through. -/
structure TraceResult where
  updatedAccounts : List Account
  traceHash : Hash
  success : Bool

/-- One call of `TraceExecutor::execute`. -/
abbrev Execute := SignedTx → Witness → Except String TraceResult

/-- An implementation of the trait. A process that it runs may answer one question in many ways, so the
answers are numbered: `trace n` is the answer about the `n`-th transaction that is taken from now on. -/
abbrev TraceExecutor := ℕ → Execute

/-- The answers that are left once `n` transactions are taken. -/
def TraceExecutor.after (trace : TraceExecutor) (n : ℕ) : TraceExecutor := fun i => trace (n + i)

def nativeTraceMarker : Hash := List.Vector.replicate 32 0xCA

/-- What a refused primitive over `n` accounts reports. -/
def refused (n : ℕ) : TraceResult := ⟨List.replicate n Account.default, nativeTraceMarker, false⟩

def applied (updated : List Account) : TraceResult := ⟨updated, nativeTraceMarker, true⟩

/-- `u128::checked_add`. -/
def checkedAdd (a b : ℕ) : Option ℕ := if a + b < 2 ^ 128 then some (a + b) else none

/-- `u128::wrapping_add`. -/
def wrappingAdd (a b : ℕ) : ℕ := (a + b) % 2 ^ 128

/-- Move `amount` between two account copies; `none` when the sender is frozen
or short. -/
def transferPair (epoch : UInt32) (amount : ℕ) (sender receiver : Account) : Option (Account × Account) :=
  if sender.isFrozen || decide (sender.balance < amount) then none
  else
    let sender' := sender.setBalance (sender.balance - amount)
    let receiver' := receiver.setBalance (wrappingAdd receiver.balance amount)
    let sender' := sender'.setNonce (sender'.nonce + 1)
    some (sender'.setLastActive epoch.toUInt64, receiver'.setLastActive epoch.toUInt64)

namespace NativeTraceExecutor

def freeze (w : Witness) : Except String TraceResult :=
  match w.accounts with
  | [a] => .ok (applied [a.setFrozen (w.flag != 0)])
  | _ => .error "freeze needs 1 account"

/-- `native_transfer`: a frozen or short sender is a refusal, not an error. -/
def transfer (w : Witness) : Except String TraceResult :=
  match w.accounts with
  | [sender, receiver] =>
      match transferPair w.epoch (leNat w.amount.toList) sender receiver with
      | none => .ok (refused 2)
      | some (sender', receiver') => .ok (applied [sender', receiver'])
  | _ => .error "transfer needs 2 accounts"

/-- `native_mint`. The sum is compared with `u128::MAX`, while the field holds 127 bits. -/
def mint (w : Witness) : Except String TraceResult :=
  match w.accounts with
  | [receiver] =>
      match checkedAdd receiver.balance (leNat w.amount.toList) with
      | some b => .ok (applied [(receiver.setBalance b).setLastActive w.epoch.toUInt64])
      | none => .ok (refused 1)
  | _ => .error "mint needs 1 account"

/-- The loop over the pairs `(from_0, to_0), (from_1, to_1), …` of the snapshot:
the accounts pushed, and whether every pair went through. -/
def multiAssetLoop (epoch : UInt32) (amount : ℕ) : List Account → List Account × Bool
  | sender :: receiver :: rest =>
      let (updated, allSuccess) := multiAssetLoop epoch amount rest
      match transferPair epoch amount sender receiver with
      | none => (Account.default :: Account.default :: updated, false)
      | some (sender', receiver') => (sender' :: receiver' :: updated, allSuccess)
  | _ => ([], true)

/-- `native_multi_asset`: an odd or empty list of records is an error. -/
def multiAsset (w : Witness) : Except String TraceResult :=
  if w.accounts.length % 2 != 0 || w.accounts.isEmpty then
    .error "multi_asset needs an even, nonzero number of accounts"
  else
    let (updated, allSuccess) := multiAssetLoop w.epoch (leNat w.amount.toList) w.accounts
    .ok ⟨updated, nativeTraceMarker, allSuccess⟩

/-- `native_burn`, which does not look at the frozen flag. -/
def burn (w : Witness) : Except String TraceResult :=
  match w.accounts with
  | [sender] =>
      let amount := leNat w.amount.toList
      if sender.balance < amount then .ok (refused 1)
      else
        .ok (applied [(sender.setBalance (sender.balance - amount)).setLastActive w.epoch.toUInt64])
  | _ => .error "burn needs 1 account"

/-- The dispatch on the kind. -/
def execute (tx : SignedTx) (w : Witness) : Except String TraceResult :=
  match tx.kind with
  | .freeze => freeze w
  | .transfer => transfer w
  | .mint => mint w
  | .burn => burn w
  | .multiAsset => multiAsset w

/-- The same answer at every time. -/
def trace : TraceExecutor := fun _ => execute

end NativeTraceExecutor

end PslBank.Sequencer
