import PslBank.Contracts.Guarded
import PslBank.Sequencer.Exact
import PslBank.Ternary.WeightsCodec

/-!
# The two implementations of a transfer

The sequencer moves balances with the `u128` arithmetic of `NativeTraceExecutor` on packed
records, a verifier runs `TransferContract` on the fields of the same records. Where the
sender is not frozen, its nonce can still be counted up and the credit stays below the flag
bit, both refuse the same transfers and both compute the same fields.
-/
namespace PslBank.Contracts

open PslBank.Lib PslBank.Crypto PslBank.Sequencer

set_option autoImplicit false

/-- The contract's input for a transfer between two records. -/
def transferInput (sender receiver : Account) (amount : ByteArr 16) : Bytes :=
  toLe 16 sender.balance ++ toLe 16 receiver.balance ++ amount.toList ++ toLe 8 sender.nonce.toNat

/-- The written records hold the three fields of the output, and nothing else of them that a
transfer may not touch has moved. -/
structure Settles (sender receiver sender' receiver' : Account) (out : Bytes) : Prop where
  fields : out = toLe 16 sender'.balance ++ toLe 16 receiver'.balance ++ toLe 8 sender'.nonce.toNat
  senderKey : sender'.pubkey = sender.pubkey
  receiverKey : receiver'.pubkey = receiver.pubkey
  senderFlag : sender'.isFrozen = sender.isFrozen
  receiverFlag : receiver'.isFrozen = receiver.isFrozen
  receiverNonce : receiver'.nonce = receiver.nonce

section Input

variable (sender receiver : Account) (amount : ByteArr 16)

theorem length_transferInput : (transferInput sender receiver amount).length = 56 := by
  simp [transferInput]

theorem slices_transferInput :
    slice (transferInput sender receiver amount) 0 16 = toLe 16 sender.balance ∧
      slice (transferInput sender receiver amount) 16 16 = toLe 16 receiver.balance ∧
      slice (transferInput sender receiver amount) 32 16 = amount.toList ∧
      slice (transferInput sender receiver amount) 48 8 = toLe 8 sender.nonce.toNat := by
  have hamount := amount.toList_length
  simp [transferInput, slice, List.drop_append, List.drop_of_length_le, List.take_of_length_le,
    hamount]

end Input

variable {sender receiver : Account} {amount : ByteArr 16}

/-- The contract reads the balances, the amount and the nonce off the records. -/
theorem run_transferInput [Blake3Xof] :
    TransferContract.run (GuardedContract.build "transfer") (transferInput sender receiver amount) =
      .ok (if leNat amount.toList ≤ sender.balance ∧
          receiver.balance + leNat amount.toList < 2 ^ 128 then
        settled sender.balance receiver.balance (leNat amount.toList) sender.nonce.toNat
      else List.replicate 40 0) := by
  have hlen := length_transferInput sender receiver amount
  obtain ⟨hfrom, hto, hamount, hnonce⟩ := slices_transferInput sender receiver amount
  have hs := sender.balance_lt
  have hr := receiver.balance_lt
  have hrun := @guardedRun_build _ "transfer" 56 48 noGuard True _
    (transferInput sender receiver amount) (by decide) fun _ => rfl
  rw [if_neg (not_not.mpr hlen), hfrom, hto, hamount, hnonce,
    leNat_toLe_of_lt (show sender.balance < 256 ^ 16 by omega),
    leNat_toLe_of_lt (show receiver.balance < 256 ^ 16 by omega),
    leNat_toLe_of_lt (show sender.nonce.toNat < 256 ^ 8 from sender.nonce.toNat_lt)] at hrun
  simp only [true_and] at hrun
  exact hrun

/-- The nonce in the output of a transfer that went through is not zero. -/
theorem settled_ne_zeros {fromBalance toBalance amount nonce : ℕ} (hnonce : nonce < 2 ^ 64 - 1) :
    settled fromBalance toBalance amount nonce ≠ List.replicate 40 0 := by
  intro h
  have hdrop := congrArg (List.drop 32) h
  have hfront : (toLe 16 (fromBalance - amount) ++ toLe 16 (toBalance + amount)).length = 32 := by
    rw [List.length_append, length_toLe, length_toLe]
  rw [settled, List.drop_left' hfront, List.drop_replicate] at hdrop
  have hvalue := congrArg leNat hdrop
  have hzero : leNat (List.replicate (40 - 32) 0) = 0 := by decide
  rw [hzero, Nat.mod_eq_of_lt (by omega),
    leNat_toLe_of_lt (show nonce + 1 < 256 ^ 8 by omega)] at hvalue
  omega

/-- The native executor and the contract agree on every pair of records. -/
theorem native_transfer_agrees [Blake3Xof] (sender receiver : Account) (epoch : UInt32)
    (amount : ByteArr 16) (flag : UInt8) (hfrozen : sender.isFrozen = false)
    (hnonce : sender.nonce.toNat < 2 ^ 64 - 1)
    (hfits : receiver.balance + leNat amount.toList < 2 ^ 127) :
    ∃ out result,
      TransferContract.run (GuardedContract.build "transfer") (transferInput sender receiver amount) =
        .ok out ∧
      NativeTraceExecutor.transfer ⟨epoch, [sender, receiver], amount, flag⟩ = .ok result ∧
      (result.success = true ↔ out ≠ List.replicate 40 0) ∧
      (result.success = true → ∃ sender' receiver', result.updatedAccounts = [sender', receiver'] ∧
        Settles sender receiver sender' receiver' out) := by
  have hrun := @run_transferInput sender receiver amount _
  by_cases hle : leNat amount.toList ≤ sender.balance
  · rw [if_pos ⟨hle, by omega⟩] at hrun
    refine ⟨_, _, hrun, NativeTraceExecutor.transfer_of_spendable hfrozen hle,
      ⟨fun _ => settled_ne_zeros hnonce, fun _ => rfl⟩, fun _ => ⟨_, _, rfl, ?_⟩⟩
    have hdebit := debited_setBalance hle
    have hcredit := (credited_setBalance_iff (a := receiver) (by omega)).mpr hfits
    have hdiff : (sender.setBalance (sender.balance - leNat amount.toList)).balance =
        sender.balance - leNat amount.toList := Nat.eq_sub_of_add_eq hdebit.balance
    have hnext : (sender.nonce + 1).toNat = (sender.nonce.toNat + 1) % 2 ^ 64 := UInt64.toNat_add _ _
    constructor
    · simp only [Account.balance_setLastActive, Account.balance_setNonce, Account.nonce_setLastActive,
        Account.nonce_setNonce, Account.nonce_setBalance, hdiff, hcredit.balance, hnext]
      rfl
    · simp
    · simp
    · simpa using hdebit.frozen
    · simpa using hcredit.frozen
    · simp
  · rw [if_neg fun h => hle h.1] at hrun
    refine ⟨_, _, hrun, NativeTraceExecutor.transfer_of_refused (.inr (Nat.lt_of_not_le hle)), ?_, ?_⟩
    · exact ⟨fun h => (Bool.false_ne_true h).elim, fun h => absurd rfl h⟩
    · intro h
      cases h

/-- Five units, of which three are sent. -/
theorem native_transfer_agrees_three_of_five :
    ∃ out result,
      TransferContract.run (@GuardedContract.build Ternary.sampleBlake3Xof "transfer")
        (transferInput ((Account.new (hashOfNat 1)).setBalance 5) (Account.new (hashOfNat 2))
          ⟨toLe 16 3, length_toLe 16 3⟩) = .ok out ∧
      NativeTraceExecutor.transfer ⟨7, [(Account.new (hashOfNat 1)).setBalance 5,
        Account.new (hashOfNat 2)], ⟨toLe 16 3, length_toLe 16 3⟩, 0⟩ = .ok result ∧
      (result.success = true ↔ out ≠ List.replicate 40 0) ∧
      (result.success = true → ∃ sender' receiver', result.updatedAccounts = [sender', receiver'] ∧
        Settles ((Account.new (hashOfNat 1)).setBalance 5) (Account.new (hashOfNat 2)) sender'
          receiver' out) := by
  apply @native_transfer_agrees Ternary.sampleBlake3Xof
  · rw [Account.isFrozen_setBalance _ (by decide), Account.isFrozen_new]
    decide
  · rw [Account.nonce_setBalance, Account.nonce_new]
    decide
  · rw [Account.balance_new]
    decide

end PslBank.Contracts
