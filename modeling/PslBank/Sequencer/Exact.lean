import PslBank.Sequencer.Run

/-!
# Balance arithmetic at the flag bit

A balance has 127 bits; bit 127 of its field is the frozen flag. `mint` guards
its sum at 128 bits and `transfer` does not guard it at all, so a credit that reaches
`2 ^ 127` is reported as a success, loses its top bit and freezes the recipient. Below
that line both primitives are exact.
-/
namespace PslBank.Sequencer

open PslBank.Lib PslBank.Crypto

set_option autoImplicit false

/-- The record gained exactly `n`, and its flag did not move. -/
structure Credited (a a' : Account) (n : ℕ) : Prop where
  balance : a'.balance = a.balance + n
  frozen : a'.isFrozen = a.isFrozen

/-- The record lost exactly `n`, and its flag did not move. -/
structure Debited (a a' : Account) (n : ℕ) : Prop where
  balance : a'.balance + n = a.balance
  frozen : a'.isFrozen = a.isFrozen

theorem debited_setBalance {a : Account} {n : ℕ} (hn : n ≤ a.balance) :
    Debited a (a.setBalance (a.balance - n)) n := by
  have hlt := a.balance_lt
  have hb : a.balance - n < 2 ^ 128 := by omega
  refine ⟨?_, ?_⟩
  · rw [Account.balance_setBalance a hb, Nat.mod_eq_of_lt (by omega)]
    omega
  · rw [Account.isFrozen_setBalance a hb, decide_eq_false (by omega), Bool.or_false]

theorem credited_setBalance_iff {a : Account} {n : ℕ} (hn : a.balance + n < 2 ^ 128) :
    Credited a (a.setBalance (a.balance + n)) n ↔ a.balance + n < 2 ^ 127 := by
  constructor
  · intro h
    have hb := h.balance
    have hlt := (a.setBalance (a.balance + n)).balance_lt
    omega
  · intro hfit
    refine ⟨?_, ?_⟩
    · rw [Account.balance_setBalance a hn, Nat.mod_eq_of_lt hfit]
    · rw [Account.isFrozen_setBalance a hn, decide_eq_false (by omega), Bool.or_false]

/-- Stamping the epoch or bumping the nonce afterwards changes neither field. -/
theorem Credited.congr {a a' a'' : Account} {n : ℕ} (hb : a''.balance = a'.balance)
    (hf : a''.isFrozen = a'.isFrozen) : Credited a a'' n ↔ Credited a a' n := by
  constructor
  · intro h
    exact ⟨hb ▸ h.balance, hf ▸ h.frozen⟩
  · intro h
    exact ⟨hb ▸ h.balance, hf ▸ h.frozen⟩

namespace NativeTraceExecutor

/-- A mint that reports success credits the record it was given. -/
def MintExact (epoch : UInt32) (amount : ByteArr 16) (flag : UInt8) (receiver : Account) : Prop :=
  ∀ result, mint ⟨epoch, [receiver], amount, flag⟩ = .ok result → result.success = true →
    ∃ receiver', result.updatedAccounts = [receiver'] ∧
      Credited receiver receiver' (leNat amount.toList)

/-- A transfer that reports success debits the one record and credits the other. -/
def TransferExact (epoch : UInt32) (amount : ByteArr 16) (flag : UInt8)
    (sender receiver : Account) : Prop :=
  ∀ result, transfer ⟨epoch, [sender, receiver], amount, flag⟩ = .ok result →
    result.success = true →
    ∃ sender' receiver', result.updatedAccounts = [sender', receiver'] ∧
      Debited sender sender' (leNat amount.toList) ∧
      Credited receiver receiver' (leNat amount.toList)

section Mint

variable {epoch : UInt32} {amount : ByteArr 16} {flag : UInt8} {receiver : Account}

theorem mint_of_fits (h : receiver.balance + leNat amount.toList < 2 ^ 128) :
    mint ⟨epoch, [receiver], amount, flag⟩ =
      .ok (applied [(receiver.setBalance (receiver.balance + leNat amount.toList)).setLastActive
        epoch.toUInt64]) := by
  simp only [mint, checkedAdd, if_pos h]

theorem mint_of_overflow (h : ¬ receiver.balance + leNat amount.toList < 2 ^ 128) :
    mint ⟨epoch, [receiver], amount, flag⟩ = .ok (refused 1) := by
  simp only [mint, checkedAdd, if_neg h]

theorem mintExact_iff :
    MintExact epoch amount flag receiver ↔
      ¬ (2 ^ 127 ≤ receiver.balance + leNat amount.toList ∧
        receiver.balance + leNat amount.toList < 2 ^ 128) := by
  by_cases hfits : receiver.balance + leNat amount.toList < 2 ^ 128
  · -- the sum passes the 128-bit guard: the record is written
    have hcredit := credited_setBalance_iff hfits
    rw [← Credited.congr (Account.balance_setLastActive _ epoch.toUInt64)
      (Account.isFrozen_setLastActive _ epoch.toUInt64)] at hcredit
    constructor
    · intro h hline
      obtain ⟨receiver', hw, hc⟩ := h _ (mint_of_fits hfits) rfl
      obtain rfl := (List.cons.inj hw).1
      have hlt := hcredit.mp hc
      omega
    · intro hline result hrun _
      rw [mint_of_fits hfits] at hrun
      obtain rfl := Except.ok.inj hrun
      exact ⟨_, rfl, hcredit.mpr (by omega)⟩
  · constructor
    · intro _ hline
      exact hfits hline.2
    · intro _ result hrun hsuccess
      rw [mint_of_overflow hfits] at hrun
      obtain rfl := Except.ok.inj hrun
      cases hsuccess

end Mint

section Transfer

variable {epoch : UInt32} {amount : ByteArr 16} {flag : UInt8} {sender receiver : Account}

theorem transfer_of_refused
    (h : sender.isFrozen = true ∨ sender.balance < leNat amount.toList) :
    transfer ⟨epoch, [sender, receiver], amount, flag⟩ = .ok (refused 2) := by
  have hg : (sender.isFrozen || decide (sender.balance < leNat amount.toList)) = true := by simpa using h
  simp only [transfer, transferPair, hg, ↓reduceIte]

/-- The credit cannot wrap: a balance and an amount below `2 ^ 127` fit 128 bits. -/
theorem transfer_of_spendable (hf : sender.isFrozen = false)
    (hle : leNat amount.toList ≤ sender.balance) :
    transfer ⟨epoch, [sender, receiver], amount, flag⟩ =
      .ok (applied [((sender.setBalance (sender.balance - leNat amount.toList)).setNonce
          ((sender.setBalance (sender.balance - leNat amount.toList)).nonce + 1)).setLastActive
          epoch.toUInt64,
        (receiver.setBalance (receiver.balance + leNat amount.toList)).setLastActive
          epoch.toUInt64]) := by
  have hs := sender.balance_lt
  have hr := receiver.balance_lt
  have hg : ¬ (sender.isFrozen || decide (sender.balance < leNat amount.toList)) = true := by
    simpa [hf] using hle
  have hw : wrappingAdd receiver.balance (leNat amount.toList) =
      receiver.balance + leNat amount.toList := Nat.mod_eq_of_lt (by omega)
  simp only [transfer, transferPair, if_neg hg, hw]

theorem transferExact_iff :
    TransferExact epoch amount flag sender receiver ↔
      (sender.isFrozen = true ∨ sender.balance < leNat amount.toList ∨
        receiver.balance + leNat amount.toList < 2 ^ 127) := by
  by_cases hrefused : sender.isFrozen = true ∨ sender.balance < leNat amount.toList
  · constructor
    · intro _
      exact hrefused.imp_right Or.inl
    · intro _ result hrun hsuccess
      rw [transfer_of_refused hrefused] at hrun
      obtain rfl := Except.ok.inj hrun
      cases hsuccess
  · obtain ⟨hfrozen, hshort⟩ := not_or.mp hrefused
    have hf := Bool.eq_false_iff.mpr hfrozen
    have hle := Nat.le_of_not_lt hshort
    have hs := sender.balance_lt
    have hr := receiver.balance_lt
    have hcredit := credited_setBalance_iff (a := receiver) (n := leNat amount.toList) (by omega)
    rw [← Credited.congr (Account.balance_setLastActive _ epoch.toUInt64)
      (Account.isFrozen_setLastActive _ epoch.toUInt64)] at hcredit
    constructor
    · intro h
      obtain ⟨sender', receiver', hw, _, hc⟩ := h _ (transfer_of_spendable hf hle) rfl
      obtain ⟨_, hw⟩ := List.cons.inj hw
      obtain rfl := (List.cons.inj hw).1
      exact Or.inr (Or.inr (hcredit.mp hc))
    · intro h result hrun _
      rw [transfer_of_spendable hf hle] at hrun
      obtain rfl := Except.ok.inj hrun
      have hdebit := debited_setBalance hle
      refine ⟨_, _, rfl, ⟨?_, ?_⟩, hcredit.mpr ?_⟩
      · rw [Account.balance_setLastActive, Account.balance_setNonce, hdebit.balance]
      · rw [Account.isFrozen_setLastActive, Account.isFrozen_setNonce, hdebit.frozen]
      · rcases h with h | h | h
        · exact absurd h hfrozen
        · exact absurd h hshort
        · exact h

end Transfer

/-- Exactly the credits that stay below the flag bit, or are refused, are exact. -/
theorem balance_arithmetic_exact_iff (epoch : UInt32) (amount : ByteArr 16) (flag : UInt8)
    (sender receiver : Account) :
    (MintExact epoch amount flag receiver ↔
      ¬ (2 ^ 127 ≤ receiver.balance + leNat amount.toList ∧
        receiver.balance + leNat amount.toList < 2 ^ 128)) ∧
    (TransferExact epoch amount flag sender receiver ↔
      (sender.isFrozen = true ∨ sender.balance < leNat amount.toList ∨
        receiver.balance + leNat amount.toList < 2 ^ 127)) :=
  ⟨mintExact_iff, transferExact_iff⟩

/-- Minting `2 ^ 127` to a fresh account, and paying one unit to an account that holds
`2 ^ 127 - 1`: both report success, and the recipient ends frozen with nothing. -/
theorem credit_into_flag_bit :
    ¬ MintExact 0 (amountOfNat (2 ^ 127)) 0 (Account.new alice) ∧
    ¬ TransferExact 0 (amountOfNat 1) 0 ((Account.new alice).setBalance 1)
      ((Account.new bob).setBalance (2 ^ 127 - 1)) := by
  have hbig : leNat (amountOfNat (2 ^ 127)).toList = 2 ^ 127 := leNat_toLe_of_lt (by decide)
  have hone : leNat (amountOfNat 1).toList = 1 := leNat_toLe_of_lt (by decide)
  refine ⟨?_, ?_⟩
  · rw [mintExact_iff, not_not, hbig, Account.balance_new]
    omega
  · rw [transferExact_iff, hone, Account.isFrozen_setBalance _ (by omega),
      Account.balance_setBalance _ (by omega), Account.balance_setBalance _ (by omega),
      Account.isFrozen_new]
    simp

end NativeTraceExecutor

end PslBank.Sequencer
