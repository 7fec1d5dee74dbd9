import PslBank.Sequencer.Ledger

/-!
# Supply accounting

The sum of all balances is what was minted less what was burned, on every run in
which no account pays itself. A transfer whose recipient is its signer writes the
debited copy first and the credited copy over it, so the account gains the amount
and nothing loses it.
-/
namespace PslBank.Sequencer

open PslBank.Lib PslBank.Crypto

set_option autoImplicit false

namespace SignedTx

def mintValue (tx : SignedTx) : ℕ := if tx.kind = .mint then tx.value else 0

def burnValue (tx : SignedTx) : ℕ := if tx.kind = .burn then tx.value else 0

end SignedTx

/-- The amounts of the successful mints. -/
def minted (xs : List Exec) : ℕ := (xs.map fun x => if x.res.success then x.tx.mintValue else 0).sum

/-- The amounts of the successful burns. -/
def burned (xs : List Exec) : ℕ := (xs.map fun x => if x.res.success then x.tx.burnValue else 0).sum

theorem minted_append (xs ys : List Exec) : minted (xs ++ ys) = minted xs + minted ys := by
  simp [minted]

theorem minted_singleton {x : Exec} (h : x.res.success = true) : minted [x] = x.tx.mintValue := by
  simp [minted, h]

theorem burned_append (xs ys : List Exec) : burned (xs ++ ys) = burned xs + burned ys := by
  simp [burned]

theorem burned_singleton {x : Exec} (h : x.res.success = true) : burned [x] = x.tx.burnValue := by
  simp [burned, h]

def SupplyAccounted (r : Run) : Prop :=
  r.node.state.ledger.total + burned r.executed = minted r.executed ∧
    ∀ x ∈ r.executed, x.tx.kind = .transfer ∨ x.tx.kind = .freeze →
      x.after.ledger.total = x.before.ledger.total

namespace Ledger

/-- A transfer to oneself that the executor lets through and that moves something. -/
def DuplicatesFunds (L : Ledger) (tx : SignedTx) : Prop :=
  tx.kind = .transfer ∧ tx.recipient = some tx.signer ∧ tx.value ≠ 0 ∧ L.CanSpend tx

instance (L : Ledger) (tx : SignedTx) : Decidable (L.DuplicatesFunds tx) :=
  inferInstanceAs (Decidable
    (tx.kind = .transfer ∧ tx.recipient = some tx.signer ∧ tx.value ≠ 0 ∧ L.CanSpend tx))

/-- A deposit that stays below the flag bit is an addition. -/
theorem total_deposit (L : Ledger) (k : PublicKey) {n : ℕ} (hfit : (L k).balance + n < 2 ^ 127) :
    total (Function.update L k ((L k).deposit n)) = L.total + n := by
  have h := total_update L k ((L k).deposit n)
  rw [Holding.balance_deposit, Nat.mod_eq_of_lt hfit] at h
  omega

theorem total_withdraw (L : Ledger) (k : PublicKey) {n : ℕ} (hle : n ≤ (L k).balance) {h : Holding}
    (hb : h.balance = (L k).balance - n) : total (Function.update L k h) + n = L.total := by
  have ht := total_update L k h
  omega

/-- One effect on the sum of balances, while the supply stays below the flag bit. -/
theorem Effect.total_eq {L L' : Ledger} {tx : SignedTx} (h : L.Effect tx L')
    (hdup : ¬ L.DuplicatesFunds tx) (hcap : L.total + tx.mintValue < 2 ^ 127) :
    L'.total + tx.burnValue = L.total + tx.mintValue := by
  cases h with
  | freeze hk =>
    have ht := total_update L tx.target ((L tx.target).mark (tx.flag != 0))
    rw [Holding.balance_mark] at ht
    have hb : tx.burnValue = 0 := by simp [SignedTx.burnValue, hk]
    have hm : tx.mintValue = 0 := by simp [SignedTx.mintValue, hk]
    omega
  | mint hk hfit =>
    have hb : tx.burnValue = 0 := by simp [SignedTx.burnValue, hk]
    have hm : tx.mintValue = tx.value := by simp [SignedTx.mintValue, hk]
    have hle := L.balance_le_total tx.target
    have ht := L.total_deposit tx.target (n := tx.value) (by omega)
    omega
  | burn hk hle =>
    have hb : tx.burnValue = tx.value := by simp [SignedTx.burnValue, hk]
    have hm : tx.mintValue = 0 := by simp [SignedTx.mintValue, hk]
    have ht := L.total_withdraw tx.signer hle (Holding.balance_withdraw (L tx.signer) tx.value)
    omega
  | @transfer receiver hk hr hne hcan =>
    have hb : tx.burnValue = 0 := by simp [SignedTx.burnValue, hk]
    have hm : tx.mintValue = 0 := by simp [SignedTx.mintValue, hk]
    have hboth := L.balance_add_le_total hne
    have hle := hcan.2
    have hout := L.total_withdraw tx.signer hle
      (Holding.balance_bump ((L tx.signer).withdraw tx.value))
    -- the recipient's holding is not the one just written
    have hin := total_deposit (Function.update L tx.signer ((L tx.signer).withdraw tx.value).bump)
      receiver (n := tx.value) (by rw [Function.update_of_ne hne]; omega)
    rw [Function.update_of_ne hne] at hin
    omega
  | selfTransfer hk hr hcan =>
    have hz : tx.value = 0 := by
      by_contra hv
      exact hdup ⟨hk, hr, hv, hcan⟩
    have hb : tx.burnValue = 0 := by simp [SignedTx.burnValue, hk]
    have hm : tx.mintValue = 0 := by simp [SignedTx.mintValue, hk]
    have hlt := (L tx.signer).balance_lt
    have ht := L.total_deposit tx.signer (n := tx.value) (by omega)
    omega

end Ledger

section

variable [Blake3]

theorem total_new : State.new.ledger.total = 0 := by
  unfold Ledger.total
  rw [Finset.sum_eq_zero]
  intro k _
  rw [ledger_new]

variable [Ed25519]

/-- Total minted amount below `2 ^ 127`, and no self-payment: the books balance and
transfers and freezes leave the sum alone. -/
theorem supply_accounted {cfg : Config} {calls : List Call}
    (hg : Run.GuardedCalls (fun _ _ => True) (fun _ s tx => ¬ s.ledger.DuplicatesFunds tx) cfg calls)
    (hm : minted (Run.ofCalls cfg calls).executed < 2 ^ 127) :
    SupplyAccounted (Run.ofCalls cfg calls) := by
  refine ledger_invariant (fun j => minted j.executed < 2 ^ 127 →
    j.state.ledger.total + burned j.executed = minted j.executed ∧
      ∀ x ∈ j.executed, x.tx.kind = .transfer ∨ x.tx.kind = .freeze →
        x.after.ledger.total = x.before.ledger.total) ?_ ?_ ?_ ?_ hg hm
  · exact fun j tx registry _ _ h => h
  · intro j p x _ hb hlaw hdup h hcap
    simp only [Journal.pass, minted_append, burned_append] at hcap ⊢
    obtain ⟨hsum, hold⟩ := h (by omega)
    rw [← hb] at hsum
    -- what this pass does to the sum, in terms of what it minted and burned
    have hstep : x.after.ledger.total + burned [x] = x.before.ledger.total + minted [x] := by
      rcases hlaw with ⟨hf, hsame⟩ | ⟨ht, heff⟩
      · simp [minted, burned, hf, hsame]
      · rw [minted_singleton ht] at hcap
        rw [minted_singleton ht, burned_singleton ht]
        exact heff.total_eq hdup (by omega)
    refine ⟨by omega, ?_⟩
    intro y hy hkind
    rcases List.mem_append.mp hy with hy | hy
    · exact hold y hy hkind
    · obtain rfl := List.mem_singleton.mp hy
      have hz : minted [y] = 0 ∧ burned [y] = 0 := by
        rcases hkind with hk | hk <;>
          simp [minted, burned, SignedTx.mintValue, SignedTx.burnValue, hk]
      omega
  · exact fun j tx p _ h => h
  · exact fun _ => ⟨by simp [total_new, minted, burned], by simp⟩

end

section Sample

attribute [local instance] sampleBlake3 sampleEd25519

def mintThenPay (receiver : PublicKey) : List Call :=
  [.ingress (sampleTx .mint 1 1 issuer (some alice) 10 0) sampleRegistry,
    .produceBlock 1000 1000,
    .ingress (sampleTx .transfer 1 1 alice (some receiver) 10 0) sampleRegistry,
    .produceBlock 2000 2000]

theorem supply_accounted_paying_bob :
    minted (Run.ofCalls sampleConfig (mintThenPay bob)).executed = 10 ∧
      SupplyAccounted (Run.ofCalls sampleConfig (mintThenPay bob)) :=
  ⟨by decide +kernel, supply_accounted (by decide +kernel) (by decide +kernel)⟩

/-- Ten units minted, and twenty in the account that paid itself. -/
theorem supply_not_accounted_paying_oneself :
    minted (Run.ofCalls sampleConfig (mintThenPay alice)).executed < 2 ^ 127 ∧
      ¬ SupplyAccounted (Run.ofCalls sampleConfig (mintThenPay alice)) := by
  have hm : minted (Run.ofCalls sampleConfig (mintThenPay alice)).executed = 10 := by decide +kernel
  have hb : ((Run.ofCalls sampleConfig (mintThenPay alice)).node.state.ledger alice).balance = 20 := by
    decide +kernel
  refine ⟨by rw [hm]; decide, fun h => ?_⟩
  have hle := Ledger.balance_le_total
    (Run.ofCalls sampleConfig (mintThenPay alice)).node.state.ledger alice
  have hsum := h.1
  omega

end Sample

end PslBank.Sequencer
