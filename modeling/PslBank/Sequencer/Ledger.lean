import PslBank.Sequencer.Run

/-!
# The ledger

What the account state is for: every key has a balance, a frozen flag and a nonce.
`Effect` lists what a transaction that succeeds can do to the ledger. A pass of the
execution loop either leaves the state alone or has such an effect (`lawful_pass`),
so results about balances, flags and nonces are proved on the ledger.

The two accounts of a transfer are separate copies, written back one after the
other. When both are copies of the same record the second write hides the first:
that is the constructor `selfTransfer`.
-/
namespace PslBank.Sequencer

open PslBank.Lib PslBank.Crypto

set_option autoImplicit false

/-- What the ledger rules see of a record. -/
@[ext] structure Holding where
  balance : ℕ
  balance_lt : balance < 2 ^ 127
  frozen : Bool
  nonce : UInt64

namespace Holding

/-- Bit 127 of the sum is lost to the balance and raises the flag. -/
def deposit (h : Holding) (amount : ℕ) : Holding :=
  { h with
    balance := (h.balance + amount) % 2 ^ 127
    balance_lt := Nat.mod_lt _ (by decide)
    frozen := h.frozen || decide (2 ^ 127 ≤ h.balance + amount) }

/-- Subtraction in the naturals; the callers have compared before. -/
def withdraw (h : Holding) (amount : ℕ) : Holding :=
  { h with balance := h.balance - amount, balance_lt := lt_of_le_of_lt (Nat.sub_le _ _) h.balance_lt }

def bump (h : Holding) : Holding := { h with nonce := h.nonce + 1 }

def mark (h : Holding) (frozen : Bool) : Holding := { h with frozen := frozen }

@[simp] theorem balance_deposit (h : Holding) (n : ℕ) :
    (h.deposit n).balance = (h.balance + n) % 2 ^ 127 := rfl

@[simp] theorem frozen_deposit (h : Holding) (n : ℕ) :
    (h.deposit n).frozen = (h.frozen || decide (2 ^ 127 ≤ h.balance + n)) := rfl

@[simp] theorem nonce_deposit (h : Holding) (n : ℕ) : (h.deposit n).nonce = h.nonce := rfl

@[simp] theorem balance_withdraw (h : Holding) (n : ℕ) :
    (h.withdraw n).balance = h.balance - n := rfl

@[simp] theorem frozen_withdraw (h : Holding) (n : ℕ) : (h.withdraw n).frozen = h.frozen := rfl

@[simp] theorem nonce_withdraw (h : Holding) (n : ℕ) : (h.withdraw n).nonce = h.nonce := rfl

@[simp] theorem balance_bump (h : Holding) : h.bump.balance = h.balance := rfl

@[simp] theorem frozen_bump (h : Holding) : h.bump.frozen = h.frozen := rfl

@[simp] theorem nonce_bump (h : Holding) : h.bump.nonce = h.nonce + 1 := rfl

@[simp] theorem balance_mark (h : Holding) (f : Bool) : (h.mark f).balance = h.balance := rfl

@[simp] theorem frozen_mark (h : Holding) (f : Bool) : (h.mark f).frozen = f := rfl

@[simp] theorem nonce_mark (h : Holding) (f : Bool) : (h.mark f).nonce = h.nonce := rfl

end Holding

/-- The successor of a nonce that has room to grow. -/
theorem toNat_nonce_succ {n : UInt64} (h : n.toNat + 1 < 2 ^ 64) : (n + 1).toNat = n.toNat + 1 := by
  rw [UInt64.toNat_add]
  exact Nat.mod_eq_of_lt h

/-- What every key holds. -/
abbrev Ledger := PublicKey → Holding

namespace Ledger

/-- The checks the executor makes on the sender of a transfer. -/
def CanSpend (L : Ledger) (tx : SignedTx) : Prop :=
  (L tx.signer).frozen = false ∧ tx.value ≤ (L tx.signer).balance

instance (L : Ledger) (tx : SignedTx) : Decidable (L.CanSpend tx) :=
  inferInstanceAs (Decidable ((L tx.signer).frozen = false ∧ tx.value ≤ (L tx.signer).balance))

/-- What a successful transaction does. -/
inductive Effect (L : Ledger) (tx : SignedTx) : Ledger → Prop
  | freeze (hk : tx.kind = .freeze) :
      Effect L tx (Function.update L tx.target ((L tx.target).mark (tx.flag != 0)))
  | mint (hk : tx.kind = .mint) (hfit : (L tx.target).balance + tx.value < 2 ^ 128) :
      Effect L tx (Function.update L tx.target ((L tx.target).deposit tx.value))
  | burn (hk : tx.kind = .burn) (hle : tx.value ≤ (L tx.signer).balance) :
      Effect L tx (Function.update L tx.signer ((L tx.signer).withdraw tx.value))
  | transfer {receiver : PublicKey} (hk : tx.kind = .transfer) (hr : tx.recipient = some receiver)
      (hne : receiver ≠ tx.signer) (hcan : L.CanSpend tx) :
      Effect L tx (Function.update (Function.update L tx.signer ((L tx.signer).withdraw tx.value).bump)
        receiver ((L receiver).deposit tx.value))
  | selfTransfer (hk : tx.kind = .transfer) (hr : tx.recipient = some tx.signer)
      (hcan : L.CanSpend tx) :
      Effect L tx (Function.update L tx.signer ((L tx.signer).deposit tx.value))

/-- What a successful transaction does to the holding of `k`. -/
inductive EffectAt (L : Ledger) (tx : SignedTx) (k : PublicKey) : Holding → Prop
  | untouched (hout : ¬ ((tx.kind = .transfer ∨ tx.kind = .burn) ∧ tx.signer = k))
      (hin : ¬ ((tx.kind = .mint ∧ tx.target = k) ∨ (tx.kind = .transfer ∧ tx.recipient = some k))) :
      EffectAt L tx k (L k)
  | marked (hk : tx.kind = .freeze) (ht : tx.target = k) :
      EffectAt L tx k ((L k).mark (tx.flag != 0))
  | minted (hk : tx.kind = .mint) (ht : tx.target = k)
      (hfit : (L k).balance + tx.value < 2 ^ 128) : EffectAt L tx k ((L k).deposit tx.value)
  | burned (hk : tx.kind = .burn) (hs : tx.signer = k) (hle : tx.value ≤ (L k).balance) :
      EffectAt L tx k ((L k).withdraw tx.value)
  | paid (hk : tx.kind = .transfer) (hs : tx.signer = k) (hr : tx.recipient ≠ some k)
      (hcan : L.CanSpend tx) : EffectAt L tx k ((L k).withdraw tx.value).bump
  | received (hk : tx.kind = .transfer) (hs : tx.signer ≠ k) (hr : tx.recipient = some k)
      (hcan : L.CanSpend tx) : EffectAt L tx k ((L k).deposit tx.value)
  | paidSelf (hk : tx.kind = .transfer) (hs : tx.signer = k) (hr : tx.recipient = some k)
      (hcan : L.CanSpend tx) : EffectAt L tx k ((L k).deposit tx.value)

/-- Every effect, seen from one account. -/
theorem Effect.at_key {L L' : Ledger} {tx : SignedTx} (h : L.Effect tx L') (k : PublicKey) :
    L.EffectAt tx k (L' k) := by
  cases h with
  | freeze hk =>
    by_cases ht : tx.target = k
    · subst ht
      rw [Function.update_self]
      exact .marked hk rfl
    · rw [Function.update_of_ne (Ne.symm ht)]
      exact .untouched (by simp [hk]) (by simp [hk])
  | mint hk hfit =>
    by_cases ht : tx.target = k
    · subst ht
      rw [Function.update_self]
      exact .minted hk rfl hfit
    · rw [Function.update_of_ne (Ne.symm ht)]
      exact .untouched (by simp [hk]) (by simp [hk, ht])
  | burn hk hle =>
    by_cases hs : tx.signer = k
    · subst hs
      rw [Function.update_self]
      exact .burned hk rfl hle
    · rw [Function.update_of_ne (Ne.symm hs)]
      exact .untouched (by simp [hs]) (by simp [hk])
  | @transfer receiver hk hr hne hcan =>
    by_cases ht : receiver = k
    · subst ht
      rw [Function.update_self]
      exact .received hk (Ne.symm hne) hr hcan
    · rw [Function.update_of_ne (Ne.symm ht)]
      by_cases hs : tx.signer = k
      · subst hs
        rw [Function.update_self]
        exact .paid hk rfl (by simpa [hr] using hne) hcan
      · rw [Function.update_of_ne (Ne.symm hs)]
        exact .untouched (by simp [hs]) (by simp [hk, hr, ht])
  | selfTransfer hk hr hcan =>
    by_cases hs : tx.signer = k
    · subst hs
      rw [Function.update_self]
      exact .paidSelf hk rfl hr hcan
    · rw [Function.update_of_ne (Ne.symm hs)]
      exact .untouched (by simp [hs]) (by simp [hk, hr, hs])

/-- The sum of all balances; absent accounts hold zero. The sum has `2 ^ 256` terms,
so no proof may try to compute it. -/
@[irreducible] def total (L : Ledger) : ℕ := ∑ k, (L k).balance

/-- Changing one holding changes the total by the difference. -/
theorem total_update (L : Ledger) (k : PublicKey) (h : Holding) :
    total (Function.update L k h) + (L k).balance = L.total + h.balance := by
  have hc : (fun i => (Function.update L k h i).balance) =
      Function.update (fun i => (L i).balance) k h.balance :=
    Function.comp_update Holding.balance L k h
  unfold total
  rw [hc]
  exact sum_update (fun i => (L i).balance) k h.balance

/-- No one holds more than there is. -/
theorem balance_le_total (L : Ledger) (k : PublicKey) : (L k).balance ≤ L.total := by
  have hz := total_update L k ((L k).withdraw (L k).balance)
  rw [Holding.balance_withdraw, Nat.sub_self, Nat.add_zero] at hz
  exact le_of_le_of_eq (Nat.le_add_left _ _) hz

/-- Two different accounts together hold at most everything. -/
theorem balance_add_le_total (L : Ledger) {k l : PublicKey} (hne : l ≠ k) :
    (L k).balance + (L l).balance ≤ L.total := by
  have hz := total_update L k ((L k).withdraw (L k).balance)
  have hl := balance_le_total (Function.update L k ((L k).withdraw (L k).balance)) l
  rw [Function.update_of_ne hne] at hl
  rw [Holding.balance_withdraw, Nat.sub_self, Nat.add_zero] at hz
  omega

end Ledger

/-! ## The state as a ledger -/

/-- The abstraction of a record. -/
def holding (a : Account) : Holding := ⟨a.balance, a.balance_lt, a.isFrozen, a.nonce⟩

/-- The ledger of a state. -/
def State.ledger (s : State) : Ledger := fun k => holding (s.account k)

@[simp] theorem holding_setLastActive (a : Account) (epoch : UInt64) :
    holding (a.setLastActive epoch) = holding a := by
  ext <;> simp [holding]

@[simp] theorem holding_setFrozen (a : Account) (frozen : Bool) :
    holding (a.setFrozen frozen) = (holding a).mark frozen := by
  ext <;> simp [holding]

@[simp] theorem holding_bump (a : Account) :
    holding (a.setNonce (a.nonce + 1)) = (holding a).bump := by
  ext <;> simp [holding]

/-- A write of the balance is a deposit, with the bit that goes over. -/
theorem holding_deposit (a : Account) {n : ℕ} (hfit : a.balance + n < 2 ^ 128) :
    holding (a.setBalance (a.balance + n)) = (holding a).deposit n := by
  ext <;> simp [holding, Account.balance_setBalance a hfit, Account.isFrozen_setBalance a hfit]

theorem holding_withdraw (a : Account) (n : ℕ) :
    holding (a.setBalance (a.balance - n)) = (holding a).withdraw n := by
  have hb := a.balance_lt
  have hlt : a.balance - n < 2 ^ 127 := by omega
  have hfit : a.balance - n < 2 ^ 128 := by omega
  have hhigh : ¬ 2 ^ 127 ≤ a.balance - n := by omega
  ext
  · simp only [holding, Account.balance_setBalance a hfit, Nat.mod_eq_of_lt hlt,
      Holding.balance_withdraw]
  · simp only [holding, Account.isFrozen_setBalance a hfit, hhigh, decide_false, Bool.or_false,
      Holding.frozen_withdraw]
  · simp [holding]

/-- What `transferPair` makes of two copies. -/
theorem transferPair_spec {epoch : UInt32} {amount : ℕ} {a b a' b' : Account}
    (h : transferPair epoch amount a b = some (a', b')) :
    (a.isFrozen = false ∧ amount ≤ a.balance) ∧
      (a'.pubkey = a.pubkey ∧ holding a' = ((holding a).withdraw amount).bump) ∧
      (b'.pubkey = b.pubkey ∧ holding b' = (holding b).deposit amount) := by
  unfold transferPair at h
  by_cases hc : (a.isFrozen || decide (a.balance < amount)) = true
  · rw [if_pos hc] at h
    cases h
  · rw [if_neg hc] at h
    obtain ⟨rfl, rfl⟩ := Prod.mk.inj (Option.some.inj h)
    simp only [Bool.or_eq_true, decide_eq_true_eq, not_or, Bool.not_eq_true, Nat.not_lt] at hc
    have ha := a.balance_lt
    have hb := b.balance_lt
    have hfit : b.balance + amount < 2 ^ 128 := by have := hc.2; omega
    refine ⟨hc, ⟨by simp, ?_⟩, ⟨by simp, ?_⟩⟩
    · rw [holding_setLastActive, holding_bump, holding_withdraw]
    · rw [holding_setLastActive, wrappingAdd, Nat.mod_eq_of_lt hfit, holding_deposit b hfit]

/-- A pass that succeeded had an effect, one that did not wrote nothing. -/
def Exec.Lawful (x : Exec) : Prop :=
  (x.res.success = false ∧ x.after = x.before) ∨
    (x.res.success = true ∧ x.before.ledger.Effect x.tx x.after.ledger)

section

variable [Blake3]

/-- Nobody holds anything at first. -/
theorem ledger_new (k : PublicKey) : State.new.ledger k = ⟨0, by decide, false, 0⟩ := by
  unfold State.ledger holding
  rw [State.account_new]
  simp

/-- Filing a record is an update of the ledger at its key. -/
theorem ledger_putAccount (s : State) (a : Account) :
    (s.putAccount a).ledger = Function.update s.ledger a.pubkey (holding a) := by
  funext k
  unfold State.ledger
  rw [State.account_putAccount]
  by_cases hk : k = a.pubkey
  · subst hk
    simp
  · simp [hk]

theorem writeBack_refused (s : State) (n : ℕ) : writeBack s (refused n) = s := rfl

theorem writeBack_one (s : State) (a : Account) : writeBack s (applied [a]) = s.putAccount a := rfl

theorem writeBack_two (s : State) (a b : Account) :
    writeBack s (applied [a, b]) = (s.putAccount a).putAccount b := rfl

/-- Writing results back keeps every record under its own key. -/
theorem State.WellKeyed.writeBack {s : State} (hs : s.WellKeyed) (res : TraceResult) :
    (writeBack s res).WellKeyed := by
  have hfold : ∀ (accounts : List Account) (t : State), t.WellKeyed →
      (accounts.foldl State.putAccount t).WellKeyed := by
    intro accounts
    induction accounts with
    | nil => exact fun t ht => ht
    | cons a accounts ih => exact fun t ht => ih _ (ht.putAccount a)
  unfold PslBank.Sequencer.writeBack
  split
  · exact hfold _ s hs
  · exact hs

/-! ## Each primitive has its effect -/

section Primitives

variable {s : State} {tx : SignedTx} {epoch : UInt32} {w : Witness} {res : TraceResult}

/-- The claim of the lemmas below about one result. -/
def LawfulResult (s : State) (tx : SignedTx) (res : TraceResult) : Prop :=
  (res.success = false ∧ writeBack s res = s) ∨
    (res.success = true ∧ s.ledger.Effect tx (writeBack s res).ledger)

/-- A refusal leaves the ledger as it is. -/
theorem lawfulResult_refused (n : ℕ) : LawfulResult s tx (refused n) :=
  .inl ⟨rfl, writeBack_refused s n⟩

/-- Each kind of the native executor does what the rules say; a freeze only moves the flag. -/
theorem lawful_freeze (hs : s.WellKeyed) (hk : tx.kind = .freeze)
    (h : NativeTraceExecutor.freeze ⟨epoch, [s.account tx.target], tx.amount, tx.flag⟩ = .ok res) :
    LawfulResult s tx res := by
  obtain rfl := Except.ok.inj h
  refine .inr ⟨rfl, ?_⟩
  rw [writeBack_one, ledger_putAccount, Account.pubkey_setFrozen, hs, holding_setFrozen]
  exact .freeze hk

/-- A mint deposits, or refuses on an overflow of `u128`. -/
theorem lawful_mint (hs : s.WellKeyed) (hk : tx.kind = .mint)
    (h : NativeTraceExecutor.mint ⟨epoch, [s.account tx.target], tx.amount, tx.flag⟩ = .ok res) :
    LawfulResult s tx res := by
  unfold NativeTraceExecutor.mint at h
  by_cases hfit : (s.account tx.target).balance + tx.value < 2 ^ 128
  · have hc : checkedAdd (s.account tx.target).balance (leNat tx.amount.toList) =
        some ((s.account tx.target).balance + tx.value) :=
      if_pos hfit
    simp only [hc] at h
    obtain rfl := Except.ok.inj h
    refine .inr ⟨rfl, ?_⟩
    rw [writeBack_one, ledger_putAccount, Account.pubkey_setLastActive, Account.pubkey_setBalance, hs,
      holding_setLastActive, holding_deposit _ hfit]
    exact .mint hk hfit
  · have hc : checkedAdd (s.account tx.target).balance (leNat tx.amount.toList) = none :=
      if_neg hfit
    simp only [hc] at h
    obtain rfl := Except.ok.inj h
    exact lawfulResult_refused 1

/-- A burn withdraws what is there, or refuses. -/
theorem lawful_burn (hs : s.WellKeyed) (hk : tx.kind = .burn)
    (h : NativeTraceExecutor.burn ⟨epoch, [s.account tx.signer], tx.amount, tx.flag⟩ = .ok res) :
    LawfulResult s tx res := by
  change (if (s.account tx.signer).balance < tx.value then Except.ok (refused 1)
    else Except.ok (applied [((s.account tx.signer).setBalance
      ((s.account tx.signer).balance - tx.value)).setLastActive epoch.toUInt64])) = Except.ok res at h
  by_cases hlt : (s.account tx.signer).balance < tx.value
  · rw [if_pos hlt] at h
    obtain rfl := Except.ok.inj h
    exact lawfulResult_refused 1
  · rw [if_neg hlt] at h
    obtain rfl := Except.ok.inj h
    refine .inr ⟨rfl, ?_⟩
    rw [writeBack_one, ledger_putAccount, Account.pubkey_setLastActive, Account.pubkey_setBalance, hs,
      holding_setLastActive, holding_withdraw]
    exact .burn hk (Nat.le_of_not_lt hlt)

/-- A transfer writes the sender first, so a transfer to oneself keeps the deposit alone. -/
theorem lawful_transfer (hs : s.WellKeyed) (hk : tx.kind = .transfer) {receiver : PublicKey}
    (hr : tx.recipient = some receiver)
    (h : NativeTraceExecutor.transfer
      ⟨epoch, [s.account tx.signer, s.account receiver], tx.amount, tx.flag⟩ = .ok res) :
    LawfulResult s tx res := by
  unfold NativeTraceExecutor.transfer at h
  cases hp : transferPair epoch (leNat tx.amount.toList) (s.account tx.signer)
      (s.account receiver) with
  | none =>
    simp only [hp] at h
    obtain rfl := Except.ok.inj h
    exact lawfulResult_refused 2
  | some pair =>
    obtain ⟨a', b'⟩ := pair
    simp only [hp] at h
    obtain rfl := Except.ok.inj h
    obtain ⟨hcan, ⟨hak, hah⟩, ⟨hbk, hbh⟩⟩ := transferPair_spec hp
    refine .inr ⟨rfl, ?_⟩
    rw [writeBack_two, ledger_putAccount, ledger_putAccount, hak, hbk, hs, hs, hah, hbh]
    by_cases hne : receiver = tx.signer
    · subst hne
      rw [Function.update_idem]
      exact .selfTransfer hk hr hcan
    · exact .transfer hk hr hne hcan

end Primitives

/-- Every pass of the native executor on a well-keyed state is lawful and keeps the state well keyed. -/
theorem lawful_pass {s : State} {tx : SignedTx} {epoch : UInt32} {x : Exec} (hs : s.WellKeyed)
    (h : executeTx NativeTraceExecutor.execute s tx epoch = .ok x) : x.Lawful ∧ x.after.WellKeyed := by
  obtain ⟨w, hw, hr, hx⟩ := executeTx_ok h
  suffices hl : LawfulResult s tx x.res by
    rw [hx]
    exact ⟨hl, hs.writeBack _⟩
  unfold assembleWitness at hw
  unfold NativeTraceExecutor.execute at hr
  cases hk : tx.kind with
  | freeze =>
    rw [hk] at hw hr
    obtain rfl := Except.ok.inj hw
    exact lawful_freeze hs hk hr
  | mint =>
    rw [hk] at hw hr
    obtain rfl := Except.ok.inj hw
    exact lawful_mint hs hk hr
  | burn =>
    rw [hk] at hw hr
    obtain rfl := Except.ok.inj hw
    exact lawful_burn hs hk hr
  | transfer =>
    rw [hk] at hw hr
    cases hrec : tx.recipient with
    | none =>
      rw [hrec] at hw
      cases hw
    | some receiver =>
      rw [hrec] at hw
      obtain rfl := Except.ok.inj hw
      exact lawful_transfer hs hk hrec hr
  | multiAsset =>
    rw [hk] at hw
    cases hw

/-! ## Runs on the ledger -/

variable [Ed25519]

/-- `journal_invariant` for the native executor, with the pass given by its effect on the ledger. -/
theorem ledger_invariant {admissible : Journal → SignedTx → Prop}
    {sound : List Exec → State → SignedTx → Prop} (Inv : Journal → Prop)
    (haccept : ∀ j tx registry, validate tx j.state registry = .ok () → admissible j tx →
      Inv j → Inv (j.accept tx))
    (hpass : ∀ j p x, j.pending = x.tx :: p → x.before = j.state → x.Lawful →
      sound j.executed x.before x.tx → Inv j → Inv (j.pass p x))
    (hlose : ∀ j tx p, j.pending = tx :: p → Inv j → Inv (j.lose p))
    (hstart : Inv ⟨[], State.new, [], []⟩) {cfg : Config} {calls : List Call}
    (hg : Run.GuardedCalls admissible sound cfg calls) : Inv (Run.ofCalls cfg calls).journal := by
  refine (journal_invariant (fun execute => execute = NativeTraceExecutor.execute)
    (fun j => j.state.WellKeyed ∧ Inv j) ?_ ?_ ?_ ⟨State.wellKeyed_new, hstart⟩ (fun _ => rfl) hg).2
  · exact fun j tx registry hv ha h => ⟨h.1, haccept j tx registry hv ha h.2⟩
  · rintro epoch _ j tx p x rfl hp hx hsound h
    obtain ⟨hlaw, hkeyed⟩ := lawful_pass h.1 hx
    obtain ⟨rfl, -, hb⟩ := executeTx_before hx
    rw [← hb] at hsound
    exact ⟨hkeyed, hpass j p x hp hb hlaw hsound h.2⟩
  · exact fun j tx p hp h => ⟨h.1, hlose j tx p hp h.2⟩

/-- The passes of a run lead from the empty state to the live state, each lawful and
each meeting the condition on passes. -/
theorem passes_ofCalls {admissible : Journal → SignedTx → Prop} {sound : State → SignedTx → Prop}
    {cfg : Config} {calls : List Call}
    (hg : Run.GuardedCalls admissible (fun _ => sound) cfg calls) :
    Chain Exec.before Exec.after (fun x => x.Lawful ∧ sound x.before x.tx) State.new
      (Run.ofCalls cfg calls).executed (Run.ofCalls cfg calls).node.state := by
  refine ledger_invariant (fun j => Chain Exec.before Exec.after
    (fun x => x.Lawful ∧ sound x.before x.tx) State.new j.executed j.state) ?_ ?_ ?_ (Chain.nil _) hg
  · exact fun j tx registry _ _ h => h
  · intro j p x _ hb hlaw hsound h
    rw [← hb] at h
    exact Chain.snoc h ⟨hlaw, hsound⟩
  · exact fun j tx p _ h => h

end

end PslBank.Sequencer
