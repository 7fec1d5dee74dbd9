import PslBank.Sequencer.Ledger

/-!
# Frozen accounts

Between a successful freeze of an account and the next successful unfreeze its
balance never falls, on every run whose passes stay away from three cases. A burn
does not look at the flag, so one admitted before the freeze is still carried out
after it. A mint or an incoming transfer that pushes the balance field past bit 127
loses that bit to the flag.
-/
namespace PslBank.Sequencer

open PslBank.Lib PslBank.Crypto

set_option autoImplicit false

/-- A successful freeze of `k`. -/
def Exec.Freezes (x : Exec) (k : PublicKey) : Prop :=
  x.res.success = true ∧ x.tx.kind = .freeze ∧ x.tx.target = k ∧ x.tx.flag ≠ 0

instance (x : Exec) (k : PublicKey) : Decidable (x.Freezes k) :=
  inferInstanceAs (Decidable (_ = _ ∧ _ = _ ∧ _ = _ ∧ _ ≠ _))

/-- A successful unfreeze of `k`. -/
def Exec.Unfreezes (x : Exec) (k : PublicKey) : Prop :=
  x.res.success = true ∧ x.tx.kind = .freeze ∧ x.tx.target = k ∧ x.tx.flag = 0

/-- No pass lowers the balance of an account that an earlier pass froze and none
between them unfroze. -/
def FrozenHolds (r : Run) : Prop :=
  ∀ k xs f ys x zs, r.executed = xs ++ f :: (ys ++ x :: zs) → f.Freezes k →
    (∀ y ∈ ys, ¬ y.Unfreezes k) → (x.before.ledger k).balance ≤ (x.after.ledger k).balance

namespace Ledger

/-- The passes that can lower a frozen balance: a burn that is covered, and a mint or
a transfer into an account whose balance field it overflows. -/
def LowersFrozen (L : Ledger) (tx : SignedTx) : Prop :=
  (tx.kind = .burn ∧ (L tx.signer).frozen = true ∧ 0 < tx.value ∧
      tx.value ≤ (L tx.signer).balance) ∨
    (tx.kind = .mint ∧ (L tx.target).frozen = true ∧ tx.value < 2 ^ 127 ∧
      2 ^ 127 ≤ (L tx.target).balance + tx.value) ∨
    (tx.kind = .transfer ∧ (L tx.target).frozen = true ∧ L.CanSpend tx ∧
      2 ^ 127 ≤ (L tx.target).balance + tx.value)

instance (L : Ledger) (tx : SignedTx) : Decidable (L.LowersFrozen tx) :=
  inferInstanceAs (Decidable ((_ = _ ∧ _ = _ ∧ _ < _ ∧ _ ≤ _) ∨ (_ = _ ∧ _ = _ ∧ _ < _ ∧ _ ≤ _) ∨
    (_ = _ ∧ _ = _ ∧ L.CanSpend tx ∧ _ ≤ _)))

variable {L L' : Ledger} {tx : SignedTx} {k : PublicKey}

/-- Only an unfreeze takes the flag away. -/
theorem Effect.frozen_of_frozen (h : L.Effect tx L') (hf : (L k).frozen = true)
    (hu : ¬ (tx.kind = .freeze ∧ tx.target = k ∧ tx.flag = 0)) : (L' k).frozen = true := by
  have hat := h.at_key k
  generalize L' k = after at hat ⊢
  cases hat with
  | untouched hout hin => exact hf
  | marked hk ht => simpa [hk, ht] using hu
  | minted hk ht hfit => simp [hf]
  | burned hk hs hle => simpa using hf
  | paid hk hs hr hcan => simpa using hf
  | received hk hs hr hcan => simp [hf]
  | paidSelf hk hs hr hcan => simp [hf]

/-- A deposit that does not overflow the balance field does not lower it. -/
theorem balance_le_deposit (h : Holding) {n : ℕ} (hfit : h.balance + n < 2 ^ 128)
    (hn : ¬ (n < 2 ^ 127 ∧ 2 ^ 127 ≤ h.balance + n)) : h.balance ≤ (h.deposit n).balance := by
  have hlt := h.balance_lt
  rw [Holding.balance_deposit]
  by_cases hlow : h.balance + n < 2 ^ 127
  · rw [Nat.mod_eq_of_lt hlow]
    exact Nat.le_add_right _ _
  · rw [Nat.mod_eq_sub_mod (Nat.le_of_not_lt hlow), Nat.mod_eq_of_lt (by omega)]
    omega

theorem Effect.balance_of_frozen (h : L.Effect tx L') (hf : (L k).frozen = true)
    (hlow : ¬ L.LowersFrozen tx) : (L k).balance ≤ (L' k).balance := by
  -- a frozen account is not the sender of a transfer that goes through
  have hsender : tx.signer = k → ¬ L.CanSpend tx := by
    rintro rfl hcan
    rw [hcan.1] at hf
    cases hf
  have hat := h.at_key k
  generalize L' k = after at hat ⊢
  cases hat with
  | untouched hout hin => exact Nat.le_refl _
  | marked hk ht => simp
  | minted hk ht hfit =>
    subst ht
    exact balance_le_deposit _ hfit fun hc => hlow (.inr (.inl ⟨hk, hf, hc⟩))
  | burned hk hs hle =>
    subst hs
    have hz : tx.value = 0 := by
      by_contra hv
      exact hlow (.inl ⟨hk, hf, Nat.pos_of_ne_zero hv, hle⟩)
    simp [hz]
  | paid hk hs hr hcan => exact absurd hcan (hsender hs)
  | received hk hs hr hcan =>
    have htarget : tx.target = k := by simp [SignedTx.target, hr]
    have hsend := (L tx.signer).balance_lt
    have hrecv := (L k).balance_lt
    have hle := hcan.2
    refine balance_le_deposit _ (by omega) fun hc => hlow (.inr (.inr ⟨hk, ?_⟩))
    rw [htarget]
    exact ⟨hf, hcan, hc.2⟩
  | paidSelf hk hs hr hcan => exact absurd hcan (hsender hs)

end Ledger

/-- The flag stays up along passes that do not take it down. -/
theorem frozen_along {ok : Exec → Prop} {s t : State} {ys : List Exec} {k : PublicKey}
    (h : Chain Exec.before Exec.after (fun x => x.Lawful ∧ ok x) s ys t)
    (hf : (s.ledger k).frozen = true) (hu : ∀ y ∈ ys, ¬ y.Unfreezes k) :
    (t.ledger k).frozen = true := by
  induction h with
  | nil => exact hf
  | @snoc ys y before hy ih =>
    have hbefore := ih fun z hz => hu z (List.mem_append_left _ hz)
    rcases hy.1 with ⟨-, hsame⟩ | ⟨ht, heff⟩
    · rw [hsame]
      exact hbefore
    · refine heff.frozen_of_frozen hbefore fun hc => ?_
      exact hu y (List.mem_append_right _ List.mem_cons_self) ⟨ht, hc⟩

section

variable [Blake3] [Ed25519]

theorem frozen_holds {cfg : Config} {calls : List Call}
    (hg : Run.GuardedCalls (fun _ _ => True) (fun _ s tx => ¬ s.ledger.LowersFrozen tx) cfg calls) :
    FrozenHolds (Run.ofCalls cfg calls) := by
  intro k xs f ys x zs hsplit hfreeze hu
  have hchain := passes_ofCalls hg
  rw [hsplit] at hchain
  obtain ⟨-, hf, hrest⟩ := hchain.split_at
  obtain ⟨hys, hx, -⟩ := hrest.split_at
  have hset : (f.after.ledger k).frozen = true := by
    obtain ⟨hs, hk, rfl, hflag⟩ := hfreeze
    rcases hf.1 with ⟨hno, -⟩ | ⟨-, heff⟩
    · rw [hs] at hno
      cases hno
    · generalize f.after.ledger = L' at heff ⊢
      cases heff with
      | freeze => simp [hflag]
      | mint hk' | burn hk' | transfer hk' | selfTransfer hk' =>
        rw [hk] at hk'
        cases hk'
  have hbefore := frozen_along hys hset hu
  rcases hx.1 with ⟨-, hsame⟩ | ⟨-, heff⟩
  · rw [hsame]
  · exact heff.balance_of_frozen hbefore hx.2

end

section Sample

attribute [local instance] sampleBlake3 sampleEd25519

/-- The issuer holds ten units, is frozen, and `op` was admitted before the freeze ran. -/
def freezeThen (op : SignedTx) : List Call :=
  [.ingress (sampleTx .mint 1 1 issuer none 10 0) sampleRegistry,
    .produceBlock 1000 1000,
    .ingress (sampleTx .freeze 1 2 issuer none 0 1) sampleRegistry,
    .ingress op sampleRegistry,
    .produceBlock 2000 2000]

theorem frozen_holds_transfer :
    (Run.ofCalls sampleConfig (freezeThen (sampleTx .transfer 1 1 issuer (some bob) 4 0))).executed.length
        = 3 ∧
      FrozenHolds
        (Run.ofCalls sampleConfig (freezeThen (sampleTx .transfer 1 1 issuer (some bob) 4 0))) :=
  ⟨by decide +kernel, frozen_holds (by decide +kernel)⟩

/-- A burn queued behind the freeze takes four units out of the frozen account. -/
theorem frozen_not_holds_burn :
    ¬ FrozenHolds (Run.ofCalls sampleConfig (freezeThen (sampleTx .burn 1 1 issuer none 4 0))) := by
  intro h
  generalize hr : Run.ofCalls sampleConfig (freezeThen (sampleTx .burn 1 1 issuer none 4 0)) = r at h
  have hlen : r.executed.length = 3 := by rw [← hr]; decide +kernel
  have hfreeze : (r.executed.map fun x => decide (x.Freezes issuer)) = [false, true, false] := by
    rw [← hr]; decide +kernel
  have hbalance : (r.executed.map fun x =>
      ((x.before.ledger issuer).balance, (x.after.ledger issuer).balance)) =
        [(0, 10), (10, 10), (10, 6)] := by
    rw [← hr]; decide +kernel
  obtain ⟨m, f, b, hx⟩ := List.length_eq_three.mp hlen
  simp only [hx, List.map_cons, List.map_nil, List.cons.injEq, Prod.mk.injEq, decide_eq_true_eq,
    and_true] at hfreeze hbalance
  have hle := h issuer [m] f [] b [] hx hfreeze.2.1 (by simp)
  omega

end Sample

end PslBank.Sequencer
