import PslBank.Sequencer.Supply

/-!
# Flows by asset

A transaction carries an asset id; the account record does not. Admission looks up
the issuer of the id and the executor compares the amount with the one untagged
balance, so units received under one asset cover a payment under another. Flows by
asset stay separate on every run in which a payment is always covered by the
balance less what the payer holds of other assets, and no account pays itself.
-/
namespace PslBank.Sequencer

open PslBank.Lib PslBank.Crypto

set_option autoImplicit false

namespace SignedTx

/-- What a success takes out of `a`: a transfer or a burn that `a` signed. -/
def outValue (tx : SignedTx) (a : PublicKey) : ℕ :=
  if (tx.kind = .transfer ∨ tx.kind = .burn) ∧ tx.signer = a then tx.value else 0

/-- What a success brings to `a`: a mint or a transfer to `a`. -/
def inValue (tx : SignedTx) (a : PublicKey) : ℕ :=
  if (tx.kind = .mint ∧ tx.target = a) ∨ (tx.kind = .transfer ∧ tx.recipient = some a) then tx.value
  else 0

end SignedTx

/-- The successful outgoing amounts of `a` under the assets that `tag` selects. -/
def sent (tag : UInt32 → Bool) (a : PublicKey) (xs : List Exec) : ℕ :=
  (xs.map fun x => if x.res.success && tag x.tx.assetId then x.tx.outValue a else 0).sum

/-- The successful incoming amounts of `a` under the assets that `tag` selects. -/
def received (tag : UInt32 → Bool) (a : PublicKey) (xs : List Exec) : ℕ :=
  (xs.map fun x => if x.res.success && tag x.tx.assetId then x.tx.inValue a else 0).sum

/-- At every point, nobody has sent more of an asset than received. -/
def AssetsIsolated (r : Run) : Prop :=
  ∀ xs, xs <+: r.executed → ∀ a b, sent (· == b) a xs ≤ received (· == b) a xs

/-- What `a` holds of assets other than `b`. -/
def heldOtherwise (b : UInt32) (a : PublicKey) (xs : List Exec) : ℕ :=
  received (· != b) a xs - sent (· != b) a xs

/-- A transfer or burn that the executor lets through although the balance does not
cover the amount on top of the payer's units of other assets. -/
def SpendsOtherAsset (earlier : List Exec) (s : State) (tx : SignedTx) : Prop :=
  ((tx.kind = .transfer ∧ s.ledger.CanSpend tx) ∨
      (tx.kind = .burn ∧ tx.value ≤ (s.ledger tx.signer).balance)) ∧
    (s.ledger tx.signer).balance < tx.value + heldOtherwise tx.assetId tx.signer earlier

instance (earlier : List Exec) (s : State) (tx : SignedTx) : Decidable (SpendsOtherAsset earlier s tx) :=
  inferInstanceAs (Decidable (((_ = _ ∧ s.ledger.CanSpend tx) ∨ (_ = _ ∧ _ ≤ _)) ∧ _ < _))

/-! ## Flows along a run -/

section Flows

variable (tag : UInt32 → Bool) (a : PublicKey) (xs : List Exec) (x : Exec)

theorem sent_snoc : sent tag a (xs ++ [x]) =
    sent tag a xs + if x.res.success && tag x.tx.assetId then x.tx.outValue a else 0 := by
  simp [sent]

theorem received_snoc : received tag a (xs ++ [x]) =
    received tag a xs + if x.res.success && tag x.tx.assetId then x.tx.inValue a else 0 := by
  simp [received]

/-- One asset and the others make up everything. -/
theorem sent_split (b : UInt32) :
    sent (fun _ => true) a xs = sent (· == b) a xs + sent (· != b) a xs := by
  unfold sent
  rw [← List.sum_map_add]
  congr 1
  refine List.map_congr_left fun y _ => ?_
  by_cases hb : y.tx.assetId = b <;> cases y.res.success <;> simp [hb]

theorem received_split (b : UInt32) :
    received (fun _ => true) a xs = received (· == b) a xs + received (· != b) a xs := by
  unfold received
  rw [← List.sum_map_add]
  congr 1
  refine List.map_congr_left fun y _ => ?_
  by_cases hb : y.tx.assetId = b <;> cases y.res.success <;> simp [hb]

end Flows

/-- A deposit adds at most its amount. -/
theorem Holding.balance_deposit_le (h : Holding) (n : ℕ) : (h.deposit n).balance ≤ h.balance + n :=
  Nat.mod_le _ _

/-- An effect takes out of an account what it sends and brings at most what it
receives. -/
theorem Ledger.Effect.balance_flow {L L' : Ledger} {tx : SignedTx} (h : L.Effect tx L')
    (hdup : ¬ L.DuplicatesFunds tx) (a : PublicKey) :
    (L' a).balance + tx.outValue a ≤ (L a).balance + tx.inValue a := by
  have hle := (L a).balance_deposit_le tx.value
  have hat := h.at_key a
  unfold SignedTx.outValue SignedTx.inValue
  generalize L' a = after at hat ⊢
  cases hat with
  | untouched hout hin => rw [if_neg hout, if_neg hin]
  | marked hk ht => simp [hk]
  | minted hk ht hfit => simpa [hk, ht] using hle
  | burned hk hs hcover => simp [hk, hs, Nat.sub_add_cancel hcover]
  | paid hk hs hr hcan =>
    subst hs
    simp [hk, hr, Nat.sub_add_cancel hcan.2]
  | received hk hs hr hcan => simpa [hk, hs, hr] using hle
  | paidSelf hk hs hr hcan =>
    have hz : tx.value = 0 := by
      by_contra hv
      exact hdup ⟨hk, hr.trans (congrArg some hs.symm), hv, hcan⟩
    simpa [hz] using hle

/-- Whoever pays in a success passed the executor's check. -/
theorem Ledger.Effect.payer_covers {L L' : Ledger} {tx : SignedTx} (h : L.Effect tx L')
    {a : PublicKey} (ha : tx.outValue a ≠ 0) :
    tx.signer = a ∧ tx.outValue a = tx.value ∧
      ((tx.kind = .transfer ∧ L.CanSpend tx) ∨ (tx.kind = .burn ∧ tx.value ≤ (L tx.signer).balance)) := by
  unfold SignedTx.outValue at ha ⊢
  by_cases hc : (tx.kind = .transfer ∨ tx.kind = .burn) ∧ tx.signer = a
  · rw [if_pos hc]
    refine ⟨hc.2, rfl, ?_⟩
    cases h with
    | freeze hk | mint hk => simp [hk] at hc
    | burn hk hle => exact .inr ⟨hk, hle⟩
    | transfer hk hr hne hcan => exact .inl ⟨hk, hcan⟩
    | selfTransfer hk hr hcan => exact .inl ⟨hk, hcan⟩
  · exact absurd (if_neg hc) ha

/-- Balances are backed by flows, and flows by asset are isolated so far. -/
structure FlowsBacked (j : Journal) : Prop where
  backed : ∀ a, (j.state.ledger a).balance + sent (fun _ => true) a j.executed ≤
    received (fun _ => true) a j.executed
  isolated : ∀ xs, xs <+: j.executed → ∀ a b, sent (· == b) a xs ≤ received (· == b) a xs

theorem FlowsBacked.pass {j : Journal} {x : Exec} {p : List SignedTx} (h : FlowsBacked j)
    (hb : x.before = j.state) (hlaw : x.Lawful) (hdup : ¬ x.before.ledger.DuplicatesFunds x.tx)
    (hother : ¬ SpendsOtherAsset j.executed x.before x.tx) : FlowsBacked (j.pass p x) := by
  have hbacked := h.backed
  have hnow := h.isolated j.executed (List.prefix_refl _)
  rw [← hb] at hbacked
  suffices hnew : (∀ a, (x.after.ledger a).balance + sent (fun _ => true) a (j.executed ++ [x]) ≤
      received (fun _ => true) a (j.executed ++ [x])) ∧
      ∀ a b, sent (· == b) a (j.executed ++ [x]) ≤ received (· == b) a (j.executed ++ [x]) by
    refine ⟨hnew.1, fun xs hxs => ?_⟩
    rcases List.prefix_concat_iff.mp hxs with rfl | hxs
    · exact hnew.2
    · exact h.isolated xs hxs
  rcases hlaw with ⟨hf, hsame⟩ | ⟨ht, heff⟩
  · constructor
    · intro a
      rw [sent_snoc, received_snoc, hsame]
      simpa [hf] using hbacked a
    · intro a b
      rw [sent_snoc, received_snoc]
      simpa [hf] using hnow a b
  · constructor
    · intro a
      have hflow := heff.balance_flow hdup a
      have hold := hbacked a
      rw [sent_snoc, received_snoc]
      simp only [ht, Bool.and_self, ↓reduceIte]
      omega
    · intro a b
      have hold := hnow a b
      rw [sent_snoc, received_snoc]
      by_cases htag : x.tx.assetId = b
      · simp only [ht, htag, beq_self_eq_true, Bool.and_self, ↓reduceIte]
        by_cases hz : x.tx.outValue a = 0
        · omega
        · -- `a` pays under `b`: its balance covers the amount and its other assets
          obtain ⟨hsigner, hvalue, hpays⟩ := heff.payer_covers hz
          have hcover : x.tx.value + heldOtherwise b a j.executed ≤ (x.before.ledger a).balance := by
            by_contra hlt
            refine hother ⟨hpays, ?_⟩
            rw [htag, hsigner]
            exact Nat.lt_of_not_le hlt
          have htotal := hbacked a
          rw [sent_split a _ b, received_split a _ b] at htotal
          unfold heldOtherwise at hcover
          omega
      · simpa [htag] using hold

section

variable [Blake3] [Ed25519]

theorem assets_isolated {cfg : Config} {calls : List Call}
    (hg : Run.GuardedCalls (fun _ _ => True)
      (fun earlier s tx => ¬ SpendsOtherAsset earlier s tx ∧ ¬ s.ledger.DuplicatesFunds tx) cfg calls) :
    AssetsIsolated (Run.ofCalls cfg calls) := by
  have h : FlowsBacked (Run.ofCalls cfg calls).journal := by
    refine ledger_invariant FlowsBacked ?_ ?_ ?_ ?_ hg
    · exact fun j tx registry _ _ h => ⟨h.backed, h.isolated⟩
    · exact fun j p x _ hb hlaw hs h => h.pass hb hlaw hs.2 hs.1
    · exact fun j tx p _ h => ⟨h.backed, h.isolated⟩
    · constructor
      · intro a
        simp [ledger_new, sent, received]
      · intro xs hxs a b
        rw [List.prefix_nil.mp hxs]
        exact Nat.le_refl _
  exact h.isolated

end

section Sample

attribute [local instance] sampleBlake3 sampleEd25519

/-- Alice is given ten units of asset 1 and pays four under asset `b`. -/
def payUnder (b : UInt32) : List Call :=
  [.ingress (sampleTx .mint 1 1 issuer (some alice) 10 0) sampleRegistry,
    .produceBlock 1000 1000,
    .ingress (sampleTx .transfer b 1 alice (some bob) 4 0) sampleRegistry,
    .produceBlock 2000 2000]

theorem assets_isolated_same_asset :
    sent (· == 1) alice (Run.ofCalls sampleConfig (payUnder 1)).executed = 4 ∧
      AssetsIsolated (Run.ofCalls sampleConfig (payUnder 1)) :=
  ⟨by decide +kernel, assets_isolated (by decide +kernel)⟩

/-- Units of asset 1 spent as asset 2, which Alice never received. -/
theorem assets_not_isolated_other_asset :
    ¬ AssetsIsolated (Run.ofCalls sampleConfig (payUnder 2)) := by
  intro h
  have hsent : sent (· == 2) alice (Run.ofCalls sampleConfig (payUnder 2)).executed = 4 := by
    decide +kernel
  have hreceived : received (· == 2) alice (Run.ofCalls sampleConfig (payUnder 2)).executed = 0 := by
    decide +kernel
  have hle := h _ (List.prefix_refl _) alice 2
  omega

end Sample

end PslBank.Sequencer
