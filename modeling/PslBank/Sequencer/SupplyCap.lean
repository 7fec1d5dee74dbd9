import PslBank.Sequencer.Supply

/-!
# The supply cap of an asset

`IssuerRecord::max_supply` is documented as a cap on the total supply, with zero for no
cap. Neither `validate` nor `mint` reads it: admission looks at one transaction and the
executor at one account. What has been issued under an asset stays within the cap on
every run in which no mint that the executor lets through exceeds what is left of it.
-/
namespace PslBank.Sequencer

open PslBank.Lib PslBank.Crypto

set_option autoImplicit false

/-- The successful mints tagged with the asset. -/
def issued (b : UInt32) (xs : List Exec) : ℕ :=
  (xs.map fun x => if x.res.success && x.tx.assetId == b then x.tx.mintValue else 0).sum

/-- The successful burns tagged with the asset. -/
def retired (b : UInt32) (xs : List Exec) : ℕ :=
  (xs.map fun x => if x.res.success && x.tx.assetId == b then x.tx.burnValue else 0).sum

theorem issued_snoc (b : UInt32) (xs : List Exec) (x : Exec) : issued b (xs ++ [x]) =
    issued b xs + if x.res.success && x.tx.assetId == b then x.tx.mintValue else 0 := by
  simp [issued]

theorem retired_snoc (b : UInt32) (xs : List Exec) (x : Exec) : retired b (xs ++ [x]) =
    retired b xs + if x.res.success && x.tx.assetId == b then x.tx.burnValue else 0 := by
  simp [retired]

/-- `u128::from_le_bytes(max_supply)`. -/
def IssuerRecord.cap (issuer : IssuerRecord) : ℕ := leNat issuer.maxSupply.toList

/-- At this point, every asset with a cap is within it. -/
def WithinCaps (registry : Registry) (xs : List Exec) : Prop :=
  ∀ b, ∀ issuer ∈ registry b, issuer.cap ≠ 0 → issued b xs ≤ issuer.cap + retired b xs

def SupplyCapped (registry : Registry) (r : Run) : Prop :=
  ∀ xs, xs <+: r.executed → WithinCaps registry xs

/-- A mint that the executor lets through although its amount is more than is left of the
cap. -/
def ExceedsCap (registry : Registry) (earlier : List Exec) (s : State) (tx : SignedTx) : Prop :=
  tx.kind = .mint ∧ (s.ledger tx.target).balance + tx.value < 2 ^ 128 ∧
    ∃ issuer ∈ registry tx.assetId, issuer.cap ≠ 0 ∧
      issuer.cap + retired tx.assetId earlier < issued tx.assetId earlier + tx.value

instance (registry : Registry) (earlier : List Exec) (s : State) (tx : SignedTx) :
    Decidable (ExceedsCap registry earlier s tx) :=
  inferInstanceAs (Decidable (_ = _ ∧ _ < _ ∧ ∃ issuer ∈ registry tx.assetId, _ ≠ _ ∧ _ < _))

theorem Ledger.Effect.mint_fits {L L' : Ledger} {tx : SignedTx} (h : L.Effect tx L')
    (hk : tx.kind = .mint) : (L tx.target).balance + tx.value < 2 ^ 128 := by
  cases h with
  | mint _ hfit => exact hfit
  | freeze hk' | burn hk' | transfer hk' | selfTransfer hk' =>
    rw [hk] at hk'
    cases hk'

/-- A success that mints anything is a mint whose sum fits. -/
theorem Exec.Lawful.mint_fits {x : Exec} (h : x.Lawful) (hs : x.res.success = true)
    (hm : x.tx.mintValue ≠ 0) :
    x.tx.kind = .mint ∧ x.tx.mintValue = x.tx.value ∧
      (x.before.ledger x.tx.target).balance + x.tx.value < 2 ^ 128 := by
  have hk : x.tx.kind = .mint := by
    by_contra hk
    exact hm (if_neg hk)
  refine ⟨hk, if_pos hk, ?_⟩
  rcases h with ⟨hf, -⟩ | ⟨-, heff⟩
  · rw [hs] at hf
    cases hf
  · exact heff.mint_fits hk

theorem WithinCaps.snoc {registry : Registry} {xs : List Exec} {x : Exec} (h : WithinCaps registry xs)
    (hlaw : x.Lawful) (hcap : ¬ ExceedsCap registry xs x.before x.tx) :
    WithinCaps registry (xs ++ [x]) := by
  intro b issuer hissuer hpos
  have hold := h b issuer hissuer hpos
  rw [issued_snoc, retired_snoc]
  by_cases hcounts : (x.res.success && x.tx.assetId == b) = true
  · rw [if_pos hcounts, if_pos hcounts]
    by_cases hm : x.tx.mintValue = 0
    · omega
    · -- the pass minted under `b`: its amount was within what was left
      obtain ⟨hs, htag⟩ := Bool.and_eq_true_iff.mp hcounts
      obtain rfl := beq_iff_eq.mp htag
      obtain ⟨hk, hvalue, hfit⟩ := hlaw.mint_fits hs hm
      have hroom : ¬ (issuer.cap + retired x.tx.assetId xs < issued x.tx.assetId xs + x.tx.value) :=
        fun hlt => hcap ⟨hk, hfit, issuer, hissuer, hpos, hlt⟩
      omega
  · rw [if_neg hcounts, if_neg hcounts]
    exact hold

section

variable [Blake3] [Ed25519]

/-- The amounts minted under an asset, less those burned, stay within the cap of its
record at every point of the run. -/
theorem supply_capped (registry : Registry) {cfg : Config} {calls : List Call}
    (hg : Run.GuardedCalls (fun _ _ => True)
      (fun earlier s tx => ¬ ExceedsCap registry earlier s tx) cfg calls) :
    SupplyCapped registry (Run.ofCalls cfg calls) := by
  refine ledger_invariant (fun j => ∀ xs, xs <+: j.executed → WithinCaps registry xs) ?_ ?_ ?_ ?_ hg
  · exact fun j tx registry _ _ h => h
  · intro j p x _ _ hlaw hcap h xs hxs
    rcases List.prefix_concat_iff.mp hxs with rfl | hxs
    · exact (h j.executed (List.prefix_refl _)).snoc hlaw hcap
    · exact h xs hxs
  · exact fun j tx p _ h => h
  · intro xs hxs
    rw [List.prefix_nil.mp hxs]
    exact fun b issuer _ _ => Nat.zero_le _

end

section Sample

attribute [local instance] sampleBlake3 sampleEd25519

/-- `issuer` runs every asset, with a cap of 15 units. -/
def cappedRegistry : Registry := fun assetId =>
  some ⟨assetId, issuer, amountOfNat 15, true, true, true, amountOfNat 1000⟩

/-- Two mints that wait in the queue together. -/
def mintPair (second : ℕ) : List Call :=
  [.ingress (sampleTx .mint 1 1 issuer (some alice) 10 0) cappedRegistry,
    .ingress (sampleTx .mint 1 2 issuer (some bob) second 0) cappedRegistry,
    .produceBlock 1000 1000]

theorem supply_capped_filling_up :
    issued 1 (Run.ofCalls sampleConfig (mintPair 5)).executed = 15 ∧
      SupplyCapped cappedRegistry (Run.ofCalls sampleConfig (mintPair 5)) :=
  ⟨by decide +kernel, supply_capped cappedRegistry (by decide +kernel)⟩

/-- Twenty units issued under a cap of fifteen. -/
theorem supply_not_capped_two_mints :
    ¬ SupplyCapped cappedRegistry (Run.ofCalls sampleConfig (mintPair 10)) := by
  intro h
  have hissued : issued 1 (Run.ofCalls sampleConfig (mintPair 10)).executed = 20 := by decide +kernel
  have hretired : retired 1 (Run.ofCalls sampleConfig (mintPair 10)).executed = 0 := by decide +kernel
  have hcap : (15 : ℕ) = leNat (amountOfNat 15).toList := by decide +kernel
  have hle := h _ (List.prefix_refl _) 1 _ rfl (by decide +kernel)
  rw [hissued, hretired, IssuerRecord.cap, ← hcap] at hle
  omega

end Sample

end PslBank.Sequencer
