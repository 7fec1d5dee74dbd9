import PslBank.Contracts.Guarded
import PslBank.Ternary.WeightsCodec

/-!
# Swap

`agent_contracts/src/swap.rs`: the sender gives `amount_in` of one asset for `amount_out` of
another. The contract weighs two debits, makes two debits and two credits, and looks at both
carries before it counts the nonce up. Its private `u128_sub_chain` and `u128_add_chain` are
those of `guarded.rs` line by line, so they are the same definitions here.
-/
namespace PslBank.Contracts

open PslBank.Lib PslBank.Crypto PslBank.Ternary

set_option autoImplicit false

structure SwapContract where
  byteAdd : TernaryNetwork
  byteSub : TernaryNetwork
  programHash : Hash
  programHashV2 : ProgramHash

namespace SwapContract

def run (c : SwapContract) (input : Bytes) : Except ContractError Bytes :=
  if input.length ≠ 104 then .error (.inputShape "swap" input.length 104)
  else do
    let senderIn := slice input 0 16
    let senderOut := slice input 16 16
    let recipientIn := slice input 32 16
    let recipientOut := slice input 48 16
    let amountIn := slice input 64 16
    let amountOut := slice input 80 16
    let senderNonce := slice input 96 8
    let okIn ← (TransferCheck.run c.byteSub senderIn amountIn).mapError .primitive
    if okIn ≠ 1 then return noOpOutput 72
    -- the second check is behind `||` and is skipped when the first one fails
    let okOut ← (TransferCheck.run c.byteSub recipientOut amountOut).mapError .primitive
    if okOut ≠ 1 then return noOpOutput 72
    let (newSenderIn, _) ← u128SubChain c.byteSub senderIn amountIn
    let (newSenderOut, c1) ← u128AddChain c.byteAdd senderOut amountOut
    let (newRecipientIn, c2) ← u128AddChain c.byteAdd recipientIn amountIn
    let (newRecipientOut, _) ← u128SubChain c.byteSub recipientOut amountOut
    if c1 = 1 ∨ c2 = 1 then return noOpOutput 72
    let newSenderNonce ← (TransferFinalize.run c.byteAdd senderNonce).mapError .primitive
    return newSenderIn ++ newSenderOut ++ newRecipientIn ++ newRecipientOut ++ newSenderNonce

/-! ## What the contract is for -/

/-- The holdings of both parties in both assets, the amounts and the sender's nonce. -/
structure Terms where
  senderIn : ℕ
  senderOut : ℕ
  recipientIn : ℕ
  recipientOut : ℕ
  amountIn : ℕ
  amountOut : ℕ
  nonce : ℕ
  deriving DecidableEq

/-- The documented layout of the input. -/
def terms (x : Bytes) : Terms where
  senderIn := leNat (slice x 0 16)
  senderOut := leNat (slice x 16 16)
  recipientIn := leNat (slice x 32 16)
  recipientOut := leNat (slice x 48 16)
  amountIn := leNat (slice x 64 16)
  amountOut := leNat (slice x 80 16)
  nonce := leNat (slice x 96 8)

namespace Terms

variable (t : Terms)

/-- Both parties have what they give, and what they get fits. -/
def Settles : Prop :=
  t.amountIn ≤ t.senderIn ∧ t.amountOut ≤ t.recipientOut ∧ t.senderOut + t.amountOut < 2 ^ 128 ∧
    t.recipientIn + t.amountIn < 2 ^ 128

instance : Decidable t.Settles :=
  inferInstanceAs (Decidable (_ ≤ _ ∧ _ ≤ _ ∧ _ < _ ∧ _ < _))

/-- Holdings and nonce after the swap. -/
def after : Terms where
  senderIn := t.senderIn - t.amountIn
  senderOut := t.senderOut + t.amountOut
  recipientIn := t.recipientIn + t.amountIn
  recipientOut := t.recipientOut - t.amountOut
  amountIn := t.amountIn
  amountOut := t.amountOut
  nonce := (t.nonce + 1) % 2 ^ 64

/-- The documented layout of the output. -/
def output : Bytes :=
  toLe 16 t.senderIn ++ toLe 16 t.senderOut ++ toLe 16 t.recipientIn ++ toLe 16 t.recipientOut ++
    toLe 8 t.nonce

end Terms

/-- The declared output: the holdings after the swap where both sides settle, zeros elsewhere. -/
def declared (x : Bytes) : Bytes :=
  if (terms x).Settles then (terms x).after.output else List.replicate 72 0

/-- Both assets have the same total over the two parties before and after. -/
def ConservesAssets (x out : Bytes) : Prop :=
  leNat (slice out 0 16) + leNat (slice out 32 16) =
      leNat (slice x 0 16) + leNat (slice x 32 16) ∧
    leNat (slice out 16 16) + leNat (slice out 48 16) =
      leNat (slice x 16 16) + leNat (slice x 48 16)

theorem length_declared (x : Bytes) : (declared x).length = 72 := by
  unfold declared
  split
  · simp [Terms.output]
  · rfl

theorem slices_output (t : Terms) :
    slice t.output 0 16 = toLe 16 t.senderIn ∧ slice t.output 16 16 = toLe 16 t.senderOut ∧
      slice t.output 32 16 = toLe 16 t.recipientIn ∧
      slice t.output 48 16 = toLe 16 t.recipientOut := by
  simp [Terms.output, slice, List.drop_append, List.drop_of_length_le]

/-- What the two parties hold of each asset adds up as before. -/
theorem conservesAssets_declared {x : Bytes} (h : (terms x).Settles) :
    ConservesAssets x (declared x) := by
  have hlt : ∀ off : ℕ, leNat (slice x off 16) < 256 ^ 16 := by
    intro off
    have hlen : (slice x off 16).length ≤ 16 := List.length_take_le _ _
    exact (leNat_lt _).trans_le (Nat.pow_le_pow_right (by decide) hlen)
  have hbound : (256 : ℕ) ^ 16 = 2 ^ 128 := by decide
  have hsender := hlt 0
  have hrecipient := hlt 48
  obtain ⟨h1, h2, h3, h4⟩ := slices_output (terms x).after
  obtain ⟨hpaid, hgiven, hout, hin⟩ := h
  simp only [terms] at hpaid hgiven hout hin
  unfold ConservesAssets declared
  rw [if_pos ⟨hpaid, hgiven, hout, hin⟩, h1, h2, h3, h4]
  simp only [Terms.after, terms]
  rw [leNat_toLe_of_lt (by omega), leNat_toLe_of_lt (by omega), leNat_toLe_of_lt (by omega),
    leNat_toLe_of_lt (by omega)]
  omega

section Correct

variable [Blake3Xof]

def build : SwapContract :=
  let c := GuardedContract.build "swap"
  ⟨c.byteAdd, c.byteSub, c.programHash, c.programHashV2⟩

theorem run_build {x : Bytes} (hlen : x.length = 104) : build.run x = .ok (declared x) := by
  have hslice : ∀ off len : ℕ, off + len ≤ 104 → (slice x off len).length = len :=
    fun _ _ => length_slice_of_length hlen
  have hsub : build.byteSub = TransferCheck.build := rfl
  have hadd : build.byteAdd = TransferFinalize.build := rfl
  have hin := TransferCheck.run_build
    ((hslice 0 16 (by decide)).trans (hslice 64 16 (by decide)).symm)
  have hout := TransferCheck.run_build
    ((hslice 48 16 (by decide)).trans (hslice 80 16 (by decide)).symm)
  have hcredit := u128AddChain_build (hslice 16 16 (by decide)) (hslice 80 16 (by decide))
  have hcredit' := u128AddChain_build (hslice 32 16 (by decide)) (hslice 64 16 (by decide))
  have hnonce := TransferFinalize.run_build (hslice 96 8 (by decide))
  have hwrap := toLe_mod_u64 (leNat (slice x 96 8) + 1)
  unfold run declared
  rw [if_neg (not_not.mpr hlen)]
  simp only [hsub, hadd]
  by_cases hpaid : leNat (slice x 64 16) ≤ leNat (slice x 0 16)
  · obtain ⟨borrow, hdebit⟩ :=
      u128SubChain_build (hslice 0 16 (by decide)) (hslice 64 16 (by decide)) hpaid
    rw [hin, if_pos hpaid]
    by_cases hgiven : leNat (slice x 80 16) ≤ leNat (slice x 48 16)
    · obtain ⟨borrow', hdebit'⟩ :=
        u128SubChain_build (hslice 48 16 (by decide)) (hslice 80 16 (by decide)) hgiven
      rw [hout, if_pos hgiven]
      show (u128SubChain ByteSubWithBorrow.build (slice x 0 16) (slice x 64 16)).bind _ = _
      rw [hdebit]
      show (u128AddChain ByteAddWithCarry.build (slice x 16 16) (slice x 80 16)).bind _ = _
      rw [hcredit]
      show (u128AddChain ByteAddWithCarry.build (slice x 32 16) (slice x 64 16)).bind _ = _
      rw [hcredit']
      show (u128SubChain ByteSubWithBorrow.build (slice x 48 16) (slice x 80 16)).bind _ = _
      rw [hdebit', hnonce]
      by_cases hfits : (terms x).Settles
      · have hroom : ¬ (2 ^ 128 ≤ leNat (slice x 16 16) + leNat (slice x 80 16) ∨
            2 ^ 128 ≤ leNat (slice x 32 16) + leNat (slice x 64 16)) :=
          not_or.mpr ⟨Nat.not_le.mpr hfits.2.2.1, Nat.not_le.mpr hfits.2.2.2⟩
        rw [if_pos hfits]
        refine (if_neg fun h => hroom ((or_congr flag_eq_one_iff flag_eq_one_iff).mp h)).trans ?_
        rw [← hwrap]
        rfl
      · have hover : 2 ^ 128 ≤ leNat (slice x 16 16) + leNat (slice x 80 16) ∨
            2 ^ 128 ≤ leNat (slice x 32 16) + leNat (slice x 64 16) := by
          by_contra hroom
          obtain ⟨hout, hin⟩ := not_or.mp hroom
          exact hfits ⟨hpaid, hgiven, Nat.not_le.mp hout, Nat.not_le.mp hin⟩
        rw [if_neg hfits]
        exact if_pos ((or_congr flag_eq_one_iff flag_eq_one_iff).mpr hover)
    · have hfails : ¬ (terms x).Settles := fun h => hgiven h.2.1
      rw [hout, if_neg hgiven, if_neg hfails]
      rfl
  · have hfails : ¬ (terms x).Settles := fun h => hpaid h.1
    rw [hin, if_neg hpaid, if_neg hfails]
    rfl

/-- The swap computes its declared function on every byte string, and a swap that settles
conserves both assets. -/
theorem swap_run_eq_declared (x : Bytes) :
    (build.run x = if x.length ≠ 104 then .error (.inputShape "swap" x.length 104)
      else .ok (declared x)) ∧
    (declared x).length = 72 ∧ ((terms x).Settles → ConservesAssets x (declared x)) := by
  refine ⟨?_, length_declared x, conservesAssets_declared⟩
  by_cases hlen : x.length = 104
  · rw [run_build hlen, if_neg (not_not.mpr hlen)]
  · rw [if_pos hlen]
    exact if_pos hlen

end Correct

/-- 100 of the one asset for 50 of the other. -/
def sampleTerms : Terms := ⟨1000, 7, 30, 500, 100, 50, 5⟩

def sampleInput : Bytes :=
  toLe 16 1000 ++ toLe 16 7 ++ toLe 16 30 ++ toLe 16 500 ++ toLe 16 100 ++ toLe 16 50 ++ toLe 8 5

theorem swap_run_eq_declared_sample :
    (@build sampleBlake3Xof).run sampleInput = .ok sampleTerms.after.output ∧
      ConservesAssets sampleInput sampleTerms.after.output := by
  have h := @swap_run_eq_declared sampleBlake3Xof sampleInput
  have hterms : terms sampleInput = sampleTerms := by decide +kernel
  have hdeclared : declared sampleInput = sampleTerms.after.output := by
    rw [declared, hterms, if_pos (by decide)]
  rw [hdeclared, hterms] at h
  exact ⟨h.1, h.2.2 (by decide)⟩

end SwapContract

end PslBank.Contracts
