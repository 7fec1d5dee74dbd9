import PslBank.Lib.Runs
import PslBank.Sequencer.Tx
import PslBank.Sequencer.State

/-!
# The mempool and its admission gate

`sequencer/src/mempool.rs`. `validate` is the whole native gate; the queue is
first in, first out. The sums `nonce + 1` are the wrapping `u64` sums of a release
build.
-/
namespace PslBank.Sequencer

open PslBank.Lib PslBank.Crypto

set_option autoImplicit false

/-- `issuer_lookup` as a function of the asset. -/
abbrev Registry := UInt32 → Option IssuerRecord

/-- The queue and its capacity; the oldest transaction is first. -/
structure Mempool where
  queue : List SignedTx
  capacity : ℕ

def Mempool.new (capacity : ℕ) : Mempool := ⟨[], capacity⟩

section

variable [Ed25519]

/-- Check 2: nonce and sender state, by kind. -/
def validateSender (tx : SignedTx) (signerAccount : Account) : Except String Unit :=
  let expected := signerAccount.nonce + 1
  let got := tx.nonce
  match tx.kind with
  | .transfer | .burn =>
      if got != expected then .error s!"nonce mismatch: expected {expected}, got {got}"
      else if signerAccount.isFrozen then .error "sender frozen"
      else .ok ()
  | .mint | .freeze => .ok ()
  | .multiAsset => if got != expected then .error "multi-asset nonce mismatch" else .ok ()

/-- Check 3: authority of the issuer key. -/
def validateAuthority (tx : SignedTx) (issuer : IssuerRecord) : Except String Unit :=
  match tx.kind with
  | .mint =>
      if tx.signer != issuer.authorityPubkey || !issuer.mintEnabled then
        .error "mint not authorized"
      else .ok ()
  | .burn =>
      if tx.signer != issuer.authorityPubkey || !issuer.burnEnabled then
        .error "burn not authorized"
      else .ok ()
  | .freeze =>
      if tx.signer != issuer.authorityPubkey || !issuer.freezeEnabled then
        .error "freeze not authorized"
      else if tx.courtOrderHash.isNone then .error "freeze requires court_order_hash"
      else .ok ()
  | _ => .ok ()

/-- Check 4: metadata above the travel-rule threshold; a zero threshold always asks. -/
def validateTravelRule (tx : SignedTx) (issuer : IssuerRecord) : Except String Unit :=
  let threshold := leNat issuer.travelRuleThreshold.toList
  if (tx.kind = .transfer ∨ tx.kind = .multiAsset) ∧ (threshold = 0 ∨ threshold < tx.value) ∧
      tx.originatorMetadata.isNone then
    .error "travel-rule metadata required for high-value tx"
  else .ok ()

/-- `Mempool::validate`: the checks of a transaction against the state and the registry. -/
def validate (tx : SignedTx) (state : State) (registry : Registry) : Except String Unit := do
  match verify tx.signer tx.canonical tx.signature with
  | .error e => .error ("invalid signature: " ++ e.message)
  | .ok () => pure ()
  validateSender tx (state.account tx.signer)
  match registry tx.assetId with
  | none => .error "unknown asset_id"
  | some issuer =>
      validateAuthority tx issuer
      validateTravelRule tx issuer

/-- All four checks of an admitted transaction passed. -/
theorem validate_ok {tx : SignedTx} {s : State} {registry : Registry}
    (h : validate tx s registry = .ok ()) :
    verify tx.signer tx.canonical tx.signature = .ok () ∧
      validateSender tx (s.account tx.signer) = .ok () ∧
      ∃ issuer, registry tx.assetId = some issuer ∧ validateAuthority tx issuer = .ok () ∧
        validateTravelRule tx issuer = .ok () := by
  unfold validate at h
  cases hv : verify tx.signer tx.canonical tx.signature with
  | error e =>
    rw [hv] at h
    cases h
  | ok u =>
    rw [hv] at h
    obtain ⟨_, hs, h⟩ := bind_eq_ok_iff.mp h
    cases hr : registry tx.assetId with
    | none =>
      rw [hr] at h
      cases h
    | some issuer =>
      rw [hr] at h
      obtain ⟨_, ha, ht⟩ := bind_eq_ok_iff.mp h
      exact ⟨rfl, hs, issuer, rfl, ha, ht⟩

/-- An admitted transfer carries the successor of its signer's nonce. -/
theorem validate_transfer_nonce {tx : SignedTx} {s : State} {registry : Registry}
    (h : validate tx s registry = .ok ()) (hk : tx.kind = .transfer) :
    tx.nonce = (s.account tx.signer).nonce + 1 := by
  have hs := (validate_ok h).2.1
  unfold validateSender at hs
  rw [hk] at hs
  by_cases hn : tx.nonce = (s.account tx.signer).nonce + 1
  · exact hn
  · simp [hn] at hs

namespace Mempool

/-- `Mempool::ingress`: the capacity, the checks, then the back of the queue. The queue is
not searched. -/
def ingress (mp : Mempool) (tx : SignedTx) (state : State) (registry : Registry) :
    Except String Mempool := do
  if mp.queue.length ≥ mp.capacity then .error "mempool full"
  validate tx state registry
  return { mp with queue := mp.queue ++ [tx] }

/-- The first `min n len` transactions and the rest of the queue. -/
def drain (mp : Mempool) (n : ℕ) : List SignedTx × Mempool :=
  let take := min n mp.queue.length
  (mp.queue.take take, { mp with queue := mp.queue.drop take })

def isEmpty (mp : Mempool) : Bool := mp.queue.isEmpty

end Mempool

end

end PslBank.Sequencer
