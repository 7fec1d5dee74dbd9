import PslBank.Sequencer.Block
import PslBank.Sequencer.Run

/-!
# What a header says about the transactions of its block

`tx_list_hash` frames each transaction with the length of its canonical encoding and
ends it with the signature. The frames carry no count; that the whole stream still
determines the list is what makes `tx_list_hash` a commitment.
-/
namespace PslBank.Sequencer

open PslBank.Lib PslBank.Crypto

set_option autoImplicit false

namespace SignedTx

theorem length_optionPayload {p : Option Bytes} {b : Bytes} (h : p = some b) :
    (optionPayload p).length = 5 + b.length := by
  subst h
  simp [optionPayload, optionBytes]
  omega

/-- The payload lengths are part of the encoding, so they fit where its length does. -/
theorem wellSized_of_canonical {tx : SignedTx} (h : tx.canonical.length < 2 ^ 32) : tx.WellSized := by
  simp only [canonical, List.length_append] at h
  refine ⟨?_, ?_⟩
  · intro b hb
    rw [length_optionPayload hb] at h
    omega
  · intro b hb
    rw [length_optionPayload hb] at h
    omega

/-- One transaction in the stream `tx_list_hash` reads. -/
def frame (tx : SignedTx) : Bytes :=
  toLe 4 tx.canonical.length ++ tx.canonical ++ tx.signature.toList

theorem frame_ne_nil (tx : SignedTx) : tx.frame ≠ [] := by
  intro h
  have hlen := congrArg List.length h
  simp [frame] at hlen

theorem delimiting_frame :
    SelfDelimiting (fun tx : SignedTx => tx.canonical.length < 2 ^ 32) frame := by
  intro t u r s ht hu h
  rw [frame, frame, List.append_assoc (_ ++ _), List.append_assoc (_ ++ _)] at h
  obtain ⟨hcanonical, h⟩ := (delimiting_le 4).lengthPrefixed ht hu h
  obtain ⟨hsignature, h⟩ := delimiting_array 64 trivial trivial h
  have htx := eq_of_canonical (wellSized_of_canonical ht) (wellSized_of_canonical hu) hcanonical
  rw [← hsignature] at htx
  exact ⟨htx, h⟩

end SignedTx

theorem txListBytes_inj {txs txs' : List SignedTx} (h : ∀ tx ∈ txs, tx.canonical.length < 2 ^ 32)
    (h' : ∀ tx ∈ txs', tx.canonical.length < 2 ^ 32) (he : txListBytes txs = txListBytes txs') :
    txs = txs' :=
  SignedTx.delimiting_frame.stream_inj SignedTx.frame_ne_nil h h' he

section

variable [Blake3]

/-- Equal streams come from equal lists, and a header pins the list down unless the
digest collides on the two streams. -/
theorem tx_list_committed (txs txs' : List SignedTx)
    (hsize : ∀ tx ∈ txs, tx.canonical.length < 2 ^ 32)
    (hsize' : ∀ tx ∈ txs', tx.canonical.length < 2 ^ 32) :
    (txListBytes txs = txListBytes txs' → txs = txs') ∧
    ∀ header : BlockHeader, NoCollision [txListBytes txs, txListBytes txs'] →
      header.txListHash = txListHash txs → header.txListHash = txListHash txs' → txs = txs' := by
  refine ⟨txListBytes_inj hsize hsize', ?_⟩
  intro header hno h h'
  apply txListBytes_inj hsize hsize'
  apply hno
  · exact List.mem_cons_self
  · exact List.mem_cons_of_mem _ List.mem_cons_self
  · exact h.symm.trans h'

end

section Sample

attribute [local instance] sampleBlake3

def payBob : SignedTx := sampleTx .transfer 7 0 alice (some bob) 5 0

def payCarol : SignedTx := sampleTx .transfer 7 1 alice (some carol) 5 0

/-- Two payments in either order give different streams, and a header that commits to
the first payment alone does not commit to both. -/
theorem tx_list_committed_two_payments :
    txListBytes [payBob, payCarol] ≠ txListBytes [payCarol, payBob] ∧
      txListHash [payBob] ≠ txListHash [payBob, payCarol] := by
  have hbob : payBob.canonical.length < 2 ^ 32 := by decide +kernel
  have hcarol : payCarol.canonical.length < 2 ^ 32 := by decide +kernel
  have hne : payBob ≠ payCarol := fun h => absurd (congrArg SignedTx.nonce h) (by decide)
  have hone : ∀ tx ∈ [payBob], tx.canonical.length < 2 ^ 32 :=
    List.forall_mem_singleton.mpr hbob
  have hboth : ∀ tx ∈ [payBob, payCarol], tx.canonical.length < 2 ^ 32 :=
    List.forall_mem_cons.mpr ⟨hbob, List.forall_mem_singleton.mpr hcarol⟩
  have hswapped : ∀ tx ∈ [payCarol, payBob], tx.canonical.length < 2 ^ 32 :=
    List.forall_mem_cons.mpr ⟨hcarol, hone⟩
  refine ⟨?_, ?_⟩
  · intro h
    have hlists := (tx_list_committed _ _ hboth hswapped).1 h
    exact hne (List.cons.inj hlists).1
  · intro h
    have hdigest : txListHash [payBob] ≠ txListHash [payBob, payCarol] := by decide +kernel
    have hno : NoCollision [txListBytes [payBob], txListBytes [payBob, payCarol]] :=
      NoCollision.pair hdigest
    have hlists := (tx_list_committed _ _ hone hboth).2
      ⟨0, zeroHash, zeroHash, txListHash [payBob], zeroHash, zeroHash, zeroHash, 0, zeroHash,
        payBob.signature⟩ hno rfl h
    exact absurd (congrArg List.length hlists) (by decide)

end Sample

end PslBank.Sequencer
