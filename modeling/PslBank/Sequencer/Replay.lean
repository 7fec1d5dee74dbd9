import PslBank.Sequencer.Ledger

/-!
# At most once

`validate` compares a transfer's nonce with the account at admission, and the
executor does not look at it again. The nonces of an account's transfers still run
1, 2, 3, … on every run in which no two pending transfers share signer and nonce
and no executed transfer pays its own signer (whose second write-back undoes the
bump). For mints, burns and freezes nothing advances between two admissions of the
same signed transaction, so there the admissions themselves must be distinct.
-/
namespace PslBank.Sequencer

open PslBank.Lib PslBank.Crypto

set_option autoImplicit false

/-- How often a signed transaction took effect. -/
def timesApplied (tx : SignedTx) (xs : List Exec) : ℕ :=
  xs.countP fun x => x.res.success && decide (x.tx = tx)

/-- The successful transfers signed by `k`, in execution order. -/
def paidBy (k : PublicKey) (xs : List Exec) : List Exec :=
  xs.filter fun x => x.res.success && decide (x.tx.kind = .transfer ∧ x.tx.signer = k)

theorem paidBy_append (k : PublicKey) (xs ys : List Exec) :
    paidBy k (xs ++ ys) = paidBy k xs ++ paidBy k ys :=
  List.filter_append xs ys

/-! ## Transfers -/

/-- Each signed transfer takes effect at most once, and an account's successful
transfers carry the nonces 1, 2, 3, … -/
def TransfersOnce (r : Run) : Prop :=
  (∀ tx, tx.kind = .transfer → timesApplied tx r.executed ≤ 1) ∧
    ∀ k, (paidBy k r.executed).map (·.tx.nonce.toNat) = List.range' 1 (paidBy k r.executed).length

/-- No pending transfer has the signer and nonce of this one, and the signer's nonce
has room to grow. -/
def OneInFlight (j : Journal) (tx : SignedTx) : Prop :=
  tx.kind = .transfer →
    (∀ t ∈ j.pending, t.kind = .transfer → ¬ (t.signer = tx.signer ∧ t.nonce = tx.nonce)) ∧
      (j.state.ledger tx.signer).nonce.toNat + 1 < 2 ^ 64

instance (j : Journal) (tx : SignedTx) : Decidable (OneInFlight j tx) :=
  inferInstanceAs (Decidable (_ → (∀ t ∈ j.pending, _ → ¬ (_ ∧ _)) ∧ _ < _))

/-- A transfer to oneself that the executor lets through. -/
def Ledger.PaysSelf (L : Ledger) (tx : SignedTx) : Prop :=
  tx.kind = .transfer ∧ tx.recipient = some tx.signer ∧ L.CanSpend tx

instance (L : Ledger) (tx : SignedTx) : Decidable (L.PaysSelf tx) :=
  inferInstanceAs (Decidable (_ = _ ∧ _ = _ ∧ L.CanSpend tx))

/-- Only a transfer moves a nonce, and only its signer's. -/
theorem Ledger.Effect.nonce_eq {L L' : Ledger} {tx : SignedTx} (h : L.Effect tx L')
    (hself : ¬ L.PaysSelf tx) (k : PublicKey) :
    (L' k).nonce =
      if tx.kind = .transfer ∧ tx.signer = k then (L k).nonce + 1 else (L k).nonce := by
  have hat := h.at_key k
  generalize L' k = after at hat ⊢
  cases hat with
  | untouched hout hin => rw [if_neg fun hc => hout ⟨.inl hc.1, hc.2⟩]
  | marked hk ht => simp [hk]
  | minted hk ht hfit => simp [hk]
  | burned hk hs hle => simp [hk]
  | paid hk hs hr hcan => simp [hk, hs]
  | received hk hs hr hcan => simp [hs]
  | paidSelf hk hs hr hcan => exact absurd ⟨hk, hr.trans (congrArg some hs.symm), hcan⟩ hself

/-- The account's nonce counts its transfers, and each pending transfer is the next
one of its signer. -/
structure NoncesInStep (j : Journal) : Prop where
  paid : ∀ k, (paidBy k j.executed).map (·.tx.nonce.toNat) =
    List.range' 1 (j.state.ledger k).nonce.toNat
  next : ∀ tx ∈ j.pending, tx.kind = .transfer →
    tx.nonce.toNat = (j.state.ledger tx.signer).nonce.toNat + 1
  apart : j.pending.Pairwise fun a b => a.kind = .transfer → b.kind = .transfer → a.signer ≠ b.signer

namespace NoncesInStep

theorem lose {j : Journal} {tx : SignedTx} {p : List SignedTx} (h : NoncesInStep j)
    (hp : j.pending = tx :: p) : NoncesInStep (j.lose p) where
  paid := h.paid
  next := fun t ht hk => h.next t (by rw [hp]; exact List.mem_cons_of_mem _ ht) hk
  apart := by
    have ha := h.apart
    rw [hp, List.pairwise_cons] at ha
    exact ha.2

theorem accept [Ed25519] {j : Journal} {tx : SignedTx} {registry : Registry} (h : NoncesInStep j)
    (hv : validate tx j.state registry = .ok ()) (hone : OneInFlight j tx) :
    NoncesInStep (j.accept tx) := by
  have hnext : tx.kind = .transfer →
      tx.nonce.toNat = (j.state.ledger tx.signer).nonce.toNat + 1 := by
    intro hk
    have hroom := (hone hk).2
    have hn : tx.nonce = (j.state.ledger tx.signer).nonce + 1 := validate_transfer_nonce hv hk
    rw [hn, toNat_nonce_succ hroom]
  refine ⟨h.paid, ?_, ?_⟩
  · intro t ht hk
    rcases List.mem_append.mp ht with ht | ht
    · exact h.next t ht hk
    · obtain rfl := List.mem_singleton.mp ht
      exact hnext hk
  · show (j.pending ++ [tx]).Pairwise _
    rw [List.pairwise_append]
    refine ⟨h.apart, List.pairwise_singleton _ _, ?_⟩
    intro t ht t' ht' hk hk' hsame
    obtain rfl := List.mem_singleton.mp ht'
    refine (hone hk').1 t ht hk ⟨hsame, UInt64.toNat_inj.mp ?_⟩
    rw [h.next t ht hk, hnext hk', hsame]

theorem pass {j : Journal} {x : Exec} {p : List SignedTx} (h : NoncesInStep j)
    (hp : j.pending = x.tx :: p) (hb : x.before = j.state) (hlaw : x.Lawful)
    (hself : ¬ x.before.ledger.PaysSelf x.tx) : NoncesInStep (j.pass p x) := by
  have hl := h.lose hp
  rcases hlaw with ⟨hf, hsame⟩ | ⟨ht, heff⟩
  · -- refused: history gains a pass that counts for nobody
    have hskip : ∀ k, paidBy k [x] = [] := fun k => by simp [paidBy, hf]
    refine ⟨fun k => ?_, ?_, hl.apart⟩
    · show (paidBy k (j.executed ++ [x])).map _ = List.range' 1 (x.after.ledger k).nonce.toNat
      rw [paidBy_append, hskip, List.append_nil, hsame, hb]
      exact h.paid k
    · show ∀ t ∈ p, _ → _ = (x.after.ledger t.signer).nonce.toNat + 1
      rw [hsame, hb]
      exact hl.next
  · have hnonce := heff.nonce_eq hself
    rw [hb] at hnonce
    have ha := h.apart
    rw [hp, List.pairwise_cons] at ha
    refine ⟨fun k => ?_, ?_, hl.apart⟩
    · show (paidBy k (j.executed ++ [x])).map _ = List.range' 1 (x.after.ledger k).nonce.toNat
      rw [paidBy_append, List.map_append, h.paid k, hnonce k]
      by_cases hk : x.tx.kind = .transfer ∧ x.tx.signer = k
      · have hn := h.next x.tx (by rw [hp]; exact List.mem_cons_self) hk.1
        have hlt := x.tx.nonce.toNat_lt
        rw [hk.2] at hn
        have hsucc := toNat_nonce_succ (lt_of_eq_of_lt hn.symm hlt)
        have hone : paidBy k [x] = [x] := by simp [paidBy, ht, hk]
        rw [if_pos hk, hsucc, hone, List.range'_1_concat, List.map_singleton, hn, Nat.add_comm 1]
      · have hnone : paidBy k [x] = [] := by
          simp only [paidBy, hk, decide_false, Bool.and_false, List.filter_cons_of_neg,
            Bool.false_eq_true, not_false_eq_true, List.filter_nil]
        rw [if_neg hk, hnone, List.map_nil, List.append_nil]
    · show ∀ t ∈ p, t.kind = .transfer → t.nonce.toNat = (x.after.ledger t.signer).nonce.toNat + 1
      intro t htp hk
      rw [hnonce, if_neg (fun hc => ha.1 t htp hc.1 hk hc.2)]
      exact hl.next t htp hk

end NoncesInStep

/-- Distinct nonces leave room for one success of each signed transfer. -/
theorem timesApplied_le_one {xs : List Exec} {tx : SignedTx} (hk : tx.kind = .transfer)
    (hd : ((paidBy tx.signer xs).map (·.tx.nonce.toNat)).Nodup) : timesApplied tx xs ≤ 1 := by
  have hcount := List.nodup_iff_count_le_one.mp hd tx.nonce.toNat
  refine le_trans ?_ hcount
  unfold timesApplied paidBy List.count
  rw [List.countP_map, List.countP_filter]
  refine List.countP_mono_left fun x _ hx => ?_
  simp only [Bool.and_eq_true, decide_eq_true_eq] at hx
  simp [hx.1, hx.2, hk]

section

variable [Blake3] [Ed25519]

theorem transfers_once {cfg : Config} {calls : List Call}
    (hg : Run.GuardedCalls OneInFlight (fun _ s tx => ¬ s.ledger.PaysSelf tx) cfg calls) :
    TransfersOnce (Run.ofCalls cfg calls) := by
  have h : NoncesInStep (Run.ofCalls cfg calls).journal := by
    refine ledger_invariant NoncesInStep ?_ ?_ ?_ ?_ hg
    · exact fun j tx registry hv hone h => h.accept hv hone
    · exact fun j p x hp hb hlaw hself h => h.pass hp hb hlaw hself
    · exact fun j tx p hp h => h.lose hp
    · refine ⟨fun k => ?_, by simp, List.Pairwise.nil⟩
      rw [ledger_new]
      rfl
  have hpaid : ∀ k, (paidBy k (Run.ofCalls cfg calls).executed).map (·.tx.nonce.toNat) =
      List.range' 1 ((Run.ofCalls cfg calls).node.state.ledger k).nonce.toNat := h.paid
  constructor
  · intro tx hk
    refine timesApplied_le_one hk ?_
    rw [hpaid]
    exact List.nodup_range'
  · intro k
    have hlen := congrArg List.length (hpaid k)
    rw [List.length_map, List.length_range'] at hlen
    rw [hpaid, hlen]

end

section Sample

attribute [local instance] sampleBlake3 sampleEd25519

/-- Alice is given ten units and pays two of them to Bob, twice, in one block or in two. -/
def payTwice (second : UInt64) (between : List Call) : List Call :=
  [.ingress (sampleTx .mint 1 1 issuer (some alice) 10 0) sampleRegistry,
    .produceBlock 1000 1000,
    .ingress (sampleTx .transfer 1 1 alice (some bob) 2 0) sampleRegistry] ++ between ++
    [.ingress (sampleTx .transfer 1 second alice (some bob) 2 0) sampleRegistry,
      .produceBlock 3000 3000]

theorem transfers_once_in_two_blocks :
    (paidBy alice (Run.ofCalls sampleConfig (payTwice 2 [.produceBlock 2000 2000])).executed).length
        = 2 ∧
      TransfersOnce (Run.ofCalls sampleConfig (payTwice 2 [.produceBlock 2000 2000])) :=
  ⟨by decide +kernel, transfers_once (by decide +kernel)⟩

/-- The same signed transfer, submitted twice before its block, takes effect twice. -/
theorem transfers_not_once_in_one_block :
    ¬ TransfersOnce (Run.ofCalls sampleConfig (payTwice 1 [])) := by
  intro h
  have htwice : timesApplied (sampleTx .transfer 1 1 alice (some bob) 2 0)
      (Run.ofCalls sampleConfig (payTwice 1 [])).executed = 2 := by
    decide +kernel
  have hle := h.1 (sampleTx .transfer 1 1 alice (some bob) 2 0) rfl
  omega

end Sample

/-! ## Mints, burns and freezes -/

def TxKind.IsIssuerOp (kind : TxKind) : Prop := kind = .mint ∨ kind = .burn ∨ kind = .freeze

instance (kind : TxKind) : Decidable kind.IsIssuerOp :=
  inferInstanceAs (Decidable (kind = .mint ∨ kind = .burn ∨ kind = .freeze))

def IssuerOpsOnce (r : Run) : Prop :=
  ∀ tx, tx.kind.IsIssuerOp → timesApplied tx r.executed ≤ 1

/-- An issuer operation is admitted neither while it is pending nor after it took
effect. -/
def NotReplayed (j : Journal) (tx : SignedTx) : Prop :=
  tx.kind.IsIssuerOp → tx ∉ j.pending ∧ timesApplied tx j.executed = 0

instance (j : Journal) (tx : SignedTx) : Decidable (NotReplayed j tx) :=
  inferInstanceAs (Decidable (_ → tx ∉ j.pending ∧ timesApplied tx j.executed = 0))

/-- One pass is one success of its own transaction at most. -/
theorem timesApplied_snoc_le (tx : SignedTx) (xs : List Exec) (x : Exec) :
    timesApplied tx (xs ++ [x]) ≤ timesApplied tx xs + if x.tx = tx then 1 else 0 := by
  unfold timesApplied
  rw [List.countP_append, List.countP_singleton]
  by_cases hx : x.tx = tx <;> simp [hx]
  split <;> simp

theorem count_cons_tx (tx t : SignedTx) (p : List SignedTx) :
    (t :: p).count tx = p.count tx + if t = tx then 1 else 0 := by
  rw [List.count_cons]
  simp

section

variable [Blake3] [Ed25519]

theorem issuer_ops_once {cfg : Config} {calls : List Call}
    (hg : Run.GuardedCalls NotReplayed (fun _ _ _ => True) cfg calls) :
    IssuerOpsOnce (Run.ofCalls cfg calls) := by
  -- successes and pending copies of one issuer operation number at most one together
  have h : ∀ tx, tx.kind.IsIssuerOp → timesApplied tx (Run.ofCalls cfg calls).executed +
      (Run.ofCalls cfg calls).node.mempool.queue.count tx ≤ 1 := by
    refine ledger_invariant (fun j => ∀ tx, tx.kind.IsIssuerOp →
      timesApplied tx j.executed + j.pending.count tx ≤ 1) ?_ ?_ ?_ ?_ hg
    · intro j t registry _ hfresh h tx hop
      show timesApplied tx j.executed + (j.pending ++ [t]).count tx ≤ 1
      by_cases ht : t = tx
      · subst ht
        obtain ⟨hnot, hzero⟩ := hfresh hop
        rw [List.count_append, List.count_eq_zero_of_not_mem hnot, hzero]
        simp
      · rw [List.count_append, List.count_singleton, if_neg (by simpa using ht)]
        exact h tx hop
    · intro j p x hp _ _ _ h tx hop
      have hj := h tx hop
      rw [hp, count_cons_tx] at hj
      have hx := timesApplied_snoc_le tx j.executed x
      show timesApplied tx (j.executed ++ [x]) + p.count tx ≤ 1
      omega
    · intro j t p hp h tx hop
      have hj := h tx hop
      rw [hp, count_cons_tx] at hj
      show timesApplied tx j.executed + p.count tx ≤ 1
      omega
    · intro tx _
      simp [timesApplied]
  exact fun tx hop => le_trans (Nat.le_add_right _ _) (h tx hop)

end

section Sample

attribute [local instance] sampleBlake3 sampleEd25519

/-- Two mints for Alice, each in a block of its own. -/
def mintTwice (second : UInt64) : List Call :=
  [.ingress (sampleTx .mint 1 1 issuer (some alice) 10 0) sampleRegistry,
    .produceBlock 1000 1000,
    .ingress (sampleTx .mint 1 second issuer (some alice) 10 0) sampleRegistry,
    .produceBlock 2000 2000]

theorem issuer_ops_once_two_mints :
    (Run.ofCalls sampleConfig (mintTwice 2)).executed.length = 2 ∧
      IssuerOpsOnce (Run.ofCalls sampleConfig (mintTwice 2)) :=
  ⟨by decide +kernel, issuer_ops_once (by decide +kernel)⟩

/-- A mint that was executed is admitted and executed again. -/
theorem issuer_ops_not_once_same_mint :
    ¬ IssuerOpsOnce (Run.ofCalls sampleConfig (mintTwice 1)) := by
  intro h
  have htwice : timesApplied (sampleTx .mint 1 1 issuer (some alice) 10 0)
      (Run.ofCalls sampleConfig (mintTwice 1)).executed = 2 := by
    decide +kernel
  have hle := h (sampleTx .mint 1 1 issuer (some alice) 10 0) (.inl rfl)
  omega

end Sample

end PslBank.Sequencer
