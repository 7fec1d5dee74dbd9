import PslBank.Sequencer.Run
import Mathlib.Data.List.Chain

/-!
# Failed blocks and the chain of headers

`produce_block` drains its batch and writes accounts transaction by transaction.
A later transaction whose witness cannot be assembled, or that the executor answers with
an error, then ends the call, and nothing is put back. `validate` admits two kinds of the
first sort: a transfer without a recipient and any multi-asset transaction. A block is
all-or-nothing exactly when its batch holds neither and the executor has a result for
every transaction of it, which the native one always has. When every block of a run is,
the headers chain.
-/
namespace PslBank.Sequencer

open PslBank.Lib PslBank.Crypto

set_option autoImplicit false

/-- `assemble_witness` has no witness for it. -/
def SignedTx.Unassemblable (tx : SignedTx) : Prop :=
  tx.kind = .multiAsset ∨ (tx.kind = .transfer ∧ tx.recipient = none)

instance (tx : SignedTx) : Decidable tx.Unassemblable :=
  inferInstanceAs (Decidable (tx.kind = .multiAsset ∨ (tx.kind = .transfer ∧ tx.recipient = none)))

/-! ## When the loop fails -/

namespace NativeTraceExecutor

variable {w : Witness} {a b : Account}

theorem freeze_returns (h : w.accounts = [a]) : ∃ res, freeze w = .ok res := by
  unfold freeze
  rw [h]
  exact ⟨_, rfl⟩

theorem mint_returns (h : w.accounts = [a]) : ∃ res, mint w = .ok res := by
  unfold mint
  rw [h]
  cases hc : checkedAdd a.balance (leNat w.amount.toList) with
  | none => exact ⟨refused 1, by simp only [hc]⟩
  | some n => exact ⟨applied [(a.setBalance n).setLastActive w.epoch.toUInt64], by simp only [hc]⟩

theorem burn_returns (h : w.accounts = [a]) : ∃ res, burn w = .ok res := by
  unfold burn
  rw [h]
  dsimp only
  split
  · exact ⟨_, rfl⟩
  · exact ⟨_, rfl⟩

theorem transfer_returns (h : w.accounts = [a, b]) : ∃ res, transfer w = .ok res := by
  unfold transfer
  rw [h]
  cases hp : transferPair w.epoch (leNat w.amount.toList) a b with
  | none => exact ⟨refused 2, by simp only [hp]⟩
  | some pair => exact ⟨applied [pair.1, pair.2], by simp only [hp]⟩

end NativeTraceExecutor

theorem assembleWitness_error_iff (s : State) (tx : SignedTx) (epoch : UInt32) :
    (∃ e, assembleWitness s tx epoch = .error e) ↔ tx.Unassemblable := by
  unfold assembleWitness SignedTx.Unassemblable
  cases hk : tx.kind with
  | transfer =>
    cases hr : tx.recipient with
    | none => simp
    | some receiver => simp
  | mint | burn | freeze | multiAsset => simp

/-- An assembled witness has the number of accounts its primitive asks for. -/
theorem execute_returns {s : State} {tx : SignedTx} {epoch : UInt32} {w : Witness}
    (hw : assembleWitness s tx epoch = .ok w) :
    ∃ res, NativeTraceExecutor.execute tx w = .ok res := by
  unfold assembleWitness at hw
  unfold NativeTraceExecutor.execute
  cases hk : tx.kind with
  | freeze =>
    rw [hk] at hw
    obtain rfl := Except.ok.inj hw
    exact NativeTraceExecutor.freeze_returns rfl
  | mint =>
    rw [hk] at hw
    obtain rfl := Except.ok.inj hw
    exact NativeTraceExecutor.mint_returns rfl
  | burn =>
    rw [hk] at hw
    obtain rfl := Except.ok.inj hw
    exact NativeTraceExecutor.burn_returns rfl
  | transfer =>
    rw [hk] at hw
    cases hr : tx.recipient with
    | none =>
      rw [hr] at hw
      cases hw
    | some receiver =>
      rw [hr] at hw
      obtain rfl := Except.ok.inj hw
      exact NativeTraceExecutor.transfer_returns rfl
  | multiAsset =>
    rw [hk] at hw
    cases hw

section

variable [Blake3]

/-- The executor has a result for each of some transactions that have witnesses, asked one after the
other and each about the state that the results before it leave. -/
def ResultForEach (epoch : UInt32) : TraceExecutor → State → List SignedTx → Prop
  | _, _, [] => True
  | trace, s, tx :: txs => ∀ w, assembleWitness s tx epoch = .ok w →
      ∃ res, trace 0 tx w = .ok res ∧ ResultForEach epoch (trace.after 1) (writeBack s res) txs

/-- A pass goes through exactly when its transaction has a witness and the executor a result for it. -/
theorem executeTx_ok_iff {execute : Execute} {s : State} {tx : SignedTx} {epoch : UInt32} {x : Exec} :
    executeTx execute s tx epoch = .ok x ↔ ∃ w res, assembleWitness s tx epoch = .ok w ∧
      execute tx w = .ok res ∧ x = ⟨tx, epoch, s, res, writeBack s res⟩ := by
  constructor
  · intro h
    obtain ⟨w, hw, hr, hx⟩ := executeTx_ok h
    exact ⟨w, x.res, hw, hr, hx⟩
  · intro hyp
    obtain ⟨w, res, hw, hr, rfl⟩ := hyp
    exact bind_eq_ok_iff.mpr ⟨w, hw, bind_eq_ok_iff.mpr ⟨res, hr, rfl⟩⟩

/-- The loop runs through exactly when every transaction has a witness and a result. -/
theorem executeTxs_error_iff (epoch : UInt32) (trace : TraceExecutor) (s : State) (txs : List SignedTx) :
    (executeTxs epoch trace s txs).error = none ↔
      (∀ tx ∈ txs, ¬ tx.Unassemblable) ∧ ResultForEach epoch trace s txs := by
  induction txs generalizing trace s with
  | nil => simp [executeTxs, ResultForEach]
  | cons tx txs ih =>
    have hwitness := assembleWitness_error_iff s tx epoch
    rw [List.forall_mem_cons, ResultForEach]
    cases hx : executeTx (trace 0) s tx epoch with
    | error e =>
      simp only [executeTxs, hx, reduceCtorEq, false_iff]
      intro hyp
      obtain ⟨⟨hgood, -⟩, hresult⟩ := hyp
      cases hw : assembleWitness s tx epoch with
      | error e => exact hgood (hwitness.mp ⟨e, hw⟩)
      | ok w =>
        obtain ⟨res, hr, -⟩ := hresult w hw
        have hok := executeTx_ok_iff.mpr ⟨w, res, hw, hr, rfl⟩
        rw [hx] at hok
        cases hok
    | ok x =>
      obtain ⟨w, res, hw, hr, rfl⟩ := executeTx_ok_iff.mp hx
      have hgood : ¬ tx.Unassemblable := by
        rw [← hwitness, hw]
        intro hyp
        obtain ⟨e, he⟩ := hyp
        cases he
      simp only [executeTxs, hx, ih, hw, hr, Except.ok.injEq, forall_eq', exists_eq_left', hgood,
        not_false_eq_true, true_and]

/-- The native executor has a result for every witness that can be assembled. -/
theorem native_resultForEach (epoch : UInt32) (s : State) (txs : List SignedTx) :
    ResultForEach epoch NativeTraceExecutor.trace s txs := by
  induction txs generalizing s with
  | nil => trivial
  | cons tx txs ih =>
    intro w hw
    obtain ⟨res, hr⟩ := execute_returns hw
    exact ⟨res, hr, ih _⟩

end

/-! ## All or nothing -/

section

variable [Blake3] [Ed25519]

/-- A call that fails leaves account state, queue and last header as they were. -/
def FailureAtomic (node : SequencerNode) (e t : UInt64) : Prop :=
  ∀ err, (node.produceBlock e t).result = .error err →
    (node.produceBlock e t).node.state = node.state ∧
      (node.produceBlock e t).node.mempool.queue = node.mempool.queue ∧
      (node.produceBlock e t).node.lastHeader = node.lastHeader

theorem failureAtomic_iff (node : SequencerNode) (e t : UInt64) :
    FailureAtomic node e t ↔ (∀ tx ∈ node.batch, ¬ tx.Unassemblable) ∧
      ResultForEach (SequencerNode.blockEpoch e) node.trace node.state node.batch := by
  by_cases hb : node.batch = []
  · unfold FailureAtomic
    simp [SequencerNode.produceBlock_nil hb, hb, ResultForEach]
  · rw [← executeTxs_error_iff]
    cases hl : (node.loop e).error with
    | none =>
      unfold FailureAtomic
      rw [SequencerNode.produceBlock_ok t hb hl]
      exact iff_of_true (fun err herr => by cases herr) hl
    | some err =>
      -- the drained batch is not put back
      have hlen : node.unbatched ≠ node.mempool.queue := by
        intro hq
        have hsum := congrArg List.length node.batch_append_unbatched
        rw [hq, List.length_append] at hsum
        exact hb (List.length_eq_zero_iff.mp (by omega))
      unfold FailureAtomic
      rw [SequencerNode.produceBlock_error t hb hl]
      constructor
      · exact fun h => absurd (h err rfl).2.1 hlen
      · intro h
        have hl' : (node.loop e).error = none := h
        rw [hl] at hl'
        cases hl'

end

/-! ## The chain of headers -/

section

variable [Blake3]

/-- What the next header says about the one before it. -/
def Linked (h h' : BlockHeader) : Prop :=
  h'.blockN = h.blockN + 1 ∧ h'.parentHash = h.headerHash ∧ h'.prevStateRoot = h.newStateRoot

/-- Consecutive headers of the run are linked. -/
def HeadersChain (r : Run) : Prop := r.headers.IsChain Linked

/-- The last header is the node's, and it commits to the live accounts. -/
structure HeadersInStep (r : Run) : Prop where
  chain : HeadersChain r
  last : r.node.lastHeader = r.headers.getLast?
  root : ∀ h, r.node.lastHeader = some h → h.newStateRoot = r.node.state.accountsRoot

theorem headersInStep_start (trace : TraceExecutor) (cfg : Config) :
    HeadersInStep (Run.startWith trace cfg) where
  chain := List.isChain_nil
  last := rfl
  root := fun h hh => by cases hh

variable [Ed25519]

/-- The condition of a call with the native executor: the batch of a block holds witnesses for
everything. -/
def BatchAssembles (r : Run) : Call → Prop
  | .ingress _ _ => True
  | .produceBlock _ _ => ∀ tx ∈ r.node.batch, ¬ tx.Unassemblable

/-- The condition of a call: it holds witnesses for everything, and the executor has all the results. -/
def BatchExecutes (r : Run) : Call → Prop
  | .ingress _ _ => True
  | .produceBlock e _ => (∀ tx ∈ r.node.batch, ¬ tx.Unassemblable) ∧
      ResultForEach (SequencerNode.blockEpoch e) r.node.trace r.node.state r.node.batch

instance (r : Run) (call : Call) : Decidable (BatchAssembles r call) :=
  match call with
  | .ingress _ _ => .isTrue trivial
  | .produceBlock _ _ => inferInstanceAs (Decidable (∀ tx ∈ r.node.batch, ¬ tx.Unassemblable))

/-- A failed call of the run leaves the node as it was. -/
def CallAtomic (r : Run) : Call → Prop
  | .ingress _ _ => True
  | .produceBlock e t => FailureAtomic r.node e t

theorem callAtomic_iff (r : Run) (call : Call) : CallAtomic r call ↔ BatchExecutes r call := by
  cases call with
  | ingress tx registry => exact Iff.rfl
  | produceBlock e t => exact failureAtomic_iff r.node e t

theorem HeadersInStep.step {r : Run} (h : HeadersInStep r) (call : Call)
    (hcall : BatchExecutes r call) : HeadersInStep (r.step call) := by
  cases call with
  | ingress tx registry =>
    cases hi : r.node.mempool.ingress tx r.node.state registry with
    | error e =>
      simp only [Run.step, hi]
      exact h
    | ok mp =>
      simp only [Run.step, hi]
      exact ⟨h.chain, h.last, h.root⟩
  | produceBlock e t =>
    by_cases hb : r.node.batch = []
    · simp only [Run.step, SequencerNode.produceBlock_nil hb, Option.toList_none, List.append_nil]
      exact h
    · have hl : (r.node.loop e).error = none :=
        (executeTxs_error_iff _ r.node.trace r.node.state r.node.batch).mpr hcall
      simp only [Run.step, SequencerNode.produceBlock_ok t hb hl]
      refine ⟨?_, ?_, ?_⟩
      · refine List.isChain_append.mpr ⟨h.chain, List.isChain_singleton _, ?_⟩
        intro last hlast next hnext
        obtain rfl := Option.some.inj hnext
        have hlh : r.node.lastHeader = some last := h.last.trans hlast
        show Linked last (r.node.nextHeader e t)
        unfold SequencerNode.nextHeader
        rw [hlh]
        exact ⟨rfl, rfl, (h.root last hlh).symm⟩
      · simp
      · intro next hnext
        obtain rfl := Option.some.inj hnext
        rfl

/-- No call of a native node changes its executor. -/
theorem native_step {r : Run} (h : r.node.trace = NativeTraceExecutor.trace) (call : Call) :
    (r.step call).node.trace = NativeTraceExecutor.trace := by
  obtain ⟨n, hn⟩ := r.trace_step call
  rw [hn, h]
  rfl

omit [Ed25519] in
theorem native_batchExecutes_iff {r : Run} (h : r.node.trace = NativeTraceExecutor.trace) (call : Call) :
    BatchExecutes r call ↔ BatchAssembles r call := by
  cases call with
  | ingress tx registry => exact Iff.rfl
  | produceBlock e t =>
    refine and_iff_left ?_
    rw [h]
    exact native_resultForEach _ _ _

/-- With any executor a run's blocks are all-or-nothing and its headers chain, exactly when no batch
holds a transaction without a witness or without a result. With the native executor the first alone
decides. -/
theorem blocks_atomic_and_chained_iff (trace : TraceExecutor) (cfg : Config) (calls : List Call) :
    ((Meets Run.step CallAtomic (Run.startWith trace cfg) calls ∧
        HeadersChain (Run.ofCallsWith trace cfg calls)) ↔
      Meets Run.step BatchExecutes (Run.startWith trace cfg) calls) ∧
    ((Meets Run.step CallAtomic (Run.start cfg) calls ∧ HeadersChain (Run.ofCalls cfg calls)) ↔
      Meets Run.step BatchAssembles (Run.start cfg) calls) := by
  have hiff : ∀ trace, (Meets Run.step CallAtomic (Run.startWith trace cfg) calls ∧
        HeadersChain (Run.ofCallsWith trace cfg calls)) ↔
      Meets Run.step BatchExecutes (Run.startWith trace cfg) calls := by
    intro trace
    constructor
    · exact fun h => h.1.mono fun r call => (callAtomic_iff r call).mp
    · intro h
      refine ⟨h.mono fun r call => (callAtomic_iff r call).mpr, ?_⟩
      exact (run_invariant HeadersInStep (fun r call hc hr => hr.step call hc) h
        (headersInStep_start trace cfg)).chain
  refine ⟨hiff trace, (hiff _).trans ?_⟩
  exact Meets.congr_invariant (fun r : Run => r.node.trace = NativeTraceExecutor.trace)
    (fun r call h => native_step h call) (fun r call h => native_batchExecutes_iff h call) rfl

end

section Sample

attribute [local instance] sampleBlake3 sampleEd25519

/-- A mint for Alice, then a batch of a mint for Bob and a transfer to nobody. -/
def failingBatch : List Call :=
  [.ingress (sampleTx .mint 1 1 issuer (some alice) 10 0) sampleRegistry,
    .produceBlock 1000 1000,
    .ingress (sampleTx .mint 1 2 issuer (some bob) 5 0) sampleRegistry,
    .ingress (sampleTx .transfer 1 1 alice none 1 0) sampleRegistry]

/-- The second block fails, Bob's five units stay, and the batch is gone. -/
theorem failed_block_keeps_writes :
    ¬ (Meets Run.step CallAtomic (Run.start sampleConfig) (failingBatch ++ [.produceBlock 2000 2000]) ∧
      HeadersChain (Run.ofCalls sampleConfig (failingBatch ++ [.produceBlock 2000 2000]))) := by
  intro hyp
  obtain ⟨⟨-, -, -, -, hcall, -⟩, -⟩ := hyp
  have hstate := (hcall "transfer missing recipient" (by decide +kernel)).1
  have hbob := congrArg (fun s => (s.account bob).balance) hstate
  exact absurd hbob (by decide +kernel)

end Sample

end PslBank.Sequencer
