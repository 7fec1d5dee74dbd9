import PslBank.Lib.Runs
import PslBank.Sequencer.Node

/-!
# Runs of a sequencer

A run is any list of `ingress` and `produce_block` calls on a fresh node, each
`ingress` with a registry of its own and each block with its own clock readings.
`Run` adds to the node what the calls admitted, executed and signed so far. The node of
`ofCallsWith` has any executor, that of `ofCalls` the native one.

Between calls a run moves by three kinds of small steps, which the `Journal` names:
a transaction is admitted, the oldest pending one makes its pass through the loop,
or the oldest pending one is lost because its block failed. `journal_invariant` is
the rule that every result about runs with a queue is proved by.
-/
namespace PslBank.Sequencer

open PslBank.Lib PslBank.Crypto

set_option autoImplicit false

/-! ## What one call does -/

theorem TraceExecutor.after_zero (trace : TraceExecutor) : trace.after 0 = trace := by
  funext i
  rw [TraceExecutor.after, Nat.zero_add]

/-- An accepted submission passed `validate` and is the last of the queue. -/
theorem Mempool.ingress_ok [Ed25519] {mp mp' : Mempool} {tx : SignedTx} {s : State} {registry : Registry}
    (h : mp.ingress tx s registry = .ok mp') :
    validate tx s registry = .ok () ∧ mp' = { mp with queue := mp.queue ++ [tx] } := by
  unfold Mempool.ingress at h
  by_cases hfull : mp.queue.length ≥ mp.capacity
  · rw [if_pos hfull] at h
    cases h
  · rw [if_neg hfull] at h
    obtain ⟨_, hv, hmp⟩ := bind_eq_ok_iff.mp h
    exact ⟨hv, (Except.ok.inj hmp).symm⟩

theorem executeTx_ok [Blake3] {execute : Execute} {s : State} {tx : SignedTx} {epoch : UInt32} {x : Exec}
    (h : executeTx execute s tx epoch = .ok x) :
    ∃ w, assembleWitness s tx epoch = .ok w ∧ execute tx w = .ok x.res ∧
      x = ⟨tx, epoch, s, x.res, writeBack s x.res⟩ := by
  unfold executeTx at h
  obtain ⟨w, hw, h⟩ := bind_eq_ok_iff.mp h
  obtain ⟨res, hr, hx⟩ := bind_eq_ok_iff.mp h
  obtain rfl := Except.ok.inj hx
  exact ⟨w, hw, hr, rfl⟩

theorem executeTx_before [Blake3] {execute : Execute} {s : State} {tx : SignedTx} {epoch : UInt32} {x : Exec}
    (h : executeTx execute s tx epoch = .ok x) : x.tx = tx ∧ x.epoch = epoch ∧ x.before = s := by
  obtain ⟨w, -, -, hx⟩ := executeTx_ok h
  rw [hx]
  exact ⟨rfl, rfl, rfl⟩

namespace SequencerNode

/-- The transactions the next block takes. -/
def batch (node : SequencerNode) : List SignedTx := (node.mempool.drain node.cfg.blockSize).1

/-- The transactions the next block leaves. -/
def unbatched (node : SequencerNode) : List SignedTx :=
  (node.mempool.drain node.cfg.blockSize).2.queue

theorem batch_append_unbatched (node : SequencerNode) :
    node.batch ++ node.unbatched = node.mempool.queue :=
  List.take_append_drop _ _

theorem batch_of_isEmpty {node : SequencerNode} (h : node.mempool.isEmpty = true) :
    node.batch = [] := by
  have hq : node.mempool.queue = [] := List.isEmpty_iff.mp h
  unfold batch Mempool.drain
  rw [hq]
  exact List.take_nil

/-- A batch that is not empty passes both of the guards. -/
theorem not_isEmpty_of_batch {node : SequencerNode} (hb : node.batch ≠ []) :
    ¬ node.mempool.isEmpty = true ∧
      ¬ (node.mempool.drain node.cfg.blockSize).1.isEmpty = true :=
  ⟨fun h => hb (batch_of_isEmpty h), fun h => hb (List.isEmpty_iff.mp h)⟩

def blockEpoch (epochMs : UInt64) : UInt32 := (epochMs / 1000).toUInt32

section

variable [Blake3]

/-- The execution loop of the next block. -/
def loop (node : SequencerNode) (epochMs : UInt64) : LoopResult :=
  executeTxs (blockEpoch epochMs) node.trace node.state node.batch

variable [Ed25519]

/-- The header of a block whose loop ran through. -/
def nextHeader (node : SequencerNode) (epochMs timestampMs : UInt64) : BlockHeader :=
  node.signHeader
    { blockN := match node.lastHeader with | some h => h.blockN + 1 | none => 0
      parentHash := match node.lastHeader with | some h => h.headerHash | none => zeroHash
      prevStateRoot := node.state.accountsRoot
      txListHash := PslBank.Sequencer.txListHash node.batch
      traceHash := combinedTraceHash ((node.loop epochMs).executed.map (·.res.traceHash))
      newStateRoot := (node.loop epochMs).state.accountsRoot
      issuerRegistryRoot := (node.loop epochMs).state.registryRoot
      timestampMs := timestampMs
      sequencerPubkey := node.keypair.public
      sequencerSig := List.Vector.replicate 64 0 }

/-- An empty batch leaves the node alone. -/
theorem produceBlock_nil {node : SequencerNode} (hb : node.batch = []) (e t : UInt64) :
    node.produceBlock e t = ⟨node, [], none, .ok ()⟩ := by
  have hq : node.unbatched = node.mempool.queue := by
    rw [← node.batch_append_unbatched, hb, List.nil_append]
  have hnode : { node with mempool := (node.mempool.drain node.cfg.blockSize).2 } = node := by
    have hmp : (node.mempool.drain node.cfg.blockSize).2 = node.mempool := by
      show { node.mempool with queue := node.unbatched } = node.mempool
      rw [hq]
    rw [hmp]
  unfold produceBlock
  split
  · rfl
  · have he : (node.mempool.drain node.cfg.blockSize).1.isEmpty = true := by
      rw [show (node.mempool.drain node.cfg.blockSize).1 = [] from hb]
      rfl
    simp only [he, ↓reduceIte, hnode]

/-- A block whose loop fails keeps what the passes before the failure wrote. -/
theorem produceBlock_error {node : SequencerNode} {e : UInt64} {err : String} (t : UInt64)
    (hb : node.batch ≠ []) (hl : (node.loop e).error = some err) :
    node.produceBlock e t =
      ⟨{ node with
          mempool := { node.mempool with queue := node.unbatched }
          state := (node.loop e).state
          trace := node.trace.after node.batch.length }, (node.loop e).executed, none, .error err⟩ := by
  obtain ⟨hne, hbe⟩ := not_isEmpty_of_batch hb
  have hl' : (executeTxs ((e / 1000).toUInt32) node.trace node.state
      (node.mempool.drain node.cfg.blockSize).1).error = some err := hl
  unfold produceBlock
  rw [if_neg hne]
  simp only [if_neg hbe, hl']
  rfl

theorem produceBlock_ok {node : SequencerNode} {e : UInt64} (t : UInt64)
    (hb : node.batch ≠ []) (hl : (node.loop e).error = none) :
    node.produceBlock e t =
      ⟨{ node with
          mempool := { node.mempool with queue := node.unbatched }
          state := (node.loop e).state
          trace := node.trace.after node.batch.length
          lastHeader := some (node.nextHeader e t) },
        (node.loop e).executed, some (node.nextHeader e t), .ok ()⟩ := by
  obtain ⟨hne, hbe⟩ := not_isEmpty_of_batch hb
  have hl' : (executeTxs ((e / 1000).toUInt32) node.trace node.state
      (node.mempool.drain node.cfg.blockSize).1).error = none := hl
  unfold produceBlock
  rw [if_neg hne]
  simp only [if_neg hbe, hl']
  unfold nextHeader
  cases node.lastHeader <;> rfl

/-- No answer is given twice. -/
theorem trace_produceBlock (node : SequencerNode) (e t : UInt64) :
    ∃ n, (node.produceBlock e t).node.trace = node.trace.after n := by
  by_cases hb : node.batch = []
  · exact ⟨0, by rw [produceBlock_nil hb, TraceExecutor.after_zero]⟩
  · refine ⟨node.batch.length, ?_⟩
    cases hl : (node.loop e).error with
    | some err => rw [produceBlock_error t hb hl]
    | none => rw [produceBlock_ok t hb hl]

/-- What every block does to queue, state and history, whether it fails or not. -/
theorem produceBlock_effect (node : SequencerNode) (e t : UInt64) :
    (node.produceBlock e t).node.mempool.queue = node.unbatched ∧
      (node.produceBlock e t).node.state = (node.loop e).state ∧
      (node.produceBlock e t).executed = (node.loop e).executed := by
  by_cases hb : node.batch = []
  · have hq : node.unbatched = node.mempool.queue := by
      rw [← node.batch_append_unbatched, hb, List.nil_append]
    rw [produceBlock_nil hb, hq]
    unfold loop
    rw [hb]
    exact ⟨rfl, rfl, rfl⟩
  · cases hl : (node.loop e).error with
    | some err =>
      rw [produceBlock_error t hb hl]
      exact ⟨rfl, rfl, rfl⟩
    | none =>
      rw [produceBlock_ok t hb hl]
      exact ⟨rfl, rfl, rfl⟩

end

end SequencerNode

/-! ## Runs -/

inductive Call where
  | ingress (tx : SignedTx) (registry : Registry)
  | produceBlock (epochMs timestampMs : UInt64)

structure Run where
  node : SequencerNode
  admitted : List SignedTx
  executed : List Exec
  headers : List BlockHeader

/-- The part of a run that the small steps change. -/
structure Journal where
  pending : List SignedTx
  state : State
  admitted : List SignedTx
  executed : List Exec

namespace Journal

def accept (j : Journal) (tx : SignedTx) : Journal :=
  { j with pending := j.pending ++ [tx], admitted := j.admitted ++ [tx] }

def pass (j : Journal) (pending : List SignedTx) (x : Exec) : Journal :=
  { j with pending := pending, state := x.after, executed := j.executed ++ [x] }

def lose (j : Journal) (pending : List SignedTx) : Journal := { j with pending := pending }

end Journal

def Run.journal (r : Run) : Journal := ⟨r.node.mempool.queue, r.node.state, r.admitted, r.executed⟩

theorem Journal.lose_all (Inv : Journal → Prop)
    (hlose : ∀ j tx p, j.pending = tx :: p → Inv j → Inv (j.lose p))
    (txs rest : List SignedTx) (j : Journal)
    (hp : j.pending = txs ++ rest) (h : Inv j) : Inv (j.lose rest) := by
  induction txs generalizing j with
  | nil =>
    rw [List.nil_append] at hp
    rwa [← hp]
  | cons tx txs ih => exact ih (j.lose (txs ++ rest)) rfl (hlose j tx _ hp h)

/-- Each pass meets `sound`, which is told the passes before it and the state it
starts in. -/
def SoundPasses (sound : List Exec → State → SignedTx → Prop) : List Exec → List Exec → Prop :=
  Meets (fun earlier x => earlier ++ [x]) fun earlier x => sound earlier x.before x.tx

instance (sound : List Exec → State → SignedTx → Prop) [∀ xs s tx, Decidable (sound xs s tx)]
    (earlier xs : List Exec) : Decidable (SoundPasses sound earlier xs) :=
  inferInstanceAs (Decidable (Meets (fun earlier x => earlier ++ [x])
    (fun earlier x => sound earlier x.before x.tx) earlier xs))

/-- The loop over a batch, as small steps. -/
theorem executeTxs_invariant [Blake3] {sound : List Exec → State → SignedTx → Prop}
    (Answer : Execute → Prop) (Inv : Journal → Prop) {epoch : UInt32}
    (hpass : ∀ execute j tx p x, Answer execute → j.pending = tx :: p →
      executeTx execute j.state tx epoch = .ok x → sound j.executed j.state tx → Inv j → Inv (j.pass p x))
    (hlose : ∀ j tx p, j.pending = tx :: p → Inv j → Inv (j.lose p))
    (trace : TraceExecutor) (ht : ∀ n, Answer (trace n))
    (txs rest : List SignedTx) (j : Journal) (hp : j.pending = txs ++ rest)
    (hs : SoundPasses sound j.executed (executeTxs epoch trace j.state txs).executed) (h : Inv j) :
    Inv ⟨rest, (executeTxs epoch trace j.state txs).state, j.admitted,
      j.executed ++ (executeTxs epoch trace j.state txs).executed⟩ := by
  induction txs generalizing j trace with
  | nil =>
    have hr : rest = j.pending := by rw [hp, List.nil_append]
    subst hr
    simpa [executeTxs] using h
  | cons tx txs ih =>
    cases hx : executeTx (trace 0) j.state tx epoch with
    | error e =>
      -- the block fails here: this transaction and the rest of the batch are lost
      have hl := j.lose_all Inv hlose (tx :: txs) rest hp h
      simpa [executeTxs, hx, Journal.lose] using hl
    | ok x =>
      obtain ⟨htx, -, hbefore⟩ := executeTx_before hx
      simp only [executeTxs, hx] at hs ⊢
      obtain ⟨hsx, hsrest⟩ := hs
      rw [htx, hbefore] at hsx
      have hj := hpass (trace 0) j tx (txs ++ rest) x (ht 0) hp hx hsx h
      have hrest := ih (trace.after 1) (fun n => ht (1 + n)) (j.pass (txs ++ rest) x) rfl hsrest hj
      simpa [Journal.pass] using hrest

section Runs

variable [Blake3] [Ed25519]

namespace Run

def startWith (trace : TraceExecutor) (cfg : Config) : Run := ⟨SequencerNode.newWith trace cfg, [], [], []⟩

/-- The start of a node with the native executor. -/
abbrev start (cfg : Config) : Run := startWith NativeTraceExecutor.trace cfg

def step (r : Run) : Call → Run
  | .ingress tx registry =>
      match r.node.mempool.ingress tx r.node.state registry with
      | .error _ => r
      | .ok mempool =>
          { r with node := { r.node with mempool := mempool }, admitted := r.admitted ++ [tx] }
  | .produceBlock epochMs timestampMs =>
      let out := r.node.produceBlock epochMs timestampMs
      { r with
        node := out.node
        executed := r.executed ++ out.executed
        headers := r.headers ++ out.header.toList }

/-- The run that `calls` make on a fresh node. -/
def ofCallsWith (trace : TraceExecutor) (cfg : Config) (calls : List Call) : Run :=
  run step (startWith trace cfg) calls

/-- The run that `calls` make on a fresh node with the native executor. -/
abbrev ofCalls (cfg : Config) (calls : List Call) : Run := ofCallsWith NativeTraceExecutor.trace cfg calls

/-- The condition of a step: `admissible` of a transaction about to be admitted, and
`sound` of each pass the block makes. -/
def guard (admissible : Journal → SignedTx → Prop)
    (sound : List Exec → State → SignedTx → Prop) (r : Run) : Call → Prop
  | .ingress tx registry =>
      (r.node.mempool.ingress tx r.node.state registry).isOk = true → admissible r.journal tx
  | .produceBlock epochMs timestampMs =>
      SoundPasses sound r.executed (r.node.produceBlock epochMs timestampMs).executed

instance (admissible : Journal → SignedTx → Prop) (sound : List Exec → State → SignedTx → Prop)
    [∀ j tx, Decidable (admissible j tx)] [∀ xs s tx, Decidable (sound xs s tx)] (r : Run)
    (call : Call) : Decidable (guard admissible sound r call) :=
  match call with
  | .ingress tx registry => inferInstanceAs (Decidable
      ((r.node.mempool.ingress tx r.node.state registry).isOk = true → admissible r.journal tx))
  | .produceBlock e t => inferInstanceAs (Decidable
      (SoundPasses sound r.executed (r.node.produceBlock e t).executed))

/-- Every step of the run of `calls` meets the condition. -/
def GuardedCalls (admissible : Journal → SignedTx → Prop)
    (sound : List Exec → State → SignedTx → Prop) (cfg : Config) (calls : List Call) : Prop :=
  Meets step (guard admissible sound) (start cfg) calls

instance (admissible : Journal → SignedTx → Prop) (sound : List Exec → State → SignedTx → Prop)
    [∀ j tx, Decidable (admissible j tx)] [∀ xs s tx, Decidable (sound xs s tx)] (cfg : Config)
    (calls : List Call) : Decidable (GuardedCalls admissible sound cfg calls) :=
  inferInstanceAs (Decidable (Meets step (guard admissible sound) (start cfg) calls))

end Run

theorem Run.trace_step (r : Run) (call : Call) : ∃ n, (r.step call).node.trace = r.node.trace.after n := by
  cases call with
  | ingress tx registry =>
    refine ⟨0, ?_⟩
    rw [TraceExecutor.after_zero]
    cases hi : r.node.mempool.ingress tx r.node.state registry <;> simp only [Run.step, hi]
  | produceBlock e t => exact r.node.trace_produceBlock e t

/-- An invariant of the small steps holds after every run whose steps meet their
condition; `Answer` is what is known of the executor. -/
theorem journal_invariant {admissible : Journal → SignedTx → Prop}
    {sound : List Exec → State → SignedTx → Prop} (Answer : Execute → Prop) (Inv : Journal → Prop)
    (haccept : ∀ j tx registry, validate tx j.state registry = .ok () → admissible j tx →
      Inv j → Inv (j.accept tx))
    (hpass : ∀ epoch execute j tx p x, Answer execute → j.pending = tx :: p →
      executeTx execute j.state tx epoch = .ok x → sound j.executed j.state tx → Inv j → Inv (j.pass p x))
    (hlose : ∀ j tx p, j.pending = tx :: p → Inv j → Inv (j.lose p))
    (hstart : Inv ⟨[], State.new, [], []⟩) {trace : TraceExecutor} (ht : ∀ n, Answer (trace n))
    {cfg : Config} {calls : List Call}
    (hg : Meets Run.step (Run.guard admissible sound) (Run.startWith trace cfg) calls) :
    Inv (Run.ofCallsWith trace cfg calls).journal := by
  refine (run_invariant (fun r : Run => (∀ n, Answer (r.node.trace n)) ∧ Inv r.journal) ?_ hg
    ⟨ht, hstart⟩).2
  intro r call hcall hr
  obtain ⟨ht, hr⟩ := hr
  have hleft : ∀ n, Answer ((r.step call).node.trace n) := by
    obtain ⟨k, hk⟩ := r.trace_step call
    intro n
    rw [hk]
    exact ht (k + n)
  refine ⟨hleft, ?_⟩
  cases call with
  | ingress tx registry =>
    simp only [Run.guard] at hcall
    cases hi : r.node.mempool.ingress tx r.node.state registry with
    | error e => simpa only [Run.step, hi] using hr
    | ok mp =>
      rw [hi] at hcall
      obtain ⟨hv, rfl⟩ := Mempool.ingress_ok hi
      have hj := haccept r.journal tx registry hv (hcall rfl) hr
      simp only [Run.step, hi]
      exact hj
  | produceBlock e t =>
    obtain ⟨hq, hstate, hexec⟩ := r.node.produceBlock_effect e t
    have hp : r.journal.pending = r.node.batch ++ r.node.unbatched :=
      r.node.batch_append_unbatched.symm
    simp only [Run.guard, hexec] at hcall
    have hj := executeTxs_invariant Answer Inv (hpass _) hlose r.node.trace ht r.node.batch
      r.node.unbatched r.journal hp hcall hr
    show Inv ⟨(r.node.produceBlock e t).node.mempool.queue, (r.node.produceBlock e t).node.state,
      r.admitted, r.executed ++ (r.node.produceBlock e t).executed⟩
    rw [hq, hstate, hexec]
    exact hj

end Runs

/-! ## Names for concrete runs -/

def amountOfNat (n : ℕ) : ByteArr 16 := ⟨toLe 16 n, length_toLe 16 n⟩

def alice : PublicKey := hashOfNat 1
def bob : PublicKey := hashOfNat 2
def carol : PublicKey := hashOfNat 3
def issuer : PublicKey := hashOfNat 9

/-- `issuer` runs every asset and asks for metadata above 1000 units. -/
def sampleRegistry : Registry := fun assetId =>
  some ⟨assetId, issuer, amountOfNat 0, true, true, true, amountOfNat 1000⟩

def sampleConfig : Config := ⟨"weights", "transformer-vm", hashOfNat 77, 16⟩

/-- A transaction signed under the stand-in scheme. -/
def sampleTx (kind : TxKind) (assetId : UInt32) (nonce : UInt64) (signer : PublicKey)
    (recipient : Option PublicKey) (amount : ℕ) (flag : UInt8) : SignedTx :=
  let tx : SignedTx := ⟨kind, assetId, nonce, signer, recipient, amountOfNat amount, flag,
    some zeroHash, none, none, List.Vector.replicate 64 0⟩
  { tx with signature := sampleSign signer tx.canonical }

end PslBank.Sequencer
