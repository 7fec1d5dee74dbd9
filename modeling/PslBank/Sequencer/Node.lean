import PslBank.Sequencer.Block
import PslBank.Sequencer.Mempool
import PslBank.Sequencer.Trace

/-!
# Block production

`sequencer/src/node.rs` with any trace executor. The two readings of the clock are
arguments of `produceBlock`. Besides the node and the result the model returns the
passes of the execution loop, which the source keeps in local variables: each `Exec` is
one transaction with the state its witness was read from, the executor's result and the
state after the write-back.
-/
namespace PslBank.Sequencer

open PslBank.Lib PslBank.Crypto

set_option autoImplicit false

/-- The part of the configuration that a node reads to start and to make a block. -/
structure Config where
  weightsDir : String
  transformerVmPath : String
  sequencerSecret : ByteArr 32
  blockSize : ℕ

structure SequencerNode where
  cfg : Config
  keypair : KeyPair
  state : State
  mempool : Mempool
  /-- The executor, by the answers it has left. -/
  trace : TraceExecutor
  lastHeader : Option BlockHeader

/-- One pass of the loop over the drained transactions. -/
structure Exec where
  tx : SignedTx
  epoch : UInt32
  before : State
  res : TraceResult
  after : State

/-- The records a primitive works on, read from the live state. -/
def assembleWitness (s : State) (tx : SignedTx) (epoch : UInt32) : Except String Witness :=
  match tx.kind with
  | .mint | .freeze => .ok ⟨epoch, [s.account (tx.recipient.getD tx.signer)], tx.amount, tx.flag⟩
  | .burn => .ok ⟨epoch, [s.account tx.signer], tx.amount, tx.flag⟩
  | .transfer =>
      match tx.recipient with
      | none => .error "transfer missing recipient"
      | some to_ => .ok ⟨epoch, [s.account tx.signer, s.account to_], tx.amount, tx.flag⟩
  | .multiAsset => .error "multi-asset witness assembly TODO"

section

variable [Blake3]

/-- The write-back of a result: nothing unless it reports success. -/
def writeBack (s : State) (res : TraceResult) : State :=
  if res.success then res.updatedAccounts.foldl State.putAccount s else s

/-- One pass, with the executor's answer about the transaction. -/
def executeTx (execute : Execute) (s : State) (tx : SignedTx) (epoch : UInt32) : Except String Exec := do
  let witness ← assembleWitness s tx epoch
  let res ← execute tx witness
  return ⟨tx, epoch, s, res, writeBack s res⟩

/-- The loop: state reached, passes made, and the error that ended it, if any. -/
structure LoopResult where
  state : State
  executed : List Exec
  error : Option String

/-- The answers come in order, one for each transaction. -/
def executeTxs (epoch : UInt32) : TraceExecutor → State → List SignedTx → LoopResult
  | _, s, [] => ⟨s, [], none⟩
  | trace, s, tx :: txs =>
      match executeTx (trace 0) s tx epoch with
      | .error e => ⟨s, [], some e⟩
      | .ok x =>
          let rest := executeTxs epoch (trace.after 1) x.after txs
          ⟨rest.state, x :: rest.executed, rest.error⟩

variable [Ed25519]

/-- What one call of `produce_block` leaves behind. -/
structure BlockOutcome where
  node : SequencerNode
  executed : List Exec
  header : Option BlockHeader
  result : Except String Unit

namespace SequencerNode

/-- `SequencerNode::new` once it has chosen its executor. -/
def newWith (trace : TraceExecutor) (cfg : Config) : SequencerNode where
  cfg := cfg
  keypair := ⟨cfg.sequencerSecret⟩
  state := State.new
  mempool := Mempool.new 10000
  trace := trace
  lastHeader := none

def signHeader (node : SequencerNode) (h : BlockHeader) : BlockHeader :=
  { h with sequencerSig := sign node.keypair h.signingBytes }

/-- `epochMs` and `timestampMs` are the two values of `chrono_now_ms`. -/
def produceBlock (node : SequencerNode) (epochMs timestampMs : UInt64) : BlockOutcome :=
  if node.mempool.isEmpty then ⟨node, [], none, .ok ()⟩
  else
    let (txs, mempool) := node.mempool.drain node.cfg.blockSize
    let node := { node with mempool := mempool }
    if txs.isEmpty then ⟨node, [], none, .ok ()⟩
    else
      let prevStateRoot := node.state.accountsRoot
      let (parentHash, blockN) :=
        match node.lastHeader with
        | some h => (h.headerHash, h.blockN + 1)
        | none => (zeroHash, 0)
      let epoch := (epochMs / 1000).toUInt32
      let loop := executeTxs epoch node.trace node.state txs
      let node := { node with state := loop.state, trace := node.trace.after txs.length }
      match loop.error with
      | some e => ⟨node, loop.executed, none, .error e⟩
      | none =>
          let signed := node.signHeader
            { blockN := blockN
              parentHash := parentHash
              prevStateRoot := prevStateRoot
              txListHash := txListHash txs
              traceHash := combinedTraceHash (loop.executed.map (·.res.traceHash))
              newStateRoot := loop.state.accountsRoot
              issuerRegistryRoot := loop.state.registryRoot
              timestampMs := timestampMs
              sequencerPubkey := node.keypair.public
              sequencerSig := List.Vector.replicate 64 0 }
          ⟨{ node with lastHeader := some signed }, loop.executed, some signed, .ok ()⟩

end SequencerNode

end

end PslBank.Sequencer
