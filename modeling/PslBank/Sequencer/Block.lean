import PslBank.Sequencer.Tx

/-!
# Block headers

`sequencer/src/block.rs`: the bytes a header signs and hashes, and the two list
commitments in it.
-/
namespace PslBank.Sequencer

open PslBank.Lib PslBank.Crypto

set_option autoImplicit false

/-- `sequencerSig` is over all the other fields. -/
structure BlockHeader where
  blockN : UInt64
  parentHash : Hash
  prevStateRoot : Hash
  txListHash : Hash
  traceHash : Hash
  newStateRoot : Hash
  issuerRegistryRoot : Hash
  timestampMs : UInt64
  sequencerPubkey : PublicKey
  sequencerSig : Signature
  deriving DecidableEq

/-- The canonical encoding without the signature. -/
def BlockHeader.signingBytes (h : BlockHeader) : Bytes :=
  toLe 8 h.blockN.toNat ++ h.parentHash.toList ++ h.prevStateRoot.toList ++ h.txListHash.toList ++
    h.traceHash.toList ++ h.newStateRoot.toList ++ h.issuerRegistryRoot.toList ++
    toLe 8 h.timestampMs.toNat ++ h.sequencerPubkey.toList

section

variable [Blake3]

/-- What `parent_hash` of the next block points at. -/
def BlockHeader.headerHash (h : BlockHeader) : Hash :=
  hashBytes (h.signingBytes ++ h.sequencerSig.toList)

/-- The bytes `tx_list_hash` feeds to its hasher. -/
def txListBytes (txs : List SignedTx) : Bytes :=
  txs.flatMap fun tx => toLe 4 tx.canonical.length ++ tx.canonical ++ tx.signature.toList

def txListHash (txs : List SignedTx) : Hash := Blake3.digest (txListBytes txs)

/-- One digest over the trace hashes of the block, in order. -/
def combinedTraceHash (perTxTraces : List Hash) : Hash :=
  Blake3.digest (perTxTraces.flatMap (·.toList))

end

end PslBank.Sequencer
