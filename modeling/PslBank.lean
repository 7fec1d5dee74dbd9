import PslBank.Lib.Bytes
import PslBank.Lib.Encoding
import PslBank.Lib.MerkleTree
import PslBank.Crypto.Hash
import PslBank.Crypto.Account
import PslBank.Crypto.Smt
import PslBank.Crypto.SmtRefinement
import PslBank.Sequencer.Tx
import PslBank.Sequencer.State
import PslBank.Sequencer.Trace
import PslBank.Sequencer.Mempool
import PslBank.Sequencer.Block
import PslBank.Lib.Runs
import PslBank.Sequencer.Node
import PslBank.Sequencer.Run
import PslBank.Sequencer.Ledger
import PslBank.Sequencer.Supply
import PslBank.Sequencer.Replay
import PslBank.Sequencer.Frozen
import PslBank.Sequencer.Assets
import PslBank.Sequencer.Blocks
import PslBank.Sequencer.MultiAsset
import PslBank.Ternary.Error
import PslBank.Contracts.Program
import PslBank.Agent.Message
import PslBank.Agent.Dispute
import PslBank.Agent.StateMachine
import PslBank.Agent.ProposalRuns
import PslBank.Wallet.Policy
import PslBank.Wallet.Revocation
import PslBank.Agent.Sdk
import PslBank.Agent.Registry
import PslBank.Agent.Retry
import PslBank.Agent.Transcripts
import PslBank.Agent.TwoParty
import PslBank.LightClient.Verify
import PslBank.LightClient.Agreement
import PslBank.Sequencer.Exact
import PslBank.Sequencer.TxList
import PslBank.Agent.Authority
import PslBank.Lib.Reader
import PslBank.Sequencer.SupplyCap
import PslBank.Ternary.Layer
import PslBank.Ternary.Weights
import PslBank.Wallet.Spending
import PslBank.Ternary.Network
import PslBank.Ternary.ByteOps
import PslBank.Contracts.Guarded
import PslBank.Ternary.WeightsCodec
import PslBank.CryptoAgility.Codec
import PslBank.CryptoAgility.Blobs
import PslBank.CryptoAgility.WitnessEnc
import PslBank.CryptoAgility.SchemePrefix
import PslBank.Contracts.NativeAgreement
import PslBank.Contracts.Swap
import PslBank.Contracts.Inference
import PslBank.Lib.CheckedSum
import PslBank.Ternary.Kernel
import PslBank.Ternary.Order
import PslBank.Ternary.Loading
import PslBank.Contracts.Commitments
import PslBank.Wallet.Admission
import PslBank.Lib.Leb128
import PslBank.CryptoAgility.Totality
import PslBank.CryptoAgility.Hybrid
import PslBank.Crypto.AccountCodec
import PslBank.Ternary.Freeze
import PslBank.Lib.DecimalWire
import PslBank.Lib.ExchangeSort
import PslBank.Primitives.Common
import PslBank.Primitives.Bytewise
import PslBank.Primitives.Ledger
import PslBank.Primitives.Delta
import PslBank.Lib.Mailboxes
import PslBank.Agent.Bus
import PslBank.Agent.Deal
import PslBank.Agent.Reputation
import PslBank.Wallet.Slip10
import PslBank.CryptoAgility.Signer
import PslBank.Lib.Words
import PslBank.Lib.Text
import PslBank.Sequencer.Subprocess
import PslBank.Sequencer.Executors
import PslBank.Primitives.Gate
import PslBank.Primitives.Transfer
import PslBank.Sequencer.Issuers
import PslBank.LightClient.HeaderRoots
import PslBank.Sequencer.Rpc
import PslBank.Wallet.Convergence
