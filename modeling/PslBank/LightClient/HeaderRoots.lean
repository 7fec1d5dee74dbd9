import PslBank.LightClient.Agreement
import PslBank.Sequencer.Issuers

/-!
# What a header commits to

The two roots of a header are the roots of the account tree and of the registry tree after its
block. Each tree is the tree of the writes that the run made, so headers with equal roots, of
whatever runs, come from nodes with equal records and equal issuers: they answer every account
query, every issuer query and every submission alike.
-/
namespace PslBank.LightClient

open PslBank.Lib PslBank.Crypto PslBank.Sequencer

set_option autoImplicit false

section

variable [Blake3]

/-- The put that a call makes on the registry tree. -/
def registryPut : NodeCall → Option (Hash × Bytes)
  | .registerIssuer issuer => some (issuer.key, issuer.serialize)
  | _ => none

def registryPuts (calls : List NodeCall) : List (Hash × Bytes) := calls.filterMap registryPut

theorem accounts_executeTxs (epoch : UInt32) (trace : TraceExecutor) (s : State) (txs : List SignedTx) :
    (executeTxs epoch trace s txs).state.accounts =
      s.accounts.putAll (runPuts (executeTxs epoch trace s txs).executed) := by
  induction txs generalizing trace s with
  | nil => rfl
  | cons tx txs ih =>
    cases hx : executeTx (trace 0) s tx epoch with
    | error e =>
      rw [executeTxs, hx]
      rfl
    | ok x =>
      obtain ⟨w, -, -, heq⟩ := executeTx_ok hx
      have hafter : x.after = writeBack s x.res := congrArg Exec.after heq
      rw [executeTxs, hx]
      show (executeTxs epoch (trace.after 1) x.after txs).state.accounts =
        s.accounts.putAll (execPuts x ++ runPuts (executeTxs epoch (trace.after 1) x.after txs).executed)
      rw [ih, accounts_writeBack s x hafter, putAll_append]

/-- Trees of writes with one root hold the same values. -/
theorem get_eq_of_root {puts puts' : List (Hash × Bytes)}
    (hnc : NoCollision (historyPreimages puts ++ historyPreimages puts'))
    (hroot : (SparseMerkleTree.new.putAll puts).root = (SparseMerkleTree.new.putAll puts').root) (key : Hash) :
    (SparseMerkleTree.new.putAll puts).get key = (SparseMerkleTree.new.putAll puts').get key := by
  have hr := represents_history hnc puts (List.subset_append_left _ _)
  have hr' := represents_history hnc puts' (List.subset_append_right _ _)
  rw [SparseMerkleTree.get, SparseMerkleTree.get, hr.leaves_eq, hr'.leaves_eq, hr.map_eq hr' hnc hroot]

variable [Ed25519]

theorem accounts_produceBlock (node : SequencerNode) (e t : UInt64) :
    (node.produceBlock e t).node.state.accounts =
      node.state.accounts.putAll (runPuts (node.produceBlock e t).executed) := by
  obtain ⟨-, hstate, hexecuted⟩ := node.produceBlock_effect e t
  rw [hstate, hexecuted]
  exact accounts_executeTxs _ _ _ _

/-- The roots in a signed header are those of the state that the block leaves. -/
theorem roots_of_header {node : SequencerNode} {e t : UInt64} {h : BlockHeader}
    (hh : (node.produceBlock e t).header = some h) :
    h.newStateRoot = (node.produceBlock e t).node.state.accountsRoot ∧
      h.issuerRegistryRoot = (node.produceBlock e t).node.state.registryRoot := by
  by_cases hb : node.batch = []
  · rw [SequencerNode.produceBlock_nil hb] at hh
    cases hh
  · cases hl : (node.loop e).error with
    | some err =>
      rw [SequencerNode.produceBlock_error t hb hl] at hh
      cases hh
    | none =>
      rw [SequencerNode.produceBlock_ok t hb hl] at hh ⊢
      obtain rfl := Option.some.inj hh
      exact ⟨rfl, rfl⟩

variable [SerdeJson]

theorem accounts_ofNodeCalls (trace : TraceExecutor) (cfg : Config) (calls : List NodeCall) :
    (Run.ofNodeCalls trace cfg calls).node.state.accounts =
      SparseMerkleTree.new.putAll (runPuts (Run.ofNodeCalls trace cfg calls).executed) := by
  induction calls using List.reverseRecOn with
  | nil => rfl
  | append_singleton calls call ih =>
    rw [Run.ofNodeCalls_concat]
    cases call with
    | registerIssuer issuer => exact ih
    | submitTx tx =>
      rw [Run.nodeStep_submitTx, Run.state_ingress, ih]
      cases h : (Run.ofNodeCalls trace cfg calls).node.mempool.ingress tx
        (Run.ofNodeCalls trace cfg calls).node.state (Run.ofNodeCalls trace cfg calls).node.issuers <;>
        simp only [Run.step, h]
    | produceBlock e t =>
      show ((Run.ofNodeCalls trace cfg calls).node.produceBlock e t).node.state.accounts =
        SparseMerkleTree.new.putAll (runPuts ((Run.ofNodeCalls trace cfg calls).executed ++
          ((Run.ofNodeCalls trace cfg calls).node.produceBlock e t).executed))
      rw [accounts_produceBlock, ih, runPuts, runPuts, runPuts, List.flatMap_append, putAll_append]

theorem registry_ofNodeCalls (trace : TraceExecutor) (cfg : Config) (calls : List NodeCall) :
    (Run.ofNodeCalls trace cfg calls).node.state.registry = SparseMerkleTree.new.putAll (registryPuts calls) := by
  induction calls using List.reverseRecOn with
  | nil => rfl
  | append_singleton calls call ih =>
    rw [Run.ofNodeCalls_concat, registryPuts, List.filterMap_append, putAll_append]
    cases call with
    | registerIssuer issuer =>
      have hput : ∀ (tree : SparseMerkleTree) (key : Hash) (value : Bytes),
          tree.putAll [(key, value)] = tree.put key value := fun _ _ _ => rfl
      have hone : [NodeCall.registerIssuer issuer].filterMap registryPut = [(issuer.key, issuer.serialize)] := by
        rw [List.filterMap_cons_some (b := (issuer.key, issuer.serialize)) (by rw [registryPut]), List.filterMap_nil]
      rw [hone, hput]
      exact congrArg (fun tree => tree.put issuer.key issuer.serialize) ih
    | submitTx tx =>
      rw [Run.nodeStep_submitTx, Run.state_ingress]
      exact ih
    | produceBlock e t => exact (registry_produceBlock _ e t).trans ih

/-- The block a node produces after some calls. -/
def blockAfter (trace : TraceExecutor) (cfg : Config) (calls : List NodeCall)
    (epochMs timestampMs : UInt64) : BlockOutcome :=
  (Run.ofNodeCalls trace cfg calls).node.produceBlock epochMs timestampMs

/-- All writes to the account tree up to the end of that block. -/
def accountPuts (trace : TraceExecutor) (cfg : Config) (calls : List NodeCall)
    (epochMs timestampMs : UInt64) : List (Hash × Bytes) :=
  runPuts ((Run.ofNodeCalls trace cfg calls).executed ++
    (blockAfter trace cfg calls epochMs timestampMs).executed)

theorem accounts_blockAfter (trace : TraceExecutor) (cfg : Config) (calls : List NodeCall) (e t : UInt64) :
    (blockAfter trace cfg calls e t).node.state.accounts =
      SparseMerkleTree.new.putAll (accountPuts trace cfg calls e t) := by
  rw [blockAfter, accounts_produceBlock, accounts_ofNodeCalls, accountPuts, runPuts, runPuts, runPuts,
    List.flatMap_append, putAll_append]
  rfl

theorem registry_blockAfter (trace : TraceExecutor) (cfg : Config) (calls : List NodeCall) (e t : UInt64) :
    (blockAfter trace cfg calls e t).node.state.registry = SparseMerkleTree.new.putAll (registryPuts calls) :=
  (registry_produceBlock _ e t).trans (registry_ofNodeCalls trace cfg calls)

theorem newStateRoot_eq {trace : TraceExecutor} {cfg : Config} {calls : List NodeCall} {e t : UInt64}
    {h : BlockHeader} (hh : (blockAfter trace cfg calls e t).header = some h) :
    h.newStateRoot = (SparseMerkleTree.new.putAll (accountPuts trace cfg calls e t)).root := by
  rw [← accounts_blockAfter]
  exact (roots_of_header hh).1

theorem issuerRegistryRoot_eq {trace : TraceExecutor} {cfg : Config} {calls : List NodeCall} {e t : UInt64}
    {h : BlockHeader} (hh : (blockAfter trace cfg calls e t).header = some h) :
    h.issuerRegistryRoot = (SparseMerkleTree.new.putAll (registryPuts calls)).root := by
  rw [← registry_blockAfter trace cfg calls e t]
  exact (roots_of_header hh).2

/-- Two blocks of any two runs whose headers have equal roots leave nodes that agree on every account,
on every issuer and on every submission, also where the runs have different executors. -/
theorem header_roots_commit (trace trace' : TraceExecutor) (cfg cfg' : Config)
    (calls calls' : List NodeCall) (e t e' t' : UInt64) (h h' : BlockHeader)
    (hh : (blockAfter trace cfg calls e t).header = some h)
    (hh' : (blockAfter trace' cfg' calls' e' t').header = some h')
    (haccounts : NoCollision (historyPreimages (accountPuts trace cfg calls e t) ++
      historyPreimages (accountPuts trace' cfg' calls' e' t')))
    (hregistry : NoCollision (historyPreimages (registryPuts calls) ++ historyPreimages (registryPuts calls')))
    (hstate : h.newStateRoot = h'.newStateRoot) (hissuers : h.issuerRegistryRoot = h'.issuerRegistryRoot) :
    let node := (blockAfter trace cfg calls e t).node
    let node' := (blockAfter trace' cfg' calls' e' t').node
    (∀ pubkey, node.state.account pubkey = node'.state.account pubkey) ∧
      (∀ assetId, node.lookupIssuer assetId = node'.lookupIssuer assetId) ∧
      ∀ tx, validate tx node.state node.issuers = validate tx node'.state node'.issuers := by
  intro node node'
  have haccount : ∀ pubkey, node.state.account pubkey = node'.state.account pubkey := by
    have htree : node.state.accounts = _ := accounts_blockAfter trace cfg calls e t
    have htree' : node'.state.accounts = _ := accounts_blockAfter trace' cfg' calls' e' t'
    rw [newStateRoot_eq hh, newStateRoot_eq hh'] at hstate
    intro pubkey
    unfold State.account
    rw [htree, htree', get_eq_of_root haccounts hstate]
  have hlookup : ∀ assetId, node.lookupIssuer assetId = node'.lookupIssuer assetId := by
    have htree : node.state.registry = _ := registry_blockAfter trace cfg calls e t
    have htree' : node'.state.registry = _ := registry_blockAfter trace' cfg' calls' e' t'
    rw [issuerRegistryRoot_eq hh, issuerRegistryRoot_eq hh'] at hissuers
    intro assetId
    rw [SequencerNode.lookupIssuer, SequencerNode.lookupIssuer, htree, htree',
      get_eq_of_root hregistry hissuers]
  refine ⟨haccount, hlookup, fun tx => ?_⟩
  have hregistries : node.issuers = node'.issuers := by
    funext assetId
    rw [SequencerNode.issuers, SequencerNode.issuers, hlookup]
  unfold validate
  rw [haccount, hregistries]

end

/-! Two nodes, one of which was also asked too early. -/

section Sample

attribute [local instance] maxBlake3 sampleEd25519 usdReader

def usdEarly : List NodeCall := [.registerIssuer usd, .submitTx usdMint]

def usdLate : List NodeCall := [.submitTx usdMint, .registerIssuer usd, .submitTx usdMint]

def otherConfig : Config := ⟨"weights", "transformer-vm", hashOfNat 78, 8⟩

theorem usdEarly_block :
    accountPuts NativeTraceExecutor.trace sampleConfig usdEarly 1000 1000 =
        [(alice, mintedRecord.bytes.toList)] ∧
      (blockAfter NativeTraceExecutor.trace sampleConfig usdEarly 1000 1000).header.isSome = true := by
  decide +kernel

theorem usdLate_block :
    accountPuts NativeTraceExecutor.trace otherConfig usdLate 1500 9000 =
        [(alice, mintedRecord.bytes.toList)] ∧
      (blockAfter NativeTraceExecutor.trace otherConfig usdLate 1500 9000).header.isSome = true := by
  decide +kernel

theorem registryPuts_usdEarly : registryPuts usdEarly = [(usd.key, usd.serialize)] := rfl

theorem registryPuts_usdLate : registryPuts usdLate = [(usd.key, usd.serialize)] := rfl

theorem usd_digest : 65256 < leNat (maxDigest usd.serialize).toList := by decide +kernel

theorem header_roots_commit_usd :
    validate usdMint (blockAfter NativeTraceExecutor.trace sampleConfig usdEarly 1000 1000).node.state
        (blockAfter NativeTraceExecutor.trace sampleConfig usdEarly 1000 1000).node.issuers =
      validate usdMint (blockAfter NativeTraceExecutor.trace otherConfig usdLate 1500 9000).node.state
        (blockAfter NativeTraceExecutor.trace otherConfig usdLate 1500 9000).node.issuers := by
  obtain ⟨hputs, hsome⟩ := usdEarly_block
  obtain ⟨hputs', hsome'⟩ := usdLate_block
  obtain ⟨h, hh⟩ := Option.isSome_iff_exists.mp hsome
  obtain ⟨h', hh'⟩ := Option.isSome_iff_exists.mp hsome'
  have haccounts : ∀ x ∈ historyPreimages [(alice, mintedRecord.bytes.toList)] ++
      historyPreimages [(alice, mintedRecord.bytes.toList)],
      LoneString alice mintedRecord.bytes.toList x := by
    intro x hx
    rcases List.mem_append.mp hx with hx | hx <;> exact lone_history (by decide +kernel) x hx
  have hregistry : ∀ x ∈ historyPreimages [(usd.key, usd.serialize)] ++ historyPreimages [(usd.key, usd.serialize)],
      LoneString usd.key usd.serialize x := by
    intro x hx
    rcases List.mem_append.mp hx with hx | hx <;>
      exact lone_history (List.isEmpty_eq_false_iff.mp usd.isEmpty_serialize) x hx
  refine (header_roots_commit NativeTraceExecutor.trace NativeTraceExecutor.trace sampleConfig otherConfig
    usdEarly usdLate 1000 1000 1500 9000 h h' hh hh' ?_ ?_ ?_ ?_).2.2 usdMint
  · rw [hputs, hputs']
    exact lone_noCollision alice mintedRecord_digest haccounts
  · rw [registryPuts_usdEarly, registryPuts_usdLate]
    exact lone_noCollision usd.key usd_digest hregistry
  · rw [newStateRoot_eq hh, newStateRoot_eq hh', hputs, hputs']
  · rw [issuerRegistryRoot_eq hh, issuerRegistryRoot_eq hh', registryPuts_usdEarly, registryPuts_usdLate]

end Sample

end PslBank.LightClient
