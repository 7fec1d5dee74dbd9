import PslBank.Lib.Text
import PslBank.Lib.Encoding
import PslBank.Sequencer.Run

/-!
# The issuer registry of a node

`sequencer/src/issuer_registry.rs`, `register_issuer` and `lookup_issuer` of
`sequencer/src/node.rs`, and `submit_tx` of `consensus/src/sovereign.rs`. An issuer's record is
written into the registry tree as JSON and read back for every submission. The writer is
`serde_json`'s compact form; its reader is the parameter `SerdeJson`.

A node with its registry makes the runs of `Run`, where each submission comes with a registry of its
own: the record registered last for each asset.
-/
namespace PslBank.Sequencer

open PslBank.Lib PslBank.Crypto

set_option autoImplicit false

/-! ## Records and their JSON form -/

/-- The whole record, with the fields that `validate` does not read. -/
structure FullIssuerRecord extends IssuerRecord where
  regulatorViewKeys : List PublicKey
  name : String

def quote : Char := Char.ofNat 0x22

def backslash : Char := Char.ofNat 0x5C

/-- A character inside a JSON string. -/
def jsonChar (c : Char) : Text :=
  match c.toNat with
  | 0x22 => [backslash, quote]
  | 0x5C => [backslash, backslash]
  | 0x08 => [backslash, 'b']
  | 0x09 => [backslash, 't']
  | 0x0A => [backslash, 'n']
  | 0x0C => [backslash, 'f']
  | 0x0D => [backslash, 'r']
  | n => if n < 0x20 then [backslash, 'u'] ++ hexFixed 4 n else [c]

/-- A JSON string literal with its escapes. -/
def jsonString (s : String) : Text := [quote] ++ s.toList.flatMap jsonChar ++ [quote]

def jsonNat (n : ℕ) : Text := (toString n).toList

def jsonBool (b : Bool) : Text := (toString b).toList

def jsonArray (values : List Text) : Text := ['['] ++ [','].intercalate values ++ [']']

def jsonBytes (bytes : Bytes) : Text := jsonArray (bytes.map fun b => jsonNat b.toNat)

/-- The fields in the order of the struct. -/
def jsonObject (fields : List (String × Text)) : Text :=
  '\x7b' :: ([','].intercalate (fields.map fun f => jsonString f.1 ++ [':'] ++ f.2) ++ ['\x7d'])

/-- `serde_json::from_slice(..).ok()`. -/
class SerdeJson where
  fromSlice : Bytes → Option FullIssuerRecord

namespace FullIssuerRecord

/-- `serde_json::to_vec` of the record: what the registry tree holds. -/
def serialize (r : FullIssuerRecord) : Bytes :=
  utf8 (String.ofList (jsonObject
    [("asset_id", jsonNat r.assetId.toNat),
     ("authority_pubkey", jsonBytes r.authorityPubkey.toList),
     ("max_supply", jsonBytes r.maxSupply.toList),
     ("mint_enabled", jsonBool r.mintEnabled),
     ("burn_enabled", jsonBool r.burnEnabled),
     ("freeze_enabled", jsonBool r.freezeEnabled),
     ("travel_rule_threshold", jsonBytes r.travelRuleThreshold.toList),
     ("regulator_view_keys", jsonArray (r.regulatorViewKeys.map fun k => jsonBytes k.toList)),
     ("name", jsonString r.name)]))

/-- `serde_json::from_slice`, or nothing. -/
def deserialize [SerdeJson] (bytes : Bytes) : Option FullIssuerRecord := SerdeJson.fromSlice bytes

/-- A record is not the empty value, which the tree takes as absence. -/
theorem isEmpty_serialize (r : FullIssuerRecord) : r.serialize.isEmpty = false := by
  rw [List.isEmpty_eq_false_iff]
  intro h
  have hutf8 : utf8 "" = [] := rfl
  have hempty := congrArg String.toList (utf8_injective (h.trans hutf8.symm))
  rw [String.toList_ofList] at hempty
  cases hempty

end FullIssuerRecord

/-- What the key of an asset is the digest of. -/
def issuerPreimage (assetId : UInt32) : Bytes := utf8 "issuer:" ++ toLe 4 assetId.toNat

/-- Four bytes determine the asset. -/
theorem issuerPreimage_injective : Function.Injective issuerPreimage := by
  intro a b h
  have h : toLe 4 a.toNat ++ [] = toLe 4 b.toNat ++ [] := congrArg (· ++ []) (List.append_cancel_left h)
  exact (delimiting_u32_le trivial trivial h).1

/-! ## Calls of a node -/

/-- The calls of a node with its registry tree. -/
inductive NodeCall where
  | registerIssuer (issuer : FullIssuerRecord)
  | submitTx (tx : SignedTx)
  | produceBlock (epochMs timestampMs : UInt64)

namespace NodeCall

/-- The record the call leaves for the asset. -/
def registers (assetId : UInt32) : NodeCall → Option FullIssuerRecord
  | .registerIssuer issuer => if issuer.assetId = assetId then some issuer else none
  | _ => none

/-- What the call hashes for a key of the registry. -/
def preimages : NodeCall → List Bytes
  | .registerIssuer issuer => [issuerPreimage issuer.assetId]
  | .submitTx tx => [issuerPreimage tx.assetId]
  | .produceBlock _ _ => []

end NodeCall

/-- The record registered last for an asset. -/
def registered (calls : List NodeCall) (assetId : UInt32) : Option FullIssuerRecord :=
  lastGiven (NodeCall.registers assetId) calls

/-- Every string hashed into a key of the registry tree. -/
def keyPreimages (calls : List NodeCall) : List Bytes := calls.flatMap NodeCall.preimages

/-- The last call decides, if it is about the asset. -/
theorem registered_concat (calls : List NodeCall) (call : NodeCall) (assetId : UInt32) :
    registered (calls ++ [call]) assetId =
      (call.registers assetId).or (registered calls assetId) := by
  rw [registered, lastGiven, List.filterMap_append, List.getLast?_append]
  cases h : call.registers assetId <;> simp [h, registered, lastGiven]

theorem keyPreimages_concat (calls : List NodeCall) (call : NodeCall) :
    keyPreimages (calls ++ [call]) = keyPreimages calls ++ call.preimages := by
  rw [keyPreimages, List.flatMap_append, List.flatMap_singleton]
  rfl

/-- The reader gives back what was registered. -/
def ReadsBack [SerdeJson] (calls : List NodeCall) : Prop :=
  ∀ issuer, NodeCall.registerIssuer issuer ∈ calls →
    FullIssuerRecord.deserialize issuer.serialize = some issuer

theorem ReadsBack.front [SerdeJson] {calls : List NodeCall} {call : NodeCall}
    (h : ReadsBack (calls ++ [call])) : ReadsBack calls :=
  fun issuer hmem => h issuer (List.mem_append_left _ hmem)

theorem ReadsBack.last [SerdeJson] {calls : List NodeCall} {call : NodeCall}
    (h : ReadsBack (calls ++ [call])) : ReadsBack [call] :=
  fun issuer hmem => h issuer (List.mem_append_right _ hmem)

/-! ## The registry tree -/

section

variable [Blake3]

/-- The key of an asset in the registry tree. -/
def issuerKey (assetId : UInt32) : Hash := hashBytes (issuerPreimage assetId)

def FullIssuerRecord.key (r : FullIssuerRecord) : Hash := issuerKey r.assetId

namespace SequencerNode

/-- `register_issuer`: the record is stored under its own asset, whoever asks. -/
def registerIssuer (node : SequencerNode) (issuer : FullIssuerRecord) : SequencerNode :=
  { node with
    state := { node.state with registry := node.state.registry.put issuer.key issuer.serialize } }

variable [SerdeJson]

/-- `lookup_issuer`: whatever is stored under the key, if it can be read. -/
def lookupIssuer (node : SequencerNode) (assetId : UInt32) : Option FullIssuerRecord :=
  (node.state.registry.get (issuerKey assetId)).bind FullIssuerRecord.deserialize

/-- What the gate reads of the records. -/
def issuers (node : SequencerNode) : Registry := fun assetId =>
  (node.lookupIssuer assetId).map (·.toIssuerRecord)

theorem lookupIssuer_congr {node node' : SequencerNode} (h : node.state.registry = node'.state.registry)
    (assetId : UInt32) : node.lookupIssuer assetId = node'.lookupIssuer assetId := by
  rw [lookupIssuer, lookupIssuer, h]

/-- A registration is found, and it hides no other asset as long as the two keys differ. -/
theorem lookupIssuer_registerIssuer (node : SequencerNode) (issuer : FullIssuerRecord) (assetId : UInt32)
    (hread : FullIssuerRecord.deserialize issuer.serialize = some issuer)
    (hnc : NoCollision [issuerPreimage assetId, issuerPreimage issuer.assetId]) :
    (node.registerIssuer issuer).lookupIssuer assetId =
      if issuer.assetId = assetId then some issuer else node.lookupIssuer assetId := by
  have hkey : issuerKey assetId = issuer.key ↔ issuer.assetId = assetId := by
    constructor
    · intro h
      exact (issuerPreimage_injective (hnc List.mem_cons_self
        (List.mem_cons_of_mem _ List.mem_cons_self) h)).symm
    · rintro rfl
      rfl
  rw [lookupIssuer, registerIssuer, SparseMerkleTree.get_put, issuer.isEmpty_serialize]
  by_cases hid : issuer.assetId = assetId
  · rw [if_pos (hkey.mpr hid), if_pos hid]
    exact hread
  · rw [if_neg (hkey.not.mpr hid), if_neg hid]
    rfl

end SequencerNode

/-- Executions write to the account tree alone. -/
theorem registry_writeBack (s : State) (res : TraceResult) : (writeBack s res).registry = s.registry := by
  have hfold : ∀ (accounts : List Account) (s : State),
      (accounts.foldl State.putAccount s).registry = s.registry := by
    intro accounts
    induction accounts with
    | nil => exact fun _ => rfl
    | cons a accounts ih => exact fun s => ih (s.putAccount a)
  rw [writeBack]
  split
  · exact hfold _ s
  · rfl

/-- So does the loop over a batch. -/
theorem registry_executeTxs (epoch : UInt32) (trace : TraceExecutor) (s : State) (txs : List SignedTx) :
    (executeTxs epoch trace s txs).state.registry = s.registry := by
  induction txs generalizing trace s with
  | nil => rfl
  | cons tx txs ih =>
    cases hx : executeTx (trace 0) s tx epoch with
    | error e => rw [executeTxs, hx]
    | ok x =>
      obtain ⟨w, -, -, heq⟩ := executeTx_ok hx
      have hafter : x.after = writeBack s x.res := congrArg Exec.after heq
      rw [executeTxs, hx]
      show (executeTxs epoch (trace.after 1) x.after txs).state.registry = s.registry
      rw [ih, hafter, registry_writeBack]

variable [Ed25519]

/-- A block leaves the registry tree as it is. -/
theorem registry_produceBlock (node : SequencerNode) (e t : UInt64) :
    (node.produceBlock e t).node.state.registry = node.state.registry := by
  rw [(node.produceBlock_effect e t).2.1]
  exact registry_executeTxs _ _ _ _

/-- The gate reads the registry at one asset. -/
theorem Run.step_ingress_congr (r : Run) {tx : SignedTx} {registry registry' : Registry}
    (h : registry tx.assetId = registry' tx.assetId) :
    r.step (.ingress tx registry) = r.step (.ingress tx registry') := by
  have hgate : r.node.mempool.ingress tx r.node.state registry =
      r.node.mempool.ingress tx r.node.state registry' := by
    unfold Mempool.ingress validate
    rw [h]
  simp only [Run.step, hgate]

theorem Run.state_ingress (r : Run) (tx : SignedTx) (registry : Registry) :
    (r.step (.ingress tx registry)).node.state = r.node.state := by
  cases h : r.node.mempool.ingress tx r.node.state registry <;> simp only [Run.step, h]

end

/-! ## Runs of a node -/

section

variable [Blake3] [Ed25519] [SerdeJson]

/-- `Sovereign::submit_tx`. -/
def submitTx (node : SequencerNode) (tx : SignedTx) : Except String SequencerNode := do
  let mempool ← node.mempool.ingress tx node.state node.issuers
  return { node with mempool := mempool }

namespace Run

/-- A call of the node on a run, each submission against the registry of its own moment. -/
def nodeStep (r : Run) : NodeCall → Run
  | .registerIssuer issuer => { r with node := r.node.registerIssuer issuer }
  | .submitTx tx =>
      match submitTx r.node tx with
      | .error _ => r
      | .ok node => { r with node := node, admitted := r.admitted ++ [tx] }
  | .produceBlock epochMs timestampMs =>
      let out := r.node.produceBlock epochMs timestampMs
      { r with
        node := out.node
        executed := r.executed ++ out.executed
        headers := r.headers ++ out.header.toList }

/-- The run that `calls` make on a fresh node with some executor. -/
def ofNodeCalls (trace : TraceExecutor) (cfg : Config) (calls : List NodeCall) : Run :=
  run nodeStep (startWith trace cfg) calls

theorem ofNodeCalls_concat (trace : TraceExecutor) (cfg : Config) (calls : List NodeCall) (call : NodeCall) :
    ofNodeCalls trace cfg (calls ++ [call]) = (ofNodeCalls trace cfg calls).nodeStep call := run_append _ _ _

/-- A submission to a node is one of `Run` with the records of the moment. -/
theorem nodeStep_submitTx (r : Run) (tx : SignedTx) :
    r.nodeStep (.submitTx tx) = r.step (.ingress tx r.node.issuers) := by
  cases h : r.node.mempool.ingress tx r.node.state r.node.issuers with
  | error e => simp only [nodeStep, submitTx, step, h, bind, Except.bind]
  | ok mempool => simp only [nodeStep, submitTx, step, h, bind, Except.bind, pure, Except.pure]

/-- One call moves the registry as it moves the map. -/
theorem lookupIssuer_nodeStep (r : Run) (call : NodeCall) (assetId : UInt32) (hread : ReadsBack [call])
    (hnc : NoCollision (issuerPreimage assetId :: call.preimages)) :
    (r.nodeStep call).node.lookupIssuer assetId =
      (call.registers assetId).or (r.node.lookupIssuer assetId) := by
  cases call with
  | registerIssuer issuer =>
    show (r.node.registerIssuer issuer).lookupIssuer assetId = _
    rw [r.node.lookupIssuer_registerIssuer issuer assetId (hread issuer List.mem_cons_self) hnc,
      NodeCall.registers]
    split <;> rfl
  | submitTx tx =>
    rw [nodeStep_submitTx]
    exact SequencerNode.lookupIssuer_congr (congrArg State.registry (state_ingress r tx _)) assetId
  | produceBlock e t => exact SequencerNode.lookupIssuer_congr (registry_produceBlock r.node e t) assetId

/-- After any calls a node finds the record registered last. -/
theorem lookupIssuer_ofNodeCalls (trace : TraceExecutor) (cfg : Config) (calls : List NodeCall)
    (hread : ReadsBack calls) (assetId : UInt32)
    (hnc : NoCollision (issuerPreimage assetId :: keyPreimages calls)) :
    (ofNodeCalls trace cfg calls).node.lookupIssuer assetId = registered calls assetId := by
  induction calls using List.reverseRecOn with
  | nil => rfl
  | append_singleton calls call ih =>
    rw [keyPreimages_concat] at hnc
    rw [ofNodeCalls_concat, lookupIssuer_nodeStep _ call assetId hread.last
      (hnc.mono (List.cons_subset_cons _ (List.subset_append_right _ _))), registered_concat,
      ih hread.front (hnc.mono (List.cons_subset_cons _ (List.subset_append_left _ _)))]

end Run

end

/-! ## Without the registry tree

What a run leaves behind apart from the registry tree and what its root goes into: the parent hash and
the signature of a header. -/

/-- A header without what depends on the registry tree: its root, the signature over it and the
link to the header before. -/
def BlockHeader.bare (h : BlockHeader) : BlockHeader :=
  { h with
    parentHash := zeroHash
    issuerRegistryRoot := zeroHash
    sequencerSig := List.Vector.replicate 64 0 }

section

variable [Blake3]

/-- The state with an empty registry tree. -/
def State.bare (s : State) : State := { s with registry := SparseMerkleTree.new }

def Exec.bare (x : Exec) : Exec := { x with before := x.before.bare, after := x.after.bare }

def LoopResult.bare (l : LoopResult) : LoopResult :=
  { l with state := l.state.bare, executed := l.executed.map Exec.bare }

/-- The node with both, and so on for what is made of them. -/
def SequencerNode.bare (node : SequencerNode) : SequencerNode :=
  { node with state := node.state.bare, lastHeader := node.lastHeader.map BlockHeader.bare }

def Run.bare (r : Run) : Run :=
  { r with
    node := r.node.bare
    executed := r.executed.map Exec.bare
    headers := r.headers.map BlockHeader.bare }

theorem writeBack_bare (s : State) (res : TraceResult) : writeBack s.bare res = (writeBack s res).bare := by
  have hfold : ∀ (accounts : List Account) (s : State),
      accounts.foldl State.putAccount s.bare = (accounts.foldl State.putAccount s).bare := by
    intro accounts
    induction accounts with
    | nil => exact fun _ => rfl
    | cons a accounts ih => exact fun s => ih (s.putAccount a)
  rw [writeBack, writeBack]
  split
  · exact hfold _ s
  · rfl

theorem assembleWitness_bare (s : State) (tx : SignedTx) (epoch : UInt32) :
    assembleWitness s.bare tx epoch = assembleWitness s tx epoch := rfl

/-- No executor sees the registry tree. -/
theorem executeTx_bare (execute : Execute) (s : State) (tx : SignedTx) (epoch : UInt32) :
    executeTx execute s.bare tx epoch = (executeTx execute s tx epoch).map Exec.bare := by
  rw [executeTx, executeTx, assembleWitness_bare]
  cases assembleWitness s tx epoch with
  | error e => rfl
  | ok w =>
    show (execute tx w >>= _) = (execute tx w >>= _).map Exec.bare
    cases execute tx w with
    | error e => rfl
    | ok res =>
      show Except.ok (⟨tx, epoch, s.bare, res, writeBack s.bare res⟩ : Exec) = _
      rw [writeBack_bare]
      rfl

/-- Nor does a batch. -/
theorem executeTxs_bare (epoch : UInt32) (trace : TraceExecutor) (s : State) (txs : List SignedTx) :
    executeTxs epoch trace s.bare txs = (executeTxs epoch trace s txs).bare := by
  induction txs generalizing trace s with
  | nil => rfl
  | cons tx txs ih =>
    rw [executeTxs, executeTxs, executeTx_bare]
    cases executeTx (trace 0) s tx epoch with
    | error e => rfl
    | ok x =>
      have hrest := ih (trace.after 1) x.after
      exact congrArg (fun rest : LoopResult =>
        LoopResult.mk rest.state (x.bare :: rest.executed) rest.error) hrest

namespace SequencerNode

theorem loop_bare (node : SequencerNode) (e : UInt64) : node.bare.loop e = (node.loop e).bare :=
  executeTxs_bare _ _ _ _

variable [Ed25519]

/-- The next header differs in the bare parts only. -/
theorem nextHeader_bare (node : SequencerNode) (e t : UInt64) :
    (node.bare.nextHeader e t).bare = (node.nextHeader e t).bare := by
  have hblockN : (node.bare.nextHeader e t).blockN = (node.nextHeader e t).blockN := by
    unfold nextHeader bare
    cases node.lastHeader <;> rfl
  have htraces : (node.bare.nextHeader e t).traceHash = (node.nextHeader e t).traceHash := by
    show combinedTraceHash ((node.bare.loop e).executed.map (·.res.traceHash)) =
      combinedTraceHash ((node.loop e).executed.map (·.res.traceHash))
    rw [loop_bare]
    exact congrArg combinedTraceHash List.map_map
  have hroot : (node.bare.nextHeader e t).newStateRoot = (node.nextHeader e t).newStateRoot := by
    show (node.bare.loop e).state.accountsRoot = (node.loop e).state.accountsRoot
    rw [loop_bare]
    rfl
  unfold BlockHeader.bare
  rw [BlockHeader.mk.injEq]
  exact ⟨hblockN, rfl, rfl, rfl, htraces, hroot, rfl, rfl, rfl, rfl⟩

/-- A block does the same with any registry tree. -/
theorem produceBlock_bare (node : SequencerNode) (e t : UInt64) :
    (node.bare.produceBlock e t).node.bare = (node.produceBlock e t).node.bare ∧
      (node.bare.produceBlock e t).executed = (node.produceBlock e t).executed.map Exec.bare ∧
      (node.bare.produceBlock e t).header.map BlockHeader.bare =
        (node.produceBlock e t).header.map BlockHeader.bare := by
  have hbare : node.bare.bare = node.bare := by
    unfold bare
    cases node.lastHeader <;> rfl
  by_cases hb : node.batch = []
  · have hb' : node.bare.batch = [] := hb
    rw [produceBlock_nil hb, produceBlock_nil hb']
    exact ⟨hbare, rfl, rfl⟩
  · have hb' : node.bare.batch ≠ [] := hb
    cases hl : (node.loop e).error with
    | some err =>
      have hl' : (node.bare.loop e).error = some err := by
        rw [loop_bare]
        exact hl
      rw [produceBlock_error t hb hl, produceBlock_error t hb' hl', loop_bare]
      refine ⟨?_, rfl, rfl⟩
      unfold bare
      cases node.lastHeader <;> rfl
    | none =>
      have hl' : (node.bare.loop e).error = none := by
        rw [loop_bare]
        exact hl
      have hheader := nextHeader_bare node e t
      rw [produceBlock_ok t hb hl, produceBlock_ok t hb' hl', loop_bare]
      refine ⟨?_, rfl, congrArg some hheader⟩
      show SequencerNode.mk _ _ _ _ _ (some (node.bare.nextHeader e t).bare) = _
      rw [hheader]
      rfl

end SequencerNode

theorem map_bare_bare (xs : List Exec) : (xs.map Exec.bare).map Exec.bare = xs.map Exec.bare := List.map_map

variable [Ed25519]

namespace Run

/-- One call of the run model does the same to the bare run. -/
theorem step_bare (r : Run) (call : Call) : (r.bare.step call).bare = (r.step call).bare := by
  have hidem : r.bare.bare = r.bare := by
    unfold bare SequencerNode.bare
    cases r.node.lastHeader <;> simp only [List.map_map] <;> rfl
  cases call with
  | ingress tx registry =>
    have hgate : r.bare.node.mempool.ingress tx r.bare.node.state registry =
        r.node.mempool.ingress tx r.node.state registry := rfl
    cases h : r.node.mempool.ingress tx r.node.state registry with
    | error e =>
      simp only [step, hgate, h]
      exact hidem
    | ok mempool =>
      simp only [step, hgate, h]
      exact congrArg (fun q : Run =>
        { q with node := { q.node with mempool := mempool }, admitted := r.admitted ++ [tx] }) hidem
  | produceBlock e t =>
    obtain ⟨hnode, hexecuted, hheader⟩ := r.node.produceBlock_bare e t
    have hlist : (r.node.bare.produceBlock e t).header.toList.map BlockHeader.bare =
        (r.node.produceBlock e t).header.toList.map BlockHeader.bare := by
      rw [← Option.toList_map, hheader, Option.toList_map]
    show Run.mk (r.node.bare.produceBlock e t).node.bare r.admitted
        ((r.executed.map Exec.bare ++ (r.node.bare.produceBlock e t).executed).map Exec.bare)
        ((r.headers.map BlockHeader.bare ++ (r.node.bare.produceBlock e t).header.toList).map
          BlockHeader.bare) = _
    rw [hnode, hexecuted, List.map_append, List.map_append, map_bare_bare, map_bare_bare, hlist,
      List.map_map]
    unfold bare
    rw [step, List.map_append, List.map_append]
    rfl

/-- Runs that differ in the registry tree alone stay so under one call. -/
theorem step_congr {r q : Run} (h : r.bare = q.bare) (call : Call) : (r.step call).bare = (q.step call).bare := by
  rw [← r.step_bare, ← q.step_bare, h]

end Run

end

/-! ## The calls with registries of their own -/

/-- The registry as `validate` reads it: the record registered last. -/
def registryAfter (calls : List NodeCall) : Registry := fun assetId =>
  (registered calls assetId).map (·.toIssuerRecord)

/-- The call of `Run` that a call of a node makes after others, if any. -/
def NodeCall.plain (before : List NodeCall) : NodeCall → List Call
  | .registerIssuer _ => []
  | .submitTx tx => [.ingress tx (registryAfter before)]
  | .produceBlock epochMs timestampMs => [.produceBlock epochMs timestampMs]

/-- The calls as the run model takes them. -/
def plainCalls : List NodeCall → List NodeCall → List Call
  | _, [] => []
  | before, call :: calls => call.plain before ++ plainCalls (before ++ [call]) calls

theorem plainCalls_concat (before calls : List NodeCall) (call : NodeCall) :
    plainCalls before (calls ++ [call]) = plainCalls before calls ++ call.plain (before ++ calls) := by
  induction calls generalizing before with
  | nil => simp [plainCalls]
  | cons c calls ih => rw [List.cons_append, plainCalls, plainCalls, ih, List.append_assoc, List.append_assoc,
      List.singleton_append]

section

variable [Blake3] [Ed25519] [SerdeJson]

/-- A node with its registry runs as `Run` does with the records registered last: the same queue,
accounts, executions and results, and the same headers but for what the registry's root goes into. -/
theorem issuer_registry_refines (trace : TraceExecutor) (cfg : Config) (calls : List NodeCall)
    (hread : ReadsBack calls) (hnc : NoCollision (keyPreimages calls)) :
    (Run.ofNodeCalls trace cfg calls).bare = (Run.ofCallsWith trace cfg (plainCalls [] calls)).bare ∧
      ∀ assetId, NoCollision (issuerPreimage assetId :: keyPreimages calls) →
        (Run.ofNodeCalls trace cfg calls).node.lookupIssuer assetId = registered calls assetId := by
  refine ⟨?_, fun assetId => Run.lookupIssuer_ofNodeCalls trace cfg calls hread assetId⟩
  induction calls using List.reverseRecOn with
  | nil => rfl
  | append_singleton calls call ih =>
    rw [keyPreimages_concat] at hnc
    have ih := ih hread.front (hnc.mono (List.subset_append_left _ _))
    rw [Run.ofNodeCalls_concat, plainCalls_concat, List.nil_append]
    show _ = (run Run.step (Run.startWith trace cfg) (plainCalls [] calls ++ call.plain calls)).bare
    rw [run_append]
    cases call with
    | registerIssuer issuer => exact ih
    | produceBlock e t => exact Run.step_congr ih (.produceBlock e t)
    | submitTx tx =>
      -- the gate finds the record registered last before the submission
      have hlookup := Run.lookupIssuer_ofNodeCalls trace cfg calls hread.front tx.assetId
        (hnc.mono fun x hx => by
          rcases List.mem_cons.mp hx with rfl | hx
          · exact List.mem_append_right _ List.mem_cons_self
          · exact List.mem_append_left _ hx)
      have hregistry : (Run.ofNodeCalls trace cfg calls).node.issuers tx.assetId = registryAfter calls tx.assetId := by
        rw [SequencerNode.issuers, hlookup]
        rfl
      rw [Run.nodeStep_submitTx, Run.step_ingress_congr _ hregistry]
      exact Run.step_congr ih (.ingress tx (registryAfter calls))

end

/-! One asset, its first unit minted by its issuer. -/

section Sample

def usd : FullIssuerRecord where
  toIssuerRecord := ⟨1, issuer, amountOfNat 0, true, true, true, amountOfNat 1000⟩
  regulatorViewKeys := []
  name := "USD-DEMO"

/-- A reader of the one text that is written here. -/
def readUsd (bytes : Bytes) : Option FullIssuerRecord := if bytes = usd.serialize then some usd else none

theorem readUsd_serialize : readUsd usd.serialize = some usd := by rw [readUsd, if_pos rfl]

abbrev usdReader : SerdeJson := ⟨readUsd⟩

attribute [local instance] sampleBlake3 sampleEd25519 usdReader

def usdMint : SignedTx := sampleTx .mint 1 1 issuer (some alice) 10 0

def usdCalls : List NodeCall := [.registerIssuer usd, .submitTx usdMint, .produceBlock 1000 1000]

theorem readsBack_usdCalls : ReadsBack usdCalls := by
  intro issuer h
  have hread : FullIssuerRecord.deserialize = readUsd := rfl
  have hissuer : issuer = usd := by simpa [usdCalls] using h
  rw [hissuer, hread, readUsd_serialize]

theorem noCollision_usdCalls : NoCollision (keyPreimages usdCalls) := by
  have hone : ∀ x ∈ keyPreimages usdCalls, x = issuerPreimage 1 := by
    intro x hx
    simpa [usdCalls, keyPreimages, NodeCall.preimages, usd, usdMint, sampleTx] using hx
  intro x hx y hy _
  rw [hone x hx, hone y hy]

theorem length_executed_usd :
    (Run.ofNodeCalls NativeTraceExecutor.trace sampleConfig usdCalls).executed.length = 1 := by
  decide +kernel

theorem issuer_registry_refines_usd :
    (Run.ofNodeCalls NativeTraceExecutor.trace sampleConfig usdCalls).bare =
      (Run.ofCalls sampleConfig [.ingress usdMint (registryAfter [.registerIssuer usd]),
        .produceBlock 1000 1000]).bare ∧
    (Run.ofNodeCalls NativeTraceExecutor.trace sampleConfig usdCalls).executed.length = 1 :=
  ⟨(issuer_registry_refines NativeTraceExecutor.trace sampleConfig usdCalls readsBack_usdCalls
    noCollision_usdCalls).1, length_executed_usd⟩

end Sample

/-! ## Whose transactions are executed -/

/-- What a record lets through. -/
structure Authorized [Ed25519] (tx : SignedTx) (issuer : IssuerRecord) : Prop where
  signed : verify tx.signer tx.canonical tx.signature = .ok ()
  mint : tx.kind = .mint → tx.signer = issuer.authorityPubkey ∧ issuer.mintEnabled = true
  burn : tx.kind = .burn → tx.signer = issuer.authorityPubkey ∧ issuer.burnEnabled = true
  freeze : tx.kind = .freeze → tx.signer = issuer.authorityPubkey ∧ issuer.freezeEnabled = true ∧
    tx.courtOrderHash.isSome = true
  metadata : tx.kind = .transfer ∨ tx.kind = .multiAsset →
    leNat issuer.travelRuleThreshold.toList = 0 ∨ leNat issuer.travelRuleThreshold.toList < tx.value →
    tx.originatorMetadata.isSome = true

/-- The transaction was submitted under a record that lets it through. -/
def SubmittedUnder [Ed25519] (calls : List NodeCall) (tx : SignedTx) : Prop :=
  ∃ before after issuer, calls = before ++ NodeCall.submitTx tx :: after ∧
    registered before tx.assetId = some issuer ∧ Authorized tx issuer.toIssuerRecord

/-- A later call does not undo a submission. -/
theorem SubmittedUnder.concat [Ed25519] {calls : List NodeCall} {tx : SignedTx} (h : SubmittedUnder calls tx)
    (call : NodeCall) : SubmittedUnder (calls ++ [call]) tx := by
  obtain ⟨before, after, issuer, rfl, hissuer⟩ := h
  exact ⟨before, after ++ [call], issuer, by simp, hissuer⟩

theorem authority_passes {signer key : PublicKey} {enabled : Bool}
    (h : ¬ (signer != key || !enabled) = true) : signer = key ∧ enabled = true := by
  simpa using h

/-- A transaction that passes the checks is authorized by the record it was checked against. -/
theorem authorized_of_validate [Ed25519] {tx : SignedTx} {s : State} {registry : Registry}
    (h : validate tx s registry = .ok ()) :
    ∃ issuer, registry tx.assetId = some issuer ∧ Authorized tx issuer := by
  obtain ⟨hsigned, -, issuer, hissuer, hauthority, htravel⟩ := validate_ok h
  refine ⟨issuer, hissuer, hsigned, ?_, ?_, ?_, ?_⟩
  · intro hkind
    simp only [validateAuthority, hkind] at hauthority
    split at hauthority
    · cases hauthority
    · rename_i hkey
      exact authority_passes hkey
  · intro hkind
    simp only [validateAuthority, hkind] at hauthority
    split at hauthority
    · cases hauthority
    · rename_i hkey
      exact authority_passes hkey
  · intro hkind
    simp only [validateAuthority, hkind] at hauthority
    split at hauthority
    · cases hauthority
    · rename_i hkey
      obtain ⟨hsigner, henabled⟩ := authority_passes hkey
      split at hauthority
      · cases hauthority
      · rename_i hcourt
        exact ⟨hsigner, henabled, Option.isSome_iff_ne_none.mpr fun h => hcourt (by rw [h]; rfl)⟩
  · intro hkind hthreshold
    by_contra hno
    rw [validateTravelRule, if_pos ⟨hkind, hthreshold, by simpa using hno⟩] at htravel
    cases htravel

section

variable [Blake3]

/-- Only transactions of the batch are executed. -/
theorem mem_of_executed {epoch : UInt32} {trace : TraceExecutor} {s : State} {txs : List SignedTx} {x : Exec}
    (h : x ∈ (executeTxs epoch trace s txs).executed) : x.tx ∈ txs := by
  induction txs generalizing trace s with
  | nil => cases h
  | cons tx txs ih =>
    rw [executeTxs] at h
    cases hx : executeTx (trace 0) s tx epoch with
    | error e =>
      rw [hx] at h
      cases h
    | ok y =>
      rw [hx] at h
      rcases List.mem_cons.mp h with rfl | h
      · rw [(executeTx_before hx).1]
        exact List.mem_cons_self
      · exact List.mem_cons_of_mem _ (ih h)

variable [Ed25519] [SerdeJson]

/-- Every executed transaction was submitted while the record registered last for its asset let it
through; what is registered between the submission and the block has no say. -/
theorem executed_under_authority (trace : TraceExecutor) (cfg : Config) (calls : List NodeCall)
    (hread : ReadsBack calls) (hnc : NoCollision (keyPreimages calls)) :
    ∀ x ∈ (Run.ofNodeCalls trace cfg calls).executed, ∃ before after issuer,
      calls = before ++ NodeCall.submitTx x.tx :: after ∧
      registered before x.tx.assetId = some issuer ∧ Authorized x.tx issuer.toIssuerRecord := by
  suffices hinv : (∀ tx ∈ (Run.ofNodeCalls trace cfg calls).node.mempool.queue, SubmittedUnder calls tx) ∧
      ∀ x ∈ (Run.ofNodeCalls trace cfg calls).executed, SubmittedUnder calls x.tx from hinv.2
  induction calls using List.reverseRecOn with
  | nil => exact ⟨fun _ h => absurd h List.not_mem_nil, fun _ h => absurd h List.not_mem_nil⟩
  | append_singleton calls call ih =>
    rw [keyPreimages_concat] at hnc
    obtain ⟨hqueue, hexecuted⟩ := ih hread.front (hnc.mono (List.subset_append_left _ _))
    have hqueue := fun tx htx => (hqueue tx htx).concat call
    have hexecuted := fun x hx => (hexecuted x hx).concat call
    rw [Run.ofNodeCalls_concat]
    generalize hr : Run.ofNodeCalls trace cfg calls = r at hqueue hexecuted ⊢
    cases call with
    | registerIssuer issuer => exact ⟨hqueue, hexecuted⟩
    | submitTx tx =>
      rw [Run.nodeStep_submitTx]
      cases h : r.node.mempool.ingress tx r.node.state r.node.issuers with
      | error e =>
        simp only [Run.step, h]
        exact ⟨hqueue, hexecuted⟩
      | ok mempool =>
        obtain ⟨hv, rfl⟩ := Mempool.ingress_ok h
        simp only [Run.step, h]
        refine ⟨fun tx' htx' => ?_, hexecuted⟩
        rcases List.mem_append.mp htx' with htx' | htx'
        · exact hqueue tx' htx'
        · rw [List.mem_singleton] at htx'
          subst htx'
          obtain ⟨issuer, hissuer, hauthorized⟩ := authorized_of_validate hv
          have hlookup := Run.lookupIssuer_ofNodeCalls trace cfg calls hread.front tx'.assetId
            (hnc.mono fun x hx => by
              rcases List.mem_cons.mp hx with rfl | hx
              · exact List.mem_append_right _ List.mem_cons_self
              · exact List.mem_append_left _ hx)
          rw [SequencerNode.issuers, ← hr, hlookup] at hissuer
          obtain ⟨full, hfull, rfl⟩ := Option.map_eq_some_iff.mp hissuer
          exact ⟨calls, [], full, rfl, hfull, hauthorized⟩
    | produceBlock e t =>
      obtain ⟨hrest, -, hpasses⟩ := r.node.produceBlock_effect e t
      have hsplit := r.node.batch_append_unbatched
      constructor
      · intro tx htx
        have htx : tx ∈ r.node.unbatched := hrest ▸ htx
        exact hqueue tx (hsplit ▸ List.mem_append_right _ htx)
      · intro x hx
        rcases List.mem_append.mp hx with hx | hx
        · exact hexecuted x hx
        · rw [hpasses] at hx
          exact hqueue x.tx (hsplit ▸ List.mem_append_left _ (mem_of_executed hx))

end

section Sample

attribute [local instance] sampleBlake3 sampleEd25519 usdReader

/-- The mint that the usd run executes was submitted under the usd record. -/
theorem executed_under_authority_usd :
    ∃ x ∈ (Run.ofNodeCalls NativeTraceExecutor.trace sampleConfig usdCalls).executed, ∃ before after issuer,
      usdCalls = before ++ NodeCall.submitTx x.tx :: after ∧
      registered before x.tx.assetId = some issuer ∧ Authorized x.tx issuer.toIssuerRecord := by
  have hpos : 0 < (Run.ofNodeCalls NativeTraceExecutor.trace sampleConfig usdCalls).executed.length := by
    rw [length_executed_usd]
    exact Nat.one_pos
  obtain ⟨x, hx⟩ := List.exists_mem_of_length_pos hpos
  have hall := executed_under_authority NativeTraceExecutor.trace sampleConfig usdCalls readsBack_usdCalls
    noCollision_usdCalls
  exact ⟨x, hx, hall x hx⟩

end Sample

end PslBank.Sequencer
