import PslBank.Lib.Encoding
import PslBank.LightClient.Verify
import PslBank.Sequencer.Blocks

/-!
# Light client and sequencer

The sequencer signs headers over one layout and the light client checks them over its
own copy of it. `ofBlock` is the copy field by field; the two agree on the signed bytes
and on the hash. In a run without failed blocks the headers are linked, signed and in
step with the account tree, so the client accepts them with the balances of the live
state.

The client follows the hash link alone. State roots and block numbers continue because
the sequencer that signs the headers makes them continue.
-/
namespace PslBank.LightClient

open PslBank.Lib PslBank.Crypto PslBank.Sequencer

set_option autoImplicit false

/-- A produced header, field by field. -/
def ofBlock (b : BlockHeader) : SignedHeader where
  header :=
    { blockN := b.blockN
      parentHash := b.parentHash
      prevStateRoot := b.prevStateRoot
      txListHash := b.txListHash
      traceHash := b.traceHash
      newStateRoot := b.newStateRoot
      issuerRegistryRoot := b.issuerRegistryRoot
      timestampMs := b.timestampMs
      sequencerPubkey := b.sequencerPubkey }
  signature := b.sequencerSig

theorem signingBytes_ofBlock (b : BlockHeader) : (ofBlock b).header.signingBytes = b.signingBytes := rfl

/-- What `header_hash` hashes. -/
def hashedBytes (b : BlockHeader) : Bytes := b.signingBytes ++ b.sequencerSig.toList

/-- All fields have fixed widths, so the hashed bytes determine the header. -/
theorem hashedBytes_injective : Function.Injective hashedBytes := by
  intro b c h
  simp only [hashedBytes, BlockHeader.signingBytes, List.append_assoc] at h
  obtain ⟨hn, h⟩ := delimiting_u64_le trivial trivial h
  obtain ⟨hparent, h⟩ := delimiting_array 32 trivial trivial h
  obtain ⟨hprev, h⟩ := delimiting_array 32 trivial trivial h
  obtain ⟨htxs, h⟩ := delimiting_array 32 trivial trivial h
  obtain ⟨htrace, h⟩ := delimiting_array 32 trivial trivial h
  obtain ⟨hnew, h⟩ := delimiting_array 32 trivial trivial h
  obtain ⟨hissuer, h⟩ := delimiting_array 32 trivial trivial h
  obtain ⟨htime, h⟩ := delimiting_u64_le trivial trivial h
  obtain ⟨hkey, h⟩ := delimiting_array 32 trivial trivial h
  have hsig : b.sequencerSig = c.sequencerSig := Subtype.ext h
  cases b
  cases c
  simp_all

/-! ## The writes of a run -/

/-- The puts that one pass makes on the account tree. -/
def execPuts (x : Exec) : List (Hash × Bytes) :=
  if x.res.success then x.res.updatedAccounts.map fun a => (a.pubkey, a.bytes.toList) else []

/-- The puts of all passes, in order. -/
def runPuts (executed : List Exec) : List (Hash × Bytes) := executed.flatMap execPuts

section

variable [Blake3]

theorem headerHash_eq (b : BlockHeader) : b.headerHash = Blake3.digest (hashedBytes b) := rfl

theorem fullHash_ofBlock (b : BlockHeader) : (ofBlock b).fullHash = b.headerHash := rfl

theorem putAll_append (t : SparseMerkleTree) (xs ys : List (Hash × Bytes)) :
    t.putAll (xs ++ ys) = (t.putAll xs).putAll ys :=
  List.foldl_append

theorem accounts_writeBack (s : State) (x : Exec) (hx : x.after = writeBack s x.res) :
    x.after.accounts = s.accounts.putAll (execPuts x) := by
  have hfold : ∀ (accounts : List Account) (s : State),
      (accounts.foldl State.putAccount s).accounts =
        s.accounts.putAll (accounts.map fun a => (a.pubkey, a.bytes.toList)) := by
    intro accounts
    induction accounts with
    | nil => exact fun _ => rfl
    | cons a accounts ih => exact fun s => ih (s.putAccount a)
  rw [hx, execPuts, writeBack]
  by_cases hs : x.res.success = true
  · rw [if_pos hs, if_pos hs]
    exact hfold _ s
  · rw [if_neg hs, if_neg hs]
    rfl

variable [Ed25519]

/-- The account tree is the tree after the puts of the run, whatever the executor. -/
theorem accounts_eq_putAll (trace : TraceExecutor) (cfg : Config) (calls : List Call) :
    (Run.ofCallsWith trace cfg calls).node.state.accounts =
      SparseMerkleTree.new.putAll (runPuts (Run.ofCallsWith trace cfg calls).executed) := by
  have hall : Meets Run.step (Run.guard (fun _ _ => True) fun _ _ _ => True) (Run.startWith trace cfg)
      calls := by
    refine Meets.of_forall (fun r call => ?_) _ _
    cases call with
    | ingress tx registry => exact fun _ => trivial
    | produceBlock e t => exact Meets.of_forall (fun _ _ => trivial) _ _
  refine journal_invariant (fun _ => True)
    (fun j => j.state.accounts = SparseMerkleTree.new.putAll (runPuts j.executed))
    (fun _ _ _ _ _ hj => hj) (fun epoch execute j tx p x _ hp hx _ hj => ?_) (fun _ _ _ _ hj => hj) rfl
    (fun _ => trivial) hall
  obtain ⟨w, -, -, heq⟩ := executeTx_ok hx
  have hafter : x.after = writeBack j.state x.res := congrArg Exec.after heq
  show x.after.accounts = SparseMerkleTree.new.putAll (runPuts (j.executed ++ [x]))
  rw [accounts_writeBack j.state x hafter, hj, runPuts, runPuts, List.flatMap_append,
    List.flatMap_singleton, putAll_append]

/-! ## Runs without failed blocks -/

/-- No call of `produce_block` fails. -/
def CallSucceeds (r : Run) : Call → Prop
  | .ingress _ _ => True
  | .produceBlock e t => (r.node.produceBlock e t).result = .ok ()

instance decidableCallSucceeds (r : Run) (call : Call) : Decidable (CallSucceeds r call) :=
  match call with
  | .ingress _ _ => .isTrue trivial
  | .produceBlock e t => inferInstanceAs (Decidable ((r.node.produceBlock e t).result = .ok ()))

theorem batchExecutes_of_succeeds {r : Run} {call : Call} (h : CallSucceeds r call) :
    BatchExecutes r call := by
  cases call with
  | ingress tx registry => trivial
  | produceBlock e t =>
    by_cases hb : r.node.batch = []
    · rw [BatchExecutes, hb]
      exact ⟨fun tx htx => (List.not_mem_nil htx).elim, trivial⟩
    · refine (executeTxs_error_iff (SequencerNode.blockEpoch e) r.node.trace r.node.state r.node.batch).mp ?_
      cases hl : (r.node.loop e).error with
      | none => exact hl
      | some err =>
        have hres : (r.node.produceBlock e t).result = .ok () := h
        rw [SequencerNode.produceBlock_error t hb hl] at hres
        cases hres

/-- What the headers of such a run have in common. -/
structure Sequenced (cfg : Config) (r : Run) : Prop where
  in_step : HeadersInStep r
  keypair : r.node.keypair = ⟨cfg.sequencerSecret⟩
  signed : ∀ b ∈ r.headers, b.sequencerPubkey = KeyPair.public ⟨cfg.sequencerSecret⟩ ∧
    b.sequencerSig = sign ⟨cfg.sequencerSecret⟩ b.signingBytes
  first : ∀ b, r.headers.head? = some b →
    b.prevStateRoot = State.new.accountsRoot ∧ b.parentHash = zeroHash
  untouched : r.headers = [] → r.node.state.accountsRoot = State.new.accountsRoot

theorem sequenced_start (trace : TraceExecutor) (cfg : Config) :
    Sequenced cfg (Run.startWith trace cfg) where
  in_step := headersInStep_start trace cfg
  keypair := rfl
  signed := fun _ hb => (List.not_mem_nil hb).elim
  first := fun _ hb => by cases hb
  untouched := fun _ => rfl

theorem Sequenced.step {cfg : Config} {r : Run} (h : Sequenced cfg r) (call : Call)
    (hcall : BatchExecutes r call) : Sequenced cfg (r.step call) := by
  have hstep := h.in_step.step call hcall
  cases call with
  | ingress tx registry =>
    cases hi : r.node.mempool.ingress tx r.node.state registry with
    | error e =>
      simp only [Run.step, hi] at hstep ⊢
      exact h
    | ok mp =>
      simp only [Run.step, hi] at hstep ⊢
      exact ⟨hstep, h.keypair, h.signed, h.first, h.untouched⟩
  | produceBlock e t =>
    by_cases hb : r.node.batch = []
    · simp only [Run.step, SequencerNode.produceBlock_nil hb, Option.toList_none,
        List.append_nil] at hstep ⊢
      exact h
    · have hl : (r.node.loop e).error = none :=
        (executeTxs_error_iff _ r.node.trace r.node.state r.node.batch).mpr hcall
      have hlast := h.in_step.last
      simp only [Run.step, SequencerNode.produceBlock_ok t hb hl, Option.toList_some] at hstep ⊢
      refine ⟨hstep, h.keypair, fun b hmem => ?_, fun b hfirst => ?_, fun hnil => ?_⟩
      · rcases List.mem_append.mp hmem with hold | hnew
        · exact h.signed b hold
        · rw [List.mem_singleton.mp hnew, ← h.keypair]
          exact ⟨rfl, rfl⟩
      · cases hh : r.headers with
        | nil =>
          rw [hh] at hfirst hlast
          obtain rfl := Option.some.inj hfirst
          refine ⟨h.untouched hh, ?_⟩
          unfold SequencerNode.nextHeader
          rw [hlast]
          rfl
        | cons c rest =>
          rw [hh] at hfirst
          exact h.first b (by rw [hh]; exact hfirst)
      · exact absurd hnil (List.append_ne_nil_of_right_ne_nil _ (List.cons_ne_nil _ _))

theorem sequenced_ofCalls {trace : TraceExecutor} {cfg : Config} {calls : List Call}
    (hok : Meets Run.step CallSucceeds (Run.startWith trace cfg) calls) :
    Sequenced cfg (Run.ofCallsWith trace cfg calls) :=
  run_invariant (Sequenced cfg) (fun _ call hc hr => hr.step call (batchExecutes_of_succeeds hc)) hok
    (sequenced_start trace cfg)

/-! ## Agreement -/

/-- The client's loop passes over the headers of such a run. -/
theorem Sequenced.acceptedChain {cfg : Config} {r : Run} (h : Sequenced cfg r)
    (hsign : KeyPair.SignsValidly ⟨cfg.sequencerSecret⟩) :
    AcceptedChain State.new.accountsRoot (KeyPair.public ⟨cfg.sequencerSecret⟩)
      (r.headers.map ofBlock) where
  anchored := by
    intro s hs
    rw [List.head?_map] at hs
    obtain ⟨b, hb, rfl⟩ := Option.map_eq_some_iff.mp hs
    exact (h.first b hb).1
  signed := by
    intro s hs
    obtain ⟨b, hb, rfl⟩ := List.mem_map.mp hs
    obtain ⟨hkey, hsig⟩ := h.signed b hb
    rw [← signingBytes_ofBlock] at hsig
    have hcopy : ofBlock b = .sign (ofBlock b).header ⟨cfg.sequencerSecret⟩ :=
      congrArg (SignedHeader.mk (ofBlock b).header) hsig
    rw [hcopy]
    exact SignedHeader.verify_sign hsign hkey
  linked := by
    refine (List.isChain_map ofBlock).mpr (h.in_step.chain.imp fun b b' hl => ?_)
    show b'.parentHash = (ofBlock b).fullHash
    rw [fullHash_ofBlock]
    exact hl.2.1

/-- The last of them commits to the live accounts. -/
theorem Sequenced.last_root {cfg : Config} {r : Run} (h : Sequenced cfg r) (hne : r.headers ≠ []) :
    ∃ head, (r.headers.map ofBlock).getLast? = some head ∧
      head.header.newStateRoot = r.node.state.accountsRoot := by
  have hlast := List.getLast?_eq_some_getLast hne
  refine ⟨ofBlock (r.headers.getLast hne), ?_, h.in_step.root _ (h.in_step.last.trans hlast)⟩
  rw [List.getLast?_map, hlast]
  rfl

omit [Blake3] [Ed25519] in
/-- Client and sequencer read the same balance out of a stored value. -/
theorem decodeBalance_accountProof (s : State) (pk : Hash) :
    decodeBalance (s.accountProof pk).value = (s.account pk).balance := by
  show decodeBalance ((s.accounts.get pk).getD []) = _
  unfold State.account decodeBalance
  cases s.accounts.get pk with
  | none => exact (Account.balance_new pk).symm
  | some bytes =>
    by_cases hlen : bytes.length = 64
    · simp only [Option.getD_some, hlen, ↓reduceDIte]
    · simp only [Option.getD_some, hlen, ↓reduceDIte, Account.balance_new]

/-- After any run without failed blocks, whatever the executor, the client accepts the headers produced so far
with the balance of the live state, for every account key. -/
theorem sequencer_light_client_agree (trace : TraceExecutor) (cfg : Config) (calls : List Call)
    (hok : Meets Run.step CallSucceeds (Run.startWith trace cfg) calls)
    (hne : (Run.ofCallsWith trace cfg calls).headers ≠ [])
    (hsign : KeyPair.SignsValidly ⟨cfg.sequencerSecret⟩)
    (hnc : NoCollision (historyPreimages (runPuts (Run.ofCallsWith trace cfg calls).executed)))
    (pk : PublicKey) :
    verifyBalance State.new.accountsRoot ((Run.ofCallsWith trace cfg calls).headers.map ofBlock)
        (Run.ofCallsWith trace cfg calls).node.keypair.public pk
        ((Run.ofCallsWith trace cfg calls).node.state.accountProof pk) =
      .ok ((Run.ofCallsWith trace cfg calls).node.state.account pk).balance := by
  have h := sequenced_ofCalls hok
  have hr := represents_history hnc _ (List.Subset.refl _)
  rw [← accounts_eq_putAll trace cfg calls] at hr
  have hproof := hr.verify_proof hnc (List.subset_append_left _ _) pk
  obtain ⟨head, hlast, hroot⟩ := h.last_root hne
  rw [h.keypair]
  refine verifyBalance_ok_iff.mpr ⟨h.acceptedChain hsign, ⟨head, hlast, ?_⟩, ?_⟩
  · rw [hroot]
    exact hproof
  · exact (decodeBalance_accountProof _ pk).symm

/-! ## Contiguity -/

/-- The two links that the client does not look at. -/
def Contiguous (h h' : SignedHeader) : Prop :=
  h'.header.prevStateRoot = h.header.newStateRoot ∧ h'.header.blockN = h.header.blockN + 1

/-- Among the headers of one run a parent hash determines the parent. -/
theorem Sequenced.linked_of_parentHash {cfg : Config} {r : Run} (h : Sequenced cfg r)
    (hnc : NoCollision (r.headers.map hashedBytes)) (hzero : ∀ b ∈ r.headers, b.headerHash ≠ zeroHash)
    {b b' : BlockHeader} (hb : b ∈ r.headers) (hb' : b' ∈ r.headers)
    (hparent : b'.parentHash = b.headerHash) : Linked b b' := by
  obtain ⟨before, after, hsplit⟩ := List.append_of_mem hb'
  rcases List.eq_nil_or_concat before with rfl | ⟨before, c, rfl⟩
  · -- the first header points at the zero hash
    have hfirst := (h.first b' (by rw [hsplit]; rfl)).2
    exact absurd (hparent.symm.trans hfirst) (hzero b hb)
  · have hc : c ∈ r.headers := by
      rw [hsplit]
      simp
    have hchain : r.headers.IsChain Linked := h.in_step.chain
    rw [hsplit, List.concat_eq_append, List.append_assoc] at hchain
    obtain ⟨hlinked, -⟩ := List.isChain_cons_cons.mp hchain.right_of_append
    have hhash : c.headerHash = b.headerHash := hlinked.2.1.symm.trans hparent
    have hbytes := hnc (List.mem_map_of_mem hc) (List.mem_map_of_mem hb) hhash
    rwa [← hashedBytes_injective hbytes]

/-- Every accepted list starts at the genesis root, is signed by the expected signer and
linked by hash. Where the signer's headers come from a run without failed blocks, it is
contiguous too. -/
theorem accepted_chain_linked (genesisRoot : Hash) (headers : List SignedHeader)
    (signer key : PublicKey) (proof : MerkleProof) (v : ℕ)
    (hok : verifyBalance genesisRoot headers signer key proof = .ok v) :
    (∃ h rest, headers = h :: rest ∧ h.header.prevStateRoot = genesisRoot) ∧
      (∀ h ∈ headers, h.verify signer = .ok ()) ∧ headers.IsChain HashLinked ∧
      ∀ trace cfg calls, Meets Run.step CallSucceeds (Run.startWith trace cfg) calls →
        NoCollision ((Run.ofCallsWith trace cfg calls).headers.map hashedBytes) →
        (∀ b ∈ (Run.ofCallsWith trace cfg calls).headers, b.headerHash ≠ zeroHash) →
        (∀ h ∈ headers, ∃ b ∈ (Run.ofCallsWith trace cfg calls).headers, h = ofBlock b) →
        headers.IsChain Contiguous := by
  obtain ⟨hchain, ⟨head, hhead, -⟩, -⟩ := verifyBalance_ok_iff.mp hok
  refine ⟨?_, hchain.signed, hchain.linked, ?_⟩
  · cases headers with
    | nil => cases hhead
    | cons h rest => exact ⟨h, rest, rfl, hchain.anchored h rfl⟩
  · intro trace cfg calls hsucceeds hnc hzero hfrom
    have hseq := sequenced_ofCalls hsucceeds
    refine hchain.linked.imp_of_mem_imp fun h h' hh hh' hlink => ?_
    obtain ⟨b, hb, rfl⟩ := hfrom h hh
    obtain ⟨b', hb', rfl⟩ := hfrom h' hh'
    have hl := hseq.linked_of_parentHash hnc hzero hb hb' hlink
    exact ⟨hl.2.2, hl.1⟩

end

section Sample

attribute [local instance] maxBlake3 sampleEd25519

/-- A block that mints ten units for Alice and one with a transfer that is refused. -/
def twoBlocks : List Call :=
  [.ingress (sampleTx .mint 1 1 issuer (some alice) 10 0) sampleRegistry,
    .produceBlock 1000 1000,
    .ingress (sampleTx .transfer 1 1 alice (some bob) 50 0) sampleRegistry,
    .produceBlock 2000 2000]

def mintedRecord : Account := ((Account.new alice).setBalance 10).setLastActive 1

theorem twoBlocks_succeed : Meets Run.step CallSucceeds (Run.start sampleConfig) twoBlocks := by
  decide +kernel

theorem twoBlocks_numbers :
    (Run.ofCalls sampleConfig twoBlocks).headers.map BlockHeader.blockN = [0, 1] := by
  decide +kernel

theorem twoBlocks_ne_nil : (Run.ofCalls sampleConfig twoBlocks).headers ≠ [] := by
  intro h
  have hn := twoBlocks_numbers
  rw [h] at hn
  cases hn

theorem twoBlocks_puts :
    runPuts (Run.ofCalls sampleConfig twoBlocks).executed = [(alice, mintedRecord.bytes.toList)] := by
  decide +kernel

theorem mintedRecord_digest : 65256 < leNat (maxDigest mintedRecord.bytes.toList).toList := by
  decide +kernel

theorem sequencer_light_client_agree_two_blocks :
    verifyBalance State.new.accountsRoot ((Run.ofCalls sampleConfig twoBlocks).headers.map ofBlock)
        (Run.ofCalls sampleConfig twoBlocks).node.keypair.public alice
        ((Run.ofCalls sampleConfig twoBlocks).node.state.accountProof alice) = .ok 10 := by
  have hnc : NoCollision (historyPreimages (runPuts (Run.ofCalls sampleConfig twoBlocks).executed)) := by
    rw [twoBlocks_puts]
    exact lone_noCollision alice mintedRecord_digest (lone_history (by decide +kernel))
  have hbalance : ((Run.ofCalls sampleConfig twoBlocks).node.state.account alice).balance = 10 := by
    decide +kernel
  have hagree := sequencer_light_client_agree NativeTraceExecutor.trace sampleConfig twoBlocks
    twoBlocks_succeed twoBlocks_ne_nil (sample_signsValidly _) hnc alice
  rw [hbalance] at hagree
  exact hagree

theorem leNat_digest_header (b : BlockHeader) :
    leNat (Blake3.digest (hashedBytes b)).toList = 304000 + b.blockN.toNat % 256 := by
  have hlen : (hashedBytes b).length = 304 := by simp [hashedBytes, BlockHeader.signingBytes]
  have hhead : (hashedBytes b).headD 0 = UInt8.ofNat b.blockN.toNat := rfl
  have hnode : ¬ (304 : ℕ) = 0 ∧ ¬ (304 : ℕ) = 64 := by omega
  have hdigest : Blake3.digest (hashedBytes b) = maxDigest (hashedBytes b) := rfl
  rw [hdigest, maxDigest, hlen, hhead, UInt8.toNat_ofNat', if_neg hnode.1, if_neg hnode.2,
    leNat_hashOfNat (by omega)]

theorem headerHash_ne_zero (b : BlockHeader) : b.headerHash ≠ zeroHash := by
  intro h
  have hn := leNat_digest_header b
  have hz : leNat zeroHash.toList = 0 := by decide
  rw [← headerHash_eq, h, hz] at hn
  omega

/-- Block numbers below 256 tell the headers of a run apart. -/
theorem noCollision_headers {headers : List BlockHeader}
    (hsmall : ∀ n ∈ headers.map BlockHeader.blockN, n < 256)
    (hnodup : (headers.map BlockHeader.blockN).Nodup) : NoCollision (headers.map hashedBytes) := by
  intro x hx y hy he
  obtain ⟨b, hb, rfl⟩ := List.mem_map.mp hx
  obtain ⟨c, hc, rfl⟩ := List.mem_map.mp hy
  have hnb : b.blockN.toNat < 256 := UInt64.lt_iff_toNat_lt.mp (hsmall _ (List.mem_map_of_mem hb))
  have hnc : c.blockN.toNat < 256 := UInt64.lt_iff_toNat_lt.mp (hsmall _ (List.mem_map_of_mem hc))
  have hb' := leNat_digest_header b
  have hc' := leNat_digest_header c
  rw [he] at hb'
  have hbc : b.blockN = c.blockN := UInt64.toNat_inj.mp (by omega)
  rw [List.inj_on_of_nodup_map hnodup hb hc hbc]

/-- A header that links by hash alone: block 7 after block 0, from another state root. -/
def gapHeader : SignedHeader :=
  .sign ⟨7, fundedHeader.fullHash, zeroHash, zeroHash, zeroHash, fundedTree.root, zeroHash, 2,
    hashOfNat 77⟩ ⟨hashOfNat 77⟩

theorem gap_accepted :
    verifyBalance SparseMerkleTree.new.root [fundedHeader, gapHeader] (hashOfNat 77) (hashOfNat 4)
        (loneProof fundedRecord.bytes.toList) = .ok 5 ∧
      ¬ [fundedHeader, gapHeader].IsChain Contiguous := by
  constructor
  · refine verifyBalance_ok_iff.mpr ⟨⟨fun h hh => ?_, fun h hh => ?_, List.isChain_pair.mpr rfl⟩,
      ⟨gapHeader, rfl, ?_⟩, by decide +kernel⟩
    · obtain rfl := Option.some.inj hh
      rfl
    · rcases List.mem_cons.mp hh with rfl | hh
      · exact SignedHeader.verify_sign (sample_signsValidly _) rfl
      · rw [List.mem_singleton.mp hh]
        exact SignedHeader.verify_sign (sample_signsValidly _) rfl
    · exact loneProof_verifies (hashOfNat 4) fundedRecord.bytes.toList
  · intro h
    have hn : (7 : UInt64) = 0 + 1 := (List.isChain_pair.mp h).2
    exact absurd hn (by decide)

theorem accepted_chain_linked_two_blocks :
    verifyBalance State.new.accountsRoot ((Run.ofCalls sampleConfig twoBlocks).headers.map ofBlock)
        (hashOfNat 77) alice (loneProof mintedRecord.bytes.toList) = .ok 10 ∧
      ((Run.ofCalls sampleConfig twoBlocks).headers.map ofBlock).IsChain Contiguous := by
  have hseq := sequenced_ofCalls twoBlocks_succeed
  obtain ⟨head, hlast, hroot⟩ := hseq.last_root twoBlocks_ne_nil
  have hproof := loneProof_verifies alice mintedRecord.bytes.toList
  have htree := accounts_eq_putAll NativeTraceExecutor.trace sampleConfig twoBlocks
  rw [twoBlocks_puts] at htree
  rw [← htree] at hproof
  have hok : verifyBalance State.new.accountsRoot
      ((Run.ofCalls sampleConfig twoBlocks).headers.map ofBlock) (hashOfNat 77) alice
      (loneProof mintedRecord.bytes.toList) = .ok 10 := by
    refine verifyBalance_ok_iff.mpr ⟨hseq.acceptedChain (sample_signsValidly _), ⟨head, hlast, ?_⟩,
      by decide +kernel⟩
    rw [hroot, State.accountsRoot]
    exact hproof
  have hnc : NoCollision ((Run.ofCalls sampleConfig twoBlocks).headers.map hashedBytes) :=
    noCollision_headers (by rw [twoBlocks_numbers]; simp) (by rw [twoBlocks_numbers]; simp)
  have hzero : ∀ b ∈ (Run.ofCalls sampleConfig twoBlocks).headers, b.headerHash ≠ zeroHash :=
    fun b _ => headerHash_ne_zero b
  refine ⟨hok, (accepted_chain_linked _ _ _ _ _ _ hok).2.2.2 NativeTraceExecutor.trace sampleConfig
    twoBlocks twoBlocks_succeed hnc hzero fun h hh => ?_⟩
  obtain ⟨b, hb, rfl⟩ := List.mem_map.mp hh
  exact ⟨b, hb, rfl⟩

end Sample

end PslBank.LightClient
