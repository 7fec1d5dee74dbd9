import PslBank.Primitives.Gate
import PslBank.Sequencer.Blocks
import PslBank.Sequencer.Issuers
import PslBank.Sequencer.Subprocess

/-!
# The subprocess executor at work

What becomes of a node whose executor reads the bytes after a token `OUT`. The repository's own readers
of a trace (`run_gate1.rs`, `tests/test_bit_exact.py` and the tools) take the bytes of the output from
tokens `out(..)` instead: on such a trace they find what the primitive printed, and the executor finds
nothing, so a node on it never makes a block. Last its trace hash, next to the one that
`tools/verify_trace.py` computes from a file of tokens.
-/
namespace PslBank.Sequencer

open PslBank.Lib PslBank.Crypto PslBank.Primitives

set_option autoImplicit false

/-! ## When an execution has a result -/

/-- The run goes through and prints the bytes of all the records that are read. -/
structure Delivers (exec : SubprocessTraceExecutor) (host : Host) (tx : SignedTx) (w : Witness) : Prop where
  temp : host.writeTemp (witnessFile tx w) = .ok ()
  weights : host.pathExists (exec.weights tx.kind) = true
  runs : ∃ output tokens, host.wasmRun exec.transformerVmPath (exec.weights tx.kind) (witnessFile tx w) =
    .ok output ∧ output.success = true ∧ extractTokensFromVerbose output.stdout = .ok tokens ∧
      tx.kind.outputAccounts 0 * 64 ≤ (outputBytes false tokens).length

/-- The count of a multi-asset payment is taken from the bytes, so these suffice for it. -/
theorem outputAccounts_fits (kind : TxKind) (n : ℕ) :
    kind.outputAccounts n * 64 ≤ n ↔ kind.outputAccounts 0 * 64 ≤ n := by
  cases kind with
  | multiAsset =>
    show n / 64 * 64 ≤ n ↔ 0 / 64 * 64 ≤ n
    omega
  | freeze | transfer | mint | burn => exact Iff.rfl

theorem decode_isOk_iff (tokens : List Text) (kind : TxKind) :
    (∃ updated, decodeOutputAccounts tokens kind = .ok updated) ↔
      kind.outputAccounts 0 * 64 ≤ (outputBytes false tokens).length := by
  rw [← outputAccounts_fits]
  unfold decodeOutputAccounts
  dsimp only
  by_cases hshort : (outputBytes false tokens).length <
      kind.outputAccounts (outputBytes false tokens).length * 64
  · rw [if_pos hshort]
    refine iff_of_false ?_ (Nat.not_le.mpr hshort)
    intro hyp
    obtain ⟨_, h⟩ := hyp
    cases h
  · rw [if_neg hshort]
    exact iff_of_true ⟨_, rfl⟩ (Nat.not_lt.mp hshort)

section

variable [Blake3]

theorem execute_isOk_iff (exec : SubprocessTraceExecutor) (host : Host) (tx : SignedTx) (w : Witness) :
    (∃ r, exec.execute host tx w = .ok r) ↔ Delivers exec host tx w := by
  constructor
  · intro hyp
    obtain ⟨r, h⟩ := hyp
    unfold SubprocessTraceExecutor.execute at h
    obtain ⟨_, htemp, h⟩ := bind_eq_ok_iff.mp h
    cases hweights : host.pathExists (exec.weights tx.kind) with
    | false =>
      rw [hweights, if_pos rfl] at h
      cases h
    | true =>
      rw [hweights, if_neg (by decide)] at h
      obtain ⟨output, hrun, h⟩ := bind_eq_ok_iff.mp h
      cases hsuccess : output.success with
      | false =>
        rw [hsuccess, if_pos rfl] at h
        cases h
      | true =>
        rw [hsuccess, if_neg (by decide)] at h
        obtain ⟨tokens, htokens, hupdated, -⟩ := readTrace_ok_iff.mp h
        have hfits := (decode_isOk_iff tokens tx.kind).mp ⟨_, hupdated⟩
        exact ⟨htemp, hweights, output, tokens, hrun, hsuccess, htokens, hfits⟩
  · intro hyp
    obtain ⟨htemp, hweights, output, tokens, hrun, hsuccess, htokens, hfits⟩ := hyp
    obtain ⟨updated, hupdated⟩ := (decode_isOk_iff tokens tx.kind).mpr hfits
    refine ⟨⟨updated, hashTraceOwned tokens, !updated.isEmpty⟩, ?_⟩
    unfold SubprocessTraceExecutor.execute
    rw [hweights, if_neg (by decide), hrun]
    refine bind_eq_ok_iff.mpr ⟨(), htemp, bind_eq_ok_iff.mpr ⟨output, rfl, ?_⟩⟩
    rw [hsuccess, if_neg (by decide)]
    exact readTrace_ok_iff.mpr ⟨tokens, htokens, hupdated, rfl, rfl⟩

end

/-! ## A node without a result -/

/-- No run prints a token `OUT` of its own. -/
def Host.Unmarked (host : Host) : Prop :=
  ∀ dir weights text output, host.wasmRun dir weights text = .ok output →
    ['O', 'U', 'T'] ∉ predictedTokens output.stdout

theorem not_delivers {exec : SubprocessTraceExecutor} {host : Host} (hhost : host.Unmarked) {tx : SignedTx}
    {w : Witness} (hkind : tx.kind ≠ .multiAsset) : ¬ Delivers exec host tx w := by
  intro hyp
  obtain ⟨-, -, output, tokens, hrun, -, htokens, hfits⟩ := hyp
  have hmark := hhost _ _ _ _ hrun
  rw [predictedTokens, htokens] at hmark
  rw [outputBytes_unmarked hmark, List.length_nil] at hfits
  cases hk : tx.kind with
  | multiAsset => exact hkind hk
  | freeze | transfer | mint | burn =>
    rw [hk] at hfits
    cases hfits

section

variable [Blake3]

/-- Every pass ends in an error. -/
def Fails (execute : Execute) : Prop := ∀ s tx epoch, ∃ e, executeTx execute s tx epoch = .error e

theorem fails_unmarked (exec : SubprocessTraceExecutor) {host : Host} (hhost : host.Unmarked) :
    Fails (exec.execute host) := by
  intro s tx epoch
  cases hx : executeTx (exec.execute host) s tx epoch with
  | error e => exact ⟨e, rfl⟩
  | ok x =>
    obtain ⟨w, hw, hr, -⟩ := executeTx_ok hx
    refine absurd ((execute_isOk_iff exec host tx w).mp ⟨_, hr⟩) (not_delivers hhost ?_)
    intro hkind
    rw [assembleWitness, hkind] at hw
    cases hw

/-- The loop over a batch stops at its first transaction. -/
theorem loop_fails {node : SequencerNode} (h : ∀ n, Fails (node.trace n)) (e : UInt64)
    (hb : node.batch ≠ []) : ∃ err, node.loop e = ⟨node.state, [], some err⟩ := by
  obtain ⟨tx, txs, hbatch⟩ := List.exists_cons_of_ne_nil hb
  obtain ⟨err, herr⟩ := h 0 node.state tx (SequencerNode.blockEpoch e)
  refine ⟨err, ?_⟩
  rw [SequencerNode.loop, hbatch, executeTxs, herr]

variable [Ed25519]

theorem produceBlock_fails {node : SequencerNode} (h : ∀ n, Fails (node.trace n)) (e t : UInt64)
    (hb : node.batch ≠ []) : ∃ err, node.produceBlock e t =
      ⟨{ node with
          mempool := { node.mempool with queue := node.unbatched }
          trace := node.trace.after node.batch.length }, [], none, .error err⟩ := by
  obtain ⟨err, hloop⟩ := loop_fails h e hb
  refine ⟨err, ?_⟩
  have hl : (node.loop e).error = some err := by rw [hloop]
  rw [SequencerNode.produceBlock_error t hb hl, hloop]

/-- Nothing was ever executed or signed, and nothing will be. -/
structure Idle (r : Run) : Prop where
  headers : r.headers = []
  executed : r.executed = []
  accounts : r.node.state.accounts = SparseMerkleTree.new
  fails : ∀ n, Fails (r.node.trace n)

variable [SerdeJson]

theorem Idle.nodeStep {r : Run} (h : Idle r) (call : NodeCall) : Idle (r.nodeStep call) := by
  cases call with
  | registerIssuer issuer => exact ⟨h.headers, h.executed, h.accounts, h.fails⟩
  | submitTx tx =>
    rw [Run.nodeStep_submitTx]
    cases hi : r.node.mempool.ingress tx r.node.state r.node.issuers with
    | error e =>
      simp only [Run.step, hi]
      exact h
    | ok mempool =>
      simp only [Run.step, hi]
      exact ⟨h.headers, h.executed, h.accounts, h.fails⟩
  | produceBlock e t =>
    by_cases hb : r.node.batch = []
    · simp only [Run.nodeStep, SequencerNode.produceBlock_nil hb, Option.toList_none, List.append_nil]
      exact h
    · obtain ⟨err, hblock⟩ := produceBlock_fails h.fails e t hb
      simp only [Run.nodeStep, hblock, Option.toList_none, List.append_nil]
      exact ⟨h.headers, h.executed, h.accounts, fun n => h.fails _⟩

theorem idle_ofNodeCalls {trace : TraceExecutor} (h : ∀ n, Fails (trace n)) (cfg : Config)
    (calls : List NodeCall) : Idle (Run.ofNodeCalls trace cfg calls) := by
  induction calls using List.reverseRecOn with
  | nil => exact ⟨rfl, rfl, rfl, h⟩
  | append_singleton calls call ih =>
    rw [Run.ofNodeCalls_concat]
    exact ih.nodeStep call

/-- A node that finds its weights and whose runs print no token `OUT`, as none of the traces that the
repository reads has one, makes no block and changes no account, whatever is submitted to it. Each call
for a block fails and drops the batch. -/
theorem subprocess_node_stalls (host : Host) (hosts : ℕ → Host) (cfg : Config)
    (hdir : host.pathExists cfg.weightsDir = true)
    (htransfer : host.pathExists (joinPath cfg.weightsDir "ledger_transfer.bin") = true)
    (hunmarked : ∀ n, (hosts n).Unmarked) (calls : List NodeCall) :
    let r := Run.ofNodeCalls (SequencerNode.new host hosts cfg).trace cfg calls
    r.headers = [] ∧ r.executed = [] ∧ r.node.state.accounts = SparseMerkleTree.new ∧
      ∀ e t, r.node.batch ≠ [] → (∃ err, (r.node.produceBlock e t).result = .error err) ∧
        (r.node.produceBlock e t).node.mempool.queue = r.node.unbatched := by
  intro r
  have htrace : (SequencerNode.new host hosts cfg).trace =
      SubprocessTraceExecutor.trace ⟨cfg.transformerVmPath, cfg.weightsDir⟩ hosts := by
    unfold SequencerNode.new
    rw [hdir, htransfer]
    rfl
  have hfails : ∀ n, Fails ((SequencerNode.new host hosts cfg).trace n) := by
    intro n
    rw [htrace]
    exact fails_unmarked _ (hunmarked n)
  obtain ⟨hheaders, hexecuted, haccounts, hleft⟩ := idle_ofNodeCalls hfails cfg calls
  refine ⟨hheaders, hexecuted, haccounts, fun e t hb => ?_⟩
  obtain ⟨err, hblock⟩ := produceBlock_fails hleft e t hb
  rw [hblock]
  exact ⟨⟨err, rfl⟩, rfl⟩

end

/-! ## An output in the form of the gate -/

/-- The C program of the transaction prints `out` on its witness. No multi-asset witness is assembled. -/
def ProgramPrints (tx : SignedTx) (w : Witness) (out : Bytes) : Prop :=
  match tx.kind, w.accounts with
  | .freeze, [a] => LedgerFreeze.compute (wire (w.flag.toNat :: nums a.bytes.toList)) = .ok out
  | .mint, [a] => LedgerMint.compute (recordWire a w.amount w.epoch) = .ok out
  | .burn, [a] => LedgerBurn.compute (recordWire a w.amount w.epoch) = .ok out
  | .transfer, [a, b] => LedgerTransfer.compute (transferWire w.epoch a b w.amount) = .ok out
  | _, _ => False

/-- The programs print as many records as the executor asks for. -/
theorem program_records {tx : SignedTx} {w : Witness} {out : Bytes} (h : ProgramPrints tx w out) :
    tx.kind ≠ .multiAsset ∧ ∃ records : List Account, records.length = tx.kind.outputAccounts 0 ∧
      out = printBytes (recordBytes records) ++ [10] := by
  unfold ProgramPrints at h
  split at h
  · rename_i a hkind haccounts
    rw [compute_freeze, ← recordBytes_single] at h
    rw [hkind]
    exact ⟨by decide, [_], rfl, (Except.ok.inj h).symm⟩
  · rename_i a hkind haccounts
    rw [hkind]
    refine ⟨by decide, ?_⟩
    by_cases hepoch : w.epoch.toNat < 2 ^ 31
    · rw [compute_mint a w.amount w.epoch hepoch] at h
      exact ⟨[_], rfl, (Except.ok.inj h).symm⟩
    · rw [compute_mint_overflow a w.amount w.epoch (Nat.not_lt.mp hepoch)] at h
      cases h
  · rename_i a hkind haccounts
    rw [hkind]
    refine ⟨by decide, ?_⟩
    by_cases hepoch : w.epoch.toNat < 2 ^ 31
    · rw [compute_burn a w.amount w.epoch hepoch] at h
      exact ⟨[_], rfl, (Except.ok.inj h).symm⟩
    · rw [compute_burn_overflow a w.amount w.epoch (Nat.not_lt.mp hepoch)] at h
      cases h
  · rename_i a b hkind haccounts
    rw [hkind]
    refine ⟨by decide, ?_⟩
    by_cases hepoch : w.epoch.toNat < 2 ^ 31
    · rw [compute_transfer a b w.amount w.epoch hepoch] at h
      refine ⟨transferRecords a b w.amount w.epoch, ?_, (Except.ok.inj h).symm⟩
      unfold transferRecords
      split <;> rfl
    · rw [compute_transfer_overflow a b w.amount w.epoch (Nat.not_lt.mp hepoch)] at h
      cases h
  · exact h.elim

/-- The run goes through with some tokens, whose tokens `out(..)` are those of `out`. -/
structure Spells (exec : SubprocessTraceExecutor) (host : Host) (tx : SignedTx) (w : Witness)
    (tokens : List Text) (out : Bytes) : Prop where
  temp : host.writeTemp (witnessFile tx w) = .ok ()
  weights : host.pathExists (exec.weights tx.kind) = true
  runs : ∃ output, host.wasmRun exec.transformerVmPath (exec.weights tx.kind) (witnessFile tx w) =
    .ok output ∧ output.success = true ∧ extractTokensFromVerbose output.stdout = .ok tokens
  spelled : (tokens.filter fun t => (outInner t).isSome) = out.map outToken
  unmarked : ['O', 'U', 'T'] ∉ tokens

section

variable [Blake3]

/-- Where the run prints what the C program prints, in tokens `out(..)`, the gate reads the program's
records back and the native executor has a result, but the subprocess executor finds no byte at all. -/
theorem program_output_unread (exec : SubprocessTraceExecutor) (host : Host) (tx : SignedTx) (w : Witness)
    (tokens : List Text) (out : Bytes) (hprogram : ProgramPrints tx w out)
    (hspells : Spells exec host tx w tokens out) :
    (∃ records : List Account, records.length = tx.kind.outputAccounts 0 ∧
      out = printBytes (recordBytes records) ++ [10] ∧
      readInts (splitWhitespace (fromUtf8Lossy (parseOutBytes tokens))) = .ok (recordBytes records)) ∧
    (∃ r, NativeTraceExecutor.execute tx w = .ok r) ∧
    exec.execute host tx w = .error
      ("expected " ++ toString (tx.kind.outputAccounts 0 * 64) ++ " bytes of output, got 0") := by
  obtain ⟨hkind, records, hcount, hout⟩ := program_records hprogram
  have hread := parseOutBytes_of_filter hspells.spelled
  refine ⟨⟨records, hcount, hout, ?_⟩, ?_, ?_⟩
  · rw [hread, hout]
    exact readInts_wire _
  · unfold ProgramPrints at hprogram
    unfold NativeTraceExecutor.execute
    split at hprogram
    · rename_i hk haccounts
      rw [hk]
      exact NativeTraceExecutor.freeze_returns haccounts
    · rename_i hk haccounts
      rw [hk]
      exact NativeTraceExecutor.mint_returns haccounts
    · rename_i hk haccounts
      rw [hk]
      exact NativeTraceExecutor.burn_returns haccounts
    · rename_i hk haccounts
      rw [hk]
      exact NativeTraceExecutor.transfer_returns haccounts
    · exact hprogram.elim
  · obtain ⟨output, hrun, hsuccess, htokens⟩ := hspells.runs
    unfold SubprocessTraceExecutor.execute
    rw [hspells.temp, hspells.weights, if_neg (by decide), hrun]
    show (if output.success = false then _ else _) = _
    rw [hsuccess, if_neg (by decide)]
    exact readTrace_unmarked htokens hspells.unmarked hkind

end

/-! A trace with an output and nothing else, in the form that `tools/run_transfer_10k.py` describes. -/

theorem outToken_facts (b : UInt8) : IsWord isWhitespace (outToken b) ∧ outToken b ≠ ['O', 'U', 'T'] := by
  have hall : ∀ n < 256, IsWord isWhitespace (outToken (UInt8.ofNat n)) ∧
      outToken (UInt8.ofNat n) ≠ ['O', 'U', 'T'] := by decide +kernel
  have hb := hall b.toNat b.toNat_lt
  rwa [UInt8.ofNat_toNat] at hb

def outputTrace (out : Bytes) : List Text :=
  ['s', 't', 'a', 'r', 't'] :: (out.map outToken ++ [['h', 'a', 'l', 't']])

theorem outputTrace_facts (out : Bytes) :
    ∀ t ∈ outputTrace out, IsWord isWhitespace t ∧ t ≠ ['O', 'U', 'T'] := by
  intro t ht
  rcases List.mem_cons.mp ht with rfl | ht
  · decide
  · rcases List.mem_append.mp ht with ht | ht
    · obtain ⟨b, -, rfl⟩ := List.mem_map.mp ht
      exact outToken_facts b
    · rw [List.mem_singleton.mp ht]
      decide

theorem filter_outputTrace (out : Bytes) :
    ((outputTrace out).filter fun t => (outInner t).isSome) = out.map outToken := by
  have hout : ((out.map outToken).filter fun t => (outInner t).isSome) = out.map outToken := by
    refine List.filter_eq_self.mpr fun t ht => ?_
    obtain ⟨b, -, rfl⟩ := List.mem_map.mp ht
    rw [outInner_outToken]
    rfl
  rw [outputTrace, List.filter_cons_of_neg (by decide), List.filter_append, hout,
    List.filter_cons_of_neg (by decide), List.filter_nil, List.append_nil]

def outputVerbose (out : Bytes) : Verbose where
  front := []
  label := ['T', 'o', 'k', 'e', 'n', 's', ':', ' ']
  tokens := outputTrace out
  back := []
  front_lines := front_lines_nil
  label_eq := .inl rfl
  tokens_words := fun t ht => (outputTrace_facts out t ht).1

def outputHost (out : Bytes) : Host where
  writeTemp _ := .ok ()
  pathExists _ := true
  wasmRun _ _ _ := .ok ⟨true, (outputVerbose out).text, []⟩

theorem unmarked_outputTrace (out : Bytes) : ['O', 'U', 'T'] ∉ outputTrace out := fun h =>
  (outputTrace_facts out _ h).2 rfl

theorem unmarked_outputHost (out : Bytes) : (outputHost out).Unmarked := by
  intro dir weights text output hrun
  obtain rfl := Except.ok.inj hrun
  rw [predictedTokens, extract_text]
  exact unmarked_outputTrace out

section Sample

attribute [local instance] sampleBlake3 sampleEd25519 usdReader

/-- The mint of `usdCalls` as the C program prints it. -/
def usdOutput : Bytes :=
  printBytes (recordBytes [mintRecord (State.new.account alice) usdMint.amount 1]) ++ [10]

/-- The first mint of an asset is dropped. -/
theorem subprocess_node_stalls_usd :
    ∃ err, ((Run.ofNodeCalls (SequencerNode.new (outputHost []) (fun _ => outputHost usdOutput)
      sampleConfig).trace sampleConfig [.registerIssuer usd, .submitTx usdMint]).node.produceBlock
        1000 1000).result = .error err := by
  obtain ⟨-, -, -, hblock⟩ := subprocess_node_stalls (outputHost []) (fun _ => outputHost usdOutput)
    sampleConfig rfl rfl (fun _ => unmarked_outputHost usdOutput) [.registerIssuer usd, .submitTx usdMint]
  have hbatch : (Run.ofNodeCalls (SequencerNode.new (outputHost []) (fun _ => outputHost usdOutput)
      sampleConfig).trace sampleConfig [.registerIssuer usd, .submitTx usdMint]).node.batch.isEmpty = false := by
    decide +kernel
  exact (hblock 1000 1000 (List.isEmpty_eq_false_iff.mp hbatch)).1

/-- The same mint, as the gate and as the executor read it. -/
theorem program_output_unread_usd :
    SubprocessTraceExecutor.execute ⟨"tvm", "weights"⟩ (outputHost usdOutput) usdMint
        ⟨1, [State.new.account alice], usdMint.amount, 0⟩ =
      .error "expected 64 bytes of output, got 0" := by
  have hprogram := compute_mint (State.new.account alice) usdMint.amount 1 (by decide)
  exact (program_output_unread ⟨"tvm", "weights"⟩ (outputHost usdOutput) usdMint
    ⟨1, [State.new.account alice], usdMint.amount, 0⟩ (outputTrace usdOutput) usdOutput hprogram
    ⟨rfl, rfl, ⟨_, rfl, rfl, extract_text _⟩, filter_outputTrace _, unmarked_outputTrace _⟩).2.2

end Sample

/-! ## The reference verifier -/

/-- White space of Python's `str.split`, which has the four information separators besides. -/
def isPythonSpace (c : Char) : Bool := isWhitespace c || decide (0x1C ≤ c.toNat ∧ c.toNat ≤ 0x1F)

section

variable [Blake3]

/-- `tools/verify_trace.py` on the text of a file. Its newline translation trades white space for white
space. -/
def verifyTrace (text : Text) : Hash := Blake3.digest (traceBytes (words isPythonSpace text))

/-- The reference verifier computes the trace hash of an execution from a file with its tokens exactly
when the file has no information separator, which Rust keeps inside a token. -/
theorem verify_trace_iff (kind : TxKind) (stdout : Text) (r : TraceResult) (h : readTrace kind stdout = .ok r)
    (text : Text) (htext : splitWhitespace text = predictedTokens stdout)
    (hnc : NoCollision [traceBytes (words isPythonSpace text), traceBytes (splitWhitespace text)]) :
    verifyTrace text = r.traceHash ↔ ∀ c ∈ text, ¬ (0x1C ≤ c.toNat ∧ c.toNat ≤ 0x1F) := by
  obtain ⟨tokens, htokens, -, hhash, -⟩ := readTrace_ok_iff.mp h
  have hpredicted : predictedTokens stdout = tokens := by rw [predictedTokens, htokens]
  have hsub : ∀ c, isWhitespace c = true → isPythonSpace c = true := by
    intro c hc
    rw [isPythonSpace, hc, Bool.true_or]
  have hjoined := intercalate_words_eq_iff hsub (s := ' ') (by decide) text
  have hseparators : (∀ c ∈ text, isPythonSpace c = true → isWhitespace c = true) ↔
      ∀ c ∈ text, ¬ (0x1C ≤ c.toNat ∧ c.toNat ≤ 0x1F) := by
    refine forall₂_congr fun c _ => ?_
    have hdisjoint : (0x1C ≤ c.toNat ∧ c.toNat ≤ 0x1F) → isWhitespace c = false := by
      intro hc
      rw [isWhitespace, decide_eq_false_iff_not]
      omega
    rw [isPythonSpace, Bool.or_eq_true, decide_eq_true_iff]
    constructor
    · intro himp hc
      have hspace := himp (.inr hc)
      rw [hdisjoint hc] at hspace
      cases hspace
    · rintro hc (hspace | hsep)
      · exact hspace
      · exact absurd hsep hc
  rw [hhash, ← hpredicted, ← htext, ← hseparators, ← hjoined]
  constructor
  · intro hdigest
    have hbytes : traceBytes (words isPythonSpace text) = traceBytes (splitWhitespace text) :=
      hnc List.mem_cons_self (List.mem_cons_of_mem _ List.mem_cons_self) hdigest
    exact String.ofList_injective (utf8_injective hbytes)
  · intro hjoin
    exact congrArg (fun t => Blake3.digest (utf8 (String.ofList t))) hjoin

end

section Sample

attribute [local instance] sampleBlake3

/-- An output without a record, and the file with its tokens. -/
theorem verify_trace_iff_empty :
    verifyTrace ['O', 'U', 'T', '\n', 'h', 'a', 'l', 't'] =
      hashTraceOwned [['O', 'U', 'T'], ['h', 'a', 'l', 't']] := by
  have hread : readTrace .multiAsset (printed _ (.inl rfl) []).text =
      .ok ⟨[], hashTraceOwned [['O', 'U', 'T'], ['h', 'a', 'l', 't']], false⟩ :=
    readTrace_printed rfl _ _
  have hpredicted : predictedTokens (printed _ (.inl rfl) []).text = [['O', 'U', 'T'], ['h', 'a', 'l', 't']] := by
    rw [predictedTokens, extract_text]
    rfl
  have hsplit : splitWhitespace ['O', 'U', 'T', '\n', 'h', 'a', 'l', 't'] =
      [['O', 'U', 'T'], ['h', 'a', 'l', 't']] := by decide
  have hpython : words isPythonSpace ['O', 'U', 'T', '\n', 'h', 'a', 'l', 't'] =
      [['O', 'U', 'T'], ['h', 'a', 'l', 't']] := by decide
  refine (verify_trace_iff _ _ _ hread _ (hsplit.trans hpredicted.symm) ?_).mpr (by simp)
  rw [hpython, hsplit]
  rintro x hx y hy -
  have hx : x = traceBytes [['O', 'U', 'T'], ['h', 'a', 'l', 't']] := by simpa using hx
  have hy : y = traceBytes [['O', 'U', 'T'], ['h', 'a', 'l', 't']] := by simpa using hy
  rw [hx, hy]

end Sample

end PslBank.Sequencer
