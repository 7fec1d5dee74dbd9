import PslBank.Lib.Text
import PslBank.Sequencer.Run
import PslBank.Primitives.Ledger

/-!
# The subprocess trace executor

`SubprocessTraceExecutor` of `sequencer/src/trace.rs` with `crypto/src/trace_hash.rs`: the witness is
written as tokens into a file, `wasm-run` predicts the trace, and the updated records are read out of
the tokens it prints. The file system and the process are a `Host`, whose texts are those the lossy
conversion from bytes leaves; each execution meets a `Host` of its own. An execution that is read back
counts as a success, also where the primitive refused and printed empty records.
-/
namespace PslBank.Sequencer

open PslBank.Lib PslBank.Crypto PslBank.Primitives

set_option autoImplicit false

structure SubprocessTraceExecutor where
  transformerVmPath : String
  weightsDir : String

structure ProcessOutput where
  success : Bool
  stdout : Text
  stderr : Text

/-- What an execution asks of its surroundings: a temporary file with a text, the presence of a path,
and the run of `wasm-run` in a directory on weights and an input text. -/
structure Host where
  writeTemp : Text → Except String Unit
  pathExists : String → Bool
  wasmRun : String → String → Text → Except String ProcessOutput

def TxKind.primitiveName : TxKind → String
  | .freeze => "ledger_freeze"
  | .transfer => "ledger_transfer"
  | .mint => "ledger_mint"
  | .burn => "ledger_burn"
  | .multiAsset => "ledger_multi_asset"

def encodeWitness (tx : SignedTx) (w : Witness) : List Text :=
  [hexFixed 8 w.epoch.toNat] ++ (if tx.kind = .freeze then [hexByte w.flag] else []) ++
    (w.accounts.flatMap fun acc => acc.bytes.toList.map hexByte) ++
    if tx.kind = .freeze then [] else w.amount.toList.map hexByte

/-- The text of the temporary file. -/
def witnessFile (tx : SignedTx) (w : Witness) : Text :=
  joinBlank (['s', 't', 'a', 'r', 't'] :: encodeWitness tx w)

/-- The two forms of a line with tokens. -/
def tokensOfLine (line : Text) : Option (List Text) :=
  match stripPrefix [' ', ' ', 'T', 'o', 'k', 'e', 'n', 's', ':', ' '] line with
  | some rest => some (splitWhitespace rest)
  | none => (stripPrefix ['T', 'o', 'k', 'e', 'n', 's', ':', ' '] line).map splitWhitespace

def extractTokensFromVerbose (stdout : Text) : Except String (List Text) :=
  match (lines stdout).findSome? tokensOfLine with
  | some tokens => .ok tokens
  | none => .error "could not extract token sequence from wasm-run output"

/-- A token of two hexadecimal digits. -/
def outputByte (t : Text) : Option UInt8 :=
  if byteLen t = 2 ∧ t.all isHexDigit = true then u8FromHex t else none

/-- The loop of `decode_output_accounts` from a value of `in_output` on. -/
def outputBytes : Bool → List Text → Bytes
  | _, [] => []
  | inOutput, t :: ts =>
      if t = ['O', 'U', 'T'] then outputBytes true ts
      else if t = ['h', 'a', 'l', 't'] then []
      else if inOutput = false then outputBytes inOutput ts
      else (outputByte t).toList ++ outputBytes inOutput ts

def TxKind.outputAccounts (kind : TxKind) (n : ℕ) : ℕ :=
  match kind with
  | .freeze | .mint | .burn => 1
  | .transfer => 2
  | .multiAsset => n / 64

/-- The `i`-th chunk of 64 bytes. -/
def recordAt (bytes : Bytes) (i : ℕ) : Account :=
  if h : (slice bytes (64 * i) 64).length = 64 then ⟨⟨slice bytes (64 * i) 64, h⟩⟩ else Account.default

def decodeOutputAccounts (tokens : List Text) (kind : TxKind) : Except String (List Account) :=
  let bytes := outputBytes false tokens
  let nAccounts := kind.outputAccounts bytes.length
  if bytes.length < nAccounts * 64 then
    .error ("expected " ++ toString (nAccounts * 64) ++ " bytes of output, got " ++ toString bytes.length)
  else .ok ((List.range nAccounts).map (recordAt bytes))

/-- `Path::join` of a file name. -/
def joinPath (dir name : String) : String :=
  if dir.isEmpty || dir.endsWith "/" then dir ++ name else dir ++ "/" ++ name

section

variable [Blake3]

/-- The bytes under the trace hash: the tokens with single blanks between them. -/
def traceBytes (tokens : List Text) : Bytes := utf8 (String.ofList (joinBlank tokens))

def hashTraceOwned (tokens : List Text) : Hash := hashBytes (traceBytes tokens)

/-- What an execution makes of the text the process printed. -/
def readTrace (kind : TxKind) (stdout : Text) : Except String TraceResult := do
  let tokens ← extractTokensFromVerbose stdout
  let updated ← decodeOutputAccounts tokens kind
  return ⟨updated, hashTraceOwned tokens, !updated.isEmpty⟩

namespace SubprocessTraceExecutor

def weights (exec : SubprocessTraceExecutor) (kind : TxKind) : String :=
  joinPath exec.weightsDir (kind.primitiveName ++ ".bin")

def execute (exec : SubprocessTraceExecutor) (host : Host) (tx : SignedTx) (w : Witness) :
    Except String TraceResult := do
  host.writeTemp (witnessFile tx w)
  if host.pathExists (exec.weights tx.kind) = false then
    .error ("weights missing: " ++ exec.weights tx.kind)
  else
    let output ← host.wasmRun exec.transformerVmPath (exec.weights tx.kind) (witnessFile tx w)
    if output.success = false then .error ("wasm-run failed: " ++ String.ofList output.stderr)
    else readTrace tx.kind output.stdout

/-- The executor over the hosts that its executions meet. -/
def trace (exec : SubprocessTraceExecutor) (hosts : ℕ → Host) : TraceExecutor := fun n =>
  exec.execute (hosts n)

end SubprocessTraceExecutor

/-- `SequencerNode::new`: the subprocess executor where `host` has the weights of a transfer, else the
native one. -/
def SequencerNode.new (host : Host) (hosts : ℕ → Host) (cfg : Config) : SequencerNode :=
  newWith
    (if host.pathExists cfg.weightsDir && host.pathExists (joinPath cfg.weightsDir "ledger_transfer.bin") then
      SubprocessTraceExecutor.trace ⟨cfg.transformerVmPath, cfg.weightsDir⟩ hosts
    else NativeTraceExecutor.trace) cfg

end

/-! ## The file determines the witness -/

/-- The bytes of a witness file, after the epoch. -/
def witnessBytes (tx : SignedTx) (w : Witness) : Bytes :=
  (if tx.kind = .freeze then [w.flag] else []) ++ recordBytes w.accounts ++
    if tx.kind = .freeze then [] else w.amount.toList

theorem witnessBytes_freeze {tx : SignedTx} (h : tx.kind = .freeze) (w : Witness) :
    witnessBytes tx w = w.flag :: recordBytes w.accounts := by
  rw [witnessBytes, if_pos h, if_pos h, List.append_nil]
  rfl

theorem witnessBytes_amount {tx : SignedTx} (h : tx.kind ≠ .freeze) (w : Witness) :
    witnessBytes tx w = recordBytes w.accounts ++ w.amount.toList := by
  rw [witnessBytes, if_neg h, if_neg h, List.nil_append]

theorem encodeWitness_eq (tx : SignedTx) (w : Witness) :
    encodeWitness tx w = hexFixed 8 w.epoch.toNat :: (witnessBytes tx w).map hexByte := by
  have hrecords : (recordBytes w.accounts).map hexByte =
      w.accounts.flatMap fun acc => acc.bytes.toList.map hexByte := List.map_flatMap
  unfold encodeWitness
  by_cases hkind : tx.kind = .freeze
  · rw [if_pos hkind, if_pos hkind, witnessBytes_freeze hkind, List.map_cons, hrecords, List.append_nil]
    rfl
  · rw [if_neg hkind, if_neg hkind, witnessBytes_amount hkind, List.map_append, hrecords, List.append_nil]
    rfl

theorem isWord_witness (tx : SignedTx) (w : Witness) :
    ∀ t ∈ ['s', 't', 'a', 'r', 't'] :: encodeWitness tx w, IsWord isWhitespace t := by
  intro t ht
  rw [encodeWitness_eq] at ht
  rcases List.mem_cons.mp ht with rfl | ht
  · decide
  · rcases List.mem_cons.mp ht with rfl | ht
    · exact isWord_hexFixed (by decide) _
    · obtain ⟨b, -, rfl⟩ := List.mem_map.mp ht
      exact isWord_hexFixed (by decide) _

theorem witnessBytes_eq_iff {tx tx' : SignedTx} (hkind : tx.kind = tx'.kind) (w w' : Witness) :
    witnessBytes tx w = witnessBytes tx' w' ↔
      w.accounts = w'.accounts ∧ if tx.kind = .freeze then w.flag = w'.flag else w.amount = w'.amount := by
  by_cases hfreeze : tx.kind = .freeze
  · rw [witnessBytes_freeze hfreeze, witnessBytes_freeze (hkind ▸ hfreeze), if_pos hfreeze]
    constructor
    · intro h
      obtain ⟨hflag, hrecords⟩ := List.cons.inj h
      have hlen := congrArg List.length hrecords
      rw [length_recordBytes, length_recordBytes] at hlen
      exact ⟨recordBytes_injective (by omega) hrecords, hflag⟩
    · intro hyp
      obtain ⟨haccounts, hflag⟩ := hyp
      rw [haccounts, hflag]
  · rw [witnessBytes_amount hfreeze, witnessBytes_amount (hkind ▸ hfreeze), if_neg hfreeze]
    constructor
    · intro h
      have hlen := congrArg List.length h
      rw [List.length_append, List.length_append, length_recordBytes, length_recordBytes,
        w.amount.toList_length, w'.amount.toList_length] at hlen
      obtain ⟨hrecords, hamount⟩ := List.append_inj' h
        (by rw [w.amount.toList_length, w'.amount.toList_length])
      exact ⟨recordBytes_injective (by omega) hrecords, List.Vector.toList_injective hamount⟩
    · intro hyp
      obtain ⟨haccounts, hamount⟩ := hyp
      rw [haccounts, hamount]

/-- Two transactions of one kind go to `wasm-run` as one text exactly where their witnesses agree on the
epoch, the records and the value the primitive reads. -/
theorem witness_file_determines (tx tx' : SignedTx) (hkind : tx.kind = tx'.kind) (w w' : Witness) :
    witnessFile tx w = witnessFile tx' w' ↔
      w.epoch = w'.epoch ∧ w.accounts = w'.accounts ∧
        if tx.kind = .freeze then w.flag = w'.flag else w.amount = w'.amount := by
  rw [← witnessBytes_eq_iff hkind]
  constructor
  · intro h
    have htokens := joinBlank_inj (isWord_witness tx w) (isWord_witness tx' w') h
    rw [encodeWitness_eq, encodeWitness_eq, List.cons_inj_right] at htokens
    obtain ⟨hepoch, hbytes⟩ := List.cons.inj htokens
    exact ⟨UInt32.toNat_inj.mp (hexFixed_inj w.epoch.toNat_lt w'.epoch.toNat_lt hepoch),
      List.map_injective_iff.mpr hexByte_injective hbytes⟩
  · intro hyp
    obtain ⟨hepoch, hbytes⟩ := hyp
    rw [witnessFile, witnessFile, encodeWitness_eq, encodeWitness_eq, hepoch, hbytes]

/-- Two amounts are two files. -/
theorem witness_file_determines_amount :
    witnessFile (sampleTx .mint 1 0 issuer none 5 0) ⟨1, [], amountOfNat 5, 0⟩ ≠
      witnessFile (sampleTx .mint 1 0 issuer none 6 0) ⟨1, [], amountOfNat 6, 0⟩ := by
  intro h
  have hsame := (witness_file_determines _ _ rfl _ _).mp h
  exact absurd hsame.2.2 (by decide)

/-! ## What is read back -/

/-- A text `wasm-run` prints: lines of its own, then a line with the tokens. -/
structure Verbose where
  front : List Text
  label : Text
  tokens : List Text
  back : Text
  front_lines : ∀ l ∈ front, (∀ c ∈ l, (c == '\n') = false) ∧ tokensOfLine (stripCr l) = none
  label_eq : label = ['T', 'o', 'k', 'e', 'n', 's', ':', ' '] ∨
    label = [' ', ' ', 'T', 'o', 'k', 'e', 'n', 's', ':', ' ']
  tokens_words : ∀ t ∈ tokens, IsWord isWhitespace t

def Verbose.text (v : Verbose) : Text :=
  (v.front.flatMap fun l => l ++ ['\n']) ++ (v.label ++ joinBlank v.tokens ++ '\n' :: v.back)

/-- White space other than the blank is in no joined text. -/
theorem not_mem_joinBlank {ts : List Text} (h : ∀ t ∈ ts, IsWord isWhitespace t) {c : Char}
    (hspace : isWhitespace c = true) (hblank : c ≠ ' ') : c ∉ joinBlank ts := by
  intro hc
  rcases mem_intercalate_singleton hc with rfl | ⟨t, ht, hc⟩
  · exact hblank rfl
  · rw [(h t ht).no_sep c hc] at hspace
    cases hspace

theorem tokensOfLine_label {label : Text} {ts : List Text}
    (hlabel : label = ['T', 'o', 'k', 'e', 'n', 's', ':', ' '] ∨
      label = [' ', ' ', 'T', 'o', 'k', 'e', 'n', 's', ':', ' '])
    (h : ∀ t ∈ ts, IsWord isWhitespace t) : tokensOfLine (label ++ joinBlank ts) = some ts := by
  have hsplit := splitWhitespace_joinBlank h
  rcases hlabel with rfl | rfl
  · have hnot : stripPrefix [' ', ' ', 'T', 'o', 'k', 'e', 'n', 's', ':', ' ']
        (['T', 'o', 'k', 'e', 'n', 's', ':', ' '] ++ joinBlank ts) = none := rfl
    rw [tokensOfLine, hnot, stripPrefix_append, Option.map_some, hsplit]
  · rw [tokensOfLine, stripPrefix_append]
    exact congrArg some hsplit

theorem extract_text (v : Verbose) : extractTokensFromVerbose v.text = .ok v.tokens := by
  obtain ⟨front, label, tokens, back, hfront, hlabel, hwords⟩ := v
  have hlines : (lines (Verbose.text ⟨front, label, tokens, back, hfront, hlabel, hwords⟩)).findSome?
      tokensOfLine = some tokens := by
    unfold Verbose.text
    induction front with
    | nil =>
      have hblanks : ∀ c ∈ label, isWhitespace c = true → c = ' ' := by
        rcases hlabel with rfl | rfl <;> simp [isWhitespace]
      have hnot : ∀ c, isWhitespace c = true → c ≠ ' ' → c ∉ label ++ joinBlank tokens := by
        intro c hspace hblank hc
        rcases List.mem_append.mp hc with hc | hc
        · exact hblank (hblanks c hc hspace)
        · exact not_mem_joinBlank hwords hspace hblank hc
      have hfeed : ∀ c ∈ label ++ joinBlank tokens, (c == '\n') = false := by
        intro c hc
        rw [beq_eq_false_iff_ne]
        rintro rfl
        exact hnot '\n' (by decide) (by decide) hc
      have hstrip : stripCr (label ++ joinBlank tokens) = label ++ joinBlank tokens := by
        rw [stripCr, if_neg]
        intro hlast
        exact hnot '\r' (by decide) (by decide) (List.mem_of_getLast? hlast)
      rw [List.flatMap_nil, List.nil_append, lines_cons hfeed, hstrip, List.findSome?_cons,
        tokensOfLine_label hlabel hwords]
    | cons l front ih =>
      obtain ⟨hfeed, hnone⟩ := hfront l List.mem_cons_self
      rw [List.flatMap_cons, List.append_assoc, List.append_assoc, List.singleton_append,
        lines_cons hfeed, List.findSome?_cons, hnone]
      exact ih (fun m hm => hfront m (List.mem_cons_of_mem _ hm))
  rw [extractTokensFromVerbose, hlines]

/-! ### The bytes after `OUT` -/

theorem outputBytes_mark (inOutput : Bool) (ts : List Text) :
    outputBytes inOutput (['O', 'U', 'T'] :: ts) = outputBytes true ts := by
  rw [outputBytes, if_pos rfl]

theorem outputBytes_halt (inOutput : Bool) (ts : List Text) :
    outputBytes inOutput (['h', 'a', 'l', 't'] :: ts) = [] := by
  rw [outputBytes, if_neg (by decide), if_pos rfl]

/-- Before `OUT` nothing counts. -/
theorem outputBytes_front {front : List Text} (hmark : ['O', 'U', 'T'] ∉ front)
    (hhalt : ['h', 'a', 'l', 't'] ∉ front) (ts : List Text) :
    outputBytes false (front ++ ts) = outputBytes false ts := by
  induction front with
  | nil => rfl
  | cons t front ih =>
    rw [List.mem_cons, not_or] at hmark hhalt
    rw [List.cons_append, outputBytes, if_neg (Ne.symm hmark.1), if_neg (Ne.symm hhalt.1), if_pos rfl,
      ih hmark.2 hhalt.2]

theorem outputBytes_unmarked {ts : List Text} (hmark : ['O', 'U', 'T'] ∉ ts) : outputBytes false ts = [] := by
  induction ts with
  | nil => rfl
  | cons t ts ih =>
    rw [List.mem_cons, not_or] at hmark
    rw [outputBytes, if_neg (Ne.symm hmark.1), if_pos rfl, ih hmark.2, ite_self]

theorem outputByte_hexByte (b : UInt8) : outputByte (hexByte b) = some b := by
  rw [outputByte, if_pos ⟨byteLen_hexByte b, all_isHexDigit_hexFixed 2 _⟩, u8FromHex_hexByte]

theorem outputBytes_hex (bs : Bytes) (ts : List Text) :
    outputBytes true (bs.map hexByte ++ ts) = bs ++ outputBytes true ts := by
  induction bs with
  | nil => rfl
  | cons b bs ih =>
    have hlen : (hexByte b).length = 2 := length_hexFixed 2 _
    have hmark : hexByte b ≠ ['O', 'U', 'T'] := fun h => absurd (hlen.symm.trans (congrArg _ h)) (by decide)
    have hhalt : hexByte b ≠ ['h', 'a', 'l', 't'] := fun h =>
      absurd (hlen.symm.trans (congrArg _ h)) (by decide)
    rw [List.map_cons, List.cons_append, outputBytes, if_neg hmark, if_neg hhalt,
      if_neg (by decide), outputByte_hexByte, ih]
    rfl

theorem recordAt_zero (a : Account) (bs : Bytes) : recordAt (a.bytes.toList ++ bs) 0 = a := by
  have hslice : slice (a.bytes.toList ++ bs) (64 * 0) 64 = a.bytes.toList := by
    rw [slice, Nat.mul_zero, List.drop_zero]
    exact List.take_left' a.bytes.toList_length
  rw [recordAt, dif_pos (by rw [hslice]; exact a.bytes.toList_length)]
  cases a
  exact congrArg Account.mk (List.Vector.toList_injective hslice)

theorem recordAt_succ (a : Account) (bs : Bytes) (i : ℕ) :
    recordAt (a.bytes.toList ++ bs) (i + 1) = recordAt bs i := by
  have hslice : slice (a.bytes.toList ++ bs) (64 * (i + 1)) 64 = slice bs (64 * i) 64 := by
    have hdrop : (a.bytes.toList ++ bs).drop (64 * (i + 1)) = bs.drop (64 * i) := by
      rw [show 64 * (i + 1) = 64 + 64 * i by omega, ← List.drop_drop,
        List.drop_left' a.bytes.toList_length]
    rw [slice, hdrop, slice]
  unfold recordAt
  simp only [hslice]

/-- The records are cut out of their bytes, whatever follows. -/
theorem map_recordAt (records : List Account) (rest : Bytes) :
    (List.range records.length).map (recordAt (recordBytes records ++ rest)) = records := by
  induction records with
  | nil => rfl
  | cons a records ih =>
    have happ : recordBytes (a :: records) ++ rest = a.bytes.toList ++ (recordBytes records ++ rest) :=
      List.append_assoc _ _ _
    have htail : (List.range records.length).map
        (recordAt (a.bytes.toList ++ (recordBytes records ++ rest)) ∘ Nat.succ) = records := by
      refine Eq.trans (List.map_congr_left fun i _ => ?_) ih
      exact recordAt_succ a _ i
    rw [happ, List.length_cons, List.range_succ_eq_map, List.map_cons, recordAt_zero, List.map_map, htail]

/-- The tokens of an output that is nothing but records. -/
theorem isWord_printed (records : List Account) :
    ∀ t ∈ ['O', 'U', 'T'] :: ((recordBytes records).map hexByte ++ [['h', 'a', 'l', 't']]),
      IsWord isWhitespace t := by
  intro t ht
  rcases List.mem_cons.mp ht with rfl | ht
  · decide
  · rcases List.mem_append.mp ht with ht | ht
    · obtain ⟨b, -, rfl⟩ := List.mem_map.mp ht
      exact isWord_hexFixed (by decide) _
    · rw [List.mem_singleton.mp ht]
      decide

theorem front_lines_nil :
    ∀ l ∈ ([] : List Text), (∀ c ∈ l, (c == '\n') = false) ∧ tokensOfLine (stripCr l) = none :=
  fun _ hl => absurd hl List.not_mem_nil

/-- A text with some records as the whole output. -/
def printed (label : Text) (hlabel : label = ['T', 'o', 'k', 'e', 'n', 's', ':', ' '] ∨
    label = [' ', ' ', 'T', 'o', 'k', 'e', 'n', 's', ':', ' ']) (records : List Account) : Verbose where
  front := []
  label := label
  tokens := ['O', 'U', 'T'] :: ((recordBytes records).map hexByte ++ [['h', 'a', 'l', 't']])
  back := []
  front_lines := front_lines_nil
  label_eq := hlabel
  tokens_words := isWord_printed records

theorem outputBytes_printed (label : Text) (hlabel) (records : List Account) :
    outputBytes false (printed label hlabel records).tokens = recordBytes records := by
  show outputBytes false (['O', 'U', 'T'] :: ((recordBytes records).map hexByte ++ [['h', 'a', 'l', 't']])) = _
  rw [outputBytes_mark, outputBytes_hex, outputBytes_halt, List.append_nil]

theorem tokensOfLine_words {line : Text} {tokens : List Text} (h : tokensOfLine line = some tokens) :
    ∀ t ∈ tokens, IsWord isWhitespace t := by
  unfold tokensOfLine at h
  split at h
  · cases h
    exact fun t => isWord_of_mem
  · obtain ⟨rest, -, rfl⟩ := Option.map_eq_some_iff.mp h
    exact fun t => isWord_of_mem

theorem extract_words {stdout : Text} {tokens : List Text} (h : extractTokensFromVerbose stdout = .ok tokens) :
    ∀ t ∈ tokens, IsWord isWhitespace t := by
  unfold extractTokensFromVerbose at h
  split at h
  · rename_i found hfound
    cases h
    obtain ⟨line, -, hline⟩ := List.exists_of_findSome?_eq_some hfound
    exact tokensOfLine_words hline
  · cases h

/-- The tokens of a printed text, none where it has no such line. -/
def predictedTokens (stdout : Text) : List Text :=
  match extractTokensFromVerbose stdout with
  | .ok tokens => tokens
  | .error _ => []

theorem decode_records {tokens : List Text} {kind : TxKind} {records : List Account} {rest : Bytes}
    (hbytes : outputBytes false tokens = recordBytes records ++ rest)
    (hcount : kind.outputAccounts (64 * records.length + rest.length) = records.length) :
    decodeOutputAccounts tokens kind = .ok records := by
  have hlen : (recordBytes records ++ rest).length = 64 * records.length + rest.length := by
    rw [List.length_append, length_recordBytes]
  have hfits : ¬ (recordBytes records ++ rest).length < records.length * 64 := by omega
  rw [← hlen] at hcount
  unfold decodeOutputAccounts
  dsimp only
  rw [hbytes, hcount, if_neg hfits, map_recordAt]

section

variable [Blake3]

theorem readTrace_ok_iff {kind : TxKind} {stdout : Text} {r : TraceResult} :
    readTrace kind stdout = .ok r ↔ ∃ tokens, extractTokensFromVerbose stdout = .ok tokens ∧
      decodeOutputAccounts tokens kind = .ok r.updatedAccounts ∧ r.traceHash = hashTraceOwned tokens ∧
      r.success = !r.updatedAccounts.isEmpty := by
  constructor
  · intro h
    obtain ⟨tokens, htokens, h⟩ := bind_eq_ok_iff.mp h
    obtain ⟨updated, hupdated, h⟩ := bind_eq_ok_iff.mp h
    cases h
    exact ⟨tokens, htokens, hupdated, rfl, rfl⟩
  · intro hyp
    obtain ⟨tokens, htokens, hupdated, hhash, hsuccess⟩ := hyp
    obtain ⟨updated, traceHash, success⟩ := r
    dsimp only at hupdated hhash hsuccess
    rw [hhash, hsuccess]
    exact bind_eq_ok_iff.mpr ⟨tokens, htokens, bind_eq_ok_iff.mpr ⟨updated, hupdated, rfl⟩⟩

theorem readTrace_printed {kind : TxKind} {records : List Account}
    (hcount : kind.outputAccounts (64 * records.length) = records.length) (label : Text) (hlabel) :
    readTrace kind (printed label hlabel records).text =
      .ok ⟨records, hashTraceOwned (printed label hlabel records).tokens, !records.isEmpty⟩ := by
  have hbytes : outputBytes false (printed label hlabel records).tokens = recordBytes records ++ [] := by
    rw [outputBytes_printed, List.append_nil]
  exact readTrace_ok_iff.mpr ⟨_, extract_text _, decode_records hbytes hcount, rfl, rfl⟩

/-- Without a token `OUT` there is not a byte to read. -/
theorem readTrace_unmarked {kind : TxKind} {stdout : Text} {tokens : List Text}
    (htokens : extractTokensFromVerbose stdout = .ok tokens) (hmark : ['O', 'U', 'T'] ∉ tokens)
    (hkind : kind ≠ .multiAsset) : readTrace kind stdout =
      .error ("expected " ++ toString (kind.outputAccounts 0 * 64) ++ " bytes of output, got 0") := by
  have hbytes := outputBytes_unmarked hmark
  rw [readTrace, htokens]
  show (decodeOutputAccounts tokens kind >>= _) = _
  unfold decodeOutputAccounts
  rw [hbytes]
  cases kind with
  | multiAsset => exact absurd rfl hkind
  | freeze | transfer | mint | burn => rfl

/-- Every text with a line of tokens, front and back as they may be. Records printed after `OUT` come
back with the hash of all tokens and count as a success, whatever they hold. Without a token `OUT` a
kind of fixed size fails for want of bytes, and a multi-asset payment ends with no accounts. -/
theorem verbose_outcomes (v : Verbose) (kind : TxKind) :
    (∀ front records back,
      v.tokens = front ++ ['O', 'U', 'T'] :: ((recordBytes records).map hexByte ++ ['h', 'a', 'l', 't'] :: back) →
      ['O', 'U', 'T'] ∉ front → ['h', 'a', 'l', 't'] ∉ front → records ≠ [] →
      kind.outputAccounts (64 * records.length) = records.length →
      readTrace kind v.text = .ok ⟨records, hashTraceOwned v.tokens, true⟩) ∧
    (['O', 'U', 'T'] ∉ v.tokens → readTrace kind v.text =
      if kind = .multiAsset then .ok ⟨[], hashTraceOwned v.tokens, false⟩
      else .error ("expected " ++ toString (kind.outputAccounts 0 * 64) ++ " bytes of output, got 0")) := by
  have htokens := extract_text v
  constructor
  · intro front records back hstream hmark hhalt hne hcount
    have hbytes : outputBytes false v.tokens = recordBytes records ++ [] := by
      rw [hstream, outputBytes_front hmark hhalt, outputBytes_mark, outputBytes_hex, outputBytes_halt]
    refine readTrace_ok_iff.mpr ⟨_, htokens, decode_records hbytes hcount, rfl, ?_⟩
    simp [hne]
  · intro hmark
    by_cases hkind : kind = .multiAsset
    · rw [if_pos hkind, hkind, readTrace, htokens]
      show (decodeOutputAccounts v.tokens .multiAsset >>= _) = _
      unfold decodeOutputAccounts
      rw [outputBytes_unmarked hmark]
      rfl
    · rw [if_neg hkind]
      exact readTrace_unmarked htokens hmark hkind

/-- The trace hash of one execution commits to what it writes back. -/
theorem traceHash_binds {kind : TxKind} {stdout stdout' : Text} {r r' : TraceResult}
    (h : readTrace kind stdout = .ok r) (h' : readTrace kind stdout' = .ok r') {B : List Bytes}
    (hnc : NoCollision B) (hmem : traceBytes (predictedTokens stdout) ∈ B)
    (hmem' : traceBytes (predictedTokens stdout') ∈ B) (heq : r.traceHash = r'.traceHash) : r = r' := by
  obtain ⟨tokens, htokens, hupdated, hhash, hsuccess⟩ := readTrace_ok_iff.mp h
  obtain ⟨tokens', htokens', hupdated', hhash', hsuccess'⟩ := readTrace_ok_iff.mp h'
  have hpredicted : predictedTokens stdout = tokens := by rw [predictedTokens, htokens]
  have hpredicted' : predictedTokens stdout' = tokens' := by rw [predictedTokens, htokens']
  rw [hpredicted] at hmem
  rw [hpredicted'] at hmem'
  have hdigest : hashTraceOwned tokens = hashTraceOwned tokens' := by rw [← hhash, ← hhash', heq]
  have hbytes : traceBytes tokens = traceBytes tokens' := hnc hmem hmem' hdigest
  have htext : joinBlank tokens = joinBlank tokens' := String.ofList_injective (utf8_injective hbytes)
  have hsame := joinBlank_inj (extract_words htokens) (extract_words htokens') htext
  rw [hsame, hupdated'] at hupdated
  have haccounts := Except.ok.inj hupdated
  rw [haccounts] at hsuccess'
  obtain ⟨updated, traceHash, success⟩ := r
  obtain ⟨updated', traceHash', success'⟩ := r'
  dsimp only at haccounts heq hsuccess hsuccess'
  rw [haccounts, heq, hsuccess, hsuccess']

/-- The transactions of a block with the texts their runs printed, and what is read from them. -/
def Reads (runs : List (TxKind × Text)) (results : List TraceResult) : Prop :=
  List.Forall₂ (fun run r => readTrace run.1 run.2 = .ok r) runs results

/-- The strings hashed for a block of runs. -/
def blockTraceBytes (runs : List (TxKind × Text)) (results : List TraceResult) : List Bytes :=
  (results.map (·.traceHash)).flatMap (·.toList) :: runs.map fun run => traceBytes (predictedTokens run.2)

theorem results_eq {runs runs' : List (TxKind × Text)} {results results' : List TraceResult}
    (h : Reads runs results) (h' : Reads runs' results') (hkinds : runs.map Prod.fst = runs'.map Prod.fst)
    {B : List Bytes} (hnc : NoCollision B)
    (hmem : ∀ run ∈ runs, traceBytes (predictedTokens run.2) ∈ B)
    (hmem' : ∀ run ∈ runs', traceBytes (predictedTokens run.2) ∈ B)
    (heq : results.map (·.traceHash) = results'.map (·.traceHash)) : results = results' := by
  unfold Reads at h
  induction h generalizing runs' results' with
  | nil =>
    cases results' with
    | nil => rfl
    | cons r' results' => cases heq
  | @cons run r runs results hread h ih =>
    cases h' with
    | nil => cases heq
    | @cons run' r' runs' results' hread' h' =>
      obtain ⟨hkind, hkinds⟩ := List.cons.inj hkinds
      obtain ⟨hhash, heq⟩ := List.cons.inj heq
      have hkind : run.1 = run'.1 := hkind
      rw [← hkind] at hread'
      have hsame := traceHash_binds hread hread' hnc (hmem run List.mem_cons_self)
        (hmem' run' List.mem_cons_self) hhash
      rw [hsame, ih h' hkinds (fun x hx => hmem x (List.mem_cons_of_mem _ hx))
        (fun x hx => hmem' x (List.mem_cons_of_mem _ hx)) heq]

/-- The combined trace hash of a header commits to everything the block writes back: two lists of runs
for transactions of the same kinds that end in one combined hash give the same results, records and
successes. -/
theorem block_trace_hash_binds (runs runs' : List (TxKind × Text)) (results results' : List TraceResult)
    (h : Reads runs results) (h' : Reads runs' results') (hkinds : runs.map Prod.fst = runs'.map Prod.fst)
    (hnc : NoCollision (blockTraceBytes runs results ++ blockTraceBytes runs' results'))
    (heq : combinedTraceHash (results.map (·.traceHash)) = combinedTraceHash (results'.map (·.traceHash))) :
    results = results' := by
  have hstream : (results.map (·.traceHash)).flatMap (·.toList) =
      (results'.map (·.traceHash)).flatMap (·.toList) :=
    hnc (List.mem_append_left _ List.mem_cons_self) (List.mem_append_right _ List.mem_cons_self) heq
  have hhashes : results.map (·.traceHash) = results'.map (·.traceHash) :=
    (delimiting_array 32).stream_inj (fun v hv => absurd (v.toList_length.symm.trans (by rw [hv]))
      (by decide)) (fun _ _ => trivial) (fun _ _ => trivial) hstream
  refine results_eq h h' hkinds hnc ?_ ?_ hhashes
  · intro run hrun
    exact List.mem_append_left _ (List.mem_cons_of_mem _ (List.mem_map_of_mem hrun))
  · intro run hrun
    exact List.mem_append_right _ (List.mem_cons_of_mem _ (List.mem_map_of_mem hrun))

end

section Sample

attribute [local instance] sampleBlake3

/-- Two records after a transfer. -/
def paidRecords : List Account := [(Account.new alice).setNonce 1, (Account.new bob).setBalance 10]

def paidTokens : List Text :=
  ['O', 'U', 'T'] :: ((recordBytes paidRecords).map hexByte ++ [['h', 'a', 'l', 't']])

/-- The records of a transfer are read alike in both forms of the line with the tokens. -/
theorem block_trace_hash_binds_labels :
    ∃ r r', Reads [(.transfer, (printed _ (.inl rfl) paidRecords).text)] [r] ∧
      Reads [(.transfer, (printed _ (.inr rfl) paidRecords).text)] [r'] ∧
      r.updatedAccounts = paidRecords ∧ r.success = true ∧ [r] = [r'] := by
  have hread : ∀ label hlabel, readTrace .transfer (printed label hlabel paidRecords).text =
      .ok ⟨paidRecords, hashTraceOwned paidTokens, true⟩ :=
    fun label hlabel => readTrace_printed rfl label hlabel
  have htokens : ∀ label hlabel, predictedTokens (printed label hlabel paidRecords).text = paidTokens := by
    intro label hlabel
    rw [predictedTokens, extract_text]
    rfl
  have h : Reads [(.transfer, (printed _ (.inl rfl) paidRecords).text)] [_] :=
    List.Forall₂.cons (hread _ (.inl rfl)) List.Forall₂.nil
  have h' : Reads [(.transfer, (printed _ (.inr rfl) paidRecords).text)] [_] :=
    List.Forall₂.cons (hread _ (.inr rfl)) List.Forall₂.nil
  refine ⟨_, _, h, h', rfl, rfl, block_trace_hash_binds _ _ _ _ h h' rfl ?_ rfl⟩
  simp only [blockTraceBytes, List.map_cons, List.map_nil, htokens]
  have hpair : NoCollision [(hashTraceOwned paidTokens).toList, traceBytes paidTokens] :=
    NoCollision.pair (by decide +kernel)
  refine NoCollision.mono hpair ?_
  simp

end Sample

end PslBank.Sequencer
