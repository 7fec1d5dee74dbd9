import PslBank.Contracts.Program
import PslBank.Lib.Encoding

/-!
# Wire messages of the negotiation protocol

`agent_protocol/src/error.rs` and `agent_protocol/src/message.rs`. Every message
signs its canonical bytes: a tag, then its fields, byte strings with a big-endian
`u32` length in front. The length is cast to `u32`, so only strings below `2 ^ 32`
bytes carry their own length.
-/
namespace PslBank.Agent

open PslBank.Lib PslBank.Crypto PslBank.Contracts

set_option autoImplicit false

/-- The 32-byte content hash of a proposal, a type of its own. -/
structure ProposalHash where
  bytes : Hash
  deriving DecidableEq

/-- `ProtocolError` of `error.rs`; of a contract that fails, its own error. -/
inductive ProtocolError where
  | signatureInvalid
  | proposalHashMismatch (expected got : ProposalHash)
  | illegalTransition (fromState event : String)
  | unknownProposal (hash : ProposalHash)
  | expired (expiry now : UInt64)
  | disputeOutputMismatch (got claimed : Bytes)
  | contract (error : ContractError)
  | ed25519 (reason : String)
  deriving DecidableEq

/-- A length as `u32`, then the bytes. -/
def pushBytes (b : Bytes) : Bytes := toBe 4 b.length ++ b

/-- The UTF-8 bytes of a text, written in the same way. -/
def pushStr (s : String) : Bytes := pushBytes (utf8 s)

/-- Below `2 ^ 32` bytes the length says where the string ends. -/
theorem delimiting_pushBytes : SelfDelimiting (fun b : Bytes => b.length < 2 ^ 32) pushBytes :=
  delimiting_bytes_be

/-- The bound is on the encoded text, not on its characters. -/
theorem delimiting_pushStr : SelfDelimiting (fun s => (utf8 s).length < 2 ^ 32) pushStr :=
  delimiting_text_be

theorem delimiting_proposalHash :
    SelfDelimiting (fun _ : ProposalHash => True) fun hash => hash.bytes.toList :=
  (delimiting_array 32).comap (fun _ _ => congrArg ProposalHash.mk) fun _ _ => trivial

/-- The bytes of a tag such as `b"PSL-EXECUTE-V1"`. -/
def tagBytes (tag : String) : Bytes := tag.toUTF8.toList

/-- An offer to run a program on parameters, open from one time to another. -/
structure Propose where
  programHash : ProgramHash
  parameters : Bytes
  fromKey : PublicKey
  toKey : PublicKey
  validFromUnix : UInt64
  validUntilUnix : UInt64
  nonce : UInt64
  sig : Signature
  deriving DecidableEq

/-- The receiver's consent to a proposal, which it names by hash. -/
structure Accept where
  proposalHash : ProposalHash
  byKey : PublicKey
  acceptedAtUnix : UInt64
  sig : Signature
  deriving DecidableEq

/-- The receiver's refusal, with a reason. -/
structure Reject where
  proposalHash : ProposalHash
  byKey : PublicKey
  reason : String
  rejectedAtUnix : UInt64
  sig : Signature
  deriving DecidableEq

/-- Other parameters in place of those of a proposal. -/
structure CounterPropose where
  originalProposalHash : ProposalHash
  newParameters : Bytes
  byKey : PublicKey
  nonce : UInt64
  sig : Signature
  deriving DecidableEq

/-- The output an executor claims, a type of its own. -/
structure ExpectedOutput where
  bytes : Bytes
  deriving DecidableEq

/-- The executor's claim of what the program gives on a witness. -/
structure Execute where
  proposalHash : ProposalHash
  witness : Bytes
  expectedOutput : ExpectedOutput
  byKey : PublicKey
  executedAtUnix : UInt64
  sig : Signature
  deriving DecidableEq

/-- The envelope a transport carries. -/
inductive ProtocolMessage where
  | propose (m : Propose)
  | accept (m : Accept)
  | reject (m : Reject)
  | counterPropose (m : CounterPropose)
  | execute (m : Execute)
  deriving DecidableEq

/-- What a proposal signs: every field but the signature. -/
def Propose.canonicalBytes (m : Propose) : Bytes :=
  tagBytes "PSL-PROPOSE-V2" ++ m.programHash.bytes.toList ++ pushBytes m.parameters ++
    m.fromKey.toList ++ m.toKey.toList ++ toBe 8 m.validFromUnix.toNat ++
    toBe 8 m.validUntilUnix.toNat ++ toBe 8 m.nonce.toNat

def Accept.canonicalBytes (m : Accept) : Bytes :=
  tagBytes "PSL-ACCEPT-V1" ++ m.proposalHash.bytes.toList ++ m.byKey.toList ++
    toBe 8 m.acceptedAtUnix.toNat

def Reject.canonicalBytes (m : Reject) : Bytes :=
  tagBytes "PSL-REJECT-V1" ++ m.proposalHash.bytes.toList ++ m.byKey.toList ++ pushStr m.reason ++
    toBe 8 m.rejectedAtUnix.toNat

def CounterPropose.canonicalBytes (m : CounterPropose) : Bytes :=
  tagBytes "PSL-COUNTER-V1" ++ m.originalProposalHash.bytes.toList ++ pushBytes m.newParameters ++
    m.byKey.toList ++ toBe 8 m.nonce.toNat

/-- Two strings of variable length, each with its length in front. -/
def Execute.canonicalBytes (m : Execute) : Bytes :=
  tagBytes "PSL-EXECUTE-V1" ++ m.proposalHash.bytes.toList ++ pushBytes m.witness ++
    pushBytes m.expectedOutput.bytes ++ m.byKey.toList ++ toBe 8 m.executedAtUnix.toNat

/-- A proposal without its signature is read back from its bytes: the parameters are
the only field of variable length, so their length is known from the whole. -/
theorem Propose.eq_of_canonicalBytes {p q : Propose} (h : p.canonicalBytes = q.canonicalBytes) :
    { p with sig := q.sig } = q := by
  have hlen : p.parameters.length = q.parameters.length := by
    have hall := congrArg List.length h
    simp only [canonicalBytes, pushBytes, List.length_append, List.Vector.toList_length,
      length_toBe] at hall
    omega
  simp only [canonicalBytes, pushBytes, List.append_assoc] at h
  obtain ⟨-, h⟩ := List.append_inj h rfl
  obtain ⟨hhash, h⟩ := delimiting_array 64 trivial trivial h
  obtain ⟨-, h⟩ := List.append_inj h (by simp only [length_toBe])
  obtain ⟨hparams, h⟩ := List.append_inj h hlen
  obtain ⟨hfrom, h⟩ := delimiting_array 32 trivial trivial h
  obtain ⟨hto, h⟩ := delimiting_array 32 trivial trivial h
  obtain ⟨hvalidFrom, h⟩ := delimiting_u64_be trivial trivial h
  obtain ⟨hvalidUntil, h⟩ := delimiting_u64_be trivial trivial h
  have hnonce := delimiting_u64_be.inj trivial trivial h
  have hprogram : p.programHash = q.programHash := congrArg ProgramHash.mk hhash
  cases p
  cases q
  simp_all

/-- All fields of an accept have a fixed width. -/
theorem Accept.eq_of_canonicalBytes {p q : Accept} (h : p.canonicalBytes = q.canonicalBytes) :
    { p with sig := q.sig } = q := by
  simp only [canonicalBytes, List.append_assoc] at h
  have h := List.append_cancel_left h
  obtain ⟨hhash, h⟩ := delimiting_proposalHash trivial trivial h
  obtain ⟨hby, h⟩ := delimiting_array 32 trivial trivial h
  have hat := delimiting_u64_be.inj trivial trivial h
  cases p
  cases q
  simp_all

/-- With its length in front the reason does not run into the time after it. -/
theorem Reject.eq_of_canonicalBytes {p q : Reject} (hp : (utf8 p.reason).length < 2 ^ 32)
    (hq : (utf8 q.reason).length < 2 ^ 32) (h : p.canonicalBytes = q.canonicalBytes) :
    { p with sig := q.sig } = q := by
  simp only [canonicalBytes, List.append_assoc] at h
  have h := List.append_cancel_left h
  obtain ⟨hhash, h⟩ := delimiting_proposalHash trivial trivial h
  obtain ⟨hby, h⟩ := delimiting_array 32 trivial trivial h
  obtain ⟨hreason, h⟩ := delimiting_pushStr hp hq h
  have hat := delimiting_u64_be.inj trivial trivial h
  cases p
  cases q
  simp_all

/-- The same for the parameters of a counter-proposal. -/
theorem CounterPropose.eq_of_canonicalBytes {p q : CounterPropose}
    (hp : p.newParameters.length < 2 ^ 32) (hq : q.newParameters.length < 2 ^ 32)
    (h : p.canonicalBytes = q.canonicalBytes) : { p with sig := q.sig } = q := by
  simp only [canonicalBytes, List.append_assoc] at h
  have h := List.append_cancel_left h
  obtain ⟨hhash, h⟩ := delimiting_proposalHash trivial trivial h
  obtain ⟨hparams, h⟩ := delimiting_pushBytes hp hq h
  obtain ⟨hby, h⟩ := delimiting_array 32 trivial trivial h
  have hnonce := delimiting_u64_be.inj trivial trivial h
  cases p
  cases q
  simp_all

/-- Neither string is cut short by the cast of its length. -/
def Execute.WellSized (m : Execute) : Prop :=
  m.witness.length < 2 ^ 32 ∧ m.expectedOutput.bytes.length < 2 ^ 32

/-- Under that bound the two strings are told apart. -/
theorem Execute.eq_of_canonicalBytes {p q : Execute} (hp : p.WellSized) (hq : q.WellSized)
    (h : p.canonicalBytes = q.canonicalBytes) : { p with sig := q.sig } = q := by
  simp only [canonicalBytes, List.append_assoc] at h
  have h := List.append_cancel_left h
  obtain ⟨hhash, h⟩ := delimiting_proposalHash trivial trivial h
  obtain ⟨hwitness, h⟩ := delimiting_pushBytes hp.1 hq.1 h
  obtain ⟨hbytes, h⟩ := delimiting_pushBytes hp.2 hq.2 h
  obtain ⟨hby, h⟩ := delimiting_array 32 trivial trivial h
  have hat := delimiting_u64_be.inj trivial trivial h
  have houtput : p.expectedOutput = q.expectedOutput := congrArg ExpectedOutput.mk hbytes
  cases p
  cases q
  simp_all

/-- The name other messages use for a proposal. The signature is no part of it. -/
def Propose.proposalHash [Blake3] (m : Propose) : ProposalHash := ⟨hashBytes m.canonicalBytes⟩

section

variable [Ed25519]

/-- A signature check whose decoding error is reported under `label`. -/
def verifyLabelled (label : String) (pk : PublicKey) (body : Bytes) (sig : Signature) :
    Except ProtocolError Unit :=
  match verify pk body sig with
  | .ok () => .ok ()
  | .error .invalidPublicKey => .error (.ed25519 (label ++ ": " ++ Ed25519.fromBytesError pk))
  | .error _ => .error .signatureInvalid

/-- The check that all five messages share. -/
def verifySig (pk : PublicKey) (body : Bytes) (sig : Signature) : Except ProtocolError Unit :=
  verifyLabelled "pk" pk body sig

/-- The proposer signs; every later message is signed by the key it carries. -/
def Propose.verify (m : Propose) : Except ProtocolError Unit :=
  verifySig m.fromKey m.canonicalBytes m.sig

def Accept.verify (m : Accept) : Except ProtocolError Unit :=
  verifySig m.byKey m.canonicalBytes m.sig

def Reject.verify (m : Reject) : Except ProtocolError Unit :=
  verifySig m.byKey m.canonicalBytes m.sig

def CounterPropose.verify (m : CounterPropose) : Except ProtocolError Unit :=
  verifySig m.byKey m.canonicalBytes m.sig

def Execute.verify (m : Execute) : Except ProtocolError Unit :=
  verifySig m.byKey m.canonicalBytes m.sig

/-- The message is built with a zero signature, which its bytes leave out, and signed then. -/
def Propose.sign (signer : KeyPair) (programHash : ProgramHash) (parameters : Bytes)
    (toKey : PublicKey) (validFromUnix validUntilUnix nonce : UInt64) : Propose :=
  let m : Propose := ⟨programHash, parameters, signer.public, toKey, validFromUnix, validUntilUnix,
    nonce, List.Vector.replicate 64 0⟩
  { m with sig := PslBank.Crypto.sign signer m.canonicalBytes }

def Accept.sign (signer : KeyPair) (proposalHash : ProposalHash) (acceptedAtUnix : UInt64) : Accept :=
  let m : Accept := ⟨proposalHash, signer.public, acceptedAtUnix, List.Vector.replicate 64 0⟩
  { m with sig := PslBank.Crypto.sign signer m.canonicalBytes }

def Reject.sign (signer : KeyPair) (proposalHash : ProposalHash) (reason : String)
    (rejectedAtUnix : UInt64) : Reject :=
  let m : Reject := ⟨proposalHash, signer.public, reason, rejectedAtUnix, List.Vector.replicate 64 0⟩
  { m with sig := PslBank.Crypto.sign signer m.canonicalBytes }

def CounterPropose.sign (signer : KeyPair) (originalProposalHash : ProposalHash)
    (newParameters : Bytes) (nonce : UInt64) : CounterPropose :=
  let m : CounterPropose := ⟨originalProposalHash, newParameters, signer.public, nonce,
    List.Vector.replicate 64 0⟩
  { m with sig := PslBank.Crypto.sign signer m.canonicalBytes }

def Execute.sign (signer : KeyPair) (proposalHash : ProposalHash) (witness : Bytes)
    (expectedOutput : ExpectedOutput) (executedAtUnix : UInt64) : Execute :=
  let m : Execute := ⟨proposalHash, witness, expectedOutput, signer.public, executedAtUnix,
    List.Vector.replicate 64 0⟩
  { m with sig := PslBank.Crypto.sign signer m.canonicalBytes }

variable {signer : KeyPair}

/-- What a valid key signs passes, under whatever label. -/
theorem verifyLabelled_sign (label : String) (h : signer.SignsValidly) (body : Bytes) :
    verifyLabelled label signer.public body (PslBank.Crypto.sign signer body) = .ok () := by
  unfold verifyLabelled
  rw [h body]

theorem verifySig_sign (h : signer.SignsValidly) (body : Bytes) :
    verifySig signer.public body (PslBank.Crypto.sign signer body) = .ok () :=
  verifyLabelled_sign "pk" h body

/-- An accept that was signed here passes its own check; the same holds of a reject and an
execute. -/
theorem Accept.verify_sign (h : signer.SignsValidly) (proposalHash : ProposalHash)
    (acceptedAtUnix : UInt64) : (Accept.sign signer proposalHash acceptedAtUnix).verify = .ok () :=
  verifySig_sign h _

theorem Reject.verify_sign (h : signer.SignsValidly) (proposalHash : ProposalHash) (reason : String)
    (rejectedAtUnix : UInt64) :
    (Reject.sign signer proposalHash reason rejectedAtUnix).verify = .ok () :=
  verifySig_sign h _

theorem Execute.verify_sign (h : signer.SignsValidly) (proposalHash : ProposalHash) (witness : Bytes)
    (expectedOutput : ExpectedOutput) (executedAtUnix : UInt64) :
    (Execute.sign signer proposalHash witness expectedOutput executedAtUnix).verify = .ok () :=
  verifySig_sign h _

end

end PslBank.Agent
