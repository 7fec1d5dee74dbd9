import PslBank.Agent.Sdk

/-!
# Who can revoke a key

A revocation names its own parent, and `RevocationSet::insert` verifies the signature
under that name. The parent of a key is said by the policy envelope of the key, which
the set never sees. So any holder of a key pair can revoke any key, and the refusals
of `check` and `handle_propose` follow. Authority is kept exactly while the first valid
revocation of a key names the parent of its envelope.
-/
namespace PslBank.Wallet

open PslBank.Lib PslBank.Crypto

set_option autoImplicit false

section

variable [Ed25519]

/-- Nothing verifies under a key unless the holder of the key has signed it. -/
def Unforgeable (signed : PublicKey → Bytes → Prop) : Prop :=
  ∀ pk message sig, PslBank.Crypto.verify pk message sig = .ok () → signed pk message

theorem verifyParent_eq_ok {mismatch : WalletError} {pk : PublicKey} {body : Bytes} {sig : Signature}
    (h : verifyParent mismatch pk body sig = .ok ()) :
    PslBank.Crypto.verify pk body sig = .ok () := by
  unfold verifyParent at h
  split at h
  · assumption
  · cases h
  · cases h

/-- A revocation of the key that `insert` takes. -/
def Revocation.Revokes (rev : Revocation) (key : PublicKey) : Prop :=
  rev.revokedPubkey = key ∧ rev.verify = .ok ()

namespace RevocationSet

/-- One call of `insert`, whatever it returns. -/
def insertStep (set : RevocationSet) (rev : Revocation) : RevocationSet := (set.insert rev).1

def insertAll (revs : List Revocation) : RevocationSet := run insertStep new revs

theorem isRevoked_insertStep (set : RevocationSet) (rev : Revocation) (key : PublicKey) :
    (set.insertStep rev).isRevoked key = true ↔ set.isRevoked key = true ∨ rev.Revokes key := by
  unfold insertStep insert
  cases hv : rev.verify with
  | error e => simp [Revocation.Revokes, hv]
  | ok u =>
    by_cases hin : set.isRevoked rev.revokedPubkey = true
    · simp only [if_pos hin]
      constructor
      · exact Or.inl
      · rintro (h | ⟨rfl, -⟩)
        · exact h
        · exact hin
    · simp only [if_neg hin]
      by_cases hk : key = rev.revokedPubkey
      · subst hk
        simp [isRevoked, Revocation.Revokes, hv]
      · simp only [isRevoked, Function.update_of_ne hk]
        constructor
        · exact Or.inl
        · rintro (h | ⟨h, -⟩)
          · exact h
          · exact absurd h.symm hk

theorem isRevoked_run (set : RevocationSet) (revs : List Revocation) (key : PublicKey) :
    (run insertStep set revs).isRevoked key = true ↔
      set.isRevoked key = true ∨ ∃ rev ∈ revs, rev.Revokes key := by
  induction revs generalizing set with
  | nil => simp [run]
  | cons rev revs ih =>
    have hstep := ih (set.insertStep rev)
    rw [isRevoked_insertStep] at hstep
    rw [show run insertStep set (rev :: revs) = run insertStep (set.insertStep rev) revs from rfl,
      hstep, List.exists_mem_cons_iff, or_assoc]

theorem isRevoked_insertAll (revs : List Revocation) (key : PublicKey) :
    (insertAll revs).isRevoked key = true ↔ ∃ rev ∈ revs, rev.Revokes key := by
  rw [insertAll, isRevoked_run]
  simp [new, isRevoked]

omit [Ed25519] in
theorem check_ne_ok {set : RevocationSet} {key : PublicKey} (h : set.check key ≠ .ok ()) :
    set.isRevoked key = true := by
  by_contra hn
  exact h (if_neg hn)

/-- The step that goes wrong is not taken: a revocation that newly bars the key names
the parent of the envelope. -/
def NamesParent (envelope : PolicyEnvelope) (set : RevocationSet) (rev : Revocation) : Prop :=
  set.isRevoked envelope.policy.childPubkey = false → rev.Revokes envelope.policy.childPubkey →
    rev.parentPubkey = envelope.policy.parentPubkey

theorem names_parent_of_meets {envelope : PolicyEnvelope} {set : RevocationSet} {revs : List Revocation}
    (hm : Meets insertStep (NamesParent envelope) set revs)
    (hset : set.isRevoked envelope.policy.childPubkey = false)
    (h : (run insertStep set revs).isRevoked envelope.policy.childPubkey = true) :
    ∃ rev ∈ revs, rev.Revokes envelope.policy.childPubkey ∧
      rev.parentPubkey = envelope.policy.parentPubkey := by
  induction revs generalizing set with
  | nil => exact absurd h (by simp [run, hset])
  | cons rev revs ih =>
    by_cases hrev : rev.Revokes envelope.policy.childPubkey
    · exact ⟨rev, List.mem_cons_self, hrev, hm.1 hset hrev⟩
    · have hnext : (set.insertStep rev).isRevoked envelope.policy.childPubkey = false := by
        rw [Bool.eq_false_iff, ne_eq, isRevoked_insertStep, hset]
        simp [hrev]
      obtain ⟨found, hmem, hfound⟩ := ih hm.2 hnext h
      exact ⟨found, List.mem_cons_of_mem _ hmem, hfound⟩

end RevocationSet

/-- Among the inserted revocations of the key is one that its parent signed. -/
def RevokedBy (signed : PublicKey → Bytes → Prop) (revs : List Revocation) (child parent : PublicKey) :
    Prop :=
  ∃ rev ∈ revs, rev.Revokes child ∧ rev.parentPubkey = parent ∧ signed parent rev.canonicalBytes

end

end PslBank.Wallet

namespace PslBank.Agent

open PslBank.Lib PslBank.Crypto PslBank.Wallet RevocationSet

section

variable [Ed25519] [Blake3]

/-- With a decision to accept, a handler signs a rejection only for a revoked proposer. -/
theorem AgentSdk.revoked_of_reject {agent : AgentSdk} {propose : Propose} {now : UInt64}
    {transport : Transport} {reject : Reject}
    (h : .reject reject ∈ (agent.handlePropose propose now (fun _ => .accept) transport).signed) :
    agent.revocations.isRevoked propose.fromKey = true := by
  rcases agent.handlePropose_cases propose now (fun _ => .accept) transport with
    ⟨e, -, he⟩ | ⟨hrev, -⟩ | ⟨-, -, he⟩
  · rw [he] at h
    exact (List.not_mem_nil h).elim
  · exact hrev
  · rw [he, AgentSdk.answerPropose, AgentSdk.issue_signed, List.mem_singleton] at h
    cases h

/-- What the key of an envelope is refused for, once these revocations were inserted. -/
structure AuthorityRespected (signed : PublicKey → Bytes → Prop) (envelope : PolicyEnvelope)
    (revs : List Revocation) : Prop where
  revoked : (insertAll revs).isRevoked envelope.policy.childPubkey = true →
    RevokedBy signed revs envelope.policy.childPubkey envelope.policy.parentPubkey
  checked : (insertAll revs).check envelope.policy.childPubkey ≠ .ok () →
    RevokedBy signed revs envelope.policy.childPubkey envelope.policy.parentPubkey
  proposed : ∀ (agent : AgentSdk) (propose : Propose) (now : UInt64) (transport : Transport)
      (reject : Reject),
    agent.revocations = insertAll revs → propose.fromKey = envelope.policy.childPubkey →
    .reject reject ∈ (agent.handlePropose propose now (fun _ => .accept) transport).signed →
    RevokedBy signed revs envelope.policy.childPubkey envelope.policy.parentPubkey

theorem AuthorityRespected.of_revoked {signed : PublicKey → Bytes → Prop} {envelope : PolicyEnvelope}
    {revs : List Revocation}
    (h : (insertAll revs).isRevoked envelope.policy.childPubkey = true →
      RevokedBy signed revs envelope.policy.childPubkey envelope.policy.parentPubkey) :
    AuthorityRespected signed envelope revs := by
  refine ⟨h, fun hc => h (check_ne_ok hc), ?_⟩
  intro agent propose now transport reject hset hfrom hreject
  have hrev := AgentSdk.revoked_of_reject hreject
  rw [hset, hfrom] at hrev
  exact h hrev

/-- If authority is respected after every further insertion, each of them names the parent. -/
theorem meets_of_respected {signed : PublicKey → Bytes → Prop} {envelope : PolicyEnvelope}
    (inserted : List Revocation) {revs : List Revocation}
    (h : ∀ part, part <+: revs → AuthorityRespected signed envelope (inserted ++ part)) :
    Meets insertStep (NamesParent envelope) (insertAll inserted) revs := by
  induction revs generalizing inserted with
  | nil => trivial
  | cons rev revs ih =>
    refine ⟨?_, ?_⟩
    · intro hset hrev
      have hafter := h [rev] ⟨revs, rfl⟩
      obtain ⟨found, hmem, hfound, hparent, -⟩ := hafter.revoked
        ((isRevoked_insertAll _ _).mpr ⟨rev, by simp, hrev⟩)
      rcases List.mem_append.mp hmem with hold | hnew
      · -- an earlier valid revocation would have barred the key already
        have hbarred := (isRevoked_insertAll inserted _).mpr ⟨found, hold, hfound⟩
        rw [hset] at hbarred
        cases hbarred
      · rw [← List.mem_singleton.mp hnew]
        exact hparent
    · have hnext : insertAll (inserted ++ [rev]) = (insertAll inserted).insertStep rev :=
        run_append new inserted [rev]
      rw [← hnext]
      apply ih
      rintro part ⟨rest, rfl⟩
      rw [List.append_assoc]
      exact h (rev :: part) ⟨rest, rfl⟩

/-- Over every sequence of insertions: the refusals of the key all go back to its parent, in
every state reached, exactly when each insertion that newly bars the key names the
parent. -/
theorem revocation_authority_iff (signed : PublicKey → Bytes → Prop) (hsig : Unforgeable signed)
    (envelope : PolicyEnvelope) (revs : List Revocation) :
    (∀ part, part <+: revs → AuthorityRespected signed envelope part) ↔
      Meets insertStep (NamesParent envelope) new revs := by
  constructor
  · intro h
    exact meets_of_respected [] h
  · intro hm part hpart
    apply AuthorityRespected.of_revoked
    intro hrev
    obtain ⟨rev, hmem, hrevokes, hparent⟩ := names_parent_of_meets (hm.of_prefix hpart) rfl hrev
    refine ⟨rev, hmem, hrevokes, hparent, ?_⟩
    have hverifies := verifyParent_eq_ok hrevokes.2
    rw [hparent] at hverifies
    exact hsig _ _ _ hverifies

end

section Sample

attribute [local instance] sampleBlake3 sampleEd25519

def parentKey : KeyPair := ⟨hashOfNat 9⟩

def strangerKey : KeyPair := ⟨hashOfNat 3⟩

def childKey : PublicKey := hashOfNat 1

def childPolicy : KeyPolicy := ⟨childKey, parentKey.public, 100, 3600, [], [], 0, 1⟩

def childEnvelope : PolicyEnvelope :=
  ⟨childPolicy, PslBank.Crypto.sign parentKey childPolicy.canonicalBytes⟩

theorem childEnvelope_verify : childEnvelope.verify = .ok () := by
  have h := sample_signsValidly parentKey childPolicy.canonicalBytes
  show verifyParent .policySignatureInvalid parentKey.public childPolicy.canonicalBytes
    (PslBank.Crypto.sign parentKey childPolicy.canonicalBytes) = .ok ()
  rw [verifyParent, h]

/-- Whatever can be verified has been signed. -/
def verifiable (pk : PublicKey) (message : Bytes) : Prop :=
  ∃ sig, PslBank.Crypto.verify pk message sig = .ok ()

theorem unforgeable_verifiable : Unforgeable verifiable := fun _ _ sig h => ⟨sig, h⟩

theorem revokes_sign (kp : KeyPair) (key : PublicKey) (reason : Hash) (secs : UInt64) :
    (Revocation.sign kp key reason secs).Revokes key := by
  have h := sample_signsValidly kp (Revocation.sign kp key reason secs).canonicalBytes
  refine ⟨rfl, ?_⟩
  show verifyParent .signatureInvalid kp.public (Revocation.sign kp key reason secs).canonicalBytes
    (PslBank.Crypto.sign kp (Revocation.sign kp key reason secs).canonicalBytes) = .ok ()
  rw [verifyParent, h]

/-- The parent revokes the key and a stranger does so later: the parent stands behind
every refusal. -/
theorem revocation_authority_parent_first :
    childEnvelope.verify = .ok () ∧
    AuthorityRespected verifiable childEnvelope
      [.sign parentKey childKey zeroHash 5, .sign strangerKey childKey zeroHash 6] := by
  refine ⟨childEnvelope_verify, ?_⟩
  apply (revocation_authority_iff verifiable unforgeable_verifiable childEnvelope
    [.sign parentKey childKey zeroHash 5, .sign strangerKey childKey zeroHash 6]).mpr
  · refine ⟨fun _ _ => rfl, ?_, trivial⟩
    intro hset
    have hbarred := (isRevoked_insertStep new (.sign parentKey childKey zeroHash 5) childKey).mpr
      (Or.inr (revokes_sign parentKey childKey zeroHash 5))
    exact absurd hbarred (Bool.eq_false_iff.mp hset)
  · exact List.prefix_refl _

/-- A stranger revokes the key under its own name. -/
theorem stranger_revokes :
    childEnvelope.verify = .ok () ∧ Unforgeable verifiable ∧
      ¬ AuthorityRespected verifiable childEnvelope [.sign strangerKey childKey zeroHash 5] := by
  refine ⟨childEnvelope_verify, unforgeable_verifiable, ?_⟩
  intro h
  obtain ⟨rev, hmem, -, hparent, -⟩ := h.revoked ((isRevoked_insertAll _ _).mpr
    ⟨_, List.mem_singleton_self _, revokes_sign strangerKey childKey zeroHash 5⟩)
  rw [List.mem_singleton.mp hmem] at hparent
  exact absurd hparent (by decide)

end Sample

end PslBank.Agent
