import PslBank.Agent.Authority

/-!
# Replicas of the revocation set

What a revocation set holds after any calls of `insert`, valid or not, repeated or not, in any order:
the first valid revocation of each key. Replicas that have seen the same revocations bar the same keys,
and no call takes a key out again or replaces what is kept for it.
-/
namespace PslBank.Wallet

open PslBank.Lib PslBank.Crypto

set_option autoImplicit false

variable [Ed25519]

/-- `Revokes` as a test. -/
def Revocation.revokes (key : PublicKey) (rev : Revocation) : Bool :=
  rev.revokedPubkey == key && rev.verify.isOk

theorem Revocation.revokes_iff (key : PublicKey) (rev : Revocation) :
    rev.revokes key = true ↔ rev.Revokes key := by
  rw [revokes, Bool.and_eq_true, beq_iff_eq, Revokes]
  refine and_congr_right fun _ => ?_
  cases rev.verify with
  | error e => exact ⟨fun h => (Bool.false_ne_true h).elim, fun h => by cases h⟩
  | ok u => exact ⟨fun _ => rfl, fun _ => rfl⟩

namespace RevocationSet

theorem insertAll_concat (revs : List Revocation) (rev : Revocation) :
    insertAll (revs ++ [rev]) = (insertAll revs).insertStep rev := run_append _ _ _

/-- The step of one key: what is there stays, else a valid revocation of the key gets in. -/
theorem byPubkey_insertStep (set : RevocationSet) (rev : Revocation) (key : PublicKey) :
    (set.insertStep rev).byPubkey key =
      (set.byPubkey key).or (if rev.revokes key then some rev else none) := by
  unfold insertStep insert Revocation.revokes
  cases hv : rev.verify with
  | error e =>
    show set.byPubkey key = (set.byPubkey key).or (if rev.revokedPubkey == key && false then _ else _)
    rw [Bool.and_false, if_neg Bool.false_ne_true, Option.or_none]
  | ok u =>
    have hok : (Except.ok u : Except WalletError Unit).isOk = true := rfl
    rw [hok, Bool.and_true]
    by_cases hin : set.isRevoked rev.revokedPubkey = true
    · simp only [if_pos hin]
      by_cases hk : rev.revokedPubkey = key
      · obtain ⟨old, hold⟩ := Option.isSome_iff_exists.mp hin
        rw [← hk, hold, Option.some_or]
      · rw [if_neg (by rwa [beq_iff_eq]), Option.or_none]
    · simp only [if_neg hin]
      by_cases hk : rev.revokedPubkey = key
      · have hnone : set.byPubkey key = none := by
          rw [← hk]
          exact Option.not_isSome_iff_eq_none.mp hin
        rw [← hk, Function.update_self, hk, hnone, Option.none_or, if_pos (beq_self_eq_true key)]
      · rw [Function.update_of_ne (Ne.symm hk), if_neg (by rwa [beq_iff_eq]), Option.or_none]

theorem byPubkey_insertAll (revs : List Revocation) (key : PublicKey) :
    (insertAll revs).byPubkey key = revs.find? (Revocation.revokes key) := by
  induction revs using List.reverseRecOn with
  | nil => rfl
  | append_singleton revs rev ih =>
    rw [insertAll_concat, byPubkey_insertStep, ih, List.find?_append]
    congr 1
    rw [List.find?_singleton]

/-- A key is newly revoked by a valid revocation that finds none of it. -/
theorem insert_answer (set : RevocationSet) (rev : Revocation) :
    (set.insert rev).2 = rev.verify.map fun _ => !set.isRevoked rev.revokedPubkey := by
  unfold insert
  cases rev.verify with
  | error e => rfl
  | ok u =>
    by_cases hin : set.isRevoked rev.revokedPubkey = true
    · simp only [if_pos hin]
      rw [hin]
      rfl
    · simp only [if_neg hin]
      rw [eq_false_of_ne_true hin]
      rfl

/-- After any calls the set keeps the first valid revocation of each key, and each call was answered by
the validity of its revocation and by whether the calls before it had revoked the key. Whatever is kept
stays through all later calls. Replicas that got the same revocations in whatever order and however often
answer every check alike. -/
theorem revocations_converge (revs : List Revocation) :
    (∀ key, (insertAll revs).byPubkey key = revs.find? (Revocation.revokes key)) ∧
      (∀ front rev back, revs = front ++ rev :: back →
        ((insertAll front).insert rev).2 =
          rev.verify.map fun _ => !front.any (Revocation.revokes rev.revokedPubkey)) ∧
      (∀ more key rev, (insertAll revs).byPubkey key = some rev →
        (insertAll (revs ++ more)).byPubkey key = some rev) ∧
      ∀ revs', (∀ rev, rev ∈ revs ↔ rev ∈ revs') → ∀ key, (insertAll revs).check key = (insertAll revs').check key := by
  refine ⟨byPubkey_insertAll revs, ?_, ?_, ?_⟩
  · intro front rev back _
    have hrevoked : (insertAll front).isRevoked rev.revokedPubkey =
        front.any (Revocation.revokes rev.revokedPubkey) := by
      rw [isRevoked, byPubkey_insertAll, Bool.eq_iff_iff, List.find?_isSome, List.any_eq_true]
    rw [insert_answer, hrevoked]
  · intro more key rev h
    rw [byPubkey_insertAll] at h ⊢
    rw [List.find?_append, h, Option.some_or]
  · intro revs' hsame key
    have hrevoked : (insertAll revs).isRevoked key = (insertAll revs').isRevoked key := by
      rw [Bool.eq_iff_iff, isRevoked_insertAll, isRevoked_insertAll]
      exact exists_congr fun rev => and_congr_left fun _ => hsame rev
    rw [check, check, hrevoked]

end RevocationSet

end PslBank.Wallet
