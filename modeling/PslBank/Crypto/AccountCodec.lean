import PslBank.Crypto.Account
import PslBank.Lib.Runs

/-!
# The account record as a tuple of fields

Balance and frozen flag share a byte of the record, and `set_balance` overwrites the flag
before it restores it. Seen from outside, the record is a tuple of five independent fields:
every sequence of setter calls does to the record what it does to the tuple, and the tuple
determines the record.
-/
namespace PslBank.Crypto

open PslBank.Lib

set_option autoImplicit false

/-- One call of a setter. A balance has at most 127 bits. -/
inductive Setter where
  | setBalance (balance : ℕ) (hlt : balance < 2 ^ 127)
  | setNonce (nonce : UInt64)
  | setLastActive (epoch : UInt64)
  | setFrozen (frozen : Bool)

namespace Setter

def balance? : Setter → Option ℕ
  | setBalance balance _ => some balance
  | _ => none

def frozen? : Setter → Option Bool
  | setFrozen frozen => some frozen
  | _ => none

def nonce? : Setter → Option UInt64
  | setNonce nonce => some nonce
  | _ => none

def lastActive? : Setter → Option UInt64
  | setLastActive epoch => some epoch
  | _ => none

end Setter

/-- The five fields of a record. -/
structure Fields where
  pubkey : PublicKey
  balance : ℕ
  frozen : Bool
  nonce : UInt64
  lastActive : UInt64
  balance_lt : balance < 2 ^ 127

def Fields.call (f : Fields) : Setter → Fields
  | .setBalance balance hlt => { f with balance := balance, balance_lt := hlt }
  | .setNonce nonce => { f with nonce := nonce }
  | .setLastActive epoch => { f with lastActive := epoch }
  | .setFrozen frozen => { f with frozen := frozen }

namespace Account

def call (a : Account) : Setter → Account
  | .setBalance balance _ => a.setBalance balance
  | .setNonce nonce => a.setNonce nonce
  | .setLastActive epoch => a.setLastActive epoch
  | .setFrozen frozen => a.setFrozen frozen

def fields (a : Account) : Fields :=
  ⟨a.pubkey, a.balance, a.isFrozen, a.nonce, a.lastActive, a.balance_lt⟩

/-! ## The tuple determines the record -/

theorem bytes_eq_reads (a : Account) :
    a.bytes.toList = a.read 0 32 ++ (a.read 32 16 ++ (a.read 48 8 ++ a.read 56 8)) := by
  have hall : a.bytes.toList = a.read 0 (32 + (16 + (8 + 8))) :=
    (List.take_of_length_le (Nat.le_of_eq a.bytes.toList_length)).symm
  rw [hall]
  show slice _ _ _ = slice _ _ _ ++ (slice _ _ _ ++ (slice _ _ _ ++ slice _ _ _))
  rw [slice_append, slice_append, slice_append]

theorem rawBalance_eq_fields (a : Account) :
    a.rawBalance = a.balance + if a.isFrozen then 2 ^ 127 else 0 := by
  have hlt := leNat_lt (a.read balanceOffset balanceLen)
  rw [a.length_read (by decide)] at hlt
  have hraw : a.rawBalance < 2 ^ 128 := hlt
  rw [balance_eq, isFrozen_eq]
  split <;> simp only [decide_eq_true_eq] at * <;> omega

/-- A field of eight bytes is determined by its value. -/
theorem read_eq_of_u64_eq {a b : Account} {off : ℕ} (hoff : off + 8 ≤ 64)
    (h : UInt64.ofNat (leNat (a.read off 8)) = UInt64.ofNat (leNat (b.read off 8))) :
    a.read off 8 = b.read off 8 := by
  have ha := leNat_lt (a.read off 8)
  have hb := leNat_lt (b.read off 8)
  rw [a.length_read hoff] at ha
  rw [b.length_read hoff] at hb
  apply eq_of_leNat_eq ((a.length_read hoff).trans (b.length_read hoff).symm)
  have hnat := congrArg UInt64.toNat h
  rwa [UInt64.toNat_ofNat_of_lt' ha, UInt64.toNat_ofNat_of_lt' hb] at hnat

theorem bytes_eq_of_fields {a b : Account} (hpubkey : a.pubkey = b.pubkey)
    (hbalance : a.balance = b.balance) (hfrozen : a.isFrozen = b.isFrozen) (hnonce : a.nonce = b.nonce)
    (hlastActive : a.lastActive = b.lastActive) : a.bytes = b.bytes := by
  have hkey : a.read 0 32 = b.read 0 32 := congrArg Subtype.val hpubkey
  have hraw : a.read 32 16 = b.read 32 16 := by
    apply eq_of_leNat_eq ((a.length_read (by decide)).trans (b.length_read (by decide)).symm)
    show a.rawBalance = b.rawBalance
    rw [rawBalance_eq_fields, rawBalance_eq_fields, hbalance, hfrozen]
  have hcount : a.read 48 8 = b.read 48 8 := read_eq_of_u64_eq (by decide) hnonce
  have hepoch : a.read 56 8 = b.read 56 8 := read_eq_of_u64_eq (by decide) hlastActive
  apply List.Vector.toList_injective
  rw [bytes_eq_reads, bytes_eq_reads, hkey, hraw, hcount, hepoch]

/-! ## Calls on the record and on the tuple -/

theorem fields_call (a : Account) (c : Setter) : (a.call c).fields = a.fields.call c := by
  cases c with
  | setBalance balance hlt =>
    have hlt' : balance < 2 ^ 128 := by omega
    have hbalance := a.balance_setBalance hlt'
    have hfrozen := a.isFrozen_setBalance hlt'
    rw [Nat.mod_eq_of_lt hlt] at hbalance
    rw [decide_eq_false (Nat.not_le.mpr hlt), Bool.or_false] at hfrozen
    simp only [fields, call, Fields.call, hbalance, hfrozen, pubkey_setBalance, nonce_setBalance,
      lastActive_setBalance]
  | setNonce nonce =>
    simp only [fields, call, Fields.call, pubkey_setNonce, balance_setNonce, isFrozen_setNonce,
      nonce_setNonce, lastActive_setNonce]
  | setLastActive epoch =>
    simp only [fields, call, Fields.call, pubkey_setLastActive, balance_setLastActive,
      isFrozen_setLastActive, nonce_setLastActive, lastActive_setLastActive]
  | setFrozen frozen =>
    simp only [fields, call, Fields.call, pubkey_setFrozen, balance_setFrozen, isFrozen_setFrozen,
      nonce_setFrozen, lastActive_setFrozen]

/-- The record simulates the tuple along every sequence of calls. -/
theorem fields_run (a : Account) (calls : List Setter) :
    (run call a calls).fields = run Fields.call a.fields calls := by
  induction calls generalizing a with
  | nil => rfl
  | cons c calls ih =>
    show (run call (a.call c) calls).fields = run Fields.call (a.fields.call c) calls
    rw [ih, fields_call]

/-- Records and tuples are the same in number: no tuple is missed. -/
theorem fields_bijective : Function.Bijective fields := by
  refine ⟨?_, ?_⟩
  · rintro ⟨a⟩ ⟨b⟩ h
    exact congrArg Account.mk (bytes_eq_of_fields (congrArg Fields.pubkey h) (congrArg Fields.balance h)
      (congrArg Fields.frozen h) (congrArg Fields.nonce h) (congrArg Fields.lastActive h))
  · intro f
    refine ⟨run call (new f.pubkey) [.setBalance f.balance f.balance_lt, .setFrozen f.frozen,
      .setNonce f.nonce, .setLastActive f.lastActive], ?_⟩
    rw [fields_run]
    show Fields.mk (new f.pubkey).pubkey f.balance f.frozen f.nonce f.lastActive f.balance_lt = f
    rw [pubkey_new]

end Account

theorem Fields.run_call (f : Fields) (calls : List Setter) :
    (run Fields.call f calls).pubkey = f.pubkey ∧
      (run Fields.call f calls).balance = (lastGiven Setter.balance? calls).getD f.balance ∧
      (run Fields.call f calls).frozen = (lastGiven Setter.frozen? calls).getD f.frozen ∧
      (run Fields.call f calls).nonce = (lastGiven Setter.nonce? calls).getD f.nonce ∧
      (run Fields.call f calls).lastActive = (lastGiven Setter.lastActive? calls).getD f.lastActive := by
  refine ⟨?_, run_lastGiven ?_ f calls, run_lastGiven ?_ f calls, run_lastGiven ?_ f calls,
    run_lastGiven ?_ f calls⟩
  · have hkeeps : ∀ (f : Fields) (c : Setter), (f.call c).pubkey = f.pubkey := by
      intro f c
      cases c <;> rfl
    exact run_related (fun f g : Fields => g.pubkey = f.pubkey) (fun _ => rfl)
      (fun h h' => h'.trans h) hkeeps f calls
  all_goals
    intro f c
    cases c <;> rfl

/-- The record behaves like the tuple: each getter returns what was set last, or what the
record started with; the key never changes; records with equal getters are equal byte for
byte. -/
theorem account_record_codec :
    (∀ (a : Account) (calls : List Setter),
      (run Account.call a calls).fields = run Fields.call a.fields calls ∧
        (run Account.call a calls).pubkey = a.pubkey ∧
        (run Account.call a calls).balance = (lastGiven Setter.balance? calls).getD a.balance ∧
        (run Account.call a calls).isFrozen = (lastGiven Setter.frozen? calls).getD a.isFrozen ∧
        (run Account.call a calls).nonce = (lastGiven Setter.nonce? calls).getD a.nonce ∧
        (run Account.call a calls).lastActive =
          (lastGiven Setter.lastActive? calls).getD a.lastActive) ∧
    ∀ a b : Account, a.pubkey = b.pubkey → a.balance = b.balance → a.isFrozen = b.isFrozen →
      a.nonce = b.nonce → a.lastActive = b.lastActive → a.bytes = b.bytes := by
  refine ⟨?_, fun _ _ => Account.bytes_eq_of_fields⟩
  intro a calls
  have hrun := a.fields_run calls
  obtain ⟨hpubkey, hbalance, hfrozen, hnonce, hlastActive⟩ := a.fields.run_call calls
  rw [← hrun] at hpubkey hbalance hfrozen hnonce hlastActive
  exact ⟨hrun, hpubkey, hbalance, hfrozen, hnonce, hlastActive⟩

end PslBank.Crypto
