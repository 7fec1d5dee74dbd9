import PslBank.Crypto.Account
import PslBank.Crypto.Smt

/-!
# The live state: account tree and registry tree

`sequencer/src/state.rs`. An account is looked up under a key and written back
under the key inside its own record; the two agree on states in which every record
is filed under its own key, and `putAccount` keeps that.
-/
namespace PslBank.Sequencer

open PslBank.Lib PslBank.Crypto

set_option autoImplicit false

/-- The accounts by public key and the issuer records by asset. -/
structure State where
  accounts : SparseMerkleTree
  registry : SparseMerkleTree

namespace State

section

variable [Blake3]

/-- Both trees empty. -/
def new : State := ⟨SparseMerkleTree.new, SparseMerkleTree.new⟩

/-- `State::account`: a key without a record has a fresh one, and so has a record of a wrong
length. -/
def account (s : State) (pubkey : Hash) : Account :=
  match s.accounts.get pubkey with
  | some bytes =>
      if h : bytes.length = 64 then ⟨⟨bytes, h⟩⟩ else Account.new pubkey
  | none => Account.new pubkey

/-- Filed under the key inside the record, not under the key it was read by. -/
def putAccount (s : State) (account : Account) : State :=
  { s with accounts := s.accounts.put account.pubkey account.bytes.toList }

/-- The proof a light client gets. -/
def accountProof (s : State) (pubkey : Hash) : MerkleProof := s.accounts.proof pubkey

def accountsRoot (s : State) : Hash := s.accounts.root

def registryRoot (s : State) : Hash := s.registry.root

/-- Every record sits under its own public key. -/
def WellKeyed (s : State) : Prop := ∀ k, (s.account k).pubkey = k

/-- In the empty state every account is fresh. -/
theorem account_new (k : Hash) : new.account k = Account.new k := rfl

/-- A fresh record carries the key it was asked for. -/
theorem wellKeyed_new : new.WellKeyed := fun k => by rw [account_new, Account.pubkey_new]

/-- A written record is read back, and every other key is left alone. -/
theorem account_putAccount (s : State) (a : Account) (k : Hash) :
    (s.putAccount a).account k = if k = a.pubkey then a else s.account k := by
  unfold account putAccount
  by_cases hk : k = a.pubkey
  · rw [if_pos hk]
    simp only [SparseMerkleTree.get_put, hk, ↓reduceIte, a.isEmpty_bytes, Bool.false_eq_true]
    rw [dif_pos a.bytes.toList_length]
    rfl
  · rw [if_neg hk]
    simp only [SparseMerkleTree.get_put, hk, ↓reduceIte]

/-- Filing a record under its own key keeps the others where they are. -/
theorem WellKeyed.putAccount {s : State} (hs : s.WellKeyed) (a : Account) :
    (s.putAccount a).WellKeyed := by
  intro k
  rw [account_putAccount]
  split
  · rename_i hk
    exact hk.symm
  · exact hs k

end

end State

end PslBank.Sequencer
