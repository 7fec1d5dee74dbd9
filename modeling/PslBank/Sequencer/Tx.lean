import PslBank.Crypto.Hash
import PslBank.Lib.Encoding

/-!
# Transactions and issuer records

`sequencer/src/tx.rs` and the record of `sequencer/src/issuer_registry.rs`. The
registry itself is a function handed to `validate`, so the JSON form of a record
and its view keys and display name, which no modelled function reads, are absent.
-/
namespace PslBank.Sequencer

open PslBank.Lib PslBank.Crypto

set_option autoImplicit false

/-- The kinds of a transaction, in the order of their bytes. -/
inductive TxKind where
  | transfer
  | mint
  | burn
  | freeze
  | multiAsset
  deriving DecidableEq, Repr

/-- `kind as u8`. -/
def TxKind.tag : TxKind → UInt8
  | .transfer => 0
  | .mint => 1
  | .burn => 2
  | .freeze => 3
  | .multiAsset => 4

/-- The byte tells the kinds apart. -/
theorem TxKind.tag_injective : Function.Injective TxKind.tag := by
  intro k k' h
  cases k <;> cases k' <;> first | rfl | exact absurd h (by decide)

/-- `SignedTx` with the optional fields of all kinds. -/
structure SignedTx where
  kind : TxKind
  assetId : UInt32
  nonce : UInt64
  signer : PublicKey
  recipient : Option PublicKey
  amount : ByteArr 16
  flag : UInt8
  courtOrderHash : Option Hash
  multiPayload : Option Bytes
  originatorMetadata : Option Bytes
  signature : Signature
  deriving DecidableEq

namespace SignedTx

/-- `u128::from_le_bytes(tx.amount)`. -/
def value (tx : SignedTx) : ℕ := leNat tx.amount.toList

/-- A presence byte, then the bytes. -/
def optionBytes : Option Bytes → Bytes
  | some b => 1 :: b
  | none => [0]

/-- A presence byte, then a `u32` length and the bytes. -/
def optionPayload (p : Option Bytes) : Bytes :=
  optionBytes (p.map fun b => toLe 4 b.length ++ b)

/-- The bytes that are signed: every field except `signature`. -/
def canonical (tx : SignedTx) : Bytes :=
  [tx.kind.tag] ++ toLe 4 tx.assetId.toNat ++ toLe 8 tx.nonce.toNat ++ tx.signer.toList ++
    optionBytes (tx.recipient.map (·.toList)) ++ tx.amount.toList ++ [tx.flag] ++
    optionBytes (tx.courtOrderHash.map (·.toList)) ++ optionPayload tx.multiPayload ++
    optionPayload tx.originatorMetadata

/-- The two byte strings keep their length when it is cast to `u32`. -/
structure WellSized (tx : SignedTx) : Prop where
  payload : ∀ b, tx.multiPayload = some b → b.length < 2 ^ 32
  metadata : ∀ b, tx.originatorMetadata = some b → b.length < 2 ^ 32

/-- A presence byte, then an array of known width. -/
theorem delimiting_optionArray (n : ℕ) :
    SelfDelimiting (fun o : Option (ByteArr n) => ∀ a, o = some a → True)
      fun o => optionBytes (o.map (·.toList)) :=
  (delimiting_array n).optional rfl fun _ => rfl

/-- A presence byte, then a length and that many bytes. -/
theorem delimiting_optionPayload :
    SelfDelimiting (fun o : Option Bytes => ∀ b, o = some b → b.length < 2 ^ 32) optionPayload :=
  (delimiting_le 4).lengthPrefixed.optional rfl fun _ => rfl

/-- The signed bytes determine every field but the signature. -/
theorem eq_of_canonical {t u : SignedTx} (ht : t.WellSized) (hu : u.WellSized)
    (h : t.canonical = u.canonical) : { t with signature := u.signature } = u := by
  simp only [canonical, List.append_assoc] at h
  obtain ⟨htag, h⟩ := delimiting_byte trivial trivial h
  obtain ⟨hasset, h⟩ := delimiting_u32_le trivial trivial h
  obtain ⟨hnonce, h⟩ := delimiting_u64_le trivial trivial h
  obtain ⟨hsigner, h⟩ := delimiting_array 32 trivial trivial h
  obtain ⟨hrecipient, h⟩ := delimiting_optionArray 32 (fun _ _ => trivial) (fun _ _ => trivial) h
  obtain ⟨hamount, h⟩ := delimiting_array 16 trivial trivial h
  obtain ⟨hflag, h⟩ := delimiting_byte trivial trivial h
  obtain ⟨horder, h⟩ := delimiting_optionArray 32 (fun _ _ => trivial) (fun _ _ => trivial) h
  obtain ⟨hpayload, h⟩ := delimiting_optionPayload ht.payload hu.payload h
  have hmetadata := delimiting_optionPayload.inj ht.metadata hu.metadata h
  have hkind := TxKind.tag_injective htag
  cases t
  cases u
  simp_all

/-- The account a mint or a freeze acts on. -/
def target (tx : SignedTx) : PublicKey := tx.recipient.getD tx.signer

end SignedTx

/-- Who may mint, freeze and burn an asset, and what the record promises about it. -/
structure IssuerRecord where
  assetId : UInt32
  authorityPubkey : PublicKey
  maxSupply : ByteArr 16
  mintEnabled : Bool
  burnEnabled : Bool
  freezeEnabled : Bool
  travelRuleThreshold : ByteArr 16
  deriving DecidableEq

end PslBank.Sequencer
