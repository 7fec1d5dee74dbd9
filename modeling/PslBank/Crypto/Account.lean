import PslBank.Crypto.Hash

/-!
# The 64-byte account record

The record is an array of bytes and the accessors are the slices of
`crypto/src/account.rs`. The frozen flag is the top bit of the balance field, so
`setBalance` with an argument of `2 ^ 127` or more raises the flag and loses that
bit of the balance. The lemmas give each accessor after each setter; later modules
never look at the bytes again.
-/
namespace PslBank.Crypto

open PslBank.Lib

set_option autoImplicit false

/-- The record as the tree stores it. -/
structure Account where
  bytes : ByteArr 64
  deriving DecidableEq

namespace Account

def pubkeyOffset : ℕ := 0
def pubkeyLen : ℕ := 32
def balanceOffset : ℕ := 32
def balanceLen : ℕ := 16
def nonceOffset : ℕ := 48
def nonceLen : ℕ := 8
def lastActiveOffset : ℕ := 56
def lastActiveLen : ℕ := 8
def flagsByte : ℕ := 47
/-- The top bit of byte 47, which is also bit 127 of the balance field. -/
def frozenFlag : UInt8 := 0x80

/-- `Account::default`: all bytes zero. -/
def default : Account := ⟨List.Vector.replicate 64 0⟩

/-- The array overwritten from `off` on. -/
def write (a : Account) (off : ℕ) (new : Bytes) (h : off + new.length ≤ 64) : Account :=
  ⟨⟨splice a.bytes.toList off new, by
    rw [length_splice (by rw [a.bytes.toList_length]; exact h), a.bytes.toList_length]⟩⟩

/-- The slice `bytes[off .. off + len]`. -/
def read (a : Account) (off len : ℕ) : Bytes := slice a.bytes.toList off len

/-- A record is not the empty value, which the tree takes as absence. -/
theorem isEmpty_bytes (a : Account) : a.bytes.toList.isEmpty = false := by
  cases h : a.bytes.toList with
  | nil =>
    have hlen := a.bytes.toList_length
    simp [h] at hlen
  | cons => rfl

theorem length_read (a : Account) {off len : ℕ} (h : off + len ≤ 64) :
    (a.read off len).length = len :=
  length_slice (by rw [a.bytes.toList_length]; exact h)

/-- `Account::new`: a zero record with the key. -/
def new (pubkey : PublicKey) : Account :=
  default.write pubkeyOffset pubkey.toList (by simp [pubkeyOffset])

/-- The first 32 bytes. -/
def pubkey (a : Account) : PublicKey := ⟨a.read pubkeyOffset pubkeyLen, a.length_read (by decide)⟩

/-- The byte that carries the flag. -/
def flags (a : Account) : UInt8 := a.bytes.get ⟨flagsByte, by decide⟩

/-- `u128::from_le_bytes` of the field with the flag bit masked off. -/
def balance (a : Account) : ℕ :=
  let bytes := a.read balanceOffset balanceLen
  leNat (bytes.modify (flagsByte - balanceOffset) (· &&& ~~~frozenFlag))

/-- The flag bit of byte 47. -/
def isFrozen (a : Account) : Bool := a.flags &&& frozenFlag != 0

/-- Set or clear the flag, leaving the seven bits of the balance beside it. -/
def setFrozen (a : Account) (frozen : Bool) : Account :=
  if frozen then a.write flagsByte [a.flags ||| frozenFlag] (by simp [flagsByte])
  else a.write flagsByte [a.flags &&& ~~~frozenFlag] (by simp [flagsByte])

/-- Write the whole field, then put back the flag that the write may have cleared. A flag that
the write itself raised stays. -/
def setBalance (a : Account) (balance : ℕ) : Account :=
  let written := a.write balanceOffset (toLe balanceLen balance)
    (by rw [length_toLe]; decide)
  if a.isFrozen then written.setFrozen true else written

/-- `u64::from_le_bytes` of the nonce field. -/
def nonce (a : Account) : UInt64 := UInt64.ofNat (leNat (a.read nonceOffset nonceLen))

/-- `to_le_bytes` into the nonce field. -/
def setNonce (a : Account) (nonce : UInt64) : Account :=
  a.write nonceOffset (toLe nonceLen nonce.toNat) (by rw [length_toLe]; decide)

/-- The epoch of the last transaction that touched the record. -/
def lastActive (a : Account) : UInt64 :=
  UInt64.ofNat (leNat (a.read lastActiveOffset lastActiveLen))

def setLastActive (a : Account) (epoch : UInt64) : Account :=
  a.write lastActiveOffset (toLe lastActiveLen epoch.toNat) (by rw [length_toLe]; decide)

/-! ## Reading back after a write -/

/-- A write is read back. -/
theorem read_write_same (a : Account) {off n : ℕ} {new : Bytes} (h : off + new.length ≤ 64)
    (hn : new.length = n) : (a.write off new h).read off n = new := by
  subst hn
  exact slice_splice_same (by rw [a.bytes.toList_length]; exact h)

/-- A write leaves what ends before it. -/
theorem read_write_below (a : Account) {off i n : ℕ} {new : Bytes} (h : off + new.length ≤ 64)
    (hd : i + n ≤ off) : (a.write off new h).read i n = a.read i n :=
  slice_splice_below (by rw [a.bytes.toList_length]; exact h) hd

/-- A write leaves what starts after it. -/
theorem read_write_above (a : Account) {off i n : ℕ} {new : Bytes} (h : off + new.length ≤ 64)
    (hd : off + new.length ≤ i) : (a.write off new h).read i n = a.read i n :=
  slice_splice_above (by rw [a.bytes.toList_length]; exact h) hd

theorem read_flags (a : Account) : a.read flagsByte 1 = [a.flags] := by
  have hlt : flagsByte < a.bytes.toList.length := by rw [a.bytes.toList_length]; decide
  rw [read, slice, List.drop_eq_getElem_cons hlt, List.take_succ_cons, List.take_zero, flags,
    List.Vector.get_eq_get_toList]
  rfl

/-- The whole balance field as an integer, flag bit included. -/
def rawBalance (a : Account) : ℕ := leNat (a.read balanceOffset balanceLen)

/-- The field is fifteen bytes of balance and the byte that carries the flag. -/
theorem read_balance (a : Account) : a.read balanceOffset balanceLen = a.read 32 15 ++ [a.flags] := by
  rw [← read_flags]
  exact slice_append a.bytes.toList 32 15 1

theorem rawBalance_eq (a : Account) :
    a.rawBalance = leNat (a.read 32 15) + 256 ^ 15 * a.flags.toNat := by
  rw [rawBalance, read_balance, leNat_append, a.length_read (by decide)]
  simp

theorem low_lt (a : Account) : leNat (a.read 32 15) < 256 ^ 15 := by
  have h := leNat_lt (a.read 32 15)
  rwa [a.length_read (by decide)] at h

/-- Clearing the flag leaves the low seven bits. -/
theorem masked_toNat (b : UInt8) : (b &&& ~~~frozenFlag).toNat = b.toNat % 128 := toNat_and_low b

theorem raised_toNat (b : UInt8) : (b ||| frozenFlag).toNat = b.toNat % 128 + 128 := toNat_or_high b

/-- The test of the flag compares the byte with 128. -/
theorem flag_set_iff (b : UInt8) : (b &&& frozenFlag != 0) = decide (128 ≤ b.toNat) := by
  rw [Bool.eq_iff_iff, bne_iff_ne, decide_eq_true_iff, ← Nat.not_lt]
  exact not_congr (and_high_eq_zero_iff b)

/-- The balance is the field without its top bit. -/
theorem balance_eq (a : Account) : a.balance = a.rawBalance % 2 ^ 127 := by
  have hlow := a.low_lt
  have hm : (a.read 32 15 ++ [a.flags]).modify (flagsByte - balanceOffset) (· &&& ~~~frozenFlag) =
      a.read 32 15 ++ [a.flags &&& ~~~frozenFlag] := by
    have hl : (a.read 32 15).length = flagsByte - balanceOffset := a.length_read (by decide)
    rw [← hl, modify_last]
  rw [balance, read_balance, hm, leNat_append, a.length_read (by decide), rawBalance_eq]
  simp only [leNat_cons, leNat_nil, masked_toNat]
  omega

/-- The flag is the top bit of the field. -/
theorem isFrozen_eq (a : Account) : a.isFrozen = decide (2 ^ 127 ≤ a.rawBalance) := by
  have hlow := a.low_lt
  rw [isFrozen, flag_set_iff, rawBalance_eq]
  congr 1
  apply propext
  constructor <;> intro h <;> omega

/-- No record holds `2 ^ 127` or more. -/
theorem balance_lt (a : Account) : a.balance < 2 ^ 127 := by
  rw [balance_eq]
  exact Nat.mod_lt _ (by decide)

/-! ## Accessors after setters

Writes outside the balance field keep `rawBalance`, and with it the balance and
the flag; writes to the flag byte move only the top bit. -/

theorem flags_write_flag (a : Account) (b : UInt8) (h : flagsByte + [b].length ≤ 64) :
    (a.write flagsByte [b] h).flags = b := by
  have hw := a.read_write_same h rfl
  rw [List.length_singleton, read_flags] at hw
  exact (List.cons.inj hw).1

theorem rawBalance_write_flag (a : Account) (b : UInt8) (h : flagsByte + [b].length ≤ 64) :
    (a.write flagsByte [b] h).rawBalance = leNat (a.read 32 15) + 256 ^ 15 * b.toNat := by
  rw [rawBalance_eq, a.read_write_below h (by decide), flags_write_flag]

/-- Freezing moves the top bit of the field only. -/
theorem rawBalance_setFrozen (a : Account) (frozen : Bool) :
    (a.setFrozen frozen).rawBalance = a.balance + if frozen then 2 ^ 127 else 0 := by
  have hlow := a.low_lt
  rw [balance_eq, rawBalance_eq a]
  cases frozen <;>
    simp only [setFrozen, Bool.false_eq_true, ↓reduceIte, rawBalance_write_flag, masked_toNat,
      raised_toNat] <;> omega

/-- Freezing and thawing keep the balance. -/
@[simp] theorem balance_setFrozen (a : Account) (frozen : Bool) :
    (a.setFrozen frozen).balance = a.balance := by
  have h := a.balance_lt
  rw [balance_eq, rawBalance_setFrozen]
  cases frozen <;> simp only [↓reduceIte, Bool.false_eq_true] <;> omega

@[simp] theorem isFrozen_setFrozen (a : Account) (frozen : Bool) :
    (a.setFrozen frozen).isFrozen = frozen := by
  have h := a.balance_lt
  rw [isFrozen_eq, rawBalance_setFrozen]
  cases frozen
  · simpa using h
  · simp

theorem read_setFrozen_below (a : Account) (frozen : Bool) {i n : ℕ} (hd : i + n ≤ flagsByte) :
    (a.setFrozen frozen).read i n = a.read i n := by
  cases frozen <;> simp only [setFrozen, Bool.false_eq_true, ↓reduceIte] <;>
    exact a.read_write_below _ hd

theorem read_setFrozen_above (a : Account) (frozen : Bool) {i n : ℕ} (hd : flagsByte + 1 ≤ i) :
    (a.setFrozen frozen).read i n = a.read i n := by
  cases frozen <;> simp only [setFrozen, Bool.false_eq_true, ↓reduceIte] <;>
    exact a.read_write_above _ hd

theorem rawBalance_write_balance (a : Account) (b : ℕ)
    (h : balanceOffset + (toLe balanceLen b).length ≤ 64) :
    (a.write balanceOffset (toLe balanceLen b) h).rawBalance = b % 2 ^ 128 := by
  rw [rawBalance, a.read_write_same h (length_toLe _ _), leNat_toLe]
  rfl

/-- What a write of the balance leaves in the field: a frozen record keeps its flag, an open
one takes bit 127 of the argument for it. -/
theorem rawBalance_setBalance (a : Account) {b : ℕ} (hb : b < 2 ^ 128) :
    (a.setBalance b).rawBalance = if a.isFrozen then b % 2 ^ 127 + 2 ^ 127 else b := by
  have hw := a.rawBalance_write_balance b (by rw [length_toLe]; decide)
  rw [Nat.mod_eq_of_lt hb] at hw
  cases hf : a.isFrozen
  · simp only [setBalance, hf, Bool.false_eq_true, ↓reduceIte, hw]
  · simp only [setBalance, hf, ↓reduceIte, rawBalance_setFrozen, balance_eq, hw]

/-- The balance loses bit 127. -/
theorem balance_setBalance (a : Account) {b : ℕ} (hb : b < 2 ^ 128) :
    (a.setBalance b).balance = b % 2 ^ 127 := by
  rw [balance_eq, rawBalance_setBalance a hb]
  split <;> simp

/-- Bit 127 of the argument lands on the flag. -/
theorem isFrozen_setBalance (a : Account) {b : ℕ} (hb : b < 2 ^ 128) :
    (a.setBalance b).isFrozen = (a.isFrozen || decide (2 ^ 127 ≤ b)) := by
  rw [isFrozen_eq, rawBalance_setBalance a hb]
  cases hf : a.isFrozen <;> simp

theorem read_setBalance_below (a : Account) (b : ℕ) {i n : ℕ} (hd : i + n ≤ balanceOffset) :
    (a.setBalance b).read i n = a.read i n := by
  unfold setBalance
  split
  · rw [read_setFrozen_below _ _ (le_trans hd (by decide)), a.read_write_below _ hd]
  · exact a.read_write_below _ hd

/-- The nonce and the epoch are behind the field. -/
theorem read_setBalance_above (a : Account) (b : ℕ) {i n : ℕ}
    (hd : balanceOffset + balanceLen ≤ i) : (a.setBalance b).read i n = a.read i n := by
  have hw : balanceOffset + (toLe balanceLen b).length ≤ i := by rw [length_toLe]; exact hd
  unfold setBalance
  split
  · rw [read_setFrozen_above _ _ (le_trans (by decide) hd), a.read_write_above _ hw]
  · exact a.read_write_above _ hw

theorem pubkey_eq_of_read {a b : Account} (h : a.read 0 32 = b.read 0 32) : a.pubkey = b.pubkey :=
  Subtype.ext h

/-- The accessors see their own field alone; here and below, equal fields give equal values. -/
theorem balance_eq_of_read {a b : Account} (h : a.read 32 16 = b.read 32 16) :
    a.balance = b.balance := by
  rw [balance_eq, balance_eq]
  exact congrArg (leNat · % 2 ^ 127) h

theorem isFrozen_eq_of_read {a b : Account} (h : a.read 32 16 = b.read 32 16) :
    a.isFrozen = b.isFrozen := by
  rw [isFrozen_eq, isFrozen_eq]
  exact congrArg (fun l => decide (2 ^ 127 ≤ leNat l)) h

theorem nonce_eq_of_read {a b : Account} (h : a.read 48 8 = b.read 48 8) : a.nonce = b.nonce :=
  congrArg (fun l => UInt64.ofNat (leNat l)) h

theorem lastActive_eq_of_read {a b : Account} (h : a.read 56 8 = b.read 56 8) :
    a.lastActive = b.lastActive :=
  congrArg (fun l => UInt64.ofNat (leNat l)) h

@[simp] theorem pubkey_setFrozen (a : Account) (f : Bool) : (a.setFrozen f).pubkey = a.pubkey :=
  pubkey_eq_of_read (a.read_setFrozen_below f (by decide))

@[simp] theorem nonce_setFrozen (a : Account) (f : Bool) : (a.setFrozen f).nonce = a.nonce :=
  nonce_eq_of_read (a.read_setFrozen_above f (by decide))

@[simp] theorem lastActive_setFrozen (a : Account) (f : Bool) :
    (a.setFrozen f).lastActive = a.lastActive :=
  lastActive_eq_of_read (a.read_setFrozen_above f (by decide))

@[simp] theorem pubkey_setBalance (a : Account) (b : ℕ) : (a.setBalance b).pubkey = a.pubkey :=
  pubkey_eq_of_read (a.read_setBalance_below b (by decide))

@[simp] theorem nonce_setBalance (a : Account) (b : ℕ) : (a.setBalance b).nonce = a.nonce :=
  nonce_eq_of_read (a.read_setBalance_above b (by decide))

@[simp] theorem lastActive_setBalance (a : Account) (b : ℕ) :
    (a.setBalance b).lastActive = a.lastActive :=
  lastActive_eq_of_read (a.read_setBalance_above b (by decide))

theorem read_setNonce (a : Account) (n : UInt64) :
    (a.setNonce n).read nonceOffset nonceLen = toLe 8 n.toNat :=
  a.read_write_same _ (length_toLe _ _)

/-- Every setter is read back by its accessor and leaves the other four. -/
@[simp] theorem nonce_setNonce (a : Account) (n : UInt64) : (a.setNonce n).nonce = n := by
  rw [nonce, read_setNonce, leNat_toLe_of_lt n.toNat_lt, UInt64.ofNat_toNat]

@[simp] theorem pubkey_setNonce (a : Account) (n : UInt64) : (a.setNonce n).pubkey = a.pubkey :=
  pubkey_eq_of_read (a.read_write_below _ (by decide))

@[simp] theorem balance_setNonce (a : Account) (n : UInt64) :
    (a.setNonce n).balance = a.balance :=
  balance_eq_of_read (a.read_write_below _ (by decide))

@[simp] theorem isFrozen_setNonce (a : Account) (n : UInt64) :
    (a.setNonce n).isFrozen = a.isFrozen :=
  isFrozen_eq_of_read (a.read_write_below _ (by decide))

@[simp] theorem lastActive_setNonce (a : Account) (n : UInt64) :
    (a.setNonce n).lastActive = a.lastActive :=
  lastActive_eq_of_read (a.read_write_above _ (by rw [length_toLe]; decide))

theorem read_setLastActive (a : Account) (n : UInt64) :
    (a.setLastActive n).read lastActiveOffset lastActiveLen = toLe 8 n.toNat :=
  a.read_write_same _ (length_toLe _ _)

@[simp] theorem lastActive_setLastActive (a : Account) (n : UInt64) :
    (a.setLastActive n).lastActive = n := by
  rw [lastActive, read_setLastActive, leNat_toLe_of_lt n.toNat_lt, UInt64.ofNat_toNat]

@[simp] theorem pubkey_setLastActive (a : Account) (n : UInt64) :
    (a.setLastActive n).pubkey = a.pubkey :=
  pubkey_eq_of_read (a.read_write_below _ (by decide))

@[simp] theorem balance_setLastActive (a : Account) (n : UInt64) :
    (a.setLastActive n).balance = a.balance :=
  balance_eq_of_read (a.read_write_below _ (by decide))

@[simp] theorem isFrozen_setLastActive (a : Account) (n : UInt64) :
    (a.setLastActive n).isFrozen = a.isFrozen :=
  isFrozen_eq_of_read (a.read_write_below _ (by decide))

@[simp] theorem nonce_setLastActive (a : Account) (n : UInt64) :
    (a.setLastActive n).nonce = a.nonce :=
  nonce_eq_of_read (a.read_write_below _ (by decide))

/-! ## Fresh records -/

/-- A fresh record has the key, no balance, no flag and nonce 0. -/
@[simp] theorem pubkey_new (pk : PublicKey) : (new pk).pubkey = pk :=
  Subtype.ext (default.read_write_same _ pk.toList_length)

theorem read_new (pk : PublicKey) {i n : ℕ} (h : 32 ≤ i) : (new pk).read i n = default.read i n :=
  default.read_write_above _ (by simpa [pubkeyOffset] using h)

@[simp] theorem balance_new (pk : PublicKey) : (new pk).balance = 0 := by
  rw [balance_eq_of_read (read_new pk (by decide))]
  decide +kernel

@[simp] theorem isFrozen_new (pk : PublicKey) : (new pk).isFrozen = false := by
  rw [isFrozen_eq_of_read (read_new pk (by decide))]
  decide +kernel

@[simp] theorem nonce_new (pk : PublicKey) : (new pk).nonce = 0 := by
  rw [nonce_eq_of_read (read_new pk (by decide))]
  decide +kernel

end Account

end PslBank.Crypto
