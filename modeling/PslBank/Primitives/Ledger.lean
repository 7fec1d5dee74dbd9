import PslBank.Primitives.Bytewise
import PslBank.Crypto.AccountCodec
import PslBank.Sequencer.Exact

/-!
# The ledger primitives in C

`docs/archive/primitives/ledger_*.c`, the programs whose logic `NativeTraceExecutor` mirrors.
Each reads records and amounts from decimal text and prints the updated records. Their
balance arithmetic runs over all sixteen bytes of the field, the frozen bit included, where
the native executor masks that bit off and puts it back: the theorems say exactly where the
two give the same bytes.
-/
namespace PslBank.Primitives

open PslBank.Lib PslBank.Crypto PslBank.Sequencer

set_option autoImplicit false

/-! ## The programs -/

namespace LedgerFreeze

def compute (input : Bytes) : Except Undefined Bytes := do
  let flag ← scanOne input
  let (account, _) ← parseBytes 64 (skipDigits (skipBlanks input))
  let low7 := (account.getD 47 0).toNat % 128
  let freezeBit := if flag ≠ 0 then 128 else 0
  return printBytes (account.set 47 (toChar (low7 + freezeBit : ℕ))) ++ [10]

end LedgerFreeze

/-- What `ledger_transfer` and each payload of `ledger_multi_asset` make of two records;
`none` where the sender is frozen or short. -/
def pairUpdate (epoch : ℤ) (sender receiver amount : Bytes) :
    Except Undefined (Option (Bytes × Bytes)) :=
  let frozen := sender.getD 47 0 &&& 0x80
  let hasBalance := u128Geq (slice sender 32 16) amount
  if frozen ≠ 0 ∨ hasBalance = false then .ok none
  else do
    let (debited, _) ← u128SubInplace (slice sender 32 16) amount
    let (credited, _) ← u128AddInplace (slice receiver 32 16) amount
    let sender := splice sender 32 debited
    let receiver := splice receiver 32 credited
    let sender := splice sender 48 (u64IncInplace (slice sender 48 8))
    return some (splice sender 56 (u64Set epoch), splice receiver 56 (u64Set epoch))

namespace LedgerTransfer

def compute (input : Bytes) : Except Undefined Bytes := do
  let epoch ← scanOne input
  let (sender, p) ← parseBytes 64 (skipDecimals 1 input)
  let (receiver, p) ← parseBytes 64 p
  let (amount, _) ← parseBytes 16 p
  match ← pairUpdate epoch sender receiver amount with
  | none => return printBytes (List.replicate 128 0) ++ [10]
  | some (sender, receiver) => return printBytes sender ++ spaced (nums receiver) ++ [10]

end LedgerTransfer

namespace LedgerMint

/-- The account is cleared on a carry; `last_active` is set in any case. -/
def update (epoch : ℤ) (receiver amount : Bytes) : Except Undefined Bytes := do
  let (credited, carry) ← u128AddInplace (slice receiver 32 16) amount
  let receiver := splice receiver 32 credited
  let receiver := if carry ≠ 0 then List.replicate 64 0 else receiver
  return splice receiver 56 (u64Set epoch)

def compute (input : Bytes) : Except Undefined Bytes := do
  let epoch ← scanOne input
  let (receiver, p) ← parseBytes 64 (skipDecimals 1 input)
  let (amount, _) ← parseBytes 16 p
  let receiver ← update epoch receiver amount
  return printBytes receiver ++ [10]

end LedgerMint

namespace LedgerBurn

def update (epoch : ℤ) (sender amount : Bytes) : Except Undefined Bytes :=
  if u128Geq (slice sender 32 16) amount = false then .ok (List.replicate 64 0)
  else do
    let (debited, _) ← u128SubInplace (slice sender 32 16) amount
    return splice (splice sender 32 debited) 56 (u64Set epoch)

def compute (input : Bytes) : Except Undefined Bytes := do
  let epoch ← scanOne input
  let (sender, p) ← parseBytes 64 (skipDecimals 1 input)
  let (amount, _) ← parseBytes 16 p
  let sender ← update epoch sender amount
  return printBytes sender ++ [10]

end LedgerBurn

namespace LedgerMultiAsset

/-- The loop over `n` payloads: the bytes of `g_buf`. -/
def payloadLoop (epoch : ℤ) : ℕ → Bytes → Except Undefined Bytes
  | 0, _ => .ok []
  | n + 1, p => do
      let (sender, p) ← parseBytes 64 p
      let (receiver, p) ← parseBytes 64 p
      let (amount, p) ← parseBytes 16 p
      let updated ← pairUpdate epoch sender receiver amount
      let (sender, receiver) := updated.getD (List.replicate 64 0, List.replicate 64 0)
      let rest ← payloadLoop epoch n p
      return sender ++ receiver ++ rest

def compute (input : Bytes) : Except Undefined Bytes := do
  let (epoch, n) ← scanTwo input
  let n := if n < 0 then 0 else if 4 < n then 4 else n
  let buf ← payloadLoop epoch n.toNat (skipDecimals 2 input)
  return printBytes buf ++ [10]

end LedgerMultiAsset

/-! ## Records on the wire -/

theorem spaced_eq_wire {ns : List ℕ} (h : ns ≠ []) : spaced ns = 32 :: wire ns := by
  cases ns with
  | nil => exact absurd rfl h
  | cons n ns => rfl

/-- Different byte strings of one length are printed differently. -/
theorem printBytes_injective {as bs : Bytes} (hlen : as.length = bs.length)
    (h : printBytes as ++ [10] = printBytes bs ++ [10]) : as = bs := by
  have hline : NoDigit [10] := noDigit_cons rfl []
  have hread : ∀ cs : Bytes, cs ≠ [] → parseBytes cs.length (printBytes cs ++ [10]) = .ok (cs, [10]) := by
    intro cs hcs
    have hparse := parseBytes_spaced cs hline
    obtain ⟨c, cs, rfl⟩ := List.exists_cons_of_ne_nil hcs
    rw [spaced_eq_wire (by simp [nums])] at hparse
    exact hparse
  by_cases hnil : as = []
  · rw [hnil] at hlen ⊢
    exact (List.eq_nil_of_length_eq_zero hlen.symm).symm
  · have hnil' : bs ≠ [] := by
      intro hbs
      rw [hbs] at hlen
      exact hnil (List.eq_nil_of_length_eq_zero hlen)
    have ha := hread as hnil
    rw [h, hlen, hread bs hnil'] at ha
    exact (congrArg Prod.fst (Except.ok.inj ha)).symm

/-- The wire of a number and fields after it, read field by field. -/
theorem parseBytes_field (bs rest : Bytes) :
    parseBytes bs.length (spaced (nums (bs ++ rest))) = .ok (bs, spaced (nums rest)) := by
  have hrest : NoDigit (spaced (nums rest)) := by simpa using noDigit_spaced (nums rest) noDigit_nil
  rw [nums_append, spaced_append]
  exact parseBytes_spaced bs hrest

theorem skip_first (n : ℕ) (ns : List ℕ) :
    skipDigits (skipBlanks (wire (n :: ns))) = spaced ns := by
  have hrest : NoDigit (spaced ns) := by simpa using noDigit_spaced ns noDigit_nil
  rw [wire, skipNumber_decimal n hrest]

/-! ## Writes to the whole balance field -/

theorem balance_field_fits (n : ℕ) :
    Account.balanceOffset + (toLe Account.balanceLen n).length ≤ 64 := by
  rw [length_toLe]
  decide

/-- The balance field overwritten, frozen bit included. -/
def writeBalance (a : Account) (n : ℕ) : Account :=
  a.write Account.balanceOffset (toLe Account.balanceLen n) (balance_field_fits n)

theorem rawBalance_writeBalance (a : Account) (n : ℕ) : (writeBalance a n).rawBalance = n % 2 ^ 128 :=
  a.rawBalance_write_balance n _

theorem read_writeBalance_below (a : Account) (n : ℕ) {i k : ℕ} (h : i + k ≤ 32) :
    (writeBalance a n).read i k = a.read i k := a.read_write_below _ h

theorem read_writeBalance_above (a : Account) (n : ℕ) {i k : ℕ} (h : 48 ≤ i) :
    (writeBalance a n).read i k = a.read i k := a.read_write_above _ (by rw [length_toLe]; exact h)

theorem rawBalance_setLastActive (a : Account) (e : UInt64) :
    (a.setLastActive e).rawBalance = a.rawBalance :=
  congrArg leNat (@Account.read_write_below a _ _ _ (toLe Account.lastActiveLen e.toNat) _ (by decide))

/-- Two records that agree outside the balance field are equal where it agrees too. -/
theorem eq_of_rawBalance {a b : Account} (hlow : a.read 0 32 = b.read 0 32)
    (hhigh : a.read 48 8 = b.read 48 8) (hlast : a.read 56 8 = b.read 56 8)
    (hraw : a.rawBalance = b.rawBalance) : a = b := by
  have hfield : a.read 32 16 = b.read 32 16 :=
    eq_of_leNat_eq ((a.length_read (by decide)).trans (b.length_read (by decide)).symm) hraw
  have hbytes : a.bytes = b.bytes := by
    apply List.Vector.toList_injective
    rw [Account.bytes_eq_reads, Account.bytes_eq_reads, hlow, hfield, hhigh, hlast]
  cases a
  cases b
  exact congrArg Account.mk hbytes

/-- Where a write to the whole field does what `set_balance` does. -/
theorem writeBalance_eq_setBalance_iff (a : Account) (n : ℕ) {m : ℕ} (hm : m < 2 ^ 128) (e : UInt64) :
    (writeBalance a n).setLastActive e = (a.setBalance m).setLastActive e ↔
      n % 2 ^ 128 = if a.isFrozen then m % 2 ^ 127 + 2 ^ 127 else m := by
  rw [← a.rawBalance_setBalance hm, ← rawBalance_writeBalance a n]
  constructor
  · intro h
    have hraw := congrArg Account.rawBalance h
    rwa [rawBalance_setLastActive, rawBalance_setLastActive] at hraw
  · intro h
    have heq : writeBalance a n = a.setBalance m := by
      apply eq_of_rawBalance _ _ _ h
      · rw [read_writeBalance_below a n (by decide), a.read_setBalance_below m (by decide)]
      · rw [read_writeBalance_above a n (by decide), a.read_setBalance_above m (by decide)]
      · rw [read_writeBalance_above a n (by decide), a.read_setBalance_above m (by decide)]
    rw [heq]

/-- An unfrozen record has no bit above its balance. -/
theorem writeBalance_of_unfrozen {a : Account} (h : a.isFrozen = false) (n : ℕ) :
    writeBalance a n = a.setBalance n := by
  rw [Account.setBalance, h, if_neg Bool.false_ne_true]
  rfl

/-! ## The updates on records -/

section Updates

variable (a b : Account) (amount : ByteArr 16) (epoch : UInt32)

theorem geq_field : u128Geq (a.read 32 16) amount.toList = decide (leNat amount.toList ≤ a.rawBalance) :=
  geqLoop_reverse _ _ (by rw [a.length_read (by decide), amount.toList_length])

theorem add_field : u128AddInplace (a.read 32 16) amount.toList =
    .ok (toLe 16 (a.rawBalance + leNat amount.toList),
      if 2 ^ 128 ≤ a.rawBalance + leNat amount.toList then 1 else 0) :=
  u128AddInplace_eq (a.length_read (by decide)) amount.toList_length

theorem sub_field (h : leNat amount.toList ≤ a.rawBalance) :
    u128SubInplace (a.read 32 16) amount.toList =
      .ok (toLe 16 (a.rawBalance - leNat amount.toList), 0) :=
  u128SubInplace_eq (a.length_read (by decide)) amount.toList_length h

theorem frozen_byte : (a.bytes.toList.getD 47 0 &&& 0x80 ≠ 0) ↔ a.isFrozen = true := by
  have hget : a.bytes.toList.getD 47 0 = a.flags := by
    rw [List.getD_eq_getElem _ _ (by rw [a.bytes.toList_length]; decide), Account.flags,
      List.Vector.get_eq_get_toList]
    rfl
  rw [hget, Account.isFrozen, bne_iff_ne]
  rfl

theorem inc_nonce : u64IncInplace (a.read 48 8) = toLe 8 (a.nonce + 1).toNat := by
  have hlen : (a.read 48 8).length = 8 := a.length_read (by decide)
  rw [u64IncInplace_eq, hlen]
  apply toLe_congr
  have hnonce : (a.nonce + 1).toNat = (leNat (a.read 48 8) + 1) % 2 ^ 64 := by
    rw [UInt64.toNat_add, Account.nonce, UInt64.toNat_ofNat']
    show (leNat (a.read 48 8) % 2 ^ 64 + 1) % 2 ^ 64 = _
    omega
  rw [hnonce]
  show _ = (leNat (a.read 48 8) + 1) % 2 ^ 64 % 256 ^ 8
  rw [show 256 ^ 8 = 2 ^ 64 from rfl, Nat.mod_mod]

theorem set_epoch : u64Set epoch.toNat = toLe 8 epoch.toUInt64.toNat := by
  rw [u64Set_natCast epoch.toNat_lt, UInt32.toNat_toUInt64]

/-- The sender of a transfer, as the program leaves it. -/
def debited : Account :=
  let x := writeBalance a (a.rawBalance - leNat amount.toList)
  (x.setNonce (x.nonce + 1)).setLastActive epoch.toUInt64

/-- A receiver, as the program leaves it. -/
def credited : Account :=
  (writeBalance b (b.rawBalance + leNat amount.toList)).setLastActive epoch.toUInt64

/-- The two records after `pairUpdate`. -/
theorem pairUpdate_eq : pairUpdate epoch.toNat a.bytes.toList b.bytes.toList amount.toList =
    .ok (if a.isFrozen || decide (a.balance < leNat amount.toList) then none
      else some ((debited a amount epoch).bytes.toList, (credited b amount epoch).bytes.toList)) := by
  have hgeq : u128Geq (slice a.bytes.toList 32 16) amount.toList = _ := geq_field a amount
  have hraw := a.rawBalance_eq_fields
  unfold pairUpdate
  rw [hgeq]
  by_cases hfrozen : a.isFrozen = true
  · rw [if_pos (Or.inl ((frozen_byte a).mpr hfrozen)), hfrozen, Bool.true_or, if_pos rfl]
  · have hunfrozen : a.isFrozen = false := by simpa using hfrozen
    rw [hunfrozen, if_neg Bool.false_ne_true, Nat.add_zero] at hraw
    by_cases hshort : a.balance < leNat amount.toList
    · rw [if_pos (Or.inr (by rw [decide_eq_false_iff_not]; omega)), decide_eq_true hshort,
        Bool.or_true, if_pos rfl]
    · have hle : leNat amount.toList ≤ a.rawBalance := by omega
      have hneither : ¬ (a.bytes.toList.getD 47 0 &&& 0x80 ≠ 0 ∨
          decide (leNat amount.toList ≤ a.rawBalance) = false) := by
        rintro (h | h)
        · exact hfrozen ((frozen_byte a).mp h)
        · exact decide_eq_false_iff_not.mp h hle
      have hsub : u128SubInplace (slice a.bytes.toList 32 16) amount.toList = _ := sub_field a amount hle
      have hadd : u128AddInplace (slice b.bytes.toList 32 16) amount.toList = _ := add_field b amount
      rw [if_neg hneither, hunfrozen, decide_eq_false hshort, Bool.false_or, if_neg Bool.false_ne_true,
        hsub]
      show (u128AddInplace (slice b.bytes.toList 32 16) amount.toList >>= _) = _
      rw [hadd]
      -- each write of the program is one of the record
      show Except.ok (some (splice (splice (writeBalance a _).bytes.toList 48
        (u64IncInplace ((writeBalance a (a.rawBalance - leNat amount.toList)).read 48 8))) 56
          (u64Set epoch.toNat), splice (writeBalance b _).bytes.toList 56 (u64Set epoch.toNat))) = _
      rw [inc_nonce, set_epoch]
      rfl

end Updates

/-! ## Transfers -/

/-- The bytes of some records. -/
def recordBytes (records : List Account) : Bytes := records.flatMap fun a => a.bytes.toList

theorem length_recordBytes (records : List Account) : (recordBytes records).length = 64 * records.length := by
  induction records with
  | nil => rfl
  | cons a records ih =>
    show (a.bytes.toList ++ recordBytes records).length = _
    rw [List.length_append, a.bytes.toList_length, ih, List.length_cons]
    omega

theorem recordBytes_pair (a b : Account) : recordBytes [a, b] = a.bytes.toList ++ b.bytes.toList := by
  simp [recordBytes]

theorem recordBytes_single (a : Account) : recordBytes [a] = a.bytes.toList := by simp [recordBytes]

theorem recordBytes_injective {as bs : List Account} (hlen : as.length = bs.length)
    (h : recordBytes as = recordBytes bs) : as = bs := by
  induction as generalizing bs with
  | nil => exact (List.eq_nil_of_length_eq_zero hlen.symm).symm
  | cons a as ih =>
    cases bs with
    | nil => simp at hlen
    | cons b bs =>
      have happ : a.bytes.toList ++ recordBytes as = b.bytes.toList ++ recordBytes bs := h
      obtain ⟨hhead, htail⟩ := List.append_inj happ
        (by rw [a.bytes.toList_length, b.bytes.toList_length])
      have hab : a = b := by
        cases a
        cases b
        exact congrArg Account.mk (List.Vector.toList_injective hhead)
      rw [hab, ih (by simpa using hlen) htail]

/-- Records of one number are printed alike only where they are equal. -/
theorem print_records_iff {as bs : List Account} (hlen : as.length = bs.length) :
    (Except.ok (printBytes (recordBytes as) ++ [10]) : Except Undefined Bytes) =
      .ok (printBytes (recordBytes bs) ++ [10]) ↔ as = bs := by
  constructor
  · intro h
    apply recordBytes_injective hlen
    exact printBytes_injective (by rw [length_recordBytes, length_recordBytes, hlen]) (Except.ok.inj h)
  · intro h
    rw [h]

theorem toList_ne_nil (a : Account) : a.bytes.toList ≠ [] := by
  intro hnil
  have hlen := a.bytes.toList_length
  rw [hnil] at hlen
  exact absurd hlen (by decide)

/-- What `ledger_transfer` reads: the epoch, both records and the amount. -/
def transferWire (epoch : UInt32) (a b : Account) (amount : ByteArr 16) : Bytes :=
  wire (epoch.toNat :: nums (a.bytes.toList ++ (b.bytes.toList ++ amount.toList)))

theorem printBytes_append {as : Bytes} (h : as ≠ []) (bs : Bytes) :
    printBytes as ++ spaced (nums bs) = printBytes (as ++ bs) := by
  obtain ⟨c, cs, rfl⟩ := List.exists_cons_of_ne_nil h
  show (decimal c.toNat ++ spaced (nums cs)) ++ spaced (nums bs) = decimal c.toNat ++ spaced (nums (cs ++ bs))
  rw [nums_append, spaced_append, List.append_assoc]

section Transfer

variable (a b : Account) (amount : ByteArr 16) (epoch : UInt32)

/-- The two records the program prints. -/
def transferRecords : List Account :=
  if a.isFrozen || decide (a.balance < leNat amount.toList) then [Account.default, Account.default]
  else [debited a amount epoch, credited b amount epoch]

theorem compute_transfer (hepoch : epoch.toNat < 2 ^ 31) :
    LedgerTransfer.compute (transferWire epoch a b amount) =
      .ok (printBytes (recordBytes (transferRecords a b amount epoch)) ++ [10]) := by
  have hscan := scanOne_wire hepoch (nums (a.bytes.toList ++ (b.bytes.toList ++ amount.toList)))
  have hskip : skipDecimals 1 (transferWire epoch a b amount) =
      spaced (nums (a.bytes.toList ++ (b.bytes.toList ++ amount.toList))) := skip_first _ _
  have hfirst : parseBytes 64 (skipDecimals 1 (transferWire epoch a b amount)) =
      .ok (a.bytes.toList, spaced (nums (b.bytes.toList ++ amount.toList))) := by
    have hparse := parseBytes_field a.bytes.toList (b.bytes.toList ++ amount.toList)
    rw [a.bytes.toList_length] at hparse
    rw [hskip, hparse]
  have hsecond : parseBytes 64 (spaced (nums (b.bytes.toList ++ amount.toList))) =
      .ok (b.bytes.toList, spaced (nums amount.toList)) := by
    have hparse := parseBytes_field b.bytes.toList amount.toList
    rwa [b.bytes.toList_length] at hparse
  have hthird : parseBytes 16 (spaced (nums amount.toList)) = .ok (amount.toList, []) := by
    have hparse := parseBytes_field amount.toList []
    rw [amount.toList_length, List.append_nil] at hparse
    exact hparse
  have hupdate := pairUpdate_eq a b amount epoch
  refine bind_eq_ok_iff.mpr ⟨_, hscan, bind_eq_ok_iff.mpr ⟨_, hfirst, bind_eq_ok_iff.mpr ⟨_, hsecond,
    bind_eq_ok_iff.mpr ⟨_, hthird, bind_eq_ok_iff.mpr ⟨_, hupdate, ?_⟩⟩⟩⟩⟩
  by_cases hrefused : (a.isFrozen || decide (a.balance < leNat amount.toList)) = true
  · rw [transferRecords, if_pos hrefused, if_pos hrefused]
    rfl
  · rw [transferRecords, if_neg hrefused, if_neg hrefused]
    show Except.ok (printBytes _ ++ spaced (nums _) ++ [10]) = _
    rw [printBytes_append (toList_ne_nil _), recordBytes_pair]

/-- The receiver, as the native executor leaves it. -/
def nativeCredited : Account :=
  (b.setBalance (wrappingAdd b.balance (leNat amount.toList))).setLastActive epoch.toUInt64

/-- The two records of the native executor. -/
def nativeRecords : List Account :=
  if a.isFrozen || decide (a.balance < leNat amount.toList) then [Account.default, Account.default]
  else [debited a amount epoch, nativeCredited b amount epoch]

/-- The native executor debits the sender as the program does. -/
theorem transferPair_eq : transferPair epoch (leNat amount.toList) a b =
    if a.isFrozen || decide (a.balance < leNat amount.toList) then none
    else some (debited a amount epoch, nativeCredited b amount epoch) := by
  have hraw := a.rawBalance_eq_fields
  unfold transferPair
  by_cases hrefused : (a.isFrozen || decide (a.balance < leNat amount.toList)) = true
  · rw [if_pos hrefused, if_pos hrefused]
  · have hunfrozen : a.isFrozen = false := by
      simp only [Bool.or_eq_true, not_or, Bool.not_eq_true] at hrefused
      exact hrefused.1
    rw [hunfrozen, if_neg Bool.false_ne_true, Nat.add_zero] at hraw
    rw [if_neg hrefused, if_neg hrefused, debited, hraw, writeBalance_of_unfrozen hunfrozen]
    rfl

theorem native_transfer (flag : UInt8) : ∃ r, NativeTraceExecutor.transfer ⟨epoch, [a, b], amount, flag⟩ = .ok r ∧
    r.success = !(a.isFrozen || decide (a.balance < leNat amount.toList)) ∧
    r.updatedAccounts = nativeRecords a b amount epoch := by
  have hpair := transferPair_eq a b amount epoch
  unfold nativeRecords
  by_cases hrefused : (a.isFrozen || decide (a.balance < leNat amount.toList)) = true
  · rw [if_pos hrefused] at hpair
    refine ⟨refused 2, by simp only [NativeTraceExecutor.transfer, hpair], by rw [hrefused]; rfl, ?_⟩
    rw [if_pos hrefused]
    rfl
  · rw [if_neg hrefused] at hpair
    refine ⟨applied [debited a amount epoch, nativeCredited b amount epoch],
      by simp only [NativeTraceExecutor.transfer, hpair], ?_, (if_neg hrefused).symm⟩
    rw [Bool.eq_false_of_not_eq_true hrefused]
    rfl

/-- Where the receiver is written alike. -/
theorem credited_iff (h : leNat amount.toList < 2 ^ 127) :
    credited b amount epoch = nativeCredited b amount epoch ↔
      ¬ (b.isFrozen = true ∧ 2 ^ 127 ≤ b.balance + leNat amount.toList) := by
  have hb := b.balance_lt
  have hraw := b.rawBalance_eq_fields
  have hwrap : wrappingAdd b.balance (leNat amount.toList) = b.balance + leNat amount.toList :=
    Nat.mod_eq_of_lt (by omega)
  rw [credited, nativeCredited, hwrap, writeBalance_eq_setBalance_iff _ _ (by omega)]
  cases hf : b.isFrozen
  · rw [hf, if_neg Bool.false_ne_true] at hraw
    rw [if_neg Bool.false_ne_true]
    simp only [Bool.false_eq_true, false_and, not_false_eq_true, iff_true]
    omega
  · rw [hf, if_pos rfl] at hraw
    rw [if_pos rfl]
    simp only [true_and]
    omega

theorem length_records : (transferRecords a b amount epoch).length = (nativeRecords a b amount epoch).length := by
  unfold transferRecords nativeRecords
  split <;> rfl

/-- Where both records are the same. -/
theorem records_iff : transferRecords a b amount epoch = nativeRecords a b amount epoch ↔
    ((a.isFrozen || decide (a.balance < leNat amount.toList)) = false →
      ¬ (b.isFrozen = true ∧ 2 ^ 127 ≤ b.balance + leNat amount.toList)) := by
  have hbal := a.balance_lt
  unfold transferRecords nativeRecords
  by_cases hrefused : (a.isFrozen || decide (a.balance < leNat amount.toList)) = true
  · rw [if_pos hrefused, if_pos hrefused, hrefused]
    simp
  · have hshort : ¬ a.balance < leNat amount.toList := by
      intro hlt
      exact hrefused (by rw [decide_eq_true hlt, Bool.or_true])
    rw [if_neg hrefused, if_neg hrefused, Bool.eq_false_of_not_eq_true hrefused, List.cons_inj_right,
      List.singleton_inj, credited_iff b amount epoch (by omega)]
    simp only [forall_const]

theorem compute_transfer_overflow (hepoch : 2 ^ 31 ≤ epoch.toNat) :
    LedgerTransfer.compute (transferWire epoch a b amount) = .error .overflow := by
  show (scanOne (wire _) >>= _) = _
  rw [scanOne_wire_overflow hepoch]
  rfl

/-- The program and the native executor give the same bytes for a transfer, unless it goes
through to a frozen receiver whose balance passes `2 ^ 127`. An epoch that is no `int` leaves
the program without a defined result. -/
theorem ledger_transfer_iff (flag : UInt8) :
    ∃ r, NativeTraceExecutor.transfer ⟨epoch, [a, b], amount, flag⟩ = .ok r ∧
      (epoch.toNat < 2 ^ 31 →
        (LedgerTransfer.compute (transferWire epoch a b amount) =
            .ok (printBytes (recordBytes r.updatedAccounts) ++ [10]) ↔
          ¬ (r.success = true ∧ b.isFrozen = true ∧ 2 ^ 127 ≤ b.balance + leNat amount.toList))) ∧
      (2 ^ 31 ≤ epoch.toNat →
        LedgerTransfer.compute (transferWire epoch a b amount) = .error .overflow) := by
  obtain ⟨r, hnative, hsuccess, hupdated⟩ := native_transfer a b amount epoch flag
  refine ⟨r, hnative, ?_, ?_⟩
  · intro hepoch
    rw [compute_transfer a b amount epoch hepoch, hupdated, hsuccess]
    refine (print_records_iff (length_records a b amount epoch)).trans ?_
    rw [records_iff, ← Bool.not_eq_true', ← not_and]
  · exact compute_transfer_overflow a b amount epoch

end Transfer

/-! ## Freezing -/

section Freeze

variable (a : Account) (flag : UInt8)

/-- The byte `set_frozen` writes, as a number. -/
theorem flags_setFrozen :
    (a.setFrozen (flag != 0)).flags.toNat = a.flags.toNat % 128 + if flag.toNat ≠ 0 then 128 else 0 := by
  by_cases hzero : flag = 0
  · subst hzero
    rw [Account.setFrozen, if_neg (by decide), Account.flags_write_flag, Account.masked_toNat]
    rfl
  · have hne : flag.toNat ≠ 0 := fun h => hzero (UInt8.toNat_inj.mp h)
    rw [Account.setFrozen, if_pos (bne_iff_ne.mpr hzero), Account.flags_write_flag, Account.raised_toNat,
      if_pos hne]

theorem set_flags_byte : a.bytes.toList.set 47 (a.setFrozen (flag != 0)).flags =
    (a.setFrozen (flag != 0)).bytes.toList := by
  have hlen := a.bytes.toList_length
  have hsplice : ∀ b : UInt8, splice a.bytes.toList 47 [b] = a.bytes.toList.set 47 b := by
    intro b
    rw [List.set_eq_take_append_cons_drop, if_pos (by omega), splice]
    simp
  cases hf : (flag != 0)
  · rw [Account.setFrozen, if_neg Bool.false_ne_true, Account.flags_write_flag]
    exact (hsplice _).symm
  · rw [Account.setFrozen, if_pos rfl, Account.flags_write_flag]
    exact (hsplice _).symm

theorem compute_freeze : LedgerFreeze.compute (wire (flag.toNat :: nums a.bytes.toList)) =
    .ok (printBytes (a.setFrozen (flag != 0)).bytes.toList ++ [10]) := by
  have hflag := flag.toNat_lt
  have hscan := scanOne_wire (show flag.toNat < 2 ^ 31 by omega) (nums a.bytes.toList)
  have hparse : parseBytes 64 (skipDigits (skipBlanks (wire (flag.toNat :: nums a.bytes.toList)))) =
      .ok (a.bytes.toList, []) := by
    have hfield := parseBytes_field a.bytes.toList []
    rw [a.bytes.toList_length, List.append_nil] at hfield
    rw [skip_first, hfield]
    rfl
  have hget : a.bytes.toList.getD 47 0 = a.flags := by
    rw [List.getD_eq_getElem _ _ (by rw [a.bytes.toList_length]; decide), Account.flags,
      List.Vector.get_eq_get_toList]
    rfl
  have hbit : (if (flag.toNat : ℤ) ≠ 0 then 128 else 0 : ℕ) = if flag.toNat ≠ 0 then 128 else 0 := by
    simp
  refine bind_eq_ok_iff.mpr ⟨_, hscan, bind_eq_ok_iff.mpr ⟨_, hparse, ?_⟩⟩
  show Except.ok (printBytes (a.bytes.toList.set 47 (toChar (((a.bytes.toList.getD 47 0).toNat % 128 +
    if (flag.toNat : ℤ) ≠ 0 then 128 else 0 : ℕ) : ℤ))) ++ [10]) = _
  rw [hget, hbit, ← flags_setFrozen, toChar_natCast, UInt8.ofNat_toNat, set_flags_byte]

/-- `ledger_freeze` prints the record of the native executor, for every flag; and the pair it was
decomposed into, `freeze_setup` and `freeze_apply`, prints byte 47 of it. -/
theorem ledger_freeze_decomposed (epoch : UInt32) (amount : ByteArr 16) :
    ∃ b : Account, NativeTraceExecutor.freeze ⟨epoch, [a], amount, flag⟩ = .ok (applied [b]) ∧
      LedgerFreeze.compute (wire (flag.toNat :: nums a.bytes.toList)) =
        .ok (printBytes b.bytes.toList ++ [10]) ∧
      ∃ byte47 : UInt8, FreezeSetup.compute (wire (flag.toNat :: nums a.bytes.toList)) =
          .ok (wire [flag.toNat, byte47.toNat] ++ [10]) ∧
        FreezeApply.compute (wire [flag.toNat, byte47.toNat]) = .ok (wire [b.flags.toNat] ++ [10]) := by
  have hflag := flag.toNat_lt
  refine ⟨a.setFrozen (flag != 0), rfl, compute_freeze a flag, a.flags, ?_, ?_⟩
  · obtain ⟨front, back, hfront, hrecord⟩ := record_split a.bytes
    rw [hrecord]
    exact FreezeSetup.compute_wire (by omega) front back _ hfront
  · rw [FreezeApply.compute_wire (by omega) a.flags, flags_setFrozen]

end Freeze

/-! ## Minting and burning -/

section MintBurn

variable (a : Account) (amount : ByteArr 16) (epoch : UInt32)

/-- What `ledger_mint` and `ledger_burn` read: the epoch, a record and the amount. -/
def recordWire : Bytes := wire (epoch.toNat :: nums (a.bytes.toList ++ amount.toList))

theorem parse_record : parseBytes 64 (skipDecimals 1 (recordWire a amount epoch)) =
    .ok (a.bytes.toList, spaced (nums amount.toList)) := by
  have hskip : skipDecimals 1 (recordWire a amount epoch) =
      spaced (nums (a.bytes.toList ++ amount.toList)) := skip_first _ _
  have hparse := parseBytes_field a.bytes.toList amount.toList
  rw [a.bytes.toList_length] at hparse
  rw [hskip, hparse]

theorem parse_amount : parseBytes 16 (spaced (nums amount.toList)) = .ok (amount.toList, []) := by
  have hparse := parseBytes_field amount.toList []
  rw [amount.toList_length, List.append_nil] at hparse
  exact hparse

/-- The record `ledger_mint` prints. -/
def mintRecord : Account :=
  if 2 ^ 128 ≤ a.rawBalance + leNat amount.toList then Account.default.setLastActive epoch.toUInt64
  else credited a amount epoch

theorem mint_update :
    LedgerMint.update epoch.toNat a.bytes.toList amount.toList =
      .ok (mintRecord a amount epoch).bytes.toList := by
  have hadd : u128AddInplace (slice a.bytes.toList 32 16) amount.toList = _ := add_field a amount
  refine bind_eq_ok_iff.mpr ⟨_, hadd, ?_⟩
  unfold mintRecord
  by_cases hcarry : 2 ^ 128 ≤ a.rawBalance + leNat amount.toList
  · rw [if_pos hcarry, if_pos hcarry]
    show Except.ok (splice (List.replicate 64 0) 56 (u64Set epoch.toNat)) = _
    rw [set_epoch]
    rfl
  · rw [if_neg hcarry, if_neg hcarry]
    show Except.ok (splice (writeBalance a _).bytes.toList 56 (u64Set epoch.toNat)) = _
    rw [set_epoch]
    rfl

theorem compute_mint (hepoch : epoch.toNat < 2 ^ 31) :
    LedgerMint.compute (recordWire a amount epoch) =
      .ok (printBytes (recordBytes [mintRecord a amount epoch]) ++ [10]) := by
  have hscan := scanOne_wire hepoch (nums (a.bytes.toList ++ amount.toList))
  refine bind_eq_ok_iff.mpr ⟨_, hscan, bind_eq_ok_iff.mpr ⟨_, parse_record a amount epoch,
    bind_eq_ok_iff.mpr ⟨_, parse_amount amount, bind_eq_ok_iff.mpr ⟨_, mint_update a amount epoch, ?_⟩⟩⟩⟩
  rw [recordBytes_single]
  rfl

theorem compute_mint_overflow (hepoch : 2 ^ 31 ≤ epoch.toNat) :
    LedgerMint.compute (recordWire a amount epoch) = .error .overflow := by
  show (scanOne (wire _) >>= _) = _
  rw [scanOne_wire_overflow hepoch]
  rfl

theorem rawBalance_default_setLastActive (e : UInt64) : (Account.default.setLastActive e).rawBalance = 0 := by
  rw [rawBalance_setLastActive]
  decide

theorem default_setLastActive_iff (e : UInt64) : Account.default.setLastActive e = Account.default ↔ e = 0 := by
  constructor
  · intro h
    have hlast := congrArg Account.lastActive h
    rw [Account.lastActive_setLastActive] at hlast
    rw [hlast]
    decide
  · rintro rfl
    decide

theorem mintRecord_of_lt (h : a.rawBalance + leNat amount.toList < 2 ^ 128) :
    mintRecord a amount epoch =
      (a.setBalance (a.balance + leNat amount.toList)).setLastActive epoch.toUInt64 := by
  have hraw := a.rawBalance_eq_fields
  have hfits : a.balance + leNat amount.toList < 2 ^ 128 := by omega
  rw [mintRecord, if_neg (Nat.not_le.mpr h), credited, writeBalance_eq_setBalance_iff _ _ hfits,
    Nat.mod_eq_of_lt h]
  by_cases hf : a.isFrozen = true
  · rw [if_pos hf] at hraw ⊢
    omega
  · rw [if_neg hf] at hraw ⊢
    omega

/-- The program and the native executor mint alike where the whole field does not overflow. On an
overflow the program still writes the epoch into the cleared record, so then they agree only for
epoch 0, and not at all where only the frozen bit makes the field overflow. -/
theorem ledger_mint_iff (flag : UInt8) :
    ∃ r, NativeTraceExecutor.mint ⟨epoch, [a], amount, flag⟩ = .ok r ∧
      (epoch.toNat < 2 ^ 31 →
        (LedgerMint.compute (recordWire a amount epoch) =
            .ok (printBytes (recordBytes r.updatedAccounts) ++ [10]) ↔
          a.rawBalance + leNat amount.toList < 2 ^ 128 ∨
            (2 ^ 128 ≤ a.balance + leNat amount.toList ∧ epoch = 0))) ∧
      (2 ^ 31 ≤ epoch.toNat →
        LedgerMint.compute (recordWire a amount epoch) = .error .overflow) := by
  have hbal := a.balance_lt
  have hraw := a.rawBalance_eq_fields
  have hoverflow := compute_mint_overflow a amount epoch
  by_cases hfits : a.balance + leNat amount.toList < 2 ^ 128
  · refine ⟨applied [(a.setBalance (a.balance + leNat amount.toList)).setLastActive epoch.toUInt64], ?_,
      ?_, hoverflow⟩
    · exact NativeTraceExecutor.mint_of_fits hfits
    · intro hepoch
      rw [compute_mint a amount epoch hepoch]
      refine (print_records_iff (by rfl)).trans ?_
      show [mintRecord a amount epoch] =
        [(a.setBalance (a.balance + leNat amount.toList)).setLastActive epoch.toUInt64] ↔ _
      rw [List.singleton_inj]
      by_cases hcarry : 2 ^ 128 ≤ a.rawBalance + leNat amount.toList
      · -- only the frozen bit overflows: the native record keeps it, the cleared one has none
        have hfrozen : a.isFrozen = true := by
          by_contra hf
          rw [if_neg hf] at hraw
          omega
        rw [mintRecord, if_pos hcarry]
        constructor
        · intro h
          have hzero := congrArg Account.rawBalance h
          rw [rawBalance_default_setLastActive, rawBalance_setLastActive,
            a.rawBalance_setBalance hfits, if_pos hfrozen] at hzero
          omega
        · intro h
          omega
      · have hlt : a.rawBalance + leNat amount.toList < 2 ^ 128 := Nat.not_le.mp hcarry
        rw [mintRecord_of_lt a amount epoch hlt]
        simp only [hlt, true_or]
  · refine ⟨refused 1, ?_, ?_, hoverflow⟩
    · exact NativeTraceExecutor.mint_of_overflow hfits
    · intro hepoch
      have hcarry : 2 ^ 128 ≤ a.rawBalance + leNat amount.toList := by
        rw [hraw]
        omega
      have hzero : epoch.toUInt64 = 0 ↔ epoch = 0 := by
        rw [← UInt64.toNat_inj, ← UInt32.toNat_inj, UInt32.toNat_toUInt64]
        rfl
      rw [compute_mint a amount epoch hepoch]
      refine (print_records_iff (by rfl)).trans ?_
      show [mintRecord a amount epoch] = [Account.default] ↔ _
      rw [List.singleton_inj, mintRecord, if_pos hcarry, default_setLastActive_iff, hzero]
      constructor
      · intro h
        exact Or.inr ⟨Nat.not_lt.mp hfits, h⟩
      · rintro (h | ⟨-, h⟩)
        · omega
        · exact h

/-- The record `ledger_burn` prints. -/
def burnRecord : Account :=
  if leNat amount.toList ≤ a.rawBalance then
    (writeBalance a (a.rawBalance - leNat amount.toList)).setLastActive epoch.toUInt64
  else Account.default

theorem burn_update :
    LedgerBurn.update epoch.toNat a.bytes.toList amount.toList =
      .ok (burnRecord a amount epoch).bytes.toList := by
  have hgeq : u128Geq (slice a.bytes.toList 32 16) amount.toList = _ := geq_field a amount
  rw [LedgerBurn.update, hgeq]
  unfold burnRecord
  by_cases hle : leNat amount.toList ≤ a.rawBalance
  · have hsub : u128SubInplace (slice a.bytes.toList 32 16) amount.toList = _ := sub_field a amount hle
    rw [if_pos hle, decide_eq_true hle, if_neg (by simp), hsub]
    show Except.ok (splice (writeBalance a _).bytes.toList 56 (u64Set epoch.toNat)) = _
    rw [set_epoch]
    rfl
  · rw [if_neg hle, decide_eq_false hle, if_pos rfl]
    rfl

theorem compute_burn (hepoch : epoch.toNat < 2 ^ 31) :
    LedgerBurn.compute (recordWire a amount epoch) =
      .ok (printBytes (recordBytes [burnRecord a amount epoch]) ++ [10]) := by
  have hscan := scanOne_wire hepoch (nums (a.bytes.toList ++ amount.toList))
  refine bind_eq_ok_iff.mpr ⟨_, hscan, bind_eq_ok_iff.mpr ⟨_, parse_record a amount epoch,
    bind_eq_ok_iff.mpr ⟨_, parse_amount amount, bind_eq_ok_iff.mpr ⟨_, burn_update a amount epoch, ?_⟩⟩⟩⟩
  rw [recordBytes_single]
  rfl

theorem compute_burn_overflow (hepoch : 2 ^ 31 ≤ epoch.toNat) :
    LedgerBurn.compute (recordWire a amount epoch) = .error .overflow := by
  show (scanOne (wire _) >>= _) = _
  rw [scanOne_wire_overflow hepoch]
  rfl

theorem native_burn (flag : UInt8) : ∃ r, NativeTraceExecutor.burn ⟨epoch, [a], amount, flag⟩ = .ok r ∧
    r.success = !decide (a.balance < leNat amount.toList) ∧
    r.updatedAccounts = if a.balance < leNat amount.toList then [Account.default]
      else [(a.setBalance (a.balance - leNat amount.toList)).setLastActive epoch.toUInt64] := by
  by_cases hshort : a.balance < leNat amount.toList
  · exact ⟨refused 1, if_pos hshort, by rw [decide_eq_true hshort]; rfl, (if_pos hshort).symm⟩
  · exact ⟨applied _, if_neg hshort, by rw [decide_eq_false hshort]; rfl, (if_neg hshort).symm⟩

theorem burnRecord_of_le (h : ¬ a.balance < leNat amount.toList) :
    burnRecord a amount epoch =
      (a.setBalance (a.balance - leNat amount.toList)).setLastActive epoch.toUInt64 := by
  have hbal := a.balance_lt
  have hraw := a.rawBalance_eq_fields
  have hle : leNat amount.toList ≤ a.rawBalance := by omega
  have hdiff : a.balance - leNat amount.toList < 2 ^ 128 := by omega
  rw [burnRecord, if_pos hle, writeBalance_eq_setBalance_iff a _ hdiff]
  by_cases hf : a.isFrozen = true
  · rw [if_pos hf] at hraw ⊢
    omega
  · rw [if_neg hf] at hraw ⊢
    omega

/-- Paying with the frozen bit. -/
theorem burnRecord_thawed (hf : a.isFrozen = true) (hshort : a.balance < leNat amount.toList)
    (hle : leNat amount.toList ≤ a.rawBalance) :
    (burnRecord a amount epoch).pubkey = a.pubkey ∧ (burnRecord a amount epoch).isFrozen = false ∧
      (burnRecord a amount epoch).balance + leNat amount.toList = a.balance + 2 ^ 127 := by
  have hbal := a.balance_lt
  have hraw := a.rawBalance_eq_fields
  rw [if_pos hf] at hraw
  have hwritten : (writeBalance a (a.rawBalance - leNat amount.toList)).rawBalance =
      a.rawBalance - leNat amount.toList := by
    rw [rawBalance_writeBalance]
    exact Nat.mod_eq_of_lt (by omega)
  rw [burnRecord, if_pos hle, Account.pubkey_setLastActive, Account.isFrozen_setLastActive,
    Account.balance_setLastActive, Account.isFrozen_eq, Account.balance_eq, hwritten]
  refine ⟨Account.pubkey_eq_of_read (read_writeBalance_below a _ (by decide)), ?_, ?_⟩
  · rw [decide_eq_false_iff_not]
    omega
  · omega

/-- The program and the native executor burn alike, except where the amount lies between the
balance of a frozen record and the whole field: there the native executor refuses, and the program
takes the frozen bit for funds and prints a record that is no longer frozen. -/
theorem ledger_burn_cases (flag : UInt8) :
    ∃ r, NativeTraceExecutor.burn ⟨epoch, [a], amount, flag⟩ = .ok r ∧
      (epoch.toNat < 2 ^ 31 →
        (¬ (a.isFrozen = true ∧ a.balance < leNat amount.toList ∧ leNat amount.toList ≤ a.rawBalance) →
          LedgerBurn.compute (recordWire a amount epoch) =
            .ok (printBytes (recordBytes r.updatedAccounts) ++ [10])) ∧
        (a.isFrozen = true ∧ a.balance < leNat amount.toList ∧ leNat amount.toList ≤ a.rawBalance →
          r.success = false ∧ ∃ c : Account,
            LedgerBurn.compute (recordWire a amount epoch) = .ok (printBytes c.bytes.toList ++ [10]) ∧
              c.pubkey = a.pubkey ∧ c.isFrozen = false ∧
                c.balance + leNat amount.toList = a.balance + 2 ^ 127)) ∧
      (2 ^ 31 ≤ epoch.toNat →
        LedgerBurn.compute (recordWire a amount epoch) = .error .overflow) := by
  have hbal := a.balance_lt
  have hraw := a.rawBalance_eq_fields
  obtain ⟨r, hnative, hsuccess, hupdated⟩ := native_burn a amount epoch flag
  refine ⟨r, hnative, ?_, ?_⟩
  · intro hepoch
    rw [compute_burn a amount epoch hepoch, hsuccess, hupdated]
    constructor
    · intro hnot
      refine (print_records_iff (by split <;> rfl)).mpr ?_
      by_cases hshort : a.balance < leNat amount.toList
      · have hmore : a.rawBalance < leNat amount.toList := by
          by_contra hle
          by_cases hf : a.isFrozen = true
          · exact hnot ⟨hf, hshort, Nat.not_lt.mp hle⟩
          · rw [if_neg hf] at hraw
            omega
        rw [if_pos hshort, burnRecord, if_neg (Nat.not_le.mpr hmore)]
      · rw [if_neg hshort, burnRecord_of_le a amount epoch hshort]
    · intro hyp
      obtain ⟨hf, hshort, hle⟩ := hyp
      exact ⟨by rw [decide_eq_true hshort]; rfl, burnRecord a amount epoch, by rw [recordBytes_single],
        burnRecord_thawed a amount epoch hf hshort hle⟩
  · exact compute_burn_overflow a amount epoch

end MintBurn

/-! ## Batches of transfers -/

section MultiAsset

variable (amount : ByteArr 16) (epoch : UInt32)

/-- One payload on the wire: both records and the amount. -/
def payloadBytes (ps : List (Account × Account)) : Bytes :=
  ps.flatMap fun p => p.1.bytes.toList ++ (p.2.bytes.toList ++ amount.toList)

/-- The records the program prints for the payloads. -/
def batchRecords (ps : List (Account × Account)) : List Account :=
  ps.flatMap fun p => transferRecords p.1 p.2 amount epoch

theorem payloadLoop_eq (n : ℕ) (ps : List (Account × Account)) (hn : n ≤ ps.length) :
    LedgerMultiAsset.payloadLoop epoch.toNat n (spaced (nums (payloadBytes amount ps))) =
      .ok (recordBytes (batchRecords amount epoch (ps.take n))) := by
  induction n generalizing ps with
  | zero => rfl
  | succ n ih =>
    cases ps with
    | nil => exact absurd hn (by simp)
    | cons p ps =>
      obtain ⟨a, b⟩ := p
      have hsplit : payloadBytes amount ((a, b) :: ps) =
          a.bytes.toList ++ (b.bytes.toList ++ (amount.toList ++ payloadBytes amount ps)) := by
        simp [payloadBytes]
      have hfirst := parseBytes_field a.bytes.toList
        (b.bytes.toList ++ (amount.toList ++ payloadBytes amount ps))
      have hsecond := parseBytes_field b.bytes.toList (amount.toList ++ payloadBytes amount ps)
      have hthird := parseBytes_field amount.toList (payloadBytes amount ps)
      rw [a.bytes.toList_length, ← hsplit] at hfirst
      rw [b.bytes.toList_length] at hsecond
      rw [amount.toList_length] at hthird
      have hrest := ih ps (Nat.le_of_succ_le_succ hn)
      have hupdate := pairUpdate_eq a b amount epoch
      refine bind_eq_ok_iff.mpr ⟨_, hfirst, bind_eq_ok_iff.mpr ⟨_, hsecond, bind_eq_ok_iff.mpr
        ⟨_, hthird, bind_eq_ok_iff.mpr ⟨_, hupdate, bind_eq_ok_iff.mpr ⟨_, hrest, ?_⟩⟩⟩⟩⟩
      have hbatch : batchRecords amount epoch (((a, b) :: ps).take (n + 1)) =
          transferRecords a b amount epoch ++ batchRecords amount epoch (ps.take n) := rfl
      have hbytes : recordBytes (transferRecords a b amount epoch ++ batchRecords amount epoch (ps.take n)) =
          recordBytes (transferRecords a b amount epoch) ++
            recordBytes (batchRecords amount epoch (ps.take n)) := List.flatMap_append
      rw [hbatch, hbytes, transferRecords]
      by_cases hrefused : (a.isFrozen || decide (a.balance < leNat amount.toList)) = true
      · rw [if_pos hrefused, if_pos hrefused]
        rfl
      · rw [if_neg hrefused, if_neg hrefused, recordBytes_pair]
        rfl

/-- What `ledger_multi_asset` reads. -/
def batchWire (ps : List (Account × Account)) : Bytes :=
  wire (epoch.toNat :: ps.length :: nums (payloadBytes amount ps))

/-- Payloads after the fourth are not looked at. -/
theorem compute_batch (ps : List (Account × Account)) (hepoch : epoch.toNat < 2 ^ 31)
    (hn : ps.length < 2 ^ 31) : LedgerMultiAsset.compute (batchWire amount epoch ps) =
      .ok (printBytes (recordBytes (batchRecords amount epoch (ps.take 4))) ++ [10]) := by
  have hscan := scanTwo_wire hepoch hn (nums (payloadBytes amount ps))
  have hskip : skipDecimals 2 (batchWire amount epoch ps) = spaced (nums (payloadBytes amount ps)) := by
    have hrest : NoDigit (spaced (nums (payloadBytes amount ps))) := by
      simpa using noDigit_spaced (nums (payloadBytes amount ps)) noDigit_nil
    have hsecond := skipDecimals_spaced [ps.length] hrest
    rw [← spaced_append] at hsecond
    show skipDecimals 1 (skipDigits (skipBlanks (wire (_ :: _)))) = _
    rw [skip_first]
    exact hsecond
  have hclamp : (if (ps.length : ℤ) < 0 then (0 : ℤ) else if 4 < (ps.length : ℤ) then 4 else ps.length).toNat =
      min ps.length 4 := by
    split
    · omega
    · split <;> omega
  have hloop := payloadLoop_eq amount epoch (min ps.length 4) ps (Nat.min_le_left _ _)
  have htake : ps.take (min ps.length 4) = ps.take 4 := by
    rw [Nat.min_comm, ← List.take_take, List.take_length]
  rw [htake] at hloop
  refine bind_eq_ok_iff.mpr ⟨_, hscan, bind_eq_ok_iff.mpr ⟨_, ?_, rfl⟩⟩
  rw [hskip, ← hloop, hclamp]

/-- The records of the native executor for all pairs. -/
theorem multiAssetLoop_eq (ps : List (Account × Account)) :
    (NativeTraceExecutor.multiAssetLoop epoch (leNat amount.toList) (ps.flatMap fun p => [p.1, p.2])).1 =
      ps.flatMap fun p => nativeRecords p.1 p.2 amount epoch := by
  induction ps with
  | nil => rfl
  | cons p ps ih =>
    obtain ⟨a, b⟩ := p
    have hpair := transferPair_eq a b amount epoch
    rw [List.flatMap_cons, List.flatMap_cons, List.cons_append, List.singleton_append,
      NativeTraceExecutor.multiAssetLoop, hpair, ← ih, nativeRecords]
    by_cases hrefused : (a.isFrozen || decide (a.balance < leNat amount.toList)) = true
    · rw [if_pos hrefused, if_pos hrefused]
      rfl
    · rw [if_neg hrefused, if_neg hrefused]
      rfl

/-- Blocks of one length are equal one by one. -/
theorem flatMap_eq_iff {f g : Account × Account → List Account} (hlen : ∀ p, (f p).length = (g p).length)
    (ps : List (Account × Account)) : ps.flatMap f = ps.flatMap g ↔ ∀ p ∈ ps, f p = g p := by
  induction ps with
  | nil => simp
  | cons p ps ih =>
    rw [List.flatMap_cons, List.flatMap_cons, List.forall_mem_cons, ← ih]
    constructor
    · exact fun h => List.append_inj h (hlen p)
    · intro hyp
      obtain ⟨hhead, htail⟩ := hyp
      rw [hhead, htail]

theorem take_flatMap_native (ps : List (Account × Account)) (n : ℕ) :
    (ps.flatMap fun p => nativeRecords p.1 p.2 amount epoch).take (2 * n) =
      (ps.take n).flatMap fun p => nativeRecords p.1 p.2 amount epoch := by
  have hlen : ∀ p : Account × Account, (nativeRecords p.1 p.2 amount epoch).length = 2 := by
    intro p
    unfold nativeRecords
    split <;> rfl
  induction ps generalizing n with
  | nil => simp
  | cons p ps ih =>
    cases n with
    | zero => rfl
    | succ n =>
      rw [List.flatMap_cons, List.take_succ_cons, List.flatMap_cons, ← ih n, List.take_append, hlen,
        List.take_of_length_le (by rw [hlen]; omega)]
      congr 2

theorem native_batch (ps : List (Account × Account)) (flag : UInt8) (hne : ps ≠ []) :
    ∃ r, NativeTraceExecutor.multiAsset ⟨epoch, ps.flatMap fun p => [p.1, p.2], amount, flag⟩ = .ok r ∧
      r.updatedAccounts = ps.flatMap fun p => nativeRecords p.1 p.2 amount epoch := by
  have hcount : (ps.flatMap fun p => [p.1, p.2]).length = 2 * ps.length := by
    rw [List.length_flatMap]
    simp [Nat.mul_comm]
  have hpos : 0 < ps.length := List.length_pos_of_ne_nil hne
  have hguard : ((ps.flatMap fun p => [p.1, p.2]).length % 2 != 0 ||
      (ps.flatMap fun p => [p.1, p.2]).isEmpty) = false := by
    have hnonempty : (ps.flatMap fun p => [p.1, p.2]) ≠ [] := by
      intro hnil
      rw [hnil] at hcount
      simp only [List.length_nil] at hcount
      omega
    have hparity : 2 * ps.length % 2 = 0 := by omega
    rw [hcount, hparity, List.isEmpty_eq_false_iff.mpr hnonempty]
    rfl
  refine ⟨⟨(NativeTraceExecutor.multiAssetLoop epoch (leNat amount.toList)
    (ps.flatMap fun p => [p.1, p.2])).1, nativeTraceMarker, (NativeTraceExecutor.multiAssetLoop epoch
      (leNat amount.toList) (ps.flatMap fun p => [p.1, p.2])).2⟩, ?_, multiAssetLoop_eq amount epoch ps⟩
  exact if_neg (by rw [hguard]; exact Bool.false_ne_true)

theorem compute_batch_overflow (ps : List (Account × Account))
    (h : 2 ^ 31 ≤ epoch.toNat ∨ 2 ^ 31 ≤ ps.length) :
    LedgerMultiAsset.compute (batchWire amount epoch ps) = .error .overflow := by
  show (scanTwo (wire _) >>= _) = _
  rw [scanTwo_wire_overflow h]
  rfl

/-- The program prints, for the first four payloads, the records of the native executor, exactly
when none of these goes through to a frozen receiver whose balance passes `2 ^ 127`. An epoch or
a count that is no `int` leaves the program without a defined result. -/
theorem ledger_multi_asset_iff (ps : List (Account × Account)) (flag : UInt8) (hne : ps ≠ []) :
    ∃ r, NativeTraceExecutor.multiAsset ⟨epoch, ps.flatMap fun p => [p.1, p.2], amount, flag⟩ = .ok r ∧
      (epoch.toNat < 2 ^ 31 → ps.length < 2 ^ 31 →
        (LedgerMultiAsset.compute (batchWire amount epoch ps) =
            .ok (printBytes (recordBytes (r.updatedAccounts.take 8)) ++ [10]) ↔
          ∀ p ∈ ps.take 4, (p.1.isFrozen || decide (p.1.balance < leNat amount.toList)) = false →
            ¬ (p.2.isFrozen = true ∧ 2 ^ 127 ≤ p.2.balance + leNat amount.toList))) ∧
      (2 ^ 31 ≤ epoch.toNat ∨ 2 ^ 31 ≤ ps.length →
        LedgerMultiAsset.compute (batchWire amount epoch ps) = .error .overflow) := by
  obtain ⟨r, hnative, hupdated⟩ := native_batch amount epoch ps flag hne
  refine ⟨r, hnative, ?_, compute_batch_overflow amount epoch ps⟩
  intro hepoch hn
  rw [compute_batch amount epoch ps hepoch hn, hupdated, take_flatMap_native amount epoch ps 4]
  have hblocks : ∀ p : Account × Account, (transferRecords p.1 p.2 amount epoch).length =
      (nativeRecords p.1 p.2 amount epoch).length := fun p => length_records p.1 p.2 amount epoch
  refine (print_records_iff ?_).trans ((flatMap_eq_iff hblocks (ps.take 4)).trans ?_)
  · rw [batchRecords, List.length_flatMap, List.length_flatMap]
    exact congrArg List.sum (List.map_congr_left fun p _ => hblocks p)
  · exact forall₂_congr fun p _ => records_iff p.1 p.2 amount epoch

/-- Funded senders, a frozen sender and a frozen receiver; the fifth payload, which the two
would not agree on, is past the ones the program looks at. -/
def fivePayloads : List (Account × Account) :=
  let funded := Account.default.setBalance 40
  [(funded, .default), (funded, (Account.default.setBalance 7).setFrozen true),
    (funded.setFrozen true, .default), (.default, funded),
    (funded, (Account.default.setBalance (2 ^ 127 - 1)).setFrozen true)]

theorem ledger_multi_asset_five_payloads :
    (∃ r, NativeTraceExecutor.multiAsset
        ⟨9, fivePayloads.flatMap fun p => [p.1, p.2], ⟨toLe 16 5, rfl⟩, 0⟩ = .ok r ∧
      LedgerMultiAsset.compute (batchWire ⟨toLe 16 5, rfl⟩ 9 fivePayloads) =
        .ok (printBytes (recordBytes (r.updatedAccounts.take 8)) ++ [10])) ∧
    LedgerMultiAsset.compute (batchWire ⟨toLe 16 5, rfl⟩ 0x80000000 fivePayloads) =
      .error .overflow := by
  have hne : fivePayloads ≠ [] := List.cons_ne_nil _ _
  constructor
  · obtain ⟨r, hnative, hiff, -⟩ := ledger_multi_asset_iff ⟨toLe 16 5, rfl⟩ 9 fivePayloads 0 hne
    refine ⟨r, hnative, (hiff (by decide) (by decide)).mpr ?_⟩
    decide +kernel
  · obtain ⟨r, -, -, hoverflow⟩ :=
      ledger_multi_asset_iff ⟨toLe 16 5, rfl⟩ 0x80000000 fivePayloads 0 hne
    exact hoverflow (.inl (by decide))

end MultiAsset

end PslBank.Primitives
