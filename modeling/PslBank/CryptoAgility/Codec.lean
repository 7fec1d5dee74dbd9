import PslBank.Lib.Leb128

/-!
# Varints for scheme prefixes

`crypto_agility/src/codec.rs`. `checked_shl` refuses a shift by the width of the type or
more; bits that a smaller shift moves out of the word are lost without an error.
-/
namespace PslBank.CryptoAgility

open PslBank.Lib

set_option autoImplicit false

inductive VarintError where
  | truncated
  | tooLong
  | overflow
  deriving DecidableEq, Repr

def maxVarintLen : ℕ := 5

/-- `u32::checked_shl`. -/
def checkedShl (value shift : UInt32) : Option UInt32 :=
  if shift < 32 then some (value <<< shift) else none

/-- `u32::checked_add`. -/
def checkedAdd (a b : UInt32) : Option UInt32 := if a.toNat + b.toNat < 2 ^ 32 then some (a + b) else none

theorem toNat_shiftRight_seven (value : UInt32) : (value >>> 7).toNat = value.toNat / 128 := by
  rw [UInt32.toNat_shiftRight]
  exact Nat.shiftRight_eq_div_pow value.toNat 7

/-- The bytes that `encode_varint` appends. -/
def encodeVarint (value : UInt32) : Bytes :=
  let byte := (value &&& 0x7f).toUInt8
  if value >>> 7 ≠ 0 then (byte ||| 0x80) :: encodeVarint (value >>> 7) else [byte]
termination_by value.toNat
decreasing_by
  rename_i hmore
  have hquot := toNat_shiftRight_seven value
  have hpos : (value >>> 7).toNat ≠ 0 := fun hzero => hmore (UInt32.toNat_inj.mp hzero)
  omega

/-- The loop of `decode_varint` at position `i`. -/
def decodeVarintFrom : Bytes → ℕ → UInt32 → UInt32 → Except VarintError (UInt32 × ℕ)
  | [], _, _, _ => .error .truncated
  | byte :: bytes, i, result, shift =>
      if maxVarintLen ≤ i then .error .tooLong
      else
        match (checkedShl (byte &&& 0x7f).toUInt32 shift).bind (checkedAdd result) with
        | none => .error .overflow
        | some result =>
            if byte &&& 0x80 = 0 then .ok (result, i + 1)
            else
              match checkedAdd shift 7 with
              | none => .error .overflow
              | some shift => decodeVarintFrom bytes (i + 1) result shift

def decodeVarint (bytes : Bytes) : Except VarintError (UInt32 × ℕ) := decodeVarintFrom bytes 0 0 0

/-! ## What the reader computes

The invariant of the loop holds the shift at seven bits a turn, and the result below it as
long as another turn can follow. -/

/-- The state of the loop at position `i`. -/
structure Reading (i : ℕ) (result shift : UInt32) : Prop where
  le : i ≤ maxVarintLen
  shift_eq : shift.toNat = 7 * i
  result_lt : i < maxVarintLen → result.toNat < 2 ^ (7 * i)

theorem reading_start : Reading 0 0 0 := ⟨by decide, rfl, fun _ => by decide⟩

/-- The sum of a turn. It never overflows: the shift has dropped the bits that would. -/
theorem Reading.accumulate {i : ℕ} {result shift : UInt32} (h : Reading i result shift)
    (hi : i < maxVarintLen) (byte : UInt8) :
    ∃ result', (checkedShl (byte &&& 0x7f).toUInt32 shift).bind (checkedAdd result) = some result' ∧
      result'.toNat = (result.toNat + byte.toNat % 128 * 2 ^ (7 * i)) % 2 ^ 32 := by
  have hshift := h.shift_eq
  have hresult := h.result_lt hi
  have hsmall : shift < 32 := by
    rw [UInt32.lt_iff_toNat_lt, hshift]
    show 7 * i < 32
    have hi : i < 5 := hi
    omega
  have hchunk : ((byte &&& 0x7f).toUInt32 <<< shift).toNat = byte.toNat % 128 * 2 ^ (7 * i) % 2 ^ 32 := by
    have hi : i < 5 := hi
    rw [UInt32.toNat_shiftLeft, hshift, UInt8.toNat_toUInt32, toNat_and_low, Nat.shiftLeft_eq,
      Nat.mod_eq_of_lt (show 7 * i < 32 by omega)]
  have hfits : result.toNat + ((byte &&& 0x7f).toUInt32 <<< shift).toNat < 2 ^ 32 := by
    have hlow := Nat.mod_lt byte.toNat (show 0 < 128 by decide)
    rw [hchunk]
    have hi : i < 5 := hi
    clear hchunk hsmall hshift
    interval_cases i <;> omega
  refine ⟨result + (byte &&& 0x7f).toUInt32 <<< shift, ?_, ?_⟩
  · rw [checkedShl, if_pos hsmall, Option.bind_some, checkedAdd, if_pos hfits]
  · rw [UInt32.toNat_add, hchunk, Nat.add_mod_mod]

/-- One turn of the loop. -/
theorem Reading.step {i : ℕ} {result shift : UInt32} (h : Reading i result shift)
    (hi : i < maxVarintLen) (byte : UInt8) :
    ∃ result' shift', Reading (i + 1) result' shift' ∧
      result'.toNat = (result.toNat + byte.toNat % 128 * 2 ^ (7 * i)) % 2 ^ 32 ∧
      ∀ bytes, decodeVarintFrom (byte :: bytes) i result shift =
        if byte.toNat < 128 then .ok (result', i + 1)
        else decodeVarintFrom bytes (i + 1) result' shift' := by
  obtain ⟨result', hsum, hvalue⟩ := h.accumulate hi byte
  have hresult := h.result_lt hi
  have hnext : (shift + 7).toNat = 7 * (i + 1) := by
    have hi : i < 5 := hi
    have hseven : (7 : UInt32).toNat = 7 := rfl
    rw [UInt32.toNat_add, h.shift_eq, hseven]
    omega
  have hadd : checkedAdd shift 7 = some (shift + 7) := by
    have hi : i < 5 := hi
    have hseven : (7 : UInt32).toNat = 7 := rfl
    rw [checkedAdd, if_pos (by rw [h.shift_eq, hseven]; omega)]
  refine ⟨result', shift + 7, ⟨hi, hnext, ?_⟩, hvalue, ?_⟩
  · intro _
    have hlow : byte.toNat % 128 * 2 ^ (7 * i) ≤ 127 * 2 ^ (7 * i) :=
      Nat.mul_le_mul_right _ (Nat.le_of_lt_succ (Nat.mod_lt _ (by decide)))
    have hpow : 2 ^ (7 * (i + 1)) = 128 * 2 ^ (7 * i) := by ring
    have hle := Nat.mod_le (result.toNat + byte.toNat % 128 * 2 ^ (7 * i)) (2 ^ 32)
    omega
  · intro bytes
    rw [decodeVarintFrom, if_neg (Nat.not_le.mpr hi), hsum]
    simp only [hadd, and_high_eq_zero_iff]

/-- The reader takes the group at its position, if it ends in time, and reduces its value
modulo `2 ^ 32`. -/
theorem decodeVarintFrom_ok_iff {bytes : Bytes} {i n : ℕ} {result shift value : UInt32}
    (h : Reading i result shift) :
    decodeVarintFrom bytes i result shift = .ok (value, n) ↔
      ∃ m, Terminated bytes m ∧ n = i + m ∧ n ≤ maxVarintLen ∧
        value.toNat = (result.toNat + groupValue bytes m * 2 ^ (7 * i)) % 2 ^ 32 := by
  induction bytes generalizing i result shift with
  | nil =>
    constructor
    · intro heq
      cases heq
    · intro hyp
      obtain ⟨m, hm, -⟩ := hyp
      exact absurd hm (not_terminated_nil m)
  | cons byte bytes ih =>
    by_cases hi : i < maxVarintLen
    · obtain ⟨result', shift', hreading, hvalue, hturn⟩ := h.step hi byte
      rw [hturn]
      by_cases hbyte : byte.toNat < 128
      · have hone : groupValue (byte :: bytes) 1 = byte.toNat % 128 := groupValue_cons byte bytes 0
        rw [if_pos hbyte]
        constructor
        · intro heq
          obtain ⟨rfl, rfl⟩ := Prod.mk.inj (Except.ok.inj heq)
          exact ⟨1, terminated_cons.mpr (.inl ⟨hbyte, rfl⟩), rfl, hi, by rw [hvalue, hone]⟩
        · intro hyp
          obtain ⟨m, hm, rfl, -, heq⟩ := hyp
          rcases terminated_cons.mp hm with ⟨-, rfl⟩ | ⟨hmore, -⟩
          · rw [hone, ← hvalue] at heq
            rw [UInt32.toNat_inj.mp heq]
          · exact absurd hmore (Nat.not_le.mpr hbyte)
      · -- the groups behind this byte are the groups from this byte on
        have hgroup : ∀ m, (result'.toNat + groupValue bytes m * 2 ^ (7 * (i + 1))) % 2 ^ 32 =
            (result.toNat + groupValue (byte :: bytes) (m + 1) * 2 ^ (7 * i)) % 2 ^ 32 := by
          intro m
          rw [hvalue, Nat.mod_add_mod, groupValue_cons]
          congr 1
          ring
        rw [if_neg hbyte, ih hreading]
        constructor
        · intro hyp
          obtain ⟨m, hm, rfl, hle, heq⟩ := hyp
          refine ⟨m + 1, terminated_cons.mpr (.inr ⟨Nat.not_lt.mp hbyte, m, rfl, hm⟩), ?_, hle, ?_⟩
          · omega
          · rw [heq, hgroup]
        · intro hyp
          obtain ⟨k, hk, rfl, hle, heq⟩ := hyp
          rcases terminated_cons.mp hk with ⟨hlast, -⟩ | ⟨-, m, rfl, hm⟩
          · exact absurd hlast hbyte
          · exact ⟨m, hm, by omega, hle, by rw [heq, hgroup]⟩
    · rw [decodeVarintFrom, if_pos (Nat.not_lt.mp hi)]
      constructor
      · intro heq
        cases heq
      · intro hyp
        obtain ⟨m, hm, rfl, hle, -⟩ := hyp
        have hpos := hm.pos
        omega

theorem decodeVarint_ok_iff {bytes : Bytes} {value : UInt32} {n : ℕ} :
    decodeVarint bytes = .ok (value, n) ↔
      Terminated bytes n ∧ n ≤ maxVarintLen ∧ value.toNat = groupValue bytes n % 2 ^ 32 := by
  rw [decodeVarint, decodeVarintFrom_ok_iff reading_start]
  have hzero : (0 : UInt32).toNat = 0 := rfl
  constructor
  · intro hyp
    obtain ⟨m, hm, rfl, hle, heq⟩ := hyp
    rw [hzero, Nat.zero_add, Nat.mul_zero, pow_zero, Nat.mul_one] at heq
    rw [Nat.zero_add] at hle ⊢
    exact ⟨hm, hle, heq⟩
  · intro hyp
    obtain ⟨hm, hle, heq⟩ := hyp
    refine ⟨n, hm, (Nat.zero_add n).symm, hle, ?_⟩
    rw [hzero, Nat.zero_add, Nat.mul_zero, pow_zero, Nat.mul_one, heq]

/-! ## Prefixes of one byte -/

/-- The first byte ends the prefix. -/
def OneBytePrefix (blob : Bytes) : Prop := ∃ byte rest, blob = byte :: rest ∧ byte.toNat < 128

theorem encodeVarint_of_lt {value : UInt32} (h : value.toNat < 128) :
    encodeVarint value = [value.toUInt8] := by
  have hdone : value >>> 7 = 0 := by
    apply UInt32.toNat_inj.mp
    rw [toNat_shiftRight_seven]
    exact Nat.div_eq_of_lt h
  have hlow : value &&& 0x7f = value := by
    apply UInt32.toNat_inj.mp
    rw [UInt32.toNat_and]
    exact (Nat.and_two_pow_sub_one_eq_mod value.toNat 7).trans (Nat.mod_eq_of_lt h)
  rw [encodeVarint, if_neg (not_not.mpr hdone), hlow]

theorem decodeVarint_of_lt {byte : UInt8} (h : byte.toNat < 128) (rest : Bytes) :
    decodeVarint (byte :: rest) = .ok (byte.toUInt32, 1) := by
  have hlt := byte.toNat_lt
  refine decodeVarint_ok_iff.mpr ⟨terminated_cons.mpr (.inl ⟨h, rfl⟩), by decide, ?_⟩
  rw [groupValue_cons, UInt8.toNat_toUInt32]
  show byte.toNat = (byte.toNat % 128 + 128 * 0) % 2 ^ 32
  omega

/-- A value below 128 has one prefix of one byte, its own encoding. -/
theorem prefix_eq_encodeVarint_iff {blob : Bytes} {value : UInt32} {n : ℕ} (hvalue : value.toNat < 128)
    (h : decodeVarint blob = .ok (value, n)) :
    blob = encodeVarint value ++ blob.drop n ↔ OneBytePrefix blob := by
  have hgroup := (decodeVarint_ok_iff.mp h).1
  cases blob with
  | nil => exact absurd hgroup (not_terminated_nil n)
  | cons byte rest =>
    rcases terminated_cons.mp hgroup with ⟨hbyte, rfl⟩ | ⟨hbyte, m, rfl, hrest⟩
    · have hdecode := h.symm.trans (decodeVarint_of_lt hbyte rest)
      obtain rfl : value = byte.toUInt32 := congrArg Prod.fst (Except.ok.inj hdecode)
      rw [encodeVarint_of_lt hvalue, UInt8.toUInt8_toUInt32]
      exact ⟨fun _ => ⟨byte, rest, rfl, hbyte⟩, fun _ => rfl⟩
    · have hpos := hrest.pos
      have hle := hrest.le_length
      constructor
      · intro heq
        -- two bytes or more cannot be the one byte that is written
        have hlen := congrArg List.length heq
        rw [encodeVarint_of_lt hvalue, List.length_append, List.length_singleton, List.length_drop,
          List.length_cons] at hlen
        omega
      · intro hyp
        obtain ⟨byte', rest', heq, hlt⟩ := hyp
        exact absurd ((List.cons.inj heq).1 ▸ hlt) (Nat.not_lt.mpr hbyte)

theorem decodeVarintFrom_ne_overflow {bytes : Bytes} {i : ℕ} {result shift : UInt32}
    (h : Reading i result shift) : decodeVarintFrom bytes i result shift ≠ .error .overflow := by
  induction bytes generalizing i result shift with
  | nil =>
    intro heq
    cases heq
  | cons byte bytes ih =>
    by_cases hi : i < maxVarintLen
    · obtain ⟨result', shift', hreading, -, hturn⟩ := h.step hi byte
      rw [hturn]
      split
      · intro heq
        cases heq
      · exact ih hreading
    · rw [decodeVarintFrom, if_pos (Nat.not_lt.mp hi)]
      intro heq
      cases heq

/-- The overflow of `VarintError` is never returned. -/
theorem decodeVarint_ne_overflow (bytes : Bytes) : decodeVarint bytes ≠ .error .overflow :=
  decodeVarintFrom_ne_overflow reading_start

/-! ## Exactness

What the reader should do on one input, and the inputs on which it does it. -/

/-- An accepted group has its value as a natural number, and a group that does not fit in 32
bits is an overflow. -/
def DecodesExactly (bytes : Bytes) : Prop :=
  (∀ value n, decodeVarint bytes = .ok (value, n) →
    n ≤ 5 ∧ Terminated bytes n ∧ value.toNat = groupValue bytes n) ∧
  ∀ n, n ≤ 5 → Terminated bytes n → 2 ^ 32 ≤ groupValue bytes n →
    decodeVarint bytes = .error .overflow

/-- Only a fifth byte can take a group past 32 bits. -/
theorem two_pow_le_groupValue_iff {bytes : Bytes} {n : ℕ} (h : Terminated bytes n) (hn : n ≤ 5) :
    2 ^ 32 ≤ groupValue bytes n ↔ n = 5 ∧ 16 ≤ (bytes.getD 4 0).toNat := by
  have hfour := groupValue_lt bytes 4
  by_cases hfive : n = 5
  · subst hfive
    have hlast : (bytes.getD 4 0).toNat < 128 := h.last
    rw [groupValue_succ]
    omega
  · have hlt := groupValue_lt bytes n
    have hle : 2 ^ (7 * n) ≤ 2 ^ (7 * 4) := Nat.pow_le_pow_right (by decide) (by omega)
    omega

theorem decodes_exactly_iff (bytes : Bytes) :
    DecodesExactly bytes ↔ ¬ (Terminated bytes 5 ∧ 16 ≤ (bytes.getD 4 0).toNat) := by
  constructor
  · rintro ⟨hexact, -⟩ ⟨hgroup, hfifth⟩
    -- the reduced value is returned, and it is not the value
    have hlarge := (two_pow_le_groupValue_iff hgroup (Nat.le_refl 5)).mpr ⟨rfl, hfifth⟩
    have hreduced : (UInt32.ofNat (groupValue bytes 5)).toNat = groupValue bytes 5 % 2 ^ 32 :=
      UInt32.toNat_ofNat'
    have hvalue := (hexact _ 5 (decodeVarint_ok_iff.mpr ⟨hgroup, Nat.le_refl 5, hreduced⟩)).2.2
    have hlt := (UInt32.ofNat (groupValue bytes 5)).toNat_lt
    omega
  · intro hfits
    have hsmall : ∀ n, n ≤ 5 → Terminated bytes n → groupValue bytes n < 2 ^ 32 := by
      intro n hn hgroup
      apply Nat.lt_of_not_le
      intro hlarge
      obtain ⟨rfl, hfifth⟩ := (two_pow_le_groupValue_iff hgroup hn).mp hlarge
      exact hfits ⟨hgroup, hfifth⟩
    refine ⟨?_, ?_⟩
    · intro value n hdecode
      obtain ⟨hgroup, hn, hvalue⟩ := decodeVarint_ok_iff.mp hdecode
      exact ⟨hn, hgroup, hvalue.trans (Nat.mod_eq_of_lt (hsmall n hn hgroup))⟩
    · intro n hn hgroup hlarge
      exact absurd hlarge (Nat.not_le.mpr (hsmall n hn hgroup))

/-- The value `2 ^ 32` is read as zero. -/
theorem two_pow_not_decoded_exactly : ¬ DecodesExactly [0x80, 0x80, 0x80, 0x80, 0x10] := by
  intro h
  have hvalue := (h.1 0 5 rfl).2.2
  revert hvalue
  decide

/-! ## Reading what was written -/

/-- One turn of `encode_varint` that does not end it. -/
theorem encodeVarint_of_ge {value : UInt32} (h : 128 ≤ value.toNat) :
    ∃ byte : UInt8, byte.toNat = value.toNat % 128 + 128 ∧
      encodeVarint value = byte :: encodeVarint (value >>> 7) := by
  have hmore : value >>> 7 ≠ 0 := by
    intro hzero
    have hquot := toNat_shiftRight_seven value
    rw [hzero, show (0 : UInt32).toNat = 0 from rfl] at hquot
    omega
  have hlow : (value &&& 0x7f).toUInt8.toNat = value.toNat % 128 := by
    rw [UInt32.toNat_toUInt8, UInt32.toNat_and]
    have hmask : value.toNat &&& (0x7f : UInt32).toNat = value.toNat % 128 :=
      Nat.and_two_pow_sub_one_eq_mod value.toNat 7
    rw [hmask]
    omega
  refine ⟨(value &&& 0x7f).toUInt8 ||| 0x80, ?_, ?_⟩
  · rw [toNat_or_high, hlow, Nat.mod_mod]
  · rw [encodeVarint, if_pos hmore]

/-- What is written is a group with the written value, whatever follows it. -/
theorem group_encodeVarint (value : UInt32) (rest : Bytes) :
    Terminated (encodeVarint value ++ rest) (encodeVarint value).length ∧
      groupValue (encodeVarint value ++ rest) (encodeVarint value).length = value.toNat := by
  induction hn : value.toNat using Nat.strong_induction_on generalizing value with
  | h n ih =>
    subst hn
    by_cases hsmall : value.toNat < 128
    · have hbyte : value.toUInt8.toNat = value.toNat := by
        rw [UInt32.toNat_toUInt8]
        omega
      rw [encodeVarint_of_lt hsmall, List.singleton_append, List.length_singleton, groupValue_cons,
        hbyte]
      exact ⟨terminated_cons.mpr (.inl ⟨hbyte ▸ hsmall, rfl⟩), by show _ % 128 + 128 * 0 = _; omega⟩
    · obtain ⟨byte, hbyte, hencode⟩ := encodeVarint_of_ge (Nat.not_lt.mp hsmall)
      have hquot := toNat_shiftRight_seven value
      obtain ⟨hgroup, hvalue⟩ := ih _ (show (value >>> 7).toNat < value.toNat by omega) _ rfl
      rw [hencode, List.cons_append, List.length_cons, groupValue_cons, hvalue]
      exact ⟨terminated_cons.mpr (.inr ⟨by omega, _, rfl, hgroup⟩), by omega⟩

/-- A value of `7 k` bits takes at most `k` bytes. -/
theorem length_encodeVarint_le {k : ℕ} {value : UInt32} (h : value.toNat < 2 ^ (7 * (k + 1))) :
    (encodeVarint value).length ≤ k + 1 := by
  induction k generalizing value with
  | zero =>
    rw [encodeVarint_of_lt h]
    rfl
  | succ k ih =>
    by_cases hsmall : value.toNat < 128
    · rw [encodeVarint_of_lt hsmall, List.length_singleton]
      omega
    · obtain ⟨byte, -, hencode⟩ := encodeVarint_of_ge (Nat.not_lt.mp hsmall)
      have hpow : 2 ^ (7 * (k + 1 + 1)) = 128 * 2 ^ (7 * (k + 1)) := by ring
      have hrest := @ih (value >>> 7) (by rw [toNat_shiftRight_seven]; omega)
      rw [hencode, List.length_cons]
      omega

theorem length_encodeVarint (value : UInt32) :
    1 ≤ (encodeVarint value).length ∧ (encodeVarint value).length ≤ 5 :=
  ⟨(group_encodeVarint value []).1.pos,
    length_encodeVarint_le (value.toNat_lt.trans (by decide))⟩

theorem decodeVarint_encodeVarint (value : UInt32) (rest : Bytes) :
    decodeVarint (encodeVarint value ++ rest) = .ok (value, (encodeVarint value).length) := by
  obtain ⟨hgroup, hvalue⟩ := group_encodeVarint value rest
  refine decodeVarint_ok_iff.mpr ⟨hgroup, (length_encodeVarint value).2, ?_⟩
  rw [hvalue, Nat.mod_eq_of_lt value.toNat_lt]

end PslBank.CryptoAgility
