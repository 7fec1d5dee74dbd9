import PslBank.Lib.Bytes
import PslBank.Lib.Words
import Mathlib.Data.List.GetD

/-!
# Text of the Rust standard library

A text is a list of characters. White space, lines and joins are those of `str`. Hexadecimal
numbers are printed in lower case at a fixed width and read in either case, so what was printed
is read back and determines the number.
-/
namespace PslBank.Lib

set_option autoImplicit false

/-- A Rust string as its characters. -/
abbrev Text := List Char

/-- `char::is_whitespace`: the property `White_Space`. -/
def isWhitespace (c : Char) : Bool :=
  decide ((9 ≤ c.toNat ∧ c.toNat ≤ 13) ∨ c.toNat = 0x20 ∨ c.toNat = 0x85 ∨ c.toNat = 0xA0 ∨
    c.toNat = 0x1680 ∨ (0x2000 ≤ c.toNat ∧ c.toNat ≤ 0x200A) ∨ c.toNat = 0x2028 ∨ c.toNat = 0x2029 ∨
    c.toNat = 0x202F ∨ c.toNat = 0x205F ∨ c.toNat = 0x3000)

/-- `str::split_whitespace`. -/
def splitWhitespace (t : Text) : List Text := words isWhitespace t

/-- `join(" ")`. -/
def joinBlank (ts : List Text) : Text := [' '].intercalate ts

def stripPrefix (front t : Text) : Option Text := if front.isPrefixOf t then some (t.drop front.length) else none

/-- A line feed ends a line, and a carriage return before it is not part of the line. -/
def stripCr (line : Text) : Text := if line.getLast? = some '\r' then line.dropLast else line

/-- `str::lines`; an unended last line counts where it is not empty. -/
def lines (t : Text) : List Text :=
  let ls := t.splitOnP (· == '\n')
  ls.dropLast.map stripCr ++ ls.getLast?.toList.filter fun l => !l.isEmpty

/-- `strip_suffix` of one character. -/
def stripLast (c : Char) (t : Text) : Option Text := if t.getLast? = some c then some t.dropLast else none

theorem stripLast_append (c : Char) (t : Text) : stripLast c (t ++ [c]) = some t := by
  rw [stripLast, if_pos List.getLast?_concat, List.dropLast_concat]

/-- So a joined text says which words it was made of. -/
theorem joinBlank_inj {ts us : List Text} (ht : ∀ t ∈ ts, IsWord isWhitespace t)
    (hu : ∀ u ∈ us, IsWord isWhitespace u) (h : joinBlank ts = joinBlank us) : ts = us :=
  intercalate_inj (by decide) ht hu h

/-- Words joined by blanks come apart again. -/
theorem splitWhitespace_joinBlank {ts : List Text} (h : ∀ t ∈ ts, IsWord isWhitespace t) :
    splitWhitespace (joinBlank ts) = ts := words_intercalate (by decide) h

theorem stripPrefix_append (front t : Text) : stripPrefix front (front ++ t) = some t := by
  rw [stripPrefix, if_pos (List.isPrefixOf_iff_prefix.mpr (List.prefix_append front t)), List.drop_left]

/-- A line break ends the first line, with a carriage return before it dropped. -/
theorem lines_cons {line : Text} (h : ∀ c ∈ line, (c == '\n') = false) (t : Text) :
    lines (line ++ '\n' :: t) = stripCr line :: lines t := by
  have hne := List.splitOnP_ne_nil (· == '\n') t
  rw [lines, List.splitOnP_append_cons_of_forall_mem h '\n' rfl t]
  obtain ⟨l, ls, hls⟩ := List.exists_cons_of_ne_nil hne
  rw [lines, hls]
  rfl

/-! ## Hexadecimal numbers -/

/-- The lower-case digits of `format!("{:x}")`. -/
def hexDigit (n : ℕ) : Char :=
  ['0', '1', '2', '3', '4', '5', '6', '7', '8', '9', 'a', 'b', 'c', 'd', 'e', 'f'].getD n '0'

/-- The value of a digit, `char::to_digit(16)`. -/
def hexValue (c : Char) : Option ℕ :=
  if 48 ≤ c.toNat ∧ c.toNat ≤ 57 then some (c.toNat - 48)
  else if 97 ≤ c.toNat ∧ c.toNat ≤ 102 then some (c.toNat - 87)
  else if 65 ≤ c.toNat ∧ c.toNat ≤ 70 then some (c.toNat - 55)
  else none

/-- `char::is_ascii_hexdigit`. -/
def isHexDigit (c : Char) : Bool := (hexValue c).isSome

/-- The low `w` digits, most significant first. -/
def hexFixed : ℕ → ℕ → Text
  | 0, _ => []
  | w + 1, n => hexFixed w (n / 16) ++ [hexDigit (n % 16)]

/-- `{:02x}`. -/
def hexByte (b : UInt8) : Text := hexFixed 2 b.toNat

/-- The value of a run of digits. -/
def hexNat (t : Text) : Option ℕ := t.foldlM (fun acc c => (hexValue c).map (16 * acc + ·)) 0

theorem hexValue_hexDigit : ∀ n < 16, hexValue (hexDigit n) = some n := by decide

/-- Past fifteen the digit is 0 again, so every value is one of sixteen. -/
theorem hexDigit_cases (n : ℕ) : ∃ m < 16, hexDigit n = hexDigit m := by
  by_cases hn : n < 16
  · exact ⟨n, hn, rfl⟩
  · exact ⟨0, by decide, by rw [hexDigit, List.getD_eq_default _ _ (Nat.not_lt.mp hn)]; rfl⟩

theorem isHexDigit_hexDigit (n : ℕ) : isHexDigit (hexDigit n) = true := by
  obtain ⟨m, hm, h⟩ := hexDigit_cases n
  rw [h, isHexDigit, hexValue_hexDigit m hm]
  rfl

@[simp] theorem length_hexFixed (w n : ℕ) : (hexFixed w n).length = w := by
  induction w generalizing n with
  | zero => rfl
  | succ w ih => rw [hexFixed, List.length_append, ih, List.length_singleton]

theorem all_isHexDigit_hexFixed (w n : ℕ) : (hexFixed w n).all isHexDigit = true := by
  induction w generalizing n with
  | zero => rfl
  | succ w ih => rw [hexFixed, List.all_append, ih, List.all_cons, isHexDigit_hexDigit]; rfl

/-- A number that fits its width is read back. -/
theorem hexNat_hexFixed {w n : ℕ} (h : n < 16 ^ w) : hexNat (hexFixed w n) = some n := by
  induction w generalizing n with
  | zero =>
    rw [pow_zero] at h
    rw [Nat.lt_one_iff.mp h]
    rfl
  | succ w ih =>
    have hdiv : n / 16 < 16 ^ w := by
      rw [Nat.div_lt_iff_lt_mul (by decide), ← pow_succ]
      exact h
    have hfront : (hexFixed w (n / 16)).foldlM (fun acc c => (hexValue c).map (16 * acc + ·)) 0 =
        some (n / 16) := ih hdiv
    rw [hexNat, hexFixed, List.foldlM_append, hfront]
    show ((hexValue (hexDigit (n % 16))).map (16 * (n / 16) + ·) >>= some) = some n
    rw [hexValue_hexDigit _ (Nat.mod_lt _ (by decide)), Option.map_some, Nat.div_add_mod]
    rfl

/-- Two numbers of one width have different digits. -/
theorem hexFixed_inj {w m n : ℕ} (hm : m < 16 ^ w) (hn : n < 16 ^ w) (h : hexFixed w m = hexFixed w n) :
    m = n := by
  have hread := hexNat_hexFixed hm
  rw [h, hexNat_hexFixed hn] at hread
  exact (Option.some_inj.mp hread).symm

theorem hexNat_hexByte (b : UInt8) : hexNat (hexByte b) = some b.toNat := hexNat_hexFixed b.toNat_lt

theorem hexByte_injective : Function.Injective hexByte := fun a b h =>
  UInt8.toNat_inj.mp (hexFixed_inj a.toNat_lt b.toNat_lt h)

theorem isWhitespace_hexDigit (n : ℕ) : isWhitespace (hexDigit n) = false := by
  obtain ⟨m, hm, h⟩ := hexDigit_cases n
  rw [h]
  exact (by decide : ∀ m < 16, isWhitespace (hexDigit m) = false) m hm

/-- Digits have no blanks, so the number is one word. -/
theorem isWord_hexFixed {w : ℕ} (hw : w ≠ 0) (n : ℕ) : IsWord isWhitespace (hexFixed w n) where
  ne_nil h := hw (by rw [← length_hexFixed w n, h, List.length_nil])
  no_sep := by
    clear hw
    induction w generalizing n with
    | zero => simp [hexFixed]
    | succ w ih =>
      intro c hc
      rw [hexFixed, List.mem_append, List.mem_singleton] at hc
      rcases hc with hc | rfl
      · exact ih _ c hc
      · exact isWhitespace_hexDigit _

/-- `str::len`: the number of bytes. -/
def byteLen (t : Text) : ℕ := (t.map Char.utf8Size).sum

/-- `u8::from_str_radix(t, 16)` of a text of digits. -/
def u8FromHex (t : Text) : Option UInt8 :=
  (hexNat t).bind fun n => if n < 256 then some (UInt8.ofNat n) else none

/-- `u8::from_str_radix` reads what `{:02x}` writes. -/
theorem u8FromHex_hexByte (b : UInt8) : u8FromHex (hexByte b) = some b := by
  rw [u8FromHex, hexNat_hexByte, Option.bind_some, if_pos b.toNat_lt, UInt8.ofNat_toNat]

/-! ## Byte strings -/

/-- `hex::encode`. -/
def hexEncode (bs : Bytes) : Text := bs.flatMap hexByte

/-- `hex::decode`, digits of either case; `none` for an odd number of them or another character. -/
def hexDecode : Text → Option Bytes
  | [] => some []
  | [_] => none
  | c :: d :: t => do
      let hi ← hexValue c
      let lo ← hexValue d
      let bs ← hexDecode t
      return UInt8.ofNat (16 * hi + lo) :: bs

theorem hexByte_eq (b : UInt8) : hexByte b = [hexDigit (b.toNat / 16), hexDigit (b.toNat % 16)] := by
  have hb := b.toNat_lt
  show [hexDigit (b.toNat / 16 % 16), hexDigit (b.toNat % 16)] = _
  rw [Nat.mod_eq_of_lt (by omega : b.toNat / 16 < 16)]

theorem byteLen_hexByte (b : UInt8) : byteLen (hexByte b) = 2 := by
  have hsize : ∀ n < 16, (hexDigit n).utf8Size = 1 := by decide
  have hb := b.toNat_lt
  rw [hexByte_eq, byteLen, List.map_cons, List.map_cons, hsize _ (by omega), hsize _ (by omega)]
  rfl

/-- The two functions of the `hex` crate are inverse on encoded bytes. -/
theorem hexDecode_hexEncode (bs : Bytes) : hexDecode (hexEncode bs) = some bs := by
  induction bs with
  | nil => rfl
  | cons b bs ih =>
    have hb := b.toNat_lt
    rw [hexEncode, List.flatMap_cons, hexByte_eq]
    show hexDecode (hexDigit (b.toNat / 16) :: hexDigit (b.toNat % 16) :: hexEncode bs) = _
    rw [hexDecode, hexValue_hexDigit _ (by omega), hexValue_hexDigit _ (by omega), ih]
    show some (UInt8.ofNat (16 * (b.toNat / 16) + b.toNat % 16) :: bs) = _
    rw [Nat.div_add_mod, UInt8.ofNat_toNat]

@[simp] theorem length_hexEncode (bs : Bytes) : (hexEncode bs).length = 2 * bs.length := by
  induction bs with
  | nil => rfl
  | cons b bs ih =>
    rw [hexEncode, List.flatMap_cons, hexByte, List.length_append, length_hexFixed, List.length_cons]
    rw [hexEncode] at ih
    omega

theorem hexEncode_append (bs cs : Bytes) : hexEncode (bs ++ cs) = hexEncode bs ++ hexEncode cs :=
  List.flatMap_append

/-- Different bytes have different encodings. -/
theorem hexEncode_injective : Function.Injective hexEncode := by
  intro bs cs h
  have hread := hexDecode_hexEncode bs
  rw [h, hexDecode_hexEncode] at hread
  exact (Option.some_inj.mp hread).symm

theorem toNat_toLower (c : Char) :
    c.toLower.toNat = if 65 ≤ c.toNat ∧ c.toNat ≤ 90 then c.toNat + 32 else c.toNat := by
  have hrange : (c.val ≥ 'A'.val ∧ c.val ≤ 'Z'.val) ↔ 65 ≤ c.toNat ∧ c.toNat ≤ 90 :=
    and_congr UInt32.le_iff_toNat_le UInt32.le_iff_toNat_le
  unfold Char.toLower
  by_cases h : c.val ≥ 'A'.val ∧ c.val ≤ 'Z'.val
  · rw [dif_pos h, if_pos (hrange.mp h)]
    have hle := (hrange.mp h).2
    show (c.val + ('a'.val - 'A'.val)).toNat = c.val.toNat + 32
    rw [UInt32.toNat_add]
    exact Nat.mod_eq_of_lt (by change c.val.toNat + 32 < _; change c.val.toNat ≤ 90 at hle; omega)
  · rw [dif_neg h, if_neg (hrange.not.mp h)]

/-- A digit has its value in either case. -/
theorem hexValue_toLower (c : Char) : hexValue c.toLower = hexValue c := by
  unfold hexValue
  rw [toNat_toLower]
  by_cases h : 65 ≤ c.toNat ∧ c.toNat ≤ 90
  · rw [if_pos h]
    repeat' split
    all_goals first | rfl | omega
  · rw [if_neg h]

/-- A digit of either case is that value in lower case. -/
theorem hexValue_digit {c : Char} {n : ℕ} (h : hexValue c = some n) : n < 16 ∧ hexDigit n = c.toLower := by
  have hof : Char.ofNat c.toNat = c := Char.ofNat_toNat c
  have hlow : ∀ m < 10, hexDigit m = (Char.ofNat (48 + m)).toLower := by decide
  have hmid : ∀ m < 6, hexDigit (10 + m) = (Char.ofNat (97 + m)).toLower := by decide
  have hup : ∀ m < 6, hexDigit (10 + m) = (Char.ofNat (65 + m)).toLower := by decide
  unfold hexValue at h
  split at h
  · have hm := hlow (c.toNat - 48) (by omega)
    rw [show 48 + (c.toNat - 48) = c.toNat by omega, hof, Option.some_inj.mp h] at hm
    exact ⟨by have := Option.some_inj.mp h; omega, hm⟩
  · split at h
    · have hm := hmid (c.toNat - 97) (by omega)
      rw [show 97 + (c.toNat - 97) = c.toNat by omega, hof,
        show 10 + (c.toNat - 97) = c.toNat - 87 by omega, Option.some_inj.mp h] at hm
      exact ⟨by have := Option.some_inj.mp h; omega, hm⟩
    · split at h
      · have hm := hup (c.toNat - 65) (by omega)
        rw [show 65 + (c.toNat - 65) = c.toNat by omega, hof,
          show 10 + (c.toNat - 65) = c.toNat - 55 by omega, Option.some_inj.mp h] at hm
        exact ⟨by have := Option.some_inj.mp h; omega, hm⟩
      · cases h

/-- The case of the digits does not matter. -/
theorem hexDecode_toLower (t : Text) : hexDecode (t.map Char.toLower) = hexDecode t := by
  induction t using hexDecode.induct with
  | case1 => rfl
  | case2 c => rfl
  | case3 c d t ih =>
    rw [List.map_cons, List.map_cons, hexDecode, hexDecode, hexValue_toLower, hexValue_toLower, ih]

/-- What is read is spelled by the text, in lower case. -/
theorem hexDecode_eq_some_iff {t : Text} {bs : Bytes} :
    hexDecode t = some bs ↔ t.map Char.toLower = hexEncode bs := by
  constructor
  · intro h
    induction t using hexDecode.induct generalizing bs with
    | case1 =>
      rw [← Option.some_inj.mp h]
      rfl
    | case2 c => cases h
    | case3 c d t ih =>
      rw [hexDecode] at h
      obtain ⟨hi, hhi, h⟩ := Option.bind_eq_some_iff.mp h
      obtain ⟨lo, hlo, h⟩ := Option.bind_eq_some_iff.mp h
      obtain ⟨cs, hcs, h⟩ := Option.bind_eq_some_iff.mp h
      obtain rfl := Option.some_inj.mp h
      obtain ⟨hhi, hc⟩ := hexValue_digit hhi
      obtain ⟨hlo, hd⟩ := hexValue_digit hlo
      have hnat : (UInt8.ofNat (16 * hi + lo)).toNat = 16 * hi + lo := by
        rw [UInt8.toNat_ofNat']
        omega
      rw [hexEncode, List.flatMap_cons, hexByte_eq, hnat, show (16 * hi + lo) / 16 = hi by omega,
        show (16 * hi + lo) % 16 = lo by omega, hc, hd, List.map_cons, List.map_cons, ih hcs]
      rfl
  · intro h
    rw [← hexDecode_toLower, h, hexDecode_hexEncode]

/-- `u8::from_str_radix(t, 16)`, which takes a sign `+`. -/
def u8FromStrRadix (t : Text) : Option UInt8 :=
  match t with
  | [] => none
  | ['+'] => none
  | '+' :: digits => u8FromHex digits
  | digits => u8FromHex digits

/-! ## Decimal numbers -/

def isAsciiDigit (c : Char) : Bool := decide (48 ≤ c.toNat ∧ c.toNat ≤ 57)

/-- The value of decimal digits on top of `v`. -/
def decimalFrom (v : ℕ) (t : Text) : ℕ := t.foldl (fun acc c => 10 * acc + (c.toNat - 48)) v

/-- The digits after a sign. No digits, or a value that is no `i64`, are no number. -/
def parseDigits (neg : Bool) (digits : Text) : Option ℤ :=
  if digits.isEmpty || !digits.all isAsciiDigit then none
  else
    let v : ℤ := if neg then -decimalFrom 0 digits else decimalFrom 0 digits
    if -2 ^ 63 ≤ v ∧ v < 2 ^ 63 then some v else none

/-- `str::parse::<i64>`; a sign alone is no number. -/
def parseI64 (t : Text) : Option ℤ :=
  match t with
  | ['+'] => none
  | ['-'] => none
  | '+' :: digits => parseDigits false digits
  | '-' :: digits => parseDigits true digits
  | digits => parseDigits false digits

/-! ## Bytes as text -/

/-- U+FFFD. -/
def replacement : Char := Char.ofNat 0xFFFD

/-- The bytes that stand after the first of a longer character. -/
def isContinuation (b : UInt8) : Bool := decide (0x80 ≤ b.toNat ∧ b.toNat ≤ 0xBF)

/-- Second bytes after a lead of three bytes: no overlong form and no surrogate. -/
def isSecondOfThree (b c : UInt8) : Bool :=
  if b = 0xE0 then decide (0xA0 ≤ c.toNat ∧ c.toNat ≤ 0xBF)
  else if b = 0xED then decide (0x80 ≤ c.toNat ∧ c.toNat ≤ 0x9F)
  else isContinuation c

/-- Second bytes after a lead of four bytes: no overlong form and nothing past the last character. -/
def isSecondOfFour (b c : UInt8) : Bool :=
  if b = 0xF0 then decide (0x90 ≤ c.toNat ∧ c.toNat ≤ 0xBF)
  else if b = 0xF4 then decide (0x80 ≤ c.toNat ∧ c.toNat ≤ 0x8F)
  else isContinuation c

/-- The next character of a byte string and how many bytes after the first belong to it; bytes past the
end read as zero. -/
def utf8Step (b : UInt8) (rest : Bytes) : Char × ℕ :=
  let c := rest.getD 0 0
  let d := rest.getD 1 0
  let e := rest.getD 2 0
  if b.toNat < 0x80 then (Char.ofNat b.toNat, 0)
  else if 0xC2 ≤ b.toNat ∧ b.toNat ≤ 0xDF then
    if isContinuation c then (Char.ofNat (b.toNat % 32 * 64 + c.toNat % 64), 1) else (replacement, 0)
  else if 0xE0 ≤ b.toNat ∧ b.toNat ≤ 0xEF then
    if !isSecondOfThree b c then (replacement, 0)
    else if !isContinuation d then (replacement, 1)
    else (Char.ofNat (b.toNat % 16 * 4096 + c.toNat % 64 * 64 + d.toNat % 64), 2)
  else if 0xF0 ≤ b.toNat ∧ b.toNat ≤ 0xF4 then
    if !isSecondOfFour b c then (replacement, 0)
    else if !isContinuation d then (replacement, 1)
    else if !isContinuation e then (replacement, 2)
    else (Char.ofNat (b.toNat % 8 * 262144 + c.toNat % 64 * 4096 + d.toNat % 64 * 64 + e.toNat % 64), 3)
  else (replacement, 0)

/-- At most `n` characters. -/
def utf8Chars : ℕ → Bytes → Text
  | 0, _ => []
  | _ + 1, [] => []
  | n + 1, b :: rest => (utf8Step b rest).1 :: utf8Chars n (rest.drop (utf8Step b rest).2)

/-- `String::from_utf8_lossy`. -/
def fromUtf8Lossy (bs : Bytes) : Text := utf8Chars bs.length bs

/-- On ASCII nothing is lost. -/
theorem fromUtf8Lossy_ascii {bs : Bytes} (h : ∀ b ∈ bs, b.toNat < 0x80) :
    fromUtf8Lossy bs = bs.map fun b => Char.ofNat b.toNat := by
  unfold fromUtf8Lossy
  induction bs with
  | nil => rfl
  | cons b bs ih =>
    have hstep : utf8Step b bs = (Char.ofNat b.toNat, 0) := if_pos (h b List.mem_cons_self)
    rw [List.length_cons, utf8Chars, hstep, List.drop_zero, ih fun c hc => h c (List.mem_cons_of_mem _ hc),
      List.map_cons]

end PslBank.Lib
