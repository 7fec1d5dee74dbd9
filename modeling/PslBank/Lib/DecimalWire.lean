import PslBank.Lib.Bytes
import PslBank.Lib.Runs
import Mathlib.Data.Nat.Digits.Lemmas
import Mathlib.Tactic.Linarith

/-!
# Numbers in decimal text

Numbers printed in decimal and separated by blanks, and the loops of a C program that read
them back: skip the blanks, then multiply by ten and add while there are digits. A text is
the bytes before the terminating NUL, so a read at its end sees no digit and no blank. An
`int` has 32 bits, and a sum that leaves its range is undefined behaviour.
-/
namespace PslBank.Lib

set_option autoImplicit false

/-- Why a C program has no defined result. -/
inductive Undefined where
  | overflow
  | outOfBounds
  deriving DecidableEq

/-- The sum of two `int`s. -/
def addInt (a b : ℤ) : Except Undefined ℤ :=
  if -2 ^ 31 ≤ a + b ∧ a + b < 2 ^ 31 then .ok (a + b) else .error .overflow

/-- A sum of naturals that fits. -/
theorem addInt_natCast {a b n : ℕ} (hn : a + b = n) (h : n < 2 ^ 31) :
    addInt (a : ℤ) (b : ℤ) = .ok (n : ℤ) := by
  subst hn
  have hcast : (a : ℤ) + b = ((a + b : ℕ) : ℤ) := (Nat.cast_add a b).symm
  rw [addInt, hcast, if_pos (by omega)]

/-- `c >= 48 && c <= 57`. -/
def isDigit (c : UInt8) : Bool := decide (48 ≤ c.toNat ∧ c.toNat ≤ 57)

def isBlank (c : UInt8) : Bool := c.toNat == 32

/-! ## Printing -/

/-- `printf("%d", n)` of a natural number. -/
def decimal (n : ℕ) : Bytes :=
  if n = 0 then [48] else (Nat.digits 10 n).reverse.map fun d => UInt8.ofNat (48 + d)

/-- `printf("%d", v)` of any `int`. -/
def printInt (v : ℤ) : Bytes := if v < 0 then 45 :: decimal v.natAbs else decimal v.natAbs

@[simp] theorem printInt_natCast (n : ℕ) : printInt n = decimal n := if_neg (by omega)

/-- `printf(" %d", n)` for each number. -/
def spaced (ns : List ℕ) : Bytes := ns.flatMap fun n => 32 :: decimal n

/-- The numbers separated by single blanks. -/
def wire : List ℕ → Bytes
  | [] => []
  | n :: ns => decimal n ++ spaced ns

/-! ## Reading -/

/-- `while (*p == ' ') p = p + 1`. -/
def skipBlanks (p : Bytes) : Bytes := p.dropWhile isBlank

/-- `while (*p >= '0' && *p <= '9') p = p + 1`. -/
def skipDigits (p : Bytes) : Bytes := p.dropWhile isDigit

/-- Ten times the value by doubling, and the digit `c`. -/
def addDigit (v : ℤ) (c : UInt8) : Except Undefined ℤ := do
  let t2 ← addInt v v
  let t4 ← addInt t2 t2
  let t8 ← addInt t4 t4
  let t10 ← addInt t8 t2
  addInt t10 (c.toNat - 48)

/-- The digit loop from the value `v` on. -/
def digitLoop : Bytes → ℤ → Except Undefined (ℤ × Bytes)
  | [], v => .ok (v, [])
  | c :: p, v =>
      if isDigit c then do
        let v ← addDigit v c
        digitLoop p v
      else .ok (v, c :: p)

/-- Skip the blanks and read a number. -/
def parseNext (p : Bytes) : Except Undefined (ℤ × Bytes) := digitLoop (skipBlanks p) 0

/-- Skip `n` numbers. -/
def skipDecimals : ℕ → Bytes → Bytes
  | 0, p => p
  | n + 1, p => skipDecimals n (skipDigits (skipBlanks p))

/-- `isspace`. -/
def isSpace (c : UInt8) : Bool := decide (c.toNat = 32 ∨ (9 ≤ c.toNat ∧ c.toNat ≤ 13))

/-- The value of a run of digits. -/
def digitsValue (ds : Bytes) : ℕ := ds.foldl (fun acc c => 10 * acc + (c.toNat - 48)) 0

/-- The conversion `%d` of `sscanf`: white space, a sign, digits. `none` is a matching failure,
a value outside `int` is undefined. -/
def scanInt (p : Bytes) : Except Undefined (Option (ℤ × Bytes)) :=
  let p := p.dropWhile isSpace
  let sign := p.head?.map UInt8.toNat
  let p := if sign = some 45 ∨ sign = some 43 then p.drop 1 else p
  if (p.takeWhile isDigit).isEmpty then .ok none
  else
    let magnitude := digitsValue (p.takeWhile isDigit)
    let v : ℤ := if sign = some 45 then -magnitude else magnitude
    if -2 ^ 31 ≤ v ∧ v < 2 ^ 31 then .ok (some (v, p.dropWhile isDigit)) else .error .overflow

/-- `sscanf(p, "%d", &v)` with `v` zero before. -/
def scanOne (p : Bytes) : Except Undefined ℤ := do
  match ← scanInt p with
  | none => return 0
  | some (v, _) => return v

/-- `sscanf(p, "%d %d", &v, &w)` with `v` and `w` zero before. -/
def scanTwo (p : Bytes) : Except Undefined (ℤ × ℤ) := do
  match ← scanInt p with
  | none => return (0, 0)
  | some (v, p) =>
      match ← scanInt p with
      | none => return (v, 0)
      | some (w, _) => return (v, w)

/-! ## The digits of a number -/

/-- The value of decimal digits, most significant first, on top of `v`. -/
def valueFrom (v : ℕ) (ds : List ℕ) : ℕ := ds.foldl (fun acc d => 10 * acc + d) v

theorem valueFrom_append (v : ℕ) (ds es : List ℕ) :
    valueFrom v (ds ++ es) = valueFrom (valueFrom v ds) es := List.foldl_append

/-- The value is the one `Nat.ofDigits` gives. -/
theorem valueFrom_reverse (ds : List ℕ) : valueFrom 0 ds.reverse = Nat.ofDigits 10 ds := by
  induction ds with
  | nil => rfl
  | cons d ds ih =>
    rw [List.reverse_cons, valueFrom_append, ih, Nat.ofDigits_cons]
    show 10 * Nat.ofDigits 10 ds + d = _
    rw [Nat.add_comm]

/-- Digits behind only make the number larger. -/
theorem le_valueFrom (v : ℕ) (ds : List ℕ) : v ≤ valueFrom v ds := by
  induction ds generalizing v with
  | nil => exact Nat.le_refl v
  | cons d ds ih =>
    have h := ih (10 * v + d)
    show v ≤ valueFrom (10 * v + d) ds
    omega

/-- The printed form is the digits of the number, and there is at least one. -/
theorem decimal_eq_map (n : ℕ) : ∃ ds : List ℕ, decimal n = ds.map (fun d => UInt8.ofNat (48 + d)) ∧
    (∀ d ∈ ds, d < 10) ∧ valueFrom 0 ds = n ∧ ds ≠ [] := by
  by_cases hn : n = 0
  · subst hn
    exact ⟨[0], rfl, by simp, rfl, by simp⟩
  · refine ⟨(Nat.digits 10 n).reverse, if_neg hn, ?_, ?_, ?_⟩
    · intro d hd
      exact Nat.digits_lt_base (by decide) (List.mem_reverse.mp hd)
    · rw [valueFrom_reverse, Nat.ofDigits_digits]
    · rw [Ne, List.reverse_eq_nil_iff, Nat.digits_eq_nil_iff_eq_zero]
      exact hn

theorem toNat_digit {d : ℕ} (hd : d < 10) : (UInt8.ofNat (48 + d)).toNat = 48 + d :=
  UInt8.toNat_ofNat_of_lt' (by show 48 + d < 256; omega)

theorem isDigit_digit {d : ℕ} (hd : d < 10) : isDigit (UInt8.ofNat (48 + d)) = true := by
  rw [isDigit, toNat_digit hd, decide_eq_true_iff]
  omega

theorem isBlank_digit {d : ℕ} (hd : d < 10) : isBlank (UInt8.ofNat (48 + d)) = false := by
  rw [isBlank, toNat_digit hd, beq_eq_false_iff_ne]
  omega

/-! ## Reading what was printed -/

/-- The text does not go on with a digit. -/
def NoDigit (p : Bytes) : Prop := ∀ c ∈ p.head?, isDigit c = false

theorem noDigit_nil : NoDigit [] := by
  intro c hc
  exact absurd hc (by simp)

theorem noDigit_cons {c : UInt8} (h : isDigit c = false) (p : Bytes) : NoDigit (c :: p) := by
  intro d hd
  rw [List.head?_cons, Option.mem_some_iff] at hd
  rwa [← hd]

/-- Numbers with blanks in front start with no digit. -/
theorem noDigit_spaced (ns : List ℕ) {p : Bytes} (hp : NoDigit p) : NoDigit (spaced ns ++ p) := by
  cases ns with
  | nil => exact hp
  | cons n ns => exact noDigit_cons rfl _

/-- No sum leaves the range where the new value fits. -/
theorem addDigit_digit {v d : ℕ} {c : UInt8} (hc : c.toNat = 48 + d) (hv : 10 * v + d < 2 ^ 31) :
    addDigit v c = .ok ((10 * v + d : ℕ) : ℤ) := by
  have h2 : addInt (v : ℤ) v = .ok ((2 * v : ℕ) : ℤ) := addInt_natCast (by ring) (by linarith)
  have h4 : addInt ((2 * v : ℕ) : ℤ) (2 * v : ℕ) = .ok ((4 * v : ℕ) : ℤ) :=
    addInt_natCast (by ring) (by linarith)
  have h8 : addInt ((4 * v : ℕ) : ℤ) (4 * v : ℕ) = .ok ((8 * v : ℕ) : ℤ) :=
    addInt_natCast (by ring) (by linarith)
  have h10 : addInt ((8 * v : ℕ) : ℤ) (2 * v : ℕ) = .ok ((10 * v : ℕ) : ℤ) :=
    addInt_natCast (by ring) (by linarith)
  have hdigit : (c.toNat : ℤ) - 48 = (d : ℤ) := by
    rw [hc, Nat.cast_add]
    ring
  have hlast : addInt ((10 * v : ℕ) : ℤ) ((c.toNat : ℤ) - 48) = .ok ((10 * v + d : ℕ) : ℤ) := by
    rw [hdigit]
    exact addInt_natCast rfl hv
  exact bind_eq_ok_iff.mpr ⟨_, h2, bind_eq_ok_iff.mpr ⟨_, h4, bind_eq_ok_iff.mpr ⟨_, h8,
    bind_eq_ok_iff.mpr ⟨_, h10, hlast⟩⟩⟩⟩

/-- A digit is taken as long as the value fits. -/
theorem digitLoop_digit {d : ℕ} (hd : d < 10) (p : Bytes) {v : ℕ} (hv : 10 * v + d < 2 ^ 31) :
    digitLoop (UInt8.ofNat (48 + d) :: p) v = digitLoop p ((10 * v + d : ℕ) : ℤ) := by
  rw [digitLoop, if_pos (isDigit_digit hd), addDigit_digit (toNat_digit hd) hv]
  rfl

/-- The loop reads a whole number that fits, and stops at what is no digit. -/
theorem digitLoop_digits {ds : List ℕ} (hds : ∀ d ∈ ds, d < 10) {v : ℕ} {p : Bytes} (hp : NoDigit p)
    (hv : valueFrom v ds < 2 ^ 31) :
    digitLoop (ds.map (fun d => UInt8.ofNat (48 + d)) ++ p) v = .ok ((valueFrom v ds : ℕ), p) := by
  induction ds generalizing v with
  | nil =>
    cases p with
    | nil => rfl
    | cons c p =>
      show digitLoop (c :: p) v = _
      rw [digitLoop, hp c (by simp), if_neg Bool.false_ne_true]
      rfl
  | cons d ds ih =>
    have hvalue : valueFrom (10 * v + d) ds < 2 ^ 31 := hv
    have hle := le_valueFrom (10 * v + d) ds
    rw [List.map_cons, List.cons_append, digitLoop_digit (hds d List.mem_cons_self) _ (by omega),
      ih (fun e he => hds e (List.mem_cons_of_mem _ he)) hvalue]
    rfl

theorem skipBlanks_decimal (n : ℕ) (p : Bytes) : skipBlanks (decimal n ++ p) = decimal n ++ p := by
  obtain ⟨ds, hds, hlt, -, hne⟩ := decimal_eq_map n
  cases ds with
  | nil => exact absurd rfl hne
  | cons d ds =>
    rw [hds, List.map_cons, List.cons_append, skipBlanks, List.dropWhile_cons,
      isBlank_digit (hlt d List.mem_cons_self), if_neg Bool.false_ne_true]

/-- In particular one that was printed. -/
theorem digitLoop_decimal {n : ℕ} (hn : n < 2 ^ 31) {p : Bytes} (hp : NoDigit p) :
    digitLoop (decimal n ++ p) 0 = .ok ((n : ℤ), p) := by
  obtain ⟨ds, hds, hlt, hvalue, -⟩ := decimal_eq_map n
  have hloop := digitLoop_digits hlt hp (v := 0) (by rw [hvalue]; exact hn)
  rw [hvalue, ← hds] at hloop
  exact hloop

/-- A number that was printed is read back. -/
theorem parseNext_decimal {n : ℕ} (hn : n < 2 ^ 31) {p : Bytes} (hp : NoDigit p) :
    parseNext (decimal n ++ p) = .ok ((n : ℤ), p) := by
  rw [parseNext, skipBlanks_decimal, digitLoop_decimal hn hp]

theorem parseNext_blank (p : Bytes) : parseNext (32 :: p) = parseNext p := rfl

/-- The first number of a wire, and the wire after it. -/
theorem parseNext_wire {n : ℕ} (hn : n < 2 ^ 31) (ns : List ℕ) :
    parseNext (wire (n :: ns)) = .ok ((n : ℤ), spaced ns) := by
  have hrest : NoDigit (spaced ns) := by simpa using noDigit_spaced ns noDigit_nil
  exact parseNext_decimal hn hrest

/-- One number of a line is read and the rest is left. -/
theorem parseNext_spaced {n : ℕ} (hn : n < 2 ^ 31) (ns : List ℕ) :
    parseNext (spaced (n :: ns)) = .ok ((n : ℤ), spaced ns) := parseNext_wire hn ns

theorem skipDigits_decimal (n : ℕ) {p : Bytes} (hp : NoDigit p) : skipDigits (decimal n ++ p) = p := by
  obtain ⟨ds, hds, hlt, -, -⟩ := decimal_eq_map n
  rw [hds, skipDigits, List.dropWhile_append_of_pos]
  · cases p with
    | nil => rfl
    | cons c p => rw [List.dropWhile_cons, hp c (by simp), if_neg Bool.false_ne_true]
  · intro c hc
    obtain ⟨d, hd, rfl⟩ := List.mem_map.mp hc
    exact isDigit_digit (hlt d hd)

/-- A printed number is skipped. -/
theorem skipNumber_decimal (n : ℕ) {p : Bytes} (hp : NoDigit p) :
    skipDigits (skipBlanks (decimal n ++ p)) = p := by
  rw [skipBlanks_decimal, skipDigits_decimal n hp]

/-- So are any many of them. -/
theorem skipDecimals_spaced (ns : List ℕ) {p : Bytes} (hp : NoDigit p) :
    skipDecimals ns.length (spaced ns ++ p) = p := by
  induction ns with
  | nil => rfl
  | cons n ns ih =>
    show skipDecimals ns.length (skipDigits (skipBlanks (32 :: (decimal n ++ spaced ns) ++ p))) = p
    have hskip : skipBlanks (32 :: (decimal n ++ spaced ns) ++ p) =
        skipBlanks (decimal n ++ (spaced ns ++ p)) := by
      rw [List.cons_append, List.append_assoc]
      rfl
    rw [hskip, skipNumber_decimal n (noDigit_spaced ns hp), ih]

/-! ## `sscanf` of what was printed -/

theorem isSpace_digit {d : ℕ} (hd : d < 10) : isSpace (UInt8.ofNat (48 + d)) = false := by
  rw [isSpace, toNat_digit hd, decide_eq_false_iff_not]
  omega

/-- `%d` reads the same value. -/
theorem digitsValue_map {ds : List ℕ} (hds : ∀ d ∈ ds, d < 10) :
    digitsValue (ds.map fun d => UInt8.ofNat (48 + d)) = valueFrom 0 ds := by
  unfold digitsValue valueFrom
  generalize 0 = v
  induction ds generalizing v with
  | nil => rfl
  | cons d ds ih =>
    have hd : (UInt8.ofNat (48 + d)).toNat - 48 = d := by
      rw [toNat_digit (hds d List.mem_cons_self), Nat.add_sub_cancel_left]
    rw [List.map_cons, List.foldl_cons, List.foldl_cons, hd]
    exact ih (fun e he => hds e (List.mem_cons_of_mem _ he)) _

/-- The digits end where something else starts. -/
theorem takeWhile_digits {ds : List ℕ} (hds : ∀ d ∈ ds, d < 10) {p : Bytes} (hp : NoDigit p) :
    (ds.map (fun d => UInt8.ofNat (48 + d)) ++ p).takeWhile isDigit =
      ds.map fun d => UInt8.ofNat (48 + d) := by
  rw [List.takeWhile_append_of_pos]
  · cases p with
    | nil => simp
    | cons c p => rw [List.takeWhile_cons, hp c (by simp), if_neg Bool.false_ne_true, List.append_nil]
  · intro c hc
    obtain ⟨d, hd, rfl⟩ := List.mem_map.mp hc
    exact isDigit_digit (hds d hd)

/-- The conversion reads back a number that was printed, where it fits. -/
theorem scanInt_decimal_eq (n : ℕ) {p : Bytes} (hp : NoDigit p) :
    scanInt (decimal n ++ p) = if n < 2 ^ 31 then .ok (some ((n : ℤ), p)) else .error .overflow := by
  have hskip := skipDigits_decimal n hp
  obtain ⟨ds, hds, hlt, hvalue, hne⟩ := decimal_eq_map n
  cases ds with
  | nil => exact absurd rfl hne
  | cons d ds =>
    have hd := hlt d List.mem_cons_self
    have hspace : (decimal n ++ p).dropWhile isSpace = decimal n ++ p := by
      rw [hds, List.map_cons, List.cons_append, List.dropWhile_cons, isSpace_digit hd,
        if_neg Bool.false_ne_true]
    have hsign : (decimal n ++ p).head?.map UInt8.toNat = some (48 + d) := by
      rw [hds, List.map_cons, List.cons_append, List.head?_cons, Option.map_some, toNat_digit hd]
    have htake : (decimal n ++ p).takeWhile isDigit = decimal n := by
      rw [hds]
      exact takeWhile_digits hlt hp
    have hempty : (decimal n).isEmpty = false := by
      rw [hds]
      rfl
    have hvalue' : digitsValue (decimal n) = n := by rw [hds, digitsValue_map hlt, hvalue]
    have hminus : ¬ some (48 + d) = some 45 := by
      rw [Option.some_inj]
      omega
    have hplus : ¬ some (48 + d) = some 43 := by
      rw [Option.some_inj]
      omega
    unfold scanInt
    simp only [hspace, hsign, hminus, hplus, or_self, if_false, htake, hempty, Bool.false_eq_true, hvalue']
    rw [show (decimal n ++ p).dropWhile isDigit = p from hskip]
    by_cases hn : n < 2 ^ 31
    · rw [if_pos hn, if_pos (by omega)]
    · rw [if_neg hn, if_neg (by omega)]

/-- `%d` reads a printed number that fits. -/
theorem scanInt_decimal {n : ℕ} (hn : n < 2 ^ 31) {p : Bytes} (hp : NoDigit p) :
    scanInt (decimal n ++ p) = .ok (some ((n : ℤ), p)) := by
  rw [scanInt_decimal_eq n hp, if_pos hn]

theorem scanInt_blank (p : Bytes) : scanInt (32 :: p) = scanInt p := rfl

/-- The first number of a line. -/
theorem scanOne_wire {n : ℕ} (hn : n < 2 ^ 31) (ns : List ℕ) : scanOne (wire (n :: ns)) = .ok (n : ℤ) := by
  have hrest : NoDigit (spaced ns) := by simpa using noDigit_spaced ns noDigit_nil
  rw [scanOne, wire, scanInt_decimal hn hrest]
  rfl

/-- A first number that is too large for an `int` has no defined value. -/
theorem scanOne_wire_overflow {n : ℕ} (hn : 2 ^ 31 ≤ n) (ns : List ℕ) :
    scanOne (wire (n :: ns)) = .error .overflow := by
  have hrest : NoDigit (spaced ns) := by simpa using noDigit_spaced ns noDigit_nil
  rw [scanOne, wire, scanInt_decimal_eq n hrest, if_neg (Nat.not_lt.mpr hn)]
  rfl

/-- The first two numbers of a line. -/
theorem scanTwo_wire {n m : ℕ} (hn : n < 2 ^ 31) (hm : m < 2 ^ 31) (ns : List ℕ) :
    scanTwo (wire (n :: m :: ns)) = .ok ((n : ℤ), (m : ℤ)) := by
  have hrest : NoDigit (spaced ns) := by simpa using noDigit_spaced ns noDigit_nil
  have hrest' : NoDigit (spaced (m :: ns)) := by simpa using noDigit_spaced (m :: ns) noDigit_nil
  have hsecond : scanInt (spaced (m :: ns)) = .ok (some ((m : ℤ), spaced ns)) := by
    show scanInt (32 :: (decimal m ++ spaced ns)) = _
    rw [scanInt_blank, scanInt_decimal hm hrest]
  rw [scanTwo, wire, scanInt_decimal hn hrest']
  show (scanInt (spaced (m :: ns)) >>= _) = _
  rw [hsecond]
  rfl

/-- One number too large for an `int` is enough. -/
theorem scanTwo_wire_overflow {n m : ℕ} (h : 2 ^ 31 ≤ n ∨ 2 ^ 31 ≤ m) (ns : List ℕ) :
    scanTwo (wire (n :: m :: ns)) = .error .overflow := by
  have hrest : NoDigit (spaced ns) := by simpa using noDigit_spaced ns noDigit_nil
  have hrest' : NoDigit (spaced (m :: ns)) := by simpa using noDigit_spaced (m :: ns) noDigit_nil
  by_cases hn : n < 2 ^ 31
  · have hm : ¬ m < 2 ^ 31 := by omega
    have hsecond : scanInt (spaced (m :: ns)) = .error .overflow := by
      show scanInt (32 :: (decimal m ++ spaced ns)) = _
      rw [scanInt_blank, scanInt_decimal_eq m hrest, if_neg hm]
    rw [scanTwo, wire, scanInt_decimal hn hrest']
    show (scanInt (spaced (m :: ns)) >>= _) = _
    rw [hsecond]
    rfl
  · rw [scanTwo, wire, scanInt_decimal_eq n hrest', if_neg hn]
    rfl

end PslBank.Lib
