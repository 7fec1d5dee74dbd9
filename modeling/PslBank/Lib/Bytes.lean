import Mathlib.Data.Nat.Digits.Lemmas
import Mathlib.Data.Vector.Basic
import Mathlib.Data.Fintype.Vector
import Mathlib.Tactic.Ring

/-!
# Byte strings, fixed-size arrays and little-endian integers

Byte strings are lists of `UInt8`; an array `[u8; n]` is a `List.Vector`. The
value of a little-endian field is `Nat.ofDigits 256`, so concatenation and bounds
come from the digit library. `slice` and `splice` are the two array accesses a
fixed layout is read and written with.
-/
namespace PslBank.Lib

set_option autoImplicit false

abbrev Bytes := List UInt8

/-- A fixed-size array of bytes. -/
abbrev ByteArr (n : ℕ) := List.Vector UInt8 n

instance fintypeUInt8 : Fintype UInt8 :=
  Fintype.ofEquiv (Fin 256)
    ⟨UInt8.ofFin, UInt8.toFin, fun _ => rfl, fun _ => rfl⟩

/-- The value of a little-endian byte string. -/
def leNat (l : Bytes) : ℕ := Nat.ofDigits 256 (l.map UInt8.toNat)

/-- The `w` low bytes of `n`, least significant first. -/
def toLe : ℕ → ℕ → Bytes
  | 0, _ => []
  | w + 1, n => UInt8.ofNat n :: toLe w (n / 256)

/-- The `w` low bytes of `n`, most significant first. -/
def toBe (w n : ℕ) : Bytes := (toLe w n).reverse

@[simp] theorem leNat_nil : leNat [] = 0 := rfl

@[simp] theorem leNat_cons (b : UInt8) (l : Bytes) : leNat (b :: l) = b.toNat + 256 * leNat l := by
  simp [leNat, Nat.ofDigits_cons]

theorem leNat_append (l m : Bytes) : leNat (l ++ m) = leNat l + 256 ^ l.length * leNat m := by
  simp [leNat, Nat.ofDigits_append]

theorem leNat_lt (l : Bytes) : leNat l < 256 ^ l.length := by
  have h := Nat.ofDigits_lt_base_pow_length (b := 256) (l := l.map UInt8.toNat) (by decide) (by
    intro x hx
    obtain ⟨b, _, rfl⟩ := List.mem_map.mp hx
    exact b.toNat_lt)
  simpa [leNat] using h

@[simp] theorem length_toLe (w n : ℕ) : (toLe w n).length = w := by
  induction w generalizing n with
  | zero => rfl
  | succ w ih => simp [toLe, ih]

theorem leNat_toLe (w n : ℕ) : leNat (toLe w n) = n % 256 ^ w := by
  induction w generalizing n with
  | zero => simp [toLe, Nat.mod_one]
  | succ w ih =>
    rw [toLe, leNat_cons, ih, pow_succ', Nat.mod_mul]
    rfl

theorem leNat_toLe_of_lt {w n : ℕ} (h : n < 256 ^ w) : leNat (toLe w n) = n := by
  rw [leNat_toLe, Nat.mod_eq_of_lt h]

theorem toLe_leNat (b : Bytes) : toLe b.length (leNat b) = b := by
  induction b with
  | nil => rfl
  | cons x b ih =>
    have hlt := x.toNat_lt
    have hlow : UInt8.ofNat (x.toNat + 256 * leNat b) = x := by
      apply UInt8.toNat_inj.mp
      rw [UInt8.toNat_ofNat']
      omega
    have hhigh : (x.toNat + 256 * leNat b) / 256 = leNat b := by omega
    rw [List.length_cons, leNat_cons, toLe, hlow, hhigh, ih]

/-- Strings of one length are told apart by their values. -/
theorem eq_of_leNat_eq {a b : Bytes} (hlen : a.length = b.length) (h : leNat a = leNat b) : a = b := by
  rw [← toLe_leNat a, ← toLe_leNat b, hlen, h]

/-- Only the residue of a number is written. -/
theorem toLe_congr {w m n : ℕ} (h : m % 256 ^ w = n % 256 ^ w) : toLe w m = toLe w n := by
  have hm := toLe_leNat (toLe w m)
  have hn := toLe_leNat (toLe w n)
  rw [length_toLe, leNat_toLe] at hm hn
  rw [← hm, ← hn, h]

/-! ## The high bit of a byte -/

theorem toNat_and_low (byte : UInt8) : (byte &&& 0x7f).toNat = byte.toNat % 128 := by
  revert byte
  decide +kernel

theorem toNat_or_high (byte : UInt8) : (byte ||| 0x80).toNat = byte.toNat % 128 + 128 := by
  revert byte
  decide +kernel

theorem and_high_eq_zero_iff (byte : UInt8) : byte &&& 0x80 = 0 ↔ byte.toNat < 128 := by
  revert byte
  decide +kernel

/-! ## Slices of a fixed layout -/

theorem modify_last (l : Bytes) (b : UInt8) (f : UInt8 → UInt8) :
    (l ++ [b]).modify l.length f = l ++ [f b] := by
  induction l with
  | nil => rfl
  | cons c l ih => simp [ih]

/-- The bytes `l[off .. off + len]`. -/
def slice (l : Bytes) (off len : ℕ) : Bytes := (l.drop off).take len

/-- Overwrite `l[off .. off + new.length]` with `new`. -/
def splice (l : Bytes) (off : ℕ) (new : Bytes) : Bytes :=
  l.take off ++ new ++ l.drop (off + new.length)

theorem length_slice {l : Bytes} {off len : ℕ} (h : off + len ≤ l.length) :
    (slice l off len).length = len := by
  simp [slice]
  omega

/-- A slice that ends inside a string of known length. -/
theorem length_slice_of_length {l : Bytes} {n off len : ℕ} (hl : l.length = n) (h : off + len ≤ n) :
    (slice l off len).length = len :=
  length_slice (by rwa [hl])

theorem length_splice {l new : Bytes} {off : ℕ} (h : off + new.length ≤ l.length) :
    (splice l off new).length = l.length := by
  simp [splice]
  omega

theorem slice_append (l : Bytes) (off m n : ℕ) :
    slice l off (m + n) = slice l off m ++ slice l (off + m) n := by
  simp [slice, List.take_add, List.drop_drop]

/-- A field of known place in a concatenation. -/
theorem slice_middle {front field : Bytes} {off len : ℕ} (hoff : front.length = off)
    (hlen : field.length = len) (back : Bytes) : slice (front ++ (field ++ back)) off len = field := by
  rw [slice, List.drop_left' hoff, List.take_left' hlen]

theorem slice_splice_same {l new : Bytes} {off : ℕ} (h : off + new.length ≤ l.length) :
    slice (splice l off new) off new.length = new := by
  have ht : (l.take off).length = off := by simp; omega
  rw [slice, splice, List.append_assoc, List.drop_left' ht, List.take_left' rfl]

/-- A write leaves every slice below it alone. -/
theorem slice_splice_below {l new : Bytes} {off a n : ℕ} (h : off + new.length ≤ l.length)
    (hd : a + n ≤ off) : slice (splice l off new) a n = slice l a n := by
  apply List.ext_getElem?
  intro i
  simp only [slice, splice, List.append_assoc, List.getElem?_take, List.getElem?_drop]
  by_cases hi : i < n
  · have ht : a + i < (l.take off).length := by simp; omega
    rw [if_pos hi, if_pos hi, List.getElem?_append_left ht, List.getElem?_take,
      if_pos (by omega)]
  · rw [if_neg hi, if_neg hi]

/-- A write leaves every slice above it alone. -/
theorem slice_splice_above {l new : Bytes} {off a n : ℕ} (h : off + new.length ≤ l.length)
    (hd : off + new.length ≤ a) : slice (splice l off new) a n = slice l a n := by
  have ht : (l.take off ++ new).length = off + new.length := by simp; omega
  rw [slice, slice, splice]
  congr 1
  rw [List.drop_append, ht, List.drop_of_length_le (by omega), List.nil_append, List.drop_drop]
  congr 1
  omega

end PslBank.Lib
