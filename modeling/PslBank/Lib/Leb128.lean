import PslBank.Lib.Bytes
import Mathlib.Algebra.BigOperators.Group.Finset.Basic
import Mathlib.Algebra.BigOperators.Ring.Finset

/-!
# Groups of seven bits

An unsigned LEB128 number is a group of bytes, of which all but the last have their high bit
set. Its value is the sum of the low seven bits of each byte, least significant byte first,
as a natural number: nothing here depends on the width of a machine word.
-/
namespace PslBank.Lib

set_option autoImplicit false

/-- The first `n` bytes are a group. -/
structure Terminated (bs : Bytes) (n : ℕ) : Prop where
  pos : 1 ≤ n
  le_length : n ≤ bs.length
  more : ∀ i, i + 1 < n → 128 ≤ (bs.getD i 0).toNat
  last : (bs.getD (n - 1) 0).toNat < 128

/-- The value of the first `n` bytes. -/
def groupValue (bs : Bytes) (n : ℕ) : ℕ :=
  ∑ i ∈ Finset.range n, (bs.getD i 0 &&& 0x7f).toNat * 2 ^ (7 * i)

theorem groupValue_succ (bs : Bytes) (n : ℕ) :
    groupValue bs (n + 1) = groupValue bs n + (bs.getD n 0).toNat % 128 * 2 ^ (7 * n) := by
  rw [groupValue, Finset.sum_range_succ, toNat_and_low]
  rfl

theorem groupValue_cons (byte : UInt8) (bs : Bytes) (n : ℕ) :
    groupValue (byte :: bs) (n + 1) = byte.toNat % 128 + 128 * groupValue bs n := by
  have hshift : ∀ i, (bs.getD i 0 &&& 0x7f).toNat * 2 ^ (7 * (i + 1)) =
      128 * ((bs.getD i 0 &&& 0x7f).toNat * 2 ^ (7 * i)) := by
    intro i
    ring
  rw [groupValue, Finset.sum_range_succ', add_comm]
  simp only [List.getD_cons_zero, List.getD_cons_succ, hshift]
  rw [← Finset.mul_sum, toNat_and_low, Nat.mul_zero, pow_zero, Nat.mul_one]
  rfl

/-- `n` bytes hold `7 n` bits. -/
theorem groupValue_lt (bs : Bytes) (n : ℕ) : groupValue bs n < 2 ^ (7 * n) := by
  induction n with
  | zero => exact Nat.one_pos
  | succ n ih =>
    have hlow := Nat.mod_lt (bs.getD n 0).toNat (show 0 < 128 by decide)
    have hlast : (bs.getD n 0).toNat % 128 * 2 ^ (7 * n) ≤ 127 * 2 ^ (7 * n) :=
      Nat.mul_le_mul_right _ (by omega)
    have hpow : 2 ^ (7 * (n + 1)) = 128 * 2 ^ (7 * n) := by ring
    rw [groupValue_succ, hpow]
    omega

theorem not_terminated_nil (n : ℕ) : ¬ Terminated [] n := by
  intro h
  have hpos := h.pos
  have hlen := h.le_length
  rw [List.length_nil] at hlen
  omega

/-- A group ends with its first byte, or goes on with a group behind it. -/
theorem terminated_cons {byte : UInt8} {bs : Bytes} {n : ℕ} :
    Terminated (byte :: bs) n ↔
      (byte.toNat < 128 ∧ n = 1) ∨ (128 ≤ byte.toNat ∧ ∃ m, n = m + 1 ∧ Terminated bs m) := by
  constructor
  · intro h
    have hpos := h.pos
    have hlen := h.le_length
    rw [List.length_cons] at hlen
    by_cases hone : n = 1
    · subst hone
      exact .inl ⟨h.last, rfl⟩
    · obtain ⟨m, rfl⟩ : ∃ m, n = m + 2 := ⟨n - 2, by omega⟩
      refine .inr ⟨h.more 0 (by omega), m + 1, rfl, ⟨by omega, by omega, ?_, h.last⟩⟩
      intro i hi
      exact h.more (i + 1) (by omega)
  · rintro (⟨hbyte, rfl⟩ | ⟨hbyte, m, rfl, h⟩)
    · exact ⟨Nat.le_refl 1, Nat.le_add_left 1 _, fun i hi => absurd hi (by omega), hbyte⟩
    · have hpos := h.pos
      have hlen := h.le_length
      obtain ⟨k, rfl⟩ : ∃ k, m = k + 1 := ⟨m - 1, by omega⟩
      refine ⟨by omega, by rw [List.length_cons]; omega, ?_, h.last⟩
      intro i hi
      cases i with
      | zero => exact hbyte
      | succ i => exact h.more i (by omega)

end PslBank.Lib
