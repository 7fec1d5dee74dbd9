import PslBank.Lib.DecimalWire
import PslBank.Lib.Ripple

/-!
# Helpers of the C primitives

`primitives/common.h`. A `char` array is a byte list, an `int` an integer whose sums must fit;
the arithmetic helpers walk little-endian fields, so their loops are ripple chains.
-/
namespace PslBank.Primitives

open PslBank.Lib

set_option autoImplicit false

/-- `(char)v`: the low eight bits. -/
def toChar (v : ℤ) : UInt8 := UInt8.ofNat (v % 256).toNat

theorem toChar_natCast (n : ℕ) : toChar n = UInt8.ofNat n := by
  have hmod : ((n : ℤ) % 256).toNat = n % 256 := by omega
  rw [toChar, hmod]
  exact ofNat_eq_of_mod (Nat.mod_mod n 256)

/-- `PARSE_NEXT_BYTE`. -/
def parseNextByte (p : Bytes) : Except Undefined (UInt8 × Bytes) := do
  let (v, p) ← parseNext p
  return (toChar v, p)

/-- A loop of `n` times `PARSE_NEXT_BYTE`. -/
def parseBytes : ℕ → Bytes → Except Undefined (Bytes × Bytes)
  | 0, p => .ok ([], p)
  | n + 1, p => do
      let (b, p) ← parseNextByte p
      let (bs, p) ← parseBytes n p
      return (b :: bs, p)

/-- The numbers of a byte string, as they stand on the wire. -/
def nums (bs : Bytes) : List ℕ := bs.map UInt8.toNat

/-- `PRINT_ACCOUNT`, and the loops that print a buffer the same way. -/
def printBytes (bs : Bytes) : Bytes := wire (nums bs)

/-! ## Fields of sixteen and eight bytes -/

/-- The body of the loop of `u128_add_inplace`. -/
def addStep (a b carry : UInt8) : Except Undefined (UInt8 × UInt8) :=
  let sum := a.toNat + b.toNat + carry.toNat
  if 256 ≤ sum then .ok (UInt8.ofNat (sum - 256), 1) else .ok (UInt8.ofNat sum, 0)

def u128AddInplace (dst src : Bytes) : Except Undefined (Bytes × UInt8) := chain addStep dst src 0

/-- The body of the loop of `u128_sub_inplace`. -/
def subStep (a b borrow : UInt8) : Except Undefined (UInt8 × UInt8) :=
  let diff : ℤ := a.toNat - b.toNat - borrow.toNat
  if diff < 0 then .ok (toChar (diff + 256), 1) else .ok (toChar diff, 0)

def u128SubInplace (dst src : Bytes) : Except Undefined (Bytes × UInt8) := chain subStep dst src 0

/-- The loop of `u128_geq`, most significant byte first. -/
def geqLoop : Bytes → Bytes → Bool
  | a :: as, b :: bs => if b < a then true else if a < b then false else geqLoop as bs
  | _, _ => true

def u128Geq (a b : Bytes) : Bool := geqLoop a.reverse b.reverse

/-- `u64_inc_inplace`: the loop ends at the first byte without a carry. -/
def u64IncInplace : Bytes → Bytes
  | [] => []
  | b :: bs =>
      if 256 ≤ b.toNat + 1 then UInt8.ofNat (b.toNat + 1 - 256) :: u64IncInplace bs
      else UInt8.ofNat (b.toNat + 1) :: bs

/-- `u64_set`: the four bytes of the `int`, then zeros. -/
def u64Set (epoch : ℤ) : Bytes :=
  [toChar (epoch % 256), toChar (epoch / 2 ^ 8 % 256), toChar (epoch / 2 ^ 16 % 256),
    toChar (epoch / 2 ^ 24 % 256), 0, 0, 0, 0]

/-! ## What they compute -/

theorem fullAdder_addStep : FullAdder addStep := by
  intro a b c hc
  have ha := a.toNat_lt
  have hb := b.toNat_lt
  unfold addStep
  by_cases hsum : 256 ≤ a.toNat + b.toNat + c.toNat
  · have hquot : (a.toNat + b.toNat + c.toNat) / 256 = 1 := by omega
    rw [if_pos hsum, hquot, @ofNat_eq_of_mod (a.toNat + b.toNat + c.toNat - 256)
      (a.toNat + b.toNat + c.toNat) (by omega)]
    rfl
  · have hquot : (a.toNat + b.toNat + c.toNat) / 256 = 0 := by omega
    rw [if_neg hsum, hquot]
    rfl

theorem fullSubtractor_subStep : FullSubtractor subStep := by
  intro m s b hb
  have hm := m.toNat_lt
  have hs := s.toNat_lt
  unfold subStep
  by_cases hneg : (m.toNat : ℤ) - s.toNat - b.toNat < 0
  · have hcast : (m.toNat : ℤ) - s.toNat - b.toNat + 256 =
        ((m.toNat + 256 - s.toNat - b.toNat : ℕ) : ℤ) := by omega
    have hquot : 1 - (m.toNat + 256 - s.toNat - b.toNat) / 256 = 1 := by omega
    rw [if_pos hneg, hcast, toChar_natCast, hquot]
    rfl
  · have hcast : (m.toNat : ℤ) - s.toNat - b.toNat = ((m.toNat - s.toNat - b.toNat : ℕ) : ℤ) := by omega
    have hquot : 1 - (m.toNat + 256 - s.toNat - b.toNat) / 256 = 0 := by omega
    rw [if_neg hneg, hcast, toChar_natCast, hquot,
      @ofNat_eq_of_mod (m.toNat - s.toNat - b.toNat) (m.toNat + 256 - s.toNat - b.toNat) (by omega)]
    rfl

theorem u128AddInplace_eq {dst src : Bytes} (hdst : dst.length = 16) (hsrc : src.length = 16) :
    u128AddInplace dst src = .ok (toLe 16 (leNat dst + leNat src),
      if 2 ^ 128 ≤ leNat dst + leNat src then 1 else 0) := by
  have hchain := fullAdder_addStep.chain_zero dst src (by rw [hdst, hsrc])
  rw [hdst] at hchain
  exact hchain

/-- Without a borrow out the subtraction is exact. -/
theorem u128SubInplace_eq {dst src : Bytes} (hdst : dst.length = 16) (hsrc : src.length = 16)
    (h : leNat src ≤ leNat dst) :
    u128SubInplace dst src = .ok (toLe 16 (leNat dst - leNat src), 0) := by
  have hchain := fullSubtractor_subStep.chain_zero dst src (by rw [hdst, hsrc])
  have hcongr : toLe 16 (leNat dst + 256 ^ 16 - leNat src) = toLe 16 (leNat dst - leNat src) := by
    apply toLe_congr
    have hshift : leNat dst + 256 ^ 16 - leNat src = (leNat dst - leNat src) + 256 ^ 16 := by omega
    rw [hshift, Nat.add_mod_right]
  rw [hdst, if_neg (Nat.not_lt.mpr h), hcongr] at hchain
  exact hchain

/-- The first byte that differs decides. -/
theorem geqLoop_reverse (as bs : Bytes) (hlen : as.length = bs.length) :
    u128Geq as bs = decide (leNat bs ≤ leNat as) := by
  unfold u128Geq
  induction as using List.reverseRecOn generalizing bs with
  | nil =>
    rw [List.eq_nil_of_length_eq_zero hlen.symm]
    rfl
  | append_singleton as a ih =>
    obtain ⟨bs, b, rfl⟩ : ∃ bs' b', bs = bs' ++ [b'] := by
      rcases List.eq_nil_or_concat' bs with rfl | ⟨bs', b', rfl⟩
      · simp at hlen
      · exact ⟨bs', b', rfl⟩
    have hlen' : as.length = bs.length := by simpa using hlen
    have ha := leNat_lt as
    have hb := leNat_lt bs
    rw [← hlen'] at hb
    have hpow : 0 < 256 ^ as.length := by positivity
    rw [List.reverse_append, List.reverse_append, List.reverse_singleton, List.reverse_singleton,
      List.singleton_append, List.singleton_append, geqLoop, ih bs hlen', leNat_append, leNat_append,
      ← hlen', leNat_cons, leNat_cons, leNat_nil]
    simp only [UInt8.lt_iff_toNat_lt, Nat.mul_zero, Nat.add_zero]
    rcases Nat.lt_trichotomy a.toNat b.toNat with hlt | heq | hgt
    · have hmul : 256 ^ as.length * (a.toNat + 1) ≤ 256 ^ as.length * b.toNat :=
        Nat.mul_le_mul_left _ hlt
      rw [Nat.mul_add, Nat.mul_one] at hmul
      rw [if_neg (by omega), if_pos hlt, eq_comm, decide_eq_false_iff_not]
      omega
    · rw [if_neg (by omega), if_neg (by omega), heq]
      simp
    · have hmul : 256 ^ as.length * (b.toNat + 1) ≤ 256 ^ as.length * a.toNat :=
        Nat.mul_le_mul_left _ hgt
      rw [Nat.mul_add, Nat.mul_one] at hmul
      rw [if_pos hgt, eq_comm, decide_eq_true_iff]
      omega

theorem u64IncInplace_eq (bs : Bytes) : u64IncInplace bs = toLe bs.length (leNat bs + 1) := by
  induction bs with
  | nil => rfl
  | cons b bs ih =>
    have hb := b.toNat_lt
    rw [u64IncInplace, List.length_cons, leNat_cons]
    by_cases hcarry : 256 ≤ b.toNat + 1
    · have hdiv : (b.toNat + 256 * leNat bs + 1) / 256 = leNat bs + 1 := by omega
      rw [if_pos hcarry, ih, @toLe_succ_of_split _ _ (b.toNat + 1 - 256) _ (by omega) hdiv]
    · have hdiv : (b.toNat + 256 * leNat bs + 1) / 256 = leNat bs := by omega
      rw [if_neg hcarry, @toLe_succ_of_split _ _ (b.toNat + 1) _ (by omega) hdiv, toLe_leNat]

theorem u64Set_natCast {epoch : ℕ} (h : epoch < 2 ^ 32) : u64Set epoch = toLe 8 epoch := by
  have hbyte : ∀ k : ℕ, toChar ((epoch : ℤ) / 2 ^ k % 256) = UInt8.ofNat (epoch / 2 ^ k) := by
    intro k
    have hcast : (epoch : ℤ) / 2 ^ k % 256 = ((epoch / 2 ^ k % 256 : ℕ) : ℤ) := by push_cast; rfl
    rw [hcast, toChar_natCast]
    exact ofNat_eq_of_mod (Nat.mod_mod _ 256)
  have hfirst := hbyte 0
  rw [pow_zero, Int.ediv_one, pow_zero, Nat.div_one] at hfirst
  rw [u64Set, hfirst, hbyte 8, hbyte 16, hbyte 24]
  have hhigh : ∀ n : ℕ, 2 ^ 32 ≤ n → epoch / n = 0 := fun n hn => Nat.div_eq_of_lt (by omega)
  simp only [toLe, Nat.div_div_eq_div_mul]
  rw [hhigh (256 * 256 * 256 * 256) (by norm_num), hhigh (256 * 256 * 256 * 256 * 256) (by norm_num),
    hhigh (256 * 256 * 256 * 256 * 256 * 256) (by norm_num),
    hhigh (256 * 256 * 256 * 256 * 256 * 256 * 256) (by norm_num)]
  rfl

/-! ## Reading bytes from the wire -/

theorem parseBytes_spaced (bs : Bytes) {p : Bytes} (hp : NoDigit p) :
    parseBytes bs.length (spaced (nums bs) ++ p) = .ok (bs, p) := by
  induction bs with
  | nil => rfl
  | cons b bs ih =>
    have hb := b.toNat_lt
    have hhead : parseNextByte (spaced (nums (b :: bs)) ++ p) = .ok (b, spaced (nums bs) ++ p) := by
      show (parseNext (32 :: (decimal b.toNat ++ spaced (nums bs)) ++ p) >>= _) = _
      rw [List.cons_append, parseNext_blank, List.append_assoc,
        parseNext_decimal (by omega) (noDigit_spaced _ hp)]
      show Except.ok (toChar (b.toNat : ℕ), _) = _
      rw [toChar_natCast, UInt8.ofNat_toNat]
    rw [List.length_cons, parseBytes, hhead]
    show (parseBytes bs.length (spaced (nums bs) ++ p) >>= _) = _
    rw [ih]
    rfl

theorem spaced_append (ns ms : List ℕ) : spaced (ns ++ ms) = spaced ns ++ spaced ms :=
  List.flatMap_append

theorem nums_append (bs cs : Bytes) : nums (bs ++ cs) = nums bs ++ nums cs := List.map_append

end PslBank.Primitives
