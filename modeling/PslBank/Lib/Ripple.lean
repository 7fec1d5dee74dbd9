import PslBank.Lib.Bytes

/-!
# Ripple chains

A fallible step takes two bytes and a flag to a byte and a flag. A chain runs it along two
little-endian byte strings and hands the flag from each position to the next. From a full
adder for one position comes addition of the whole strings, from a full subtractor
subtraction, at every length.
-/
namespace PslBank.Lib

set_option autoImplicit false

variable {ε : Type}

/-- Run `f` along two byte strings, least significant byte first. -/
def chain (f : UInt8 → UInt8 → UInt8 → Except ε (UInt8 × UInt8)) :
    Bytes → Bytes → UInt8 → Except ε (Bytes × UInt8)
  | a :: as, b :: bs, flag => do
      let (byte, flag) ← f a b flag
      let (bytes, flag) ← chain f as bs flag
      return (byte :: bytes, flag)
  | _, _, flag => .ok ([], flag)

theorem chain_cons {f : UInt8 → UInt8 → UInt8 → Except ε (UInt8 × UInt8)} {a b flag byte flag' : UInt8}
    {as bs : Bytes} {r : Bytes × UInt8} (hstep : f a b flag = .ok (byte, flag'))
    (hrest : chain f as bs flag' = .ok r) :
    chain f (a :: as) (b :: bs) flag = .ok (byte :: r.1, r.2) := by
  rw [chain, hstep]
  show (do
    let (bytes, flag) ← chain f as bs flag'
    return (byte :: bytes, flag)) = _
  rw [hrest]
  rfl

/-- One position of an addition. -/
def FullAdder (f : UInt8 → UInt8 → UInt8 → Except ε (UInt8 × UInt8)) : Prop :=
  ∀ a b c : UInt8, c.toNat ≤ 1 → f a b c =
    .ok (UInt8.ofNat (a.toNat + b.toNat + c.toNat), UInt8.ofNat ((a.toNat + b.toNat + c.toNat) / 256))

/-- One position of a subtraction; the difference is shifted up by one byte to stay a
natural number. -/
def FullSubtractor (f : UInt8 → UInt8 → UInt8 → Except ε (UInt8 × UInt8)) : Prop :=
  ∀ m s b : UInt8, b.toNat ≤ 1 → f m s b =
    .ok (UInt8.ofNat (m.toNat + 256 - s.toNat - b.toNat),
      UInt8.ofNat (1 - (m.toNat + 256 - s.toNat - b.toNat) / 256))

theorem ofNat_eq_of_mod {m n : ℕ} (h : m % 256 = n % 256) : UInt8.ofNat m = UInt8.ofNat n := by
  apply UInt8.toNat_inj.mp
  rw [UInt8.toNat_ofNat', UInt8.toNat_ofNat']
  exact h

/-- The low byte of a number goes in front of the bytes of the rest. -/
theorem toLe_succ_of_split {w n low high : ℕ} (hlow : n % 256 = low % 256) (hhigh : n / 256 = high) :
    toLe (w + 1) n = UInt8.ofNat low :: toLe w high := by
  rw [toLe, hhigh, ofNat_eq_of_mod hlow]

theorem toNat_ofNat_of_le_one {n : ℕ} (h : n ≤ 1) : (UInt8.ofNat n).toNat = n := by
  rw [UInt8.toNat_ofNat']
  omega

/-- A chain of full adders adds, and ends with the carry out of the last byte. -/
theorem FullAdder.chain_eq {f : UInt8 → UInt8 → UInt8 → Except ε (UInt8 × UInt8)} (hf : FullAdder f)
    (as bs : Bytes) (hlen : as.length = bs.length) (c : UInt8) (hc : c.toNat ≤ 1) :
    chain f as bs c = .ok (toLe as.length (leNat as + leNat bs + c.toNat),
      UInt8.ofNat ((leNat as + leNat bs + c.toNat) / 256 ^ as.length)) := by
  induction as generalizing bs c with
  | nil =>
    cases bs with
    | nil =>
      simp only [chain, List.length_nil, leNat_nil, toLe, pow_zero, Nat.div_one, Nat.zero_add]
      rw [UInt8.ofNat_toNat]
    | cons b bs => simp at hlen
  | cons a as ih =>
    cases bs with
    | nil => simp at hlen
    | cons b bs =>
      have ha := a.toNat_lt
      have hb := b.toNat_lt
      -- the carry of this position is what the rest of the chain starts from
      have hcarry : (UInt8.ofNat ((a.toNat + b.toNat + c.toNat) / 256)).toNat =
          (a.toNat + b.toNat + c.toNat) / 256 := toNat_ofNat_of_le_one (by omega)
      have hrest := ih bs (by simpa using hlen)
        (UInt8.ofNat ((a.toNat + b.toNat + c.toNat) / 256)) (by rw [hcarry]; omega)
      rw [hcarry] at hrest
      have hdiv : (leNat (a :: as) + leNat (b :: bs) + c.toNat) / 256 =
          leNat as + leNat bs + (a.toNat + b.toNat + c.toNat) / 256 := by
        rw [leNat_cons, leNat_cons]
        omega
      have hmod : (leNat (a :: as) + leNat (b :: bs) + c.toNat) % 256 =
          (a.toNat + b.toNat + c.toNat) % 256 := by
        rw [leNat_cons, leNat_cons]
        omega
      rw [chain_cons (hf a b c hc) hrest, List.length_cons, toLe_succ_of_split hmod hdiv, pow_succ',
        ← Nat.div_div_eq_div_mul, hdiv]

/-- A chain of full subtractors subtracts, and ends with a borrow where the difference is
negative. -/
theorem FullSubtractor.chain_eq {f : UInt8 → UInt8 → UInt8 → Except ε (UInt8 × UInt8)}
    (hf : FullSubtractor f) (ms ss : Bytes) (hlen : ms.length = ss.length) (b : UInt8)
    (hb : b.toNat ≤ 1) :
    chain f ms ss b = .ok (toLe ms.length (leNat ms + 256 ^ ms.length - leNat ss - b.toNat),
      UInt8.ofNat (1 - (leNat ms + 256 ^ ms.length - leNat ss - b.toNat) / 256 ^ ms.length)) := by
  induction ms generalizing ss b with
  | nil =>
    cases ss with
    | nil =>
      have hflag : 1 - (0 + 1 - 0 - b.toNat) = b.toNat := by omega
      simp only [chain, List.length_nil, leNat_nil, toLe, pow_zero, Nat.div_one, hflag]
      rw [UInt8.ofNat_toNat]
    | cons s ss => simp at hlen
  | cons m ms ih =>
    cases ss with
    | nil => simp at hlen
    | cons s ss =>
      have hm := m.toNat_lt
      have hs := s.toNat_lt
      have hlen' : ms.length = ss.length := by simpa using hlen
      have hbound := leNat_lt ss
      rw [← hlen'] at hbound
      have hborrow : (UInt8.ofNat (1 - (m.toNat + 256 - s.toNat - b.toNat) / 256)).toNat =
          1 - (m.toNat + 256 - s.toNat - b.toNat) / 256 := toNat_ofNat_of_le_one (by omega)
      have hrest := ih ss hlen'
        (UInt8.ofNat (1 - (m.toNat + 256 - s.toNat - b.toNat) / 256)) (by rw [hborrow]; omega)
      rw [hborrow] at hrest
      have hdiv : (leNat (m :: ms) + 256 * 256 ^ ms.length - leNat (s :: ss) - b.toNat) / 256 =
          leNat ms + 256 ^ ms.length - leNat ss -
            (1 - (m.toNat + 256 - s.toNat - b.toNat) / 256) := by
        rw [leNat_cons, leNat_cons]
        omega
      have hmod : (leNat (m :: ms) + 256 * 256 ^ ms.length - leNat (s :: ss) - b.toNat) % 256 =
          (m.toNat + 256 - s.toNat - b.toNat) % 256 := by
        rw [leNat_cons, leNat_cons]
        omega
      rw [chain_cons (hf m s b hb) hrest, List.length_cons, pow_succ', toLe_succ_of_split hmod hdiv,
        ← Nat.div_div_eq_div_mul, hdiv]

/-! ## Chains without a flag at the start -/

/-- The sum, and a carry where it does not fit. -/
theorem FullAdder.chain_zero {f : UInt8 → UInt8 → UInt8 → Except ε (UInt8 × UInt8)} (hf : FullAdder f)
    (as bs : Bytes) (hlen : as.length = bs.length) :
    chain f as bs 0 = .ok (toLe as.length (leNat as + leNat bs),
      if 256 ^ as.length ≤ leNat as + leNat bs then 1 else 0) := by
  have has := leNat_lt as
  have hbs := leNat_lt bs
  rw [← hlen] at hbs
  have hchain := hf.chain_eq as bs hlen 0 (by decide)
  rw [show (0 : UInt8).toNat = 0 from rfl, Nat.add_zero] at hchain
  rw [hchain]
  by_cases hle : 256 ^ as.length ≤ leNat as + leNat bs
  · have hquot : (leNat as + leNat bs) / 256 ^ as.length = 1 :=
      Nat.div_eq_of_lt_le (by omega) (by omega)
    rw [if_pos hle, hquot]
    rfl
  · rw [if_neg hle, Nat.div_eq_of_lt (by omega)]
    rfl

/-- The difference modulo the range, and a borrow where it is negative. -/
theorem FullSubtractor.chain_zero {f : UInt8 → UInt8 → UInt8 → Except ε (UInt8 × UInt8)}
    (hf : FullSubtractor f) (ms ss : Bytes) (hlen : ms.length = ss.length) :
    chain f ms ss 0 = .ok (toLe ms.length (leNat ms + 256 ^ ms.length - leNat ss),
      if leNat ms < leNat ss then 1 else 0) := by
  have hms := leNat_lt ms
  have hss := leNat_lt ss
  rw [← hlen] at hss
  have hchain := hf.chain_eq ms ss hlen 0 (by decide)
  rw [show (0 : UInt8).toNat = 0 from rfl, Nat.sub_zero] at hchain
  rw [hchain]
  by_cases hlt : leNat ms < leNat ss
  · rw [if_pos hlt, Nat.div_eq_of_lt (by omega)]
    rfl
  · have hquot : (leNat ms + 256 ^ ms.length - leNat ss) / 256 ^ ms.length = 1 :=
      Nat.div_eq_of_lt_le (by omega) (by omega)
    rw [if_neg hlt, hquot]
    rfl

end PslBank.Lib
