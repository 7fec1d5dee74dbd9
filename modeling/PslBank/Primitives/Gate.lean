import PslBank.Lib.Text
import PslBank.Primitives.Bytewise

/-!
# The gate over the primitives

`legacy/rust_runner/src/bin/run_gate1.rs`: seeded witnesses, their rendering as tokens, the bytes read
out of a predicted trace, and the comparison with values computed in place. The transformer with its
weights is a parameter, one function from tokens to tokens; progress lines and printed failures are
left out. What the gate compares with is what the C primitives print, so an engine passes on a witness
exactly where it agrees with the primitive.
-/
namespace PslBank.Primitives

open PslBank.Lib

set_option autoImplicit false

/-! ## Tokens -/

/-- A printable character for itself, another byte as two digits. -/
def byteToken (b : UInt8) : Text :=
  if 0x20 < b.toNat ∧ b.toNat < 0x7F ∧ b.toNat ≠ 0x7B ∧ b.toNat ≠ 0x7D then [Char.ofNat b.toNat]
  else hexByte b

def commitToken : Text :=
  ['c', 'o', 'm', 'm', 'i', 't', '(', '+', '0', ',', 's', 't', 's', '=', '0', ',', 'b', 't', '=', '0', ')']

def renderSpec (witness : Bytes) : List Text :=
  ['s', 't', 'a', 'r', 't'] :: (witness.map byteToken ++ [['0', '0'], commitToken])

def renderDecimalSpec (witness : Bytes) : List Text :=
  ['s', 't', 'a', 'r', 't'] :: ((wire (nums witness) ++ [0]).map byteToken ++ [commitToken])

/-- The text between `out(` and the last `)`. -/
def outInner (t : Text) : Option Text := (stripPrefix ['o', 'u', 't', '('] t).bind (stripLast ')')

/-- A character of one byte, or two digits. -/
def readByteToken (inner : Text) : Option UInt8 :=
  if byteLen inner = 1 then inner.head?.map fun c => UInt8.ofNat c.toNat
  else if byteLen inner = 2 then u8FromStrRadix inner
  else none

def parseOutBytes (tokens : List Text) : Bytes := tokens.filterMap fun t => (outInner t).bind readByteToken

/-- The token of a byte that is put out. -/
def outToken (b : UInt8) : Text := ['o', 'u', 't', '('] ++ byteToken b ++ [')']

/-- Either form of a byte is read back. -/
theorem readByteToken_byteToken (b : UInt8) : readByteToken (byteToken b) = some b := by
  have hall : ∀ n < 256, readByteToken (byteToken (UInt8.ofNat n)) = some (UInt8.ofNat n) := by decide +kernel
  have hread := hall b.toNat b.toNat_lt
  rwa [UInt8.ofNat_toNat] at hread

theorem outInner_outToken (b : UInt8) : outInner (outToken b) = some (byteToken b) := by
  rw [outInner, outToken, List.append_assoc, stripPrefix_append, Option.bind_some, stripLast_append]

/-- Tokens of other forms between them do not count. -/
theorem parseOutBytes_of_filter {tokens : List Text} {out : Bytes}
    (h : (tokens.filter fun t => (outInner t).isSome) = out.map outToken) : parseOutBytes tokens = out := by
  have hkeep : parseOutBytes tokens =
      parseOutBytes (tokens.filter fun t => (outInner t).isSome) := by
    rw [parseOutBytes, parseOutBytes, List.filterMap_filter]
    refine List.filterMap_congr fun t _ => ?_
    cases outInner t <;> rfl
  rw [hkeep, h, parseOutBytes, List.filterMap_map]
  have hread : (fun t => (outInner t).bind readByteToken) ∘ outToken = some := by
    funext b
    show (outInner (outToken b)).bind readByteToken = some b
    rw [outInner_outToken, Option.bind_some, readByteToken_byteToken]
  rw [hread, List.filterMap_some]

/-- The text form is the byte form of the decimal text. -/
theorem renderDecimalSpec_eq (witness : Bytes) :
    renderDecimalSpec witness = renderSpec (wire (nums witness)) := by
  rw [renderDecimalSpec, renderSpec, List.map_append, List.append_assoc]
  rfl

/-! ## Witnesses -/

structure Splitmix64 where
  state : UInt64

namespace Splitmix64

def new (seed : UInt64) : Splitmix64 := ⟨seed + 0x9E3779B97F4A7C15⟩

def nextU64 (rng : Splitmix64) : UInt64 × Splitmix64 :=
  let state := rng.state + 0x9E3779B97F4A7C15
  let z := (state ^^^ (state >>> 30)) * 0xBF58476D1CE4E5B9
  let z := (z ^^^ (z >>> 27)) * 0x94D049BB133111EB
  (z ^^^ (z >>> 31), ⟨state⟩)

def byte (rng : Splitmix64) : UInt8 × Splitmix64 :=
  ((rng.nextU64.1 &&& 0xFF).toUInt8, rng.nextU64.2)

def bit (rng : Splitmix64) : UInt8 × Splitmix64 :=
  ((rng.nextU64.1 &&& 1).toUInt8, rng.nextU64.2)

/-- `(0..n).map(|_| rng.byte()).collect()`. -/
def bytes : ℕ → Splitmix64 → Bytes × Splitmix64
  | 0, rng => ([], rng)
  | n + 1, rng =>
      let (b, rng) := rng.byte
      let (bs, rng) := bytes n rng
      (b :: bs, rng)

theorem length_bytes (n : ℕ) (rng : Splitmix64) : (bytes n rng).1.length = n := by
  induction n generalizing rng with
  | zero => rfl
  | succ n ih => exact congrArg (· + 1) (ih _)

theorem bit_le (rng : Splitmix64) : rng.bit.1.toNat ≤ 1 := by
  have hand : (rng.nextU64.1 &&& 1).toNat ≤ 1 := by
    rw [UInt64.toNat_and]
    exact Nat.and_le_right
  show (rng.nextU64.1 &&& 1).toUInt8.toNat ≤ 1
  rw [UInt64.toNat_toUInt8]
  omega

end Splitmix64

/-- The names that `gen_vector` takes; `mpt_emit` is also called `mpt_emit_record`. -/
inductive GatePrimitive where
  | byteAdd
  | byteSub
  | transferCheck
  | transferFinalize
  | mptEmit
  | freezeChain
  deriving DecidableEq, Repr

/-- A witness and the bytes expected for it. -/
def genVector : GatePrimitive → Splitmix64 → Bytes × Bytes
  | .byteAdd, rng =>
      let (a, rng) := rng.byte
      let (b, rng) := rng.byte
      let (c, _) := rng.bit
      let s := a.toNat + b.toNat + c.toNat
      ([a, b, c], if 256 ≤ s then [UInt8.ofNat (s - 256), 1] else [UInt8.ofNat s, 0])
  | .byteSub, rng =>
      let (m, rng) := rng.byte
      let (s, rng) := rng.byte
      let (b, _) := rng.bit
      let diff : ℤ := m.toNat - s.toNat - b.toNat
      ([m, s, b], if diff < 0 then [toChar (diff + 256), 1] else [toChar diff, 0])
  | .transferCheck, rng =>
      let (balance, rng) := rng.bytes 16
      let (amount, _) := rng.bytes 16
      (balance ++ amount, [if leNat amount ≤ leNat balance then 1 else 0])
  | .transferFinalize, rng =>
      let (nonce, _) := rng.bytes 8
      (nonce, toLe 8 ((leNat nonce + 1) % 2 ^ 64))
  | .mptEmit, rng =>
      let (record, _) := rng.bytes 64
      (record, record)
  | .freezeChain, rng =>
      let (flag, rng) := rng.bit
      let (account, _) := rng.bytes 64
      let byte47 := account.getD 47 0
      (flag :: account, [if flag = 1 then (byte47 &&& 0x7F) ||| 0x80 else byte47 &&& 0x7F])

/-- `seed_for` of a name. -/
def seedFor (name : Bytes) : UInt64 :=
  name.foldl (fun h b => (h ^^^ b.toUInt64) * 1099511628211) 1469598103934665603

/-- The generator of the `i`-th witness. -/
def witnessRng (name : Bytes) (seed : UInt64) (i : ℕ) : Splitmix64 :=
  .new (seed + seedFor name + UInt64.ofNat i)

/-! ## Engines -/

/-- The weights of a network. -/
inductive Weights where
  | byteAddWithCarry
  | byteSubWithBorrow
  | transferCheck
  | transferFinalize
  | mptEmitRecord
  | freezeSetup
  | freezeApply
  deriving DecidableEq, Repr

/-- The C primitive that some weights were specialized to. -/
def Weights.program : Weights → Bytes → Except Undefined Bytes
  | .byteAddWithCarry => ByteAddWithCarry.compute
  | .byteSubWithBorrow => ByteSubWithBorrow.compute
  | .transferCheck => TransferCheck.compute
  | .transferFinalize => TransferFinalize.compute
  | .mptEmitRecord => MptEmitRecord.compute
  | .freezeSetup => FreezeSetup.compute
  | .freezeApply => FreezeApply.compute

/-- The limit on new tokens that `main` sets. -/
def Weights.maxNew : Weights → ℕ
  | .mptEmitRecord => 10000
  | .freezeSetup | .freezeApply => 50000
  | .byteAddWithCarry | .byteSubWithBorrow | .transferCheck | .transferFinalize => 5000

/-- Weights, the input tokens and the limit on new ones. -/
abbrev Engine := Weights → List Text → ℕ → Except String (List Text)

inductive GateError where
  | engine (message : String)
  | parseInt (chunk : Text)
  | intRange (v : ℤ)
  | setupCount (got : Bytes)
  | applyCount (got : Bytes)

def generate (engine : Engine) (weights : Weights) (tokens : List Text) : Except GateError (List Text) :=
  match engine weights tokens weights.maxNew with
  | .ok predicted => .ok predicted
  | .error message => .error (.engine message)

def runOnePass (engine : Engine) (weights : Weights) (witness : Bytes) : Except GateError Bytes := do
  let predicted ← generate engine weights (renderSpec witness)
  return parseOutBytes predicted

/-- The numbers of a text, each in the range of a byte. -/
def readInts : List Text → Except GateError Bytes
  | [] => .ok []
  | chunk :: chunks =>
      match parseI64 chunk with
      | none => .error (.parseInt chunk)
      | some v =>
          if v < 0 ∨ 255 < v then .error (.intRange v)
          else do
            let rest ← readInts chunks
            return toChar v :: rest

def runFreezePass (engine : Engine) (weights : Weights) (witness : Bytes) : Except GateError Bytes := do
  let predicted ← generate engine weights (renderDecimalSpec witness)
  readInts (splitWhitespace (fromUtf8Lossy (parseOutBytes predicted)))

def freezeChain (engine : Engine) (witness : Bytes) : Except GateError Bytes := do
  let setupOut ← runFreezePass engine .freezeSetup witness
  if setupOut.length ≠ 2 then .error (.setupCount setupOut)
  else
    let applyOut ← runFreezePass engine .freezeApply setupOut
    if applyOut.length ≠ 1 then .error (.applyCount applyOut) else return applyOut

/-- The weights of a primitive that is one network. -/
def GatePrimitive.single : GatePrimitive → Option Weights
  | .byteAdd => some .byteAddWithCarry
  | .byteSub => some .byteSubWithBorrow
  | .transferCheck => some .transferCheck
  | .transferFinalize => some .transferFinalize
  | .mptEmit => some .mptEmitRecord
  | .freezeChain => none

def runWitness (engine : Engine) (primitive : GatePrimitive) (witness : Bytes) : Except GateError Bytes :=
  match primitive.single with
  | some weights => runOnePass engine weights witness
  | none => freezeChain engine witness

def witnessOk (engine : Engine) (primitive : GatePrimitive) (rng : Splitmix64) : Bool :=
  match runWitness engine primitive (genVector primitive rng).1 with
  | .ok got => got == (genVector primitive rng).2
  | .error _ => false

/-- The number of failures over `count` witnesses; the process exits with 1 where there is one. -/
def failures (engine : Engine) (primitive : GatePrimitive) (name : Bytes) (seed : UInt64) (count : ℕ) : ℕ :=
  (List.range count).countP fun i => !witnessOk engine primitive (witnessRng name seed i)

/-! ## Numbers read out of a printed text -/

def byteChar (b : UInt8) : Char := Char.ofNat b.toNat

theorem toNat_of_mem_decimal {n : ℕ} {b : UInt8} (h : b ∈ decimal n) : ∃ d < 10, b = UInt8.ofNat (48 + d) := by
  obtain ⟨ds, hds, hlt, -, -⟩ := decimal_eq_map n
  rw [hds] at h
  obtain ⟨d, hd, rfl⟩ := List.mem_map.mp h
  exact ⟨d, hlt d hd, rfl⟩

theorem digit_facts : ∀ d < 10, (UInt8.ofNat (48 + d)).toNat < 0x80 ∧
    isWhitespace (byteChar (UInt8.ofNat (48 + d))) = false ∧
    isAsciiDigit (byteChar (UInt8.ofNat (48 + d))) = true ∧
    (byteChar (UInt8.ofNat (48 + d))).toNat - 48 = d ∧ byteChar (UInt8.ofNat (48 + d)) ≠ '+' ∧
    byteChar (UInt8.ofNat (48 + d)) ≠ '-' := by decide

theorem isWord_decimal (n : ℕ) : IsWord isWhitespace ((decimal n).map byteChar) where
  ne_nil h := by
    obtain ⟨ds, hds, -, -, hne⟩ := decimal_eq_map n
    rw [hds] at h
    simp [hne] at h
  no_sep c hc := by
    obtain ⟨b, hb, rfl⟩ := List.mem_map.mp hc
    obtain ⟨d, hd, rfl⟩ := toNat_of_mem_decimal hb
    exact (digit_facts d hd).2.1

theorem wire_chars (ns : List ℕ) :
    (wire ns).map byteChar = joinBlank (ns.map fun n => (decimal n).map byteChar) := by
  have hspaced : ∀ (n : ℕ) (ns : List ℕ), (decimal n ++ spaced ns).map byteChar =
      joinBlank ((n :: ns).map fun n => (decimal n).map byteChar) := by
    intro n ns
    induction ns generalizing n with
    | nil => simp [spaced, joinBlank]
    | cons m ns ih =>
      have ih := ih m
      show (decimal n ++ 32 :: (decimal m ++ spaced ns)).map byteChar = _
      rw [List.map_append, List.map_cons, ih]
      show _ = [' '].intercalate ((decimal n).map byteChar :: (decimal m).map byteChar :: _)
      rw [List.intercalate_cons_cons, List.append_assoc]
      rfl
  cases ns with
  | nil => rfl
  | cons n ns => exact hspaced n ns

theorem ascii_wire (ns : List ℕ) : ∀ b ∈ wire ns ++ [10], b.toNat < 0x80 := by
  have hdecimal : ∀ n : ℕ, ∀ b ∈ decimal n, b.toNat < 0x80 := by
    intro n b hb
    obtain ⟨d, hd, rfl⟩ := toNat_of_mem_decimal hb
    exact (digit_facts d hd).1
  have hspaced : ∀ ns : List ℕ, ∀ b ∈ spaced ns, b.toNat < 0x80 := by
    intro ns b hb
    obtain ⟨n, -, hb⟩ := List.mem_flatMap.mp hb
    rcases List.mem_cons.mp hb with rfl | hb
    · decide
    · exact hdecimal n b hb
  intro b hb
  rcases List.mem_append.mp hb with hb | hb
  · cases ns with
    | nil => cases hb
    | cons n ns =>
      rcases List.mem_append.mp hb with hb | hb
      · exact hdecimal n b hb
      · exact hspaced ns b hb
  · rw [List.mem_singleton.mp hb]
    decide

theorem split_wire (ns : List ℕ) : splitWhitespace (fromUtf8Lossy (wire ns ++ [10])) =
    ns.map fun n => (decimal n).map byteChar := by
  have hwords : ∀ t ∈ ns.map fun n => (decimal n).map byteChar, IsWord isWhitespace t := by
    intro t ht
    obtain ⟨n, -, rfl⟩ := List.mem_map.mp ht
    exact isWord_decimal n
  have htext : fromUtf8Lossy (wire ns ++ [10]) =
      joinBlank (ns.map fun n => (decimal n).map byteChar) ++ '\n' :: [] := by
    rw [fromUtf8Lossy_ascii (ascii_wire ns), List.map_append]
    show (wire ns).map byteChar ++ [byteChar 10] = _
    rw [wire_chars]
    rfl
  rw [htext, splitWhitespace, words_append_cons (by decide), words_nil, List.append_nil]
  exact splitWhitespace_joinBlank hwords

theorem decimalFrom_decimal (n : ℕ) : decimalFrom 0 ((decimal n).map byteChar) = n := by
  obtain ⟨ds, hds, hlt, hvalue, -⟩ := decimal_eq_map n
  have hfold : ∀ v, decimalFrom v ((ds.map fun d => UInt8.ofNat (48 + d)).map byteChar) = valueFrom v ds := by
    clear hvalue hds
    induction ds with
    | nil => exact fun v => rfl
    | cons d ds ih =>
      intro v
      have hd := (digit_facts d (hlt d List.mem_cons_self)).2.2.2.1
      have ih := ih (fun e he => hlt e (List.mem_cons_of_mem _ he)) (10 * v + d)
      show decimalFrom (10 * v + ((byteChar (UInt8.ofNat (48 + d))).toNat - 48)) _ = _
      rw [hd]
      exact ih
  rw [hds, hfold, hvalue]

theorem parseI64_decimal {n : ℕ} (h : n < 2 ^ 63) : parseI64 ((decimal n).map byteChar) = some (n : ℤ) := by
  have hvalue := decimalFrom_decimal n
  have hdigits : parseDigits false ((decimal n).map byteChar) = some (n : ℤ) := by
    have hall : ((decimal n).map byteChar).all isAsciiDigit = true := by
      rw [List.all_eq_true]
      intro c hc
      obtain ⟨b, hb, rfl⟩ := List.mem_map.mp hc
      obtain ⟨d, hd, rfl⟩ := toNat_of_mem_decimal hb
      exact (digit_facts d hd).2.2.1
    have hempty : ((decimal n).map byteChar).isEmpty = false := by
      simpa using (isWord_decimal n).ne_nil
    unfold parseDigits
    rw [hempty, hall, hvalue, if_neg (by decide)]
    show (if -2 ^ 63 ≤ (n : ℤ) ∧ (n : ℤ) < 2 ^ 63 then some (n : ℤ) else none) = _
    rw [if_pos (by omega)]
  have hne : decimal n ≠ [] := fun h => (isWord_decimal n).ne_nil (congrArg (List.map byteChar) h)
  obtain ⟨b, bs, hcons⟩ := List.exists_cons_of_ne_nil hne
  obtain ⟨d, hd, hb⟩ := toNat_of_mem_decimal (hcons ▸ List.mem_cons_self)
  obtain ⟨-, -, -, -, hplus, hminus⟩ := digit_facts d hd
  rw [← hdigits, hcons, List.map_cons, hb]
  unfold parseI64
  split
  · rename_i heq
    exact absurd (List.cons.inj heq).1 hplus
  · rename_i heq
    exact absurd (List.cons.inj heq).1 hminus
  · rename_i heq
    exact absurd (List.cons.inj heq).1 hplus
  · rename_i heq
    exact absurd (List.cons.inj heq).1 hminus
  · rfl

/-- Bytes that were printed as numbers are read back. -/
theorem readInts_wire (bs : Bytes) :
    readInts (splitWhitespace (fromUtf8Lossy (wire (nums bs) ++ [10]))) = .ok bs := by
  rw [split_wire]
  induction bs with
  | nil => rfl
  | cons b bs ih =>
    have hb := b.toNat_lt
    have hparse := parseI64_decimal (show b.toNat < 2 ^ 63 by omega)
    have hrange : ¬ ((b.toNat : ℤ) < 0 ∨ 255 < (b.toNat : ℤ)) := by omega
    show readInts ((decimal b.toNat).map byteChar :: (nums bs).map _) = _
    rw [readInts, hparse]
    dsimp only
    rw [if_neg hrange, ih, toChar_natCast, UInt8.ofNat_toNat]
    rfl

/-! ## What the gate compares with -/

theorem expected_add (a b c : UInt8) : ByteAddWithCarry.compute [a, b, c] =
    .ok (if 256 ≤ a.toNat + b.toNat + c.toNat then [UInt8.ofNat (a.toNat + b.toNat + c.toNat - 256), 1]
      else [UInt8.ofNat (a.toNat + b.toNat + c.toNat), 0]) := by
  show (if 256 ≤ a.toNat + b.toNat + c.toNat then
    Except.ok [toChar (((a.toNat + b.toNat + c.toNat : ℕ) : ℤ) - 256), 1] else
      Except.ok [toChar ((a.toNat + b.toNat + c.toNat : ℕ) : ℤ), 0]) = _
  by_cases hsum : 256 ≤ a.toNat + b.toNat + c.toNat
  · have hcast : ((a.toNat + b.toNat + c.toNat : ℕ) : ℤ) - 256 =
        ((a.toNat + b.toNat + c.toNat - 256 : ℕ) : ℤ) := by omega
    rw [if_pos hsum, if_pos hsum, hcast, toChar_natCast]
  · rw [if_neg hsum, if_neg hsum, toChar_natCast]

theorem expected_sub (m s b : UInt8) : ByteSubWithBorrow.compute [m, s, b] =
    .ok (if (m.toNat : ℤ) - s.toNat - b.toNat < 0 then [toChar ((m.toNat : ℤ) - s.toNat - b.toNat + 256), 1]
      else [toChar ((m.toNat : ℤ) - s.toNat - b.toNat), 0]) := by
  have hshift : (m.toNat : ℤ) + 256 - s.toNat - b.toNat = (m.toNat : ℤ) - s.toNat - b.toNat + 256 := by omega
  show (if (m.toNat : ℤ) + 256 - s.toNat - b.toNat < 256 then
    Except.ok [toChar ((m.toNat : ℤ) + 256 - s.toNat - b.toNat), 1] else
      Except.ok [toChar ((m.toNat : ℤ) + 256 - s.toNat - b.toNat - 256), 0]) = _
  rw [hshift, Int.add_sub_cancel]
  by_cases hneg : (m.toNat : ℤ) - s.toNat - b.toNat < 0
  · rw [if_pos hneg, if_pos (by omega)]
  · rw [if_neg hneg, if_neg (by omega)]

/-- On every witness the primitive prints what the gate expects. -/
theorem single_expected {primitive : GatePrimitive} {weights : Weights} (h : primitive.single = some weights)
    (rng : Splitmix64) :
    weights.program (genVector primitive rng).1 = .ok (genVector primitive rng).2 := by
  cases primitive with
  | byteAdd =>
    cases h
    exact expected_add _ _ _
  | byteSub =>
    cases h
    exact expected_sub _ _ _
  | transferCheck =>
    cases h
    exact compute_check _ _ (Splitmix64.length_bytes 16 _) (Splitmix64.length_bytes 16 _)
  | transferFinalize =>
    cases h
    have hlen := Splitmix64.length_bytes 8 rng
    show TransferFinalize.compute (rng.bytes 8).1 = .ok (toLe 8 ((leNat (rng.bytes 8).1 + 1) % 2 ^ 64))
    rw [compute_finalize _ hlen]
    exact congrArg Except.ok (toLe_congr (Nat.mod_mod _ _).symm)
  | mptEmit =>
    cases h
    exact compute_emit _ (Splitmix64.length_bytes 64 rng)
  | freezeChain => cases h

/-- The byte expected of the chain. -/
theorem toNat_freeze_byte (flag byte47 : UInt8) (hflag : flag.toNat ≤ 1) :
    (if flag = 1 then (byte47 &&& 0x7F) ||| 0x80 else byte47 &&& 0x7F).toNat =
      byte47.toNat % 128 + if flag.toNat ≠ 0 then 128 else 0 := by
  have hall : ∀ n < 256, ((UInt8.ofNat n &&& 0x7F) ||| 0x80).toNat = n % 128 + 128 ∧
      (UInt8.ofNat n &&& 0x7F).toNat = n % 128 := by decide +kernel
  obtain ⟨hset, hclear⟩ := hall byte47.toNat byte47.toNat_lt
  rw [UInt8.ofNat_toNat] at hset hclear
  by_cases hone : flag = 1
  · rw [if_pos hone, hset, hone, if_pos (by decide)]
  · have hzero : flag.toNat = 0 := by
      have hne : flag.toNat ≠ 1 := fun h => hone (UInt8.toNat_inj.mp h)
      omega
    rw [if_neg hone, hclear, hzero, if_neg (by decide), Nat.add_zero]

/-- On every witness of the chain the two programs print the flag with byte 47, and then the byte that
the gate expects. -/
theorem chain_expected (rng : Splitmix64) : ∃ setupOut : Bytes, setupOut.length = 2 ∧
    FreezeSetup.compute (wire (nums (genVector .freezeChain rng).1)) = .ok (wire (nums setupOut) ++ [10]) ∧
    FreezeApply.compute (wire (nums setupOut)) = .ok (wire (nums (genVector .freezeChain rng).2) ++ [10]) := by
  have hflag := rng.bit_le
  have hlen := Splitmix64.length_bytes 64 rng.bit.2
  generalize haccount : (rng.bit.2.bytes 64).1 = account at hlen
  have hvector : genVector .freezeChain rng = (rng.bit.1 :: account,
      [if rng.bit.1 = 1 then (account.getD 47 0 &&& 0x7F) ||| 0x80 else account.getD 47 0 &&& 0x7F]) := by
    rw [← haccount]
    rfl
  have hsplit : account = account.take 47 ++ account.getD 47 0 :: account.drop 48 := by
    have hget : account.getD 47 0 = account[47] := List.getD_eq_getElem _ _ (by omega)
    rw [hget]
    simp
  refine ⟨[rng.bit.1, account.getD 47 0], rfl, ?_, ?_⟩
  · have hsetup := FreezeSetup.compute_wire (show rng.bit.1.toNat < 2 ^ 31 by omega) (account.take 47)
      (account.drop 48) (account.getD 47 0) (by rw [List.length_take]; omega)
    rw [← hsplit] at hsetup
    rw [hvector]
    exact hsetup
  · have happly := FreezeApply.compute_wire (show rng.bit.1.toNat < 2 ^ 31 by omega) (account.getD 47 0)
    rw [← toNat_freeze_byte _ _ hflag] at happly
    rw [hvector]
    exact happly

/-- An engine does on a witness what the C primitives print: the bytes of the one network, or those of
the chain, in text. -/
def Agrees (engine : Engine) (primitive : GatePrimitive) (witness : Bytes) : Prop :=
  match primitive.single with
  | some weights => ∃ out, runOnePass engine weights witness = .ok out ∧ weights.program witness = .ok out
  | none => ∃ setupOut out, setupOut.length = 2 ∧ freezeChain engine witness = .ok out ∧
      FreezeSetup.compute (wire (nums witness)) = .ok (wire (nums setupOut) ++ [10]) ∧
      FreezeApply.compute (wire (nums setupOut)) = .ok (wire (nums out) ++ [10])

/-- The out tokens of a prediction are, in order, those of what the primitive prints; every other
token may stand between them. -/
structure Faithful (engine : Engine) : Prop where
  predicts : ∀ weights input out, weights.program input = .ok out → ∃ predicted,
    engine weights (renderSpec input) weights.maxNew = .ok predicted ∧
      (predicted.filter fun t => (outInner t).isSome) = out.map outToken

theorem wire_nums_injective {as bs : Bytes} (h : wire (nums as) ++ [10] = wire (nums bs) ++ [10]) : as = bs := by
  have ha := readInts_wire as
  rw [h, readInts_wire bs] at ha
  exact (Except.ok.inj ha).symm

theorem witnessOk_iff (engine : Engine) (primitive : GatePrimitive) (rng : Splitmix64) :
    witnessOk engine primitive rng = true ↔
      runWitness engine primitive (genVector primitive rng).1 = .ok (genVector primitive rng).2 := by
  unfold witnessOk
  cases runWitness engine primitive (genVector primitive rng).1 with
  | error e => exact ⟨fun h => (nomatch h), fun h => (nomatch h)⟩
  | ok got => rw [Except.ok.injEq, beq_iff_eq]

/-- The gate lets a witness pass exactly where the engine agrees with the primitives. -/
theorem witnessOk_iff_agrees (engine : Engine) (primitive : GatePrimitive) (rng : Splitmix64) :
    witnessOk engine primitive rng = true ↔ Agrees engine primitive (genVector primitive rng).1 := by
  rw [witnessOk_iff]
  unfold runWitness Agrees
  cases hsingle : primitive.single with
  | some weights =>
    have hexpected := single_expected hsingle rng
    constructor
    · intro h
      exact ⟨_, h, hexpected⟩
    · rintro ⟨out, hout, hprogram⟩
      rw [hexpected] at hprogram
      rw [Except.ok.inj hprogram]
      exact hout
  | none =>
    have hchain : primitive = .freezeChain := by
      cases primitive <;> first | rfl | cases hsingle
    subst hchain
    obtain ⟨setupOut, hlen, hsetup, happly⟩ := chain_expected rng
    constructor
    · intro h
      exact ⟨setupOut, _, hlen, h, hsetup, happly⟩
    · rintro ⟨setupOut', out, -, hout, hsetup', happly'⟩
      rw [hsetup] at hsetup'
      obtain rfl := wire_nums_injective (Except.ok.inj hsetup')
      rw [happly] at happly'
      rw [wire_nums_injective (Except.ok.inj happly')]
      exact hout

theorem generate_faithful {engine : Engine} (h : Faithful engine) {weights : Weights} {input out : Bytes}
    (hprogram : weights.program input = .ok out) :
    ∃ predicted, generate engine weights (renderSpec input) = .ok predicted ∧ parseOutBytes predicted = out := by
  obtain ⟨predicted, hengine, hfilter⟩ := h.predicts weights input out hprogram
  exact ⟨predicted, by rw [generate, hengine], parseOutBytes_of_filter hfilter⟩

theorem runFreezePass_faithful {engine : Engine} (h : Faithful engine) {weights : Weights} {witness out : Bytes}
    (hprogram : weights.program (wire (nums witness)) = .ok (wire (nums out) ++ [10])) :
    runFreezePass engine weights witness = .ok out := by
  obtain ⟨predicted, hgenerate, hparse⟩ := generate_faithful h hprogram
  rw [← renderDecimalSpec_eq] at hgenerate
  refine bind_eq_ok_iff.mpr ⟨predicted, hgenerate, ?_⟩
  rw [hparse, readInts_wire]

theorem agrees_of_faithful {engine : Engine} (h : Faithful engine) (primitive : GatePrimitive)
    (rng : Splitmix64) : Agrees engine primitive (genVector primitive rng).1 := by
  unfold Agrees
  cases hsingle : primitive.single with
  | some weights =>
    have hexpected := single_expected hsingle rng
    obtain ⟨predicted, hgenerate, hparse⟩ := generate_faithful h hexpected
    exact ⟨_, bind_eq_ok_iff.mpr ⟨predicted, hgenerate, congrArg Except.ok hparse⟩, hexpected⟩
  | none =>
    have hchain : primitive = .freezeChain := by
      cases primitive <;> first | rfl | cases hsingle
    subst hchain
    obtain ⟨setupOut, hlen, hsetup, happly⟩ := chain_expected rng
    refine ⟨setupOut, _, hlen, ?_, hsetup, happly⟩
    have hfirst : runFreezePass engine .freezeSetup (genVector .freezeChain rng).1 = .ok setupOut :=
      runFreezePass_faithful h hsetup
    have hsecond : runFreezePass engine .freezeApply setupOut = .ok (genVector .freezeChain rng).2 :=
      runFreezePass_faithful h happly
    refine bind_eq_ok_iff.mpr ⟨setupOut, hfirst, ?_⟩
    rw [if_neg (not_not.mpr hlen)]
    have hone : (genVector .freezeChain rng).2.length = 1 := rfl
    refine bind_eq_ok_iff.mpr ⟨_, hsecond, ?_⟩
    rw [if_neg (not_not.mpr hone)]
    rfl

/-! ## An engine that runs the programs -/

/-- The bytes of a rendered input. -/
def readSpec (tokens : List Text) : Option Bytes := ((tokens.drop 1).dropLast.dropLast).mapM readByteToken

/-- The prompt, the out tokens of what the program prints, and the end. -/
def programEngine : Engine := fun weights tokens _ =>
  match readSpec tokens with
  | none => .error "unknown token in input"
  | some input =>
      match weights.program input with
      | .ok out => .ok (tokens ++ out.map outToken ++ [['h', 'a', 'l', 't']])
      | .error _ => .error "undefined"

theorem mapM_readByteToken (bs : Bytes) : (bs.map byteToken).mapM readByteToken = some bs := by
  induction bs with
  | nil => rfl
  | cons b bs ih =>
    rw [List.map_cons, List.mapM_cons, readByteToken_byteToken, ih]
    rfl

theorem readSpec_renderSpec (input : Bytes) : readSpec (renderSpec input) = some input := by
  have hmiddle : ((renderSpec input).drop 1).dropLast.dropLast = input.map byteToken := by
    have hsplit : (renderSpec input).drop 1 = (input.map byteToken ++ [['0', '0']]) ++ [commitToken] := by
      rw [List.append_assoc]
      rfl
    rw [hsplit, List.dropLast_concat, List.dropLast_concat]
  rw [readSpec, hmiddle, mapM_readByteToken]

/-- No token of an input is an out token. -/
theorem filter_renderSpec (input : Bytes) : ((renderSpec input).filter fun t => (outInner t).isSome) = [] := by
  have hbyte : ∀ b : UInt8, (outInner (byteToken b)).isSome = false := by
    intro b
    have hall : ∀ n < 256, (outInner (byteToken (UInt8.ofNat n))).isSome = false := by decide +kernel
    have hn := hall b.toNat b.toNat_lt
    rwa [UInt8.ofNat_toNat] at hn
  rw [List.filter_eq_nil_iff]
  intro t ht
  rcases List.mem_cons.mp ht with rfl | ht
  · decide
  · rcases List.mem_append.mp ht with ht | ht
    · obtain ⟨b, -, rfl⟩ := List.mem_map.mp ht
      rw [hbyte]
      decide
    · have hends : t = ['0', '0'] ∨ t = commitToken := by simpa using ht
      rcases hends with rfl | rfl <;> decide

theorem faithful_programEngine : Faithful programEngine where
  predicts := by
    intro weights input out hprogram
    have hout : ((out.map outToken).filter fun t => (outInner t).isSome) = out.map outToken := by
      rw [List.filter_eq_self]
      intro t ht
      obtain ⟨b, -, rfl⟩ := List.mem_map.mp ht
      rw [outInner_outToken]
      rfl
    refine ⟨renderSpec input ++ out.map outToken ++ [['h', 'a', 'l', 't']], ?_, ?_⟩
    · simp only [programEngine, readSpec_renderSpec, hprogram]
    · rw [List.filter_append, List.filter_append, filter_renderSpec, hout]
      exact List.append_nil _

/-! ## What the gate finds -/

/-- Whatever the engine, the seed and the count: the gate ends without a failure exactly when the engine
did on every witness what the C primitives print; and an engine whose out tokens are always those of the
primitives never fails. -/
theorem gate_compares_with_primitives (engine : Engine) (primitive : GatePrimitive) (name : Bytes)
    (seed : UInt64) (count : ℕ) :
    (failures engine primitive name seed count = 0 ↔ ∀ i < count,
      Agrees engine primitive (genVector primitive (witnessRng name seed i)).1) ∧
    (Faithful engine → failures engine primitive name seed count = 0) := by
  have hiff : failures engine primitive name seed count = 0 ↔ ∀ i < count,
      Agrees engine primitive (genVector primitive (witnessRng name seed i)).1 := by
    rw [failures, List.countP_eq_zero]
    refine forall_congr' fun i => ?_
    rw [List.mem_range, Bool.not_eq_true', Bool.not_eq_false, witnessOk_iff_agrees]
  exact ⟨hiff, fun h => hiff.mpr fun i _ => agrees_of_faithful h primitive _⟩

/-- An engine that runs the programs passes the gate of the freeze chain. -/
theorem gate_compares_with_primitives_programs :
    failures programEngine .freezeChain (utf8 "freeze_chain") 42 1000 = 0 :=
  (gate_compares_with_primitives programEngine .freezeChain (utf8 "freeze_chain") 42 1000).2
    faithful_programEngine

end PslBank.Primitives
