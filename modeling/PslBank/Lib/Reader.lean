import PslBank.Lib.Encoding
import PslBank.Lib.Runs

/-!
# Readers over a byte string

A reader takes a value from the front of the unread bytes or fails. `Reads ok enc r`
says that `r` is the exact inverse of the encoding `enc` on the values that `ok`
selects: it succeeds with `a` precisely on strings that start with `enc a`, and leaves
the rest; `Parses` is the same for a reader that converts what it reads. The rules give
this for fixed-width fields and for fields repeated a given number of times; a record is
taken apart with `bind_ok_iff`, field by field. `Avoids e r` says that `r` never fails with
`e`; where the fields avoid a failure, `bind_error_iff` finds the conversion that causes it.
-/
namespace PslBank.Lib

set_option autoImplicit false

/-- The unread bytes, and how many were read. -/
structure Cursor where
  rest : Bytes
  off : ℕ

/-- A computation that reads from a cursor and may fail. -/
abbrev Reader (ε α : Type) := StateT Cursor (Except ε) α

namespace Reader

variable {ε α β : Type}

/-- The next `n` bytes; `eof n off` is the failure when fewer are left. -/
def take (eof : ℕ → ℕ → ε) (n : ℕ) : Reader ε Bytes := fun c =>
  if c.rest.length < n then .error (eof n c.off) else .ok (c.rest.take n, ⟨c.rest.drop n, c.off + n⟩)

/-- A check that reads nothing. -/
def lift (x : Except ε α) : Reader ε α := fun c => x.map fun a => (a, c)

/-- The same reader `n` times. -/
def many (r : Reader ε α) : ℕ → Reader ε (List α)
  | 0 => pure []
  | n + 1 => do
      let a ← r
      let as ← many r n
      pure (a :: as)

theorem bind_ok_iff {x : Reader ε α} {f : α → Reader ε β} {c c' : Cursor} {b : β} :
    (x >>= f) c = .ok (b, c') ↔ ∃ a d, x c = .ok (a, d) ∧ f a d = .ok (b, c') := by
  change (x c >>= fun p => f p.1 p.2) = .ok (b, c') ↔ _
  rw [bind_eq_ok_iff]
  constructor
  · intro hyp
    obtain ⟨⟨a, d⟩, h, h'⟩ := hyp
    exact ⟨a, d, h, h'⟩
  · intro hyp
    obtain ⟨a, d, h, h'⟩ := hyp
    exact ⟨(a, d), h, h'⟩

theorem pure_ok_iff {a b : α} {c c' : Cursor} :
    (pure a : Reader ε α) c = .ok (b, c') ↔ a = b ∧ c = c' := by
  change Except.ok (a, c) = .ok (b, c') ↔ _
  simp

theorem lift_ok_iff {x : Except ε α} {c c' : Cursor} {a : α} :
    lift x c = .ok (a, c') ↔ x = .ok a ∧ c = c' := by
  cases x with
  | error e => simp [lift, Except.map]
  | ok b => simp [lift, Except.map]

/-- A check in front of the rest. -/
theorem guard_ok_iff {p : Prop} [Decidable p] {e : ε} {f : α → Reader ε β} {r : Reader ε β}
    {c c' : Cursor} {b : β} :
    (if p then lift (.error e) >>= f else r) c = .ok (b, c') ↔ ¬ p ∧ r c = .ok (b, c') := by
  by_cases hp : p
  · rw [if_pos hp, bind_ok_iff]
    constructor
    · intro hyp
      obtain ⟨a, d, ha, -⟩ := hyp
      cases (lift_ok_iff.mp ha).1
    · intro hyp
      obtain ⟨hn, -⟩ := hyp
      exact absurd hp hn
  · rw [if_neg hp]
    exact ⟨fun h => ⟨hp, h⟩, fun h => h.2⟩

theorem bind_error_iff {x : Reader ε α} {f : α → Reader ε β} {c : Cursor} {e : ε} :
    (x >>= f) c = .error e ↔ x c = .error e ∨ ∃ a d, x c = .ok (a, d) ∧ f a d = .error e := by
  change (x c >>= fun p => f p.1 p.2) = .error e ↔ _
  rw [bind_eq_error_iff, Prod.exists]

theorem lift_error_iff {x : Except ε α} {c : Cursor} {e : ε} : lift x c = .error e ↔ x = .error e := by
  cases x with
  | error e' => simp [lift, Except.map]
  | ok a => simp [lift, Except.map]

theorem pure_ne_error {a : α} {c : Cursor} {e : ε} : (pure a : Reader ε α) c ≠ .error e := by
  intro h
  cases h

/-- A check that fails in another way, in front of the rest. -/
theorem guard_error_iff {p : Prop} [Decidable p] {e e' : ε} (hne : e' ≠ e) {f : α → Reader ε β}
    {r : Reader ε β} {c : Cursor} :
    (if p then lift (.error e') >>= f else r) c = .error e ↔ ¬ p ∧ r c = .error e := by
  by_cases hp : p
  · rw [if_pos hp, bind_error_iff, lift_error_iff]
    constructor
    · intro hyp
      rcases hyp with h | ⟨a, d, h, -⟩
      · exact absurd (Except.error.inj h) hne
      · cases (lift_ok_iff.mp h).1
    · intro hyp
      exact absurd hp hyp.1
  · rw [if_neg hp]
    exact ⟨fun h => ⟨hp, h⟩, fun h => h.2⟩

/-- The reader never fails with `e`. -/
def Avoids (e : ε) (r : Reader ε α) : Prop := ∀ c, r c ≠ .error e

section Avoids

variable {e : ε}

theorem Avoids.take {eof : ℕ → ℕ → ε} (heof : ∀ n off, eof n off ≠ e) (n : ℕ) :
    Avoids e (Reader.take eof n) := by
  intro c h
  unfold Reader.take at h
  split at h
  · exact heof _ _ (Except.error.inj h)
  · cases h

theorem Avoids.pure (a : α) : Avoids e (Pure.pure a : Reader ε α) := fun _ => pure_ne_error

theorem Avoids.bind {x : Reader ε α} {f : α → Reader ε β} (hx : Avoids e x)
    (hf : ∀ a, Avoids e (f a)) : Avoids e (x >>= f) := by
  intro c h
  rcases bind_error_iff.mp h with h | ⟨a, d, -, h⟩
  · exact hx c h
  · exact hf a d h

theorem Avoids.many {r : Reader ε α} (hr : Avoids e r) (n : ℕ) : Avoids e (Reader.many r n) := by
  induction n with
  | zero => exact .pure []
  | succ n ih => exact hr.bind fun a => ih.bind fun as => .pure (a :: as)

end Avoids

/-- The reader undoes the encoding, on exactly the selected values. -/
def Reads (ok : α → Prop) (enc : α → Bytes) (r : Reader ε α) : Prop :=
  ∀ (c c' : Cursor) (a : α), r c = .ok (a, c') ↔
    ok a ∧ c.rest = enc a ++ c'.rest ∧ c'.off = c.off + (enc a).length

variable {ok : α → Prop} {enc : α → Bytes}

theorem Reads.take (eof : ℕ → ℕ → ε) (n : ℕ) :
    Reads (fun b : Bytes => b.length = n) id (Reader.take eof n) := by
  intro c c' b
  unfold Reader.take
  by_cases hshort : c.rest.length < n
  · rw [if_pos hshort]
    constructor
    · intro h
      cases h
    · intro hyp
      obtain ⟨hlen, hrest, -⟩ := hyp
      have hle := congrArg List.length hrest
      rw [id, List.length_append] at hle
      omega
  · rw [if_neg hshort]
    constructor
    · intro h
      obtain ⟨rfl, rfl⟩ := Prod.mk.inj (Except.ok.inj h)
      refine ⟨?_, (List.take_append_drop n c.rest).symm, ?_⟩
      · show (c.rest.take n).length = n
        rw [List.length_take]
        omega
      · rw [id, List.length_take]
        show c.off + n = c.off + min n c.rest.length
        omega
    · intro hyp
      obtain ⟨hlen, hrest, hoff⟩ := hyp
      obtain ⟨rest, off⟩ := c'
      simp only at hrest hoff
      subst hlen
      rw [hrest, id, List.take_left' rfl, List.drop_left' rfl, hoff]
      rfl

/-- A field of `n` bytes whose values are the images of a left inverse of its encoding. -/
theorem Reads.field {n : ℕ} {eof : ℕ → ℕ → ε} {dec : Bytes → α} (hlen : ∀ a, ok a → (enc a).length = n)
    (hdec : ∀ b : Bytes, b.length = n → ok (dec b) ∧ enc (dec b) = b)
    (hinv : ∀ a, ok a → dec (enc a) = a) :
    Reads ok enc (do let b ← Reader.take eof n; pure (dec b)) := by
  intro c c' a
  rw [bind_ok_iff]
  constructor
  · intro hyp
    obtain ⟨b, d, hb, ha⟩ := hyp
    obtain ⟨rfl, rfl⟩ := pure_ok_iff.mp ha
    obtain ⟨hbl, hrest, hoff⟩ := (Reads.take eof n c d b).mp hb
    obtain ⟨hok, hback⟩ := hdec b hbl
    rw [hback]
    exact ⟨hok, hrest, hoff⟩
  · intro hyp
    obtain ⟨hok, hrest, hoff⟩ := hyp
    refine ⟨enc a, c', (Reads.take eof n c c' (enc a)).mpr ⟨hlen a hok, hrest, hoff⟩, ?_⟩
    exact pure_ok_iff.mpr ⟨hinv a hok, rfl⟩

/-- The reader returns `b` on exactly the strings that start with the encoding of an `a`
related to it. -/
def Parses (R : α → β → Prop) (enc : α → Bytes) (r : Reader ε β) : Prop :=
  ∀ (c c' : Cursor) (b : β), r c = .ok (b, c') ↔
    ∃ a, R a b ∧ c.rest = enc a ++ c'.rest ∧ c'.off = c.off + (enc a).length

/-- A reader used `n` times. -/
theorem Parses.many_ok_iff {R : α → β → Prop} {r : Reader ε β} (h : Parses R enc r) (n : ℕ)
    {c c' : Cursor} {bs : List β} :
    Reader.many r n c = .ok (bs, c') ↔
      ∃ as : List α, as.length = n ∧ List.Forall₂ R as bs ∧
        c.rest = as.flatMap enc ++ c'.rest ∧ c'.off = c.off + (as.flatMap enc).length := by
  induction n generalizing c c' bs with
  | zero =>
    rw [Reader.many, pure_ok_iff]
    constructor
    · intro hyp
      obtain ⟨rfl, rfl⟩ := hyp
      exact ⟨[], rfl, .nil, rfl, rfl⟩
    · intro hyp
      obtain ⟨as, hlen, hbs, hrest, hoff⟩ := hyp
      obtain rfl := List.length_eq_zero_iff.mp hlen
      obtain rfl := List.forall₂_nil_left_iff.mp hbs
      obtain ⟨rest, off⟩ := c
      obtain ⟨rest', off'⟩ := c'
      exact ⟨rfl, by simp_all⟩
  | succ n ih =>
    rw [Reader.many, bind_ok_iff]
    constructor
    · intro hyp
      obtain ⟨b, d, hb, hrest⟩ := hyp
      obtain ⟨bs', e, hbs, hl⟩ := bind_ok_iff.mp hrest
      obtain ⟨rfl, rfl⟩ := pure_ok_iff.mp hl
      obtain ⟨a, hab, hr, hoff⟩ := (h c d b).mp hb
      obtain ⟨as, hlen, hall, hr', hoff'⟩ := ih.mp hbs
      refine ⟨a :: as, by rw [List.length_cons, hlen], .cons hab hall, ?_, ?_⟩
      · rw [hr, hr', List.flatMap_cons, List.append_assoc]
      · rw [hoff', hoff, List.flatMap_cons, List.length_append, Nat.add_assoc]
    · intro hyp
      obtain ⟨as, hlen, hall, hr, hoff⟩ := hyp
      obtain ⟨a, as, rfl⟩ := List.exists_cons_of_length_eq_add_one hlen
      obtain ⟨b, bs', hab, hall', rfl⟩ := List.forall₂_cons_left_iff.mp hall
      rw [List.flatMap_cons, List.append_assoc] at hr
      rw [List.flatMap_cons, List.length_append, ← Nat.add_assoc] at hoff
      refine ⟨b, ⟨as.flatMap enc ++ c'.rest, c.off + (enc a).length⟩, ?_, ?_⟩
      · exact (h c _ b).mpr ⟨a, hab, hr, rfl⟩
      · apply bind_ok_iff.mpr
        exact ⟨bs', c', ih.mpr ⟨as, Nat.succ_inj.mp hlen, hall', rfl, hoff⟩, rfl⟩

/-- A field repeated `n` times. -/
theorem Reads.many {r : Reader ε α} (h : Reads ok enc r) (n : ℕ) :
    Reads (fun l : List α => l.length = n ∧ ∀ a ∈ l, ok a) (fun l => l.flatMap enc) (Reader.many r n) := by
  have hparses : Parses (fun a b => ok a ∧ a = b) enc r := by
    intro c c' b
    rw [h c c' b]
    constructor
    · intro hyp
      exact ⟨b, ⟨hyp.1, rfl⟩, hyp.2⟩
    · intro hyp
      obtain ⟨a, ⟨hok, rfl⟩, hrest⟩ := hyp
      exact ⟨hok, hrest⟩
  intro c c' l
  rw [hparses.many_ok_iff]
  constructor
  · intro hyp
    obtain ⟨as, hlen, hall, hrest⟩ := hyp
    obtain ⟨hok, heq⟩ := (List.forall₂_and_left _ _).mp hall
    rw [List.forall₂_eq_eq_eq] at heq
    subst heq
    exact ⟨⟨hlen, hok⟩, hrest⟩
  · intro hyp
    obtain ⟨⟨hlen, hok⟩, hrest⟩ := hyp
    refine ⟨l, hlen, (List.forall₂_and_left _ _).mpr ⟨hok, ?_⟩, hrest⟩
    rw [List.forall₂_eq_eq_eq]

/-- One step of a record: the field, then the rest of the record behind it. -/
theorem Reads.bind_ok_iff {r : Reader ε α} (h : Reads ok enc r) {f : α → Reader ε β} {c c' : Cursor}
    {b : β} :
    (r >>= f) c = .ok (b, c') ↔ ∃ a rest, ok a ∧ c.rest = enc a ++ rest ∧
      f a ⟨rest, c.off + (enc a).length⟩ = .ok (b, c') := by
  rw [Reader.bind_ok_iff]
  constructor
  · intro hyp
    obtain ⟨a, d, ha, hf⟩ := hyp
    obtain ⟨hok, hrest, hoff⟩ := (h c d a).mp ha
    refine ⟨a, d.rest, hok, hrest, ?_⟩
    rw [← hoff]
    exact hf
  · intro hyp
    obtain ⟨a, rest, hok, hrest, hf⟩ := hyp
    exact ⟨a, ⟨rest, c.off + (enc a).length⟩, (h c _ a).mpr ⟨hok, hrest, rfl⟩, hf⟩

/-- The record fails in a given way behind the field, if the field avoids that failure. -/
theorem Reads.bind_error_iff {r : Reader ε α} (h : Reads ok enc r) {e : ε} (hr : Avoids e r)
    {f : α → Reader ε β} {c : Cursor} :
    (r >>= f) c = .error e ↔ ∃ a rest, ok a ∧ c.rest = enc a ++ rest ∧
      f a ⟨rest, c.off + (enc a).length⟩ = .error e := by
  rw [Reader.bind_error_iff]
  constructor
  · intro hyp
    rcases hyp with hfail | ⟨a, d, ha, hf⟩
    · exact absurd hfail (hr c)
    · obtain ⟨hok, hrest, hoff⟩ := (h c d a).mp ha
      refine ⟨a, d.rest, hok, hrest, ?_⟩
      rw [← hoff]
      exact hf
  · intro hyp
    obtain ⟨a, rest, hok, hrest, hf⟩ := hyp
    exact .inr ⟨a, ⟨rest, c.off + (enc a).length⟩, (h c _ a).mpr ⟨hok, hrest, rfl⟩, hf⟩

/-- What can be read back is delimited. -/
theorem Reads.selfDelimiting {r : Reader ε α} (h : Reads ok enc r) : SelfDelimiting ok enc := by
  intro a b x y ha hb heq
  have hreadA := (h ⟨enc a ++ x, 0⟩ ⟨x, 0 + (enc a).length⟩ a).mpr ⟨ha, rfl, rfl⟩
  have hreadB := (h ⟨enc a ++ x, 0⟩ ⟨y, 0 + (enc b).length⟩ b).mpr ⟨hb, heq, rfl⟩
  rw [hreadA] at hreadB
  obtain ⟨hab, hxy⟩ := Prod.mk.inj (Except.ok.inj hreadB)
  exact ⟨hab, congrArg Cursor.rest hxy⟩

/-- A repeated field whose values are converted one by one. -/
theorem Reads.many_lift_ok_iff {r : Reader ε α} (h : Reads ok enc r) (g : α → Except ε β) (n : ℕ)
    {c c' : Cursor} {bs : List β} :
    Reader.many (r >>= fun a => lift (g a)) n c = .ok (bs, c') ↔
      ∃ as : List α, as.length = n ∧ (∀ a ∈ as, ok a) ∧ as.mapM g = .ok bs ∧
        c.rest = as.flatMap enc ++ c'.rest ∧ c'.off = c.off + (as.flatMap enc).length := by
  have hparses : Parses (fun a b => ok a ∧ g a = .ok b) enc (r >>= fun a => lift (g a)) := by
    intro c c' b
    rw [h.bind_ok_iff]
    constructor
    · intro hyp
      obtain ⟨a, rest, hok, hr, hconv⟩ := hyp
      obtain ⟨hga, rfl⟩ := lift_ok_iff.mp hconv
      exact ⟨a, ⟨hok, hga⟩, hr, rfl⟩
    · intro hyp
      obtain ⟨a, ⟨hok, hga⟩, hr, hoff⟩ := hyp
      refine ⟨a, c'.rest, hok, hr, lift_ok_iff.mpr ⟨hga, ?_⟩⟩
      rw [← hoff]
  rw [hparses.many_ok_iff]
  simp only [List.forall₂_and_left, mapM_eq_ok_iff, and_assoc]

/-- Where the conversions of a repeated field fail. -/
theorem Reads.many_lift_error_iff {r : Reader ε α} (h : Reads ok enc r) {e : ε} (hr : Avoids e r)
    (g : α → Except ε β) (n : ℕ) {c : Cursor} :
    Reader.many (r >>= fun a => lift (g a)) n c = .error e ↔
      ∃ (as : List α) (a : α) (rest : Bytes), as.length < n ∧
        (∀ a' ∈ as, ok a' ∧ ∃ b, g a' = .ok b) ∧ ok a ∧ g a = .error e ∧
        c.rest = as.flatMap enc ++ (enc a ++ rest) := by
  induction n generalizing c with
  | zero =>
    constructor
    · intro h
      cases h
    · intro hyp
      obtain ⟨as, a, rest, hlen, -⟩ := hyp
      exact absurd hlen (Nat.not_lt_zero _)
  | succ n ih =>
    rw [Reader.many, Reader.bind_error_iff, h.bind_error_iff hr]
    constructor
    · intro hyp
      rcases hyp with ⟨a, rest, hok, hrest, hconv⟩ | ⟨b, d, hb, hlater⟩
      · exact ⟨[], a, rest, Nat.succ_pos n, by simp, hok, lift_error_iff.mp hconv, hrest⟩
      · obtain ⟨a', rest', hok', hrest', hconv'⟩ := h.bind_ok_iff.mp hb
        obtain ⟨hgb, rfl⟩ := lift_ok_iff.mp hconv'
        rcases Reader.bind_error_iff.mp hlater with hfail | ⟨bs, d, -, hfail⟩
        · obtain ⟨as, a, rest, hlen, hall, hok, hga, hrest⟩ := ih.mp hfail
          refine ⟨a' :: as, a, rest, Nat.succ_lt_succ hlen,
            List.forall_mem_cons.mpr ⟨⟨hok', b, hgb⟩, hall⟩, hok, hga, ?_⟩
          rw [hrest', List.flatMap_cons, List.append_assoc, ← hrest]
        · cases hfail
    · intro hyp
      obtain ⟨as, a, rest, hlen, hall, hok, hga, hrest⟩ := hyp
      cases as with
      | nil => exact .inl ⟨a, rest, hok, hrest, lift_error_iff.mpr hga⟩
      | cons a' as =>
        obtain ⟨⟨hok', b, hgb⟩, hall⟩ := List.forall_mem_cons.mp hall
        rw [List.flatMap_cons, List.append_assoc] at hrest
        refine .inr ⟨b, ⟨as.flatMap enc ++ (enc a ++ rest), c.off + (enc a').length⟩, ?_, ?_⟩
        · exact h.bind_ok_iff.mpr ⟨a', _, hok', hrest, lift_ok_iff.mpr ⟨hgb, rfl⟩⟩
        · apply Reader.bind_error_iff.mpr
          exact .inl (ih.mpr ⟨as, a, rest, Nat.lt_of_succ_lt_succ hlen, hall, hok, hga, rfl⟩)

end Reader

/-! ## Big-endian integers -/

/-- The value of a big-endian byte string. -/
def beNat (b : Bytes) : ℕ := leNat b.reverse

theorem beNat_toBe {w n : ℕ} (h : n < 256 ^ w) : beNat (toBe w n) = n := by
  rw [beNat, toBe, List.reverse_reverse, leNat_toLe_of_lt h]

theorem beNat_lt (b : Bytes) : beNat b < 256 ^ b.length := by
  have h := leNat_lt b.reverse
  rwa [List.length_reverse] at h

theorem toBe_beNat (b : Bytes) : toBe b.length (beNat b) = b := by
  have h := toLe_leNat b.reverse
  rw [List.length_reverse] at h
  rw [toBe, beNat, h, List.reverse_reverse]

/-- Integers of `w` bytes, most significant first, for a type that the numbers below
`256 ^ w` enumerate. -/
theorem Reader.Reads.be {ε α : Type} {eof : ℕ → ℕ → ε} {w : ℕ} (toNat : α → ℕ) (ofNat : ℕ → α)
    (hlt : ∀ a, toNat a < 256 ^ w) (hto : ∀ n, n < 256 ^ w → toNat (ofNat n) = n)
    (hof : ∀ a, ofNat (toNat a) = a) :
    Reads (fun _ : α => True) (fun a => toBe w (toNat a))
      (do let b ← Reader.take eof w; pure (ofNat (beNat b))) := by
  apply Reads.field
  · intro a _
    exact length_toBe w (toNat a)
  · rintro b rfl
    rw [hto _ (beNat_lt b)]
    exact ⟨trivial, toBe_beNat b⟩
  · intro a _
    rw [beNat_toBe (hlt a), hof]

end PslBank.Lib
