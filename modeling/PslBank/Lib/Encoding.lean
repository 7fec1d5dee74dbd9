import PslBank.Lib.Bytes

/-!
# Encodings that can be taken apart from the front

A hand-written byte layout is a concatenation of fields. It is uniquely readable when
each field is self-delimiting: from a longer string that starts with the field, the
value and the rest are determined. The rules below give this for fixed-width
fields, length-prefixed strings, counted lists and optional fields; a record is then
read field by field.
-/
namespace PslBank.Lib

set_option autoImplicit false

section Delimiting

variable {α β : Type*}

/-- On the values that `ok` selects, the encoding can be split off any longer string. -/
def SelfDelimiting (ok : α → Prop) (enc : α → Bytes) : Prop :=
  ∀ ⦃a b : α⦄ ⦃r s : Bytes⦄, ok a → ok b → enc a ++ r = enc b ++ s → a = b ∧ r = s

variable {ok : α → Prop} {enc : α → Bytes}

theorem SelfDelimiting.of_length {n : ℕ} (hlen : ∀ a, (enc a).length = n)
    (hinj : ∀ a b, ok a → ok b → enc a = enc b → a = b) : SelfDelimiting ok enc := by
  intro a b r s ha hb h
  obtain ⟨he, hr⟩ := List.append_inj h (by rw [hlen, hlen])
  exact ⟨hinj a b ha hb he, hr⟩

theorem SelfDelimiting.comap {ok' : β → Prop} (h : SelfDelimiting ok enc) {f : β → α}
    (hf : Function.Injective f) (hok : ∀ b, ok' b → ok (f b)) :
    SelfDelimiting ok' fun b => enc (f b) := by
  intro a b r s ha hb he
  obtain ⟨hab, hr⟩ := h (hok a ha) (hok b hb) he
  exact ⟨hf hab, hr⟩

theorem SelfDelimiting.inj (h : SelfDelimiting ok enc) {a b : α} (ha : ok a) (hb : ok b)
    (he : enc a = enc b) : a = b :=
  (h ha hb (congrArg (· ++ []) he)).1

/-- A presence byte in front of the value, or the absence byte alone. -/
theorem SelfDelimiting.optional (h : SelfDelimiting ok enc) {f : Option α → Bytes}
    (hnone : f none = [0]) (hsome : ∀ a, f (some a) = 1 :: enc a) :
    SelfDelimiting (fun o => ∀ a, o = some a → ok a) f := by
  intro o o' r s ho ho' he
  cases o with
  | none =>
    cases o' with
    | none => exact ⟨rfl, List.append_cancel_left he⟩
    | some b => simp [hnone, hsome] at he
  | some a =>
    cases o' with
    | none => simp [hnone, hsome] at he
    | some b =>
      rw [hsome, hsome] at he
      obtain ⟨hab, hr⟩ := h (ho a rfl) (ho' b rfl) (List.cons.inj he).2
      exact ⟨congrArg some hab, hr⟩

/-- Two lists of one length are read element by element. -/
theorem SelfDelimiting.flatMap_inj (h : SelfDelimiting ok enc) :
    ∀ {l l' : List α} {r s : Bytes}, l.length = l'.length → (∀ a ∈ l, ok a) → (∀ a ∈ l', ok a) →
      l.flatMap enc ++ r = l'.flatMap enc ++ s → l = l' ∧ r = s := by
  intro l
  induction l with
  | nil =>
    intro l' r s hlen _ _ he
    obtain rfl := List.length_eq_zero_iff.mp hlen.symm
    exact ⟨rfl, he⟩
  | cons a l ih =>
    intro l' r s hlen ha hb he
    obtain ⟨b, l', rfl⟩ := List.exists_cons_of_length_eq_add_one hlen.symm
    rw [List.flatMap_cons, List.flatMap_cons, List.append_assoc, List.append_assoc] at he
    obtain ⟨hab, he⟩ := h (ha a List.mem_cons_self) (hb b List.mem_cons_self) he
    obtain ⟨hl, hr⟩ := ih (Nat.succ_inj.mp hlen) (fun x hx => ha x (List.mem_cons_of_mem _ hx))
      (fun x hx => hb x (List.mem_cons_of_mem _ hx)) he
    exact ⟨by rw [hab, hl], hr⟩

/-- A whole string of elements needs no count, when no element is empty. -/
theorem SelfDelimiting.stream_inj (h : SelfDelimiting ok enc) (hne : ∀ a, enc a ≠ []) :
    ∀ {l l' : List α}, (∀ a ∈ l, ok a) → (∀ a ∈ l', ok a) → l.flatMap enc = l'.flatMap enc → l = l' := by
  intro l
  induction l with
  | nil =>
    intro l' _ _ he
    cases l' with
    | nil => rfl
    | cons b l' => exact absurd (List.append_eq_nil_iff.mp he.symm).1 (hne b)
  | cons a l ih =>
    intro l' ha hb he
    cases l' with
    | nil => exact absurd (List.append_eq_nil_iff.mp he).1 (hne a)
    | cons b l' =>
      obtain ⟨hab, he⟩ := h (ha a List.mem_cons_self) (hb b List.mem_cons_self) he
      rw [hab, ih (fun x hx => ha x (List.mem_cons_of_mem _ hx))
        (fun x hx => hb x (List.mem_cons_of_mem _ hx)) he]

/-- The number of elements, then the elements. -/
theorem SelfDelimiting.counted {okLen : ℕ → Prop} {len : ℕ → Bytes}
    (hl : SelfDelimiting okLen len) (h : SelfDelimiting ok enc) :
    SelfDelimiting (fun l : List α => okLen l.length ∧ ∀ a ∈ l, ok a)
      fun l => len l.length ++ l.flatMap enc := by
  intro l l' r s hok hok' he
  rw [List.append_assoc, List.append_assoc] at he
  obtain ⟨hlen, he⟩ := hl hok.1 hok'.1 he
  exact h.flatMap_inj hlen hok.2 hok'.2 he

/-- The number of bytes, then the bytes. -/
theorem SelfDelimiting.lengthPrefixed {okLen : ℕ → Prop} {len : ℕ → Bytes}
    (hl : SelfDelimiting okLen len) :
    SelfDelimiting (fun b : Bytes => okLen b.length) fun b => len b.length ++ b := by
  intro b b' r s hok hok' he
  rw [List.append_assoc, List.append_assoc] at he
  obtain ⟨hlen, he⟩ := hl hok hok' he
  exact List.append_inj he hlen

end Delimiting

/-! ## Fixed-width fields -/

theorem toLe_inj {w m n : ℕ} (hm : m < 256 ^ w) (hn : n < 256 ^ w) (h : toLe w m = toLe w n) :
    m = n := by
  rw [← leNat_toLe_of_lt hm, ← leNat_toLe_of_lt hn, h]

@[simp] theorem length_toBe (w n : ℕ) : (toBe w n).length = w := by simp [toBe]

theorem toBe_inj {w m n : ℕ} (hm : m < 256 ^ w) (hn : n < 256 ^ w) (h : toBe w m = toBe w n) :
    m = n :=
  toLe_inj hm hn (List.reverse_injective h)

theorem delimiting_le (w : ℕ) : SelfDelimiting (· < 256 ^ w) (toLe w) :=
  SelfDelimiting.of_length (length_toLe w) fun _ _ => toLe_inj

theorem delimiting_be (w : ℕ) : SelfDelimiting (· < 256 ^ w) (toBe w) :=
  SelfDelimiting.of_length (length_toBe w) fun _ _ => toBe_inj

theorem delimiting_array (n : ℕ) :
    SelfDelimiting (fun _ : ByteArr n => True) fun v => v.toList :=
  SelfDelimiting.of_length (fun v => v.toList_length) fun _ _ _ _ => Subtype.ext

theorem delimiting_byte : SelfDelimiting (fun _ : UInt8 => True) fun b => [b] :=
  SelfDelimiting.of_length (fun _ => rfl) fun _ _ _ _ => List.singleton_inj.mp

theorem delimiting_u32_le : SelfDelimiting (fun _ : UInt32 => True) fun x => toLe 4 x.toNat :=
  (delimiting_le 4).comap (fun _ _ => UInt32.toNat_inj.mp) fun x _ => x.toNat_lt

theorem delimiting_u64_le : SelfDelimiting (fun _ : UInt64 => True) fun x => toLe 8 x.toNat :=
  (delimiting_le 8).comap (fun _ _ => UInt64.toNat_inj.mp) fun x _ => x.toNat_lt

theorem delimiting_u64_be : SelfDelimiting (fun _ : UInt64 => True) fun x => toBe 8 x.toNat :=
  (delimiting_be 8).comap (fun _ _ => UInt64.toNat_inj.mp) fun x _ => x.toNat_lt

theorem delimiting_u128_be : SelfDelimiting (fun _ : BitVec 128 => True) fun x => toBe 16 x.toNat :=
  (delimiting_be 16).comap (fun _ _ => BitVec.eq_of_toNat_eq) fun x _ => x.isLt

/-! ## Text -/

/-- The bytes of a string, `str::as_bytes`. -/
def utf8 (s : String) : Bytes := s.toByteArray.data.toList

theorem utf8_injective : Function.Injective utf8 := by
  intro s t h
  apply String.toByteArray_inj.mp
  apply ByteArray.ext
  exact Array.toList_inj.mp h

/-! ## Big-endian `u32` lengths -/

theorem delimiting_bytes_be :
    SelfDelimiting (fun b : Bytes => b.length < 2 ^ 32) fun b => toBe 4 b.length ++ b :=
  (delimiting_be 4).lengthPrefixed

theorem delimiting_text_be :
    SelfDelimiting (fun s => (utf8 s).length < 2 ^ 32) fun s => toBe 4 (utf8 s).length ++ utf8 s :=
  delimiting_bytes_be.comap utf8_injective fun _ hs => hs

theorem delimiting_list_be {α : Type*} {ok : α → Prop} {enc : α → Bytes}
    (h : SelfDelimiting ok enc) :
    SelfDelimiting (fun l : List α => l.length < 2 ^ 32 ∧ ∀ a ∈ l, ok a)
      fun l => toBe 4 l.length ++ l.flatMap enc :=
  (delimiting_be 4).counted h

end PslBank.Lib
