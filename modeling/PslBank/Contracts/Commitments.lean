import PslBank.Contracts.Guarded
import PslBank.Ternary.WeightsCodec

/-!
# What the hashes of contracts and runs commit to

The byte strings that `program.rs` and `ternary_vm/src/trace_hash.rs` feed to the hasher. A
program hash covers a name without its length and then digests, so a name that ends in the
bytes of a digest is hashed like a shorter one with a longer list. A trace hash covers a
digest and two counted sequences, which can be read back.
-/
namespace PslBank.Contracts

open PslBank.Lib PslBank.Crypto PslBank.Ternary

set_option autoImplicit false

/-! ## Program hashes -/

section Identity

variable {n : ℕ}

/-- A name, and digests in order. -/
def identityBytes (name : String) (hashes : List (ByteArr n)) : Bytes :=
  utf8 name ++ hashes.flatMap fun h => h.toList

def weightsHashes (networks : List TernaryNetwork) : List Hash :=
  networks.map fun n => n.header.weightsHash

def weightsHashesV2 (networks : List TernaryNetwork) : List (ByteArr 64) :=
  networks.map fun n => n.header.weightsHashV2

/-- What `program_hash_v1` hashes. -/
def programBytesV1 (name : String) (networks : List TernaryNetwork) : Bytes :=
  identityBytes name (weightsHashes networks)

/-- What `program_hash_v2` hashes. -/
def programBytesV2 (name : String) (networks : List TernaryNetwork) : Bytes :=
  identityBytes name (weightsHashesV2 networks)

theorem programHashV1_eq [Blake3Xof] (name : String) (networks : List TernaryNetwork) :
    programHashV1 name networks = Blake3.digest (programBytesV1 name networks) := by
  rw [programBytesV1, identityBytes, weightsHashes, List.flatMap_map]
  rfl

theorem programHashV2_eq [Blake3Xof] (name : String) (networks : List TernaryNetwork) :
    programHashV2 name networks = ⟨Blake3Xof.fill64 (programBytesV2 name networks)⟩ := by
  rw [programBytesV2, identityBytes, weightsHashesV2, List.flatMap_map]
  rfl

/-- The second name is the first one followed by the leading digests of its list. -/
def Absorbs (name : String) (hashes : List (ByteArr n)) (name' : String)
    (hashes' : List (ByteArr n)) : Prop :=
  ∃ moved, moved ≠ [] ∧ hashes = moved ++ hashes' ∧
    utf8 name' = utf8 name ++ moved.flatMap fun h => h.toList

variable {name name' : String} {hashes hashes' : List (ByteArr n)}

theorem length_flatMap_digests (hashes : List (ByteArr n)) :
    (hashes.flatMap fun h => h.toList).length = hashes.length * n := by
  induction hashes with
  | nil => exact (Nat.zero_mul n).symm
  | cons h hashes ih =>
    rw [List.flatMap_cons, List.length_append, ih, h.toList_length, List.length_cons, Nat.succ_mul,
      Nat.add_comm]

theorem Absorbs.bytes_eq (h : Absorbs name hashes name' hashes') :
    identityBytes name hashes = identityBytes name' hashes' := by
  obtain ⟨moved, -, rfl, hname⟩ := h
  rw [identityBytes, identityBytes, hname, List.flatMap_append, List.append_assoc]

/-- A name shorter than a digest absorbs none. -/
theorem Absorbs.le_length (h : Absorbs name hashes name' hashes') : n ≤ (utf8 name').length := by
  obtain ⟨moved, hne, -, hname⟩ := h
  rw [hname, List.length_append, length_flatMap_digests]
  have hpos := List.length_pos_iff.mpr hne
  have hone := Nat.le_mul_of_pos_left n hpos
  omega

/-- The longer name has taken up the surplus digests of the shorter one. -/
theorem exists_moved (hn : 0 < n) (heq : identityBytes name hashes = identityBytes name' hashes')
    (hle : (utf8 name).length ≤ (utf8 name').length) :
    ∃ moved, hashes = moved ++ hashes' ∧ utf8 name' = utf8 name ++ moved.flatMap fun h => h.toList := by
  have hlen := congrArg List.length heq
  rw [identityBytes, identityBytes, List.length_append, List.length_append, length_flatMap_digests,
    length_flatMap_digests] at hlen
  have hcount : hashes'.length ≤ hashes.length := by
    have hmul : hashes'.length * n ≤ hashes.length * n := by omega
    exact Nat.le_of_mul_le_mul_right hmul hn
  have hrest : (hashes.drop (hashes.length - hashes'.length)).length = hashes'.length := by
    rw [List.length_drop]
    omega
  rw [identityBytes, identityBytes,
    ← List.take_append_drop (hashes.length - hashes'.length) hashes, List.flatMap_append,
    ← List.append_assoc] at heq
  obtain ⟨hname, hflat⟩ := List.append_inj' heq
    (by rw [length_flatMap_digests, length_flatMap_digests, hrest])
  obtain ⟨hdrop, -⟩ := (delimiting_array n).flatMap_inj hrest (fun _ _ => trivial) (fun _ _ => trivial)
    (congrArg (· ++ []) hflat)
  refine ⟨hashes.take (hashes.length - hashes'.length), ?_, hname.symm⟩
  conv_lhs => rw [← List.take_append_drop (hashes.length - hashes'.length) hashes, hdrop]

theorem identityBytes_eq_iff (hn : 0 < n) :
    identityBytes name hashes = identityBytes name' hashes' ↔
      (name = name' ∧ hashes = hashes') ∨ Absorbs name hashes name' hashes' ∨
        Absorbs name' hashes' name hashes := by
  have hcases : ∀ {s t : String} {hs ts : List (ByteArr n)},
      identityBytes s hs = identityBytes t ts → (utf8 s).length ≤ (utf8 t).length →
        (s = t ∧ hs = ts) ∨ Absorbs s hs t ts := by
    intro s t hs ts heq hle
    obtain ⟨moved, hlist, hname⟩ := exists_moved hn heq hle
    cases moved with
    | nil =>
      rw [List.flatMap_nil, List.append_nil] at hname
      exact .inl ⟨utf8_injective hname.symm, hlist⟩
    | cons h moved => exact .inr ⟨h :: moved, List.cons_ne_nil h moved, hlist, hname⟩
  constructor
  · intro heq
    rcases Nat.le_total (utf8 name).length (utf8 name').length with hle | hle
    · rcases hcases heq hle with h | h
      · exact .inl h
      · exact .inr (.inl h)
    · rcases hcases heq.symm hle with ⟨hname, hlist⟩ | h
      · exact .inl ⟨hname.symm, hlist.symm⟩
      · exact .inr (.inr h)
  · intro hyp
    rcases hyp with ⟨rfl, rfl⟩ | h | h
    · rfl
    · exact h.bytes_eq
    · exact h.bytes_eq.symm

theorem Absorbs.hashes_ne (h : Absorbs name hashes name' hashes') : hashes ≠ hashes' := by
  obtain ⟨moved, hne, rfl, -⟩ := h
  intro heq
  exact hne (List.append_left_eq_self.mp heq)

theorem identity_determined_iff (hn : 0 < n) :
    (identityBytes name hashes = identityBytes name' hashes' → name = name' ∧ hashes = hashes') ↔
      ¬ Absorbs name hashes name' hashes' ∧ ¬ Absorbs name' hashes' name hashes := by
  constructor
  · intro h
    refine ⟨fun habs => habs.hashes_ne (h habs.bytes_eq).2, fun habs => ?_⟩
    exact habs.hashes_ne (h habs.bytes_eq.symm).2.symm
  · intro hyp heq
    rcases (identityBytes_eq_iff hn).mp heq with h | h | h
    · exact h
    · exact absurd h hyp.1
    · exact absurd h hyp.2

end Identity

/-- The hashed bytes determine name and digests unless one name absorbs digests of the other. -/
theorem program_identity_iff (name name' : String) (networks networks' : List TernaryNetwork) :
    ((programBytesV1 name networks = programBytesV1 name' networks' →
        name = name' ∧ weightsHashes networks = weightsHashes networks') ↔
      ¬ Absorbs name (weightsHashes networks) name' (weightsHashes networks') ∧
        ¬ Absorbs name' (weightsHashes networks') name (weightsHashes networks)) ∧
    ((programBytesV2 name networks = programBytesV2 name' networks' →
        name = name' ∧ weightsHashesV2 networks = weightsHashesV2 networks') ↔
      ¬ Absorbs name (weightsHashesV2 networks) name' (weightsHashesV2 networks') ∧
        ¬ Absorbs name' (weightsHashesV2 networks') name (weightsHashesV2 networks)) :=
  ⟨identity_determined_iff (by decide), identity_determined_iff (by decide)⟩

theorem Standard.length_name_lt (k : Standard) : (utf8 k.name).length < 32 := by
  cases k <;> decide

theorem Standard.name_injective : Function.Injective Standard.name := by
  intro k k'
  cases k <;> cases k' <;> decide

/-- The names of the standard contracts are too short to absorb a digest. -/
theorem Standard.identity_determined {k k' : Standard} {networks networks' : List TernaryNetwork}
    (h : programBytesV1 k.name networks = programBytesV1 k'.name networks') :
    k = k' ∧ weightsHashes networks = weightsHashes networks' := by
  have hdetermined := (@identity_determined_iff 32 k.name k'.name (weightsHashes networks)
    (weightsHashes networks') (by decide)).mpr
    ⟨fun habs => Nat.not_le.mpr k'.length_name_lt habs.le_length,
      fun habs => Nat.not_le.mpr k.length_name_lt habs.le_length⟩
  obtain ⟨hname, hhashes⟩ := hdetermined h
  exact ⟨Standard.name_injective hname, hhashes⟩

/-- A network without layers, whose digests are stars. -/
def starNetwork : TernaryNetwork where
  header := ⟨1, "test", 1, 1, List.Vector.replicate 32 42, List.Vector.replicate 64 42⟩
  layers := []
  wellFormed := by
    intro l hl
    cases hl

/-- The unnamed contract of that network, and the contract named by its digest. -/
theorem star_identity_ambiguous :
    (¬ ∀ name name' networks networks', programBytesV1 name networks = programBytesV1 name' networks' →
      name = name' ∧ weightsHashes networks = weightsHashes networks') ∧
    (¬ ∀ name name' networks networks', programBytesV2 name networks = programBytesV2 name' networks' →
      name = name' ∧ weightsHashesV2 networks = weightsHashesV2 networks') := by
  constructor
  · intro h
    have hname := (h "" "********************************" [starNetwork] [] (by decide)).1
    revert hname
    decide
  · intro h
    have hname := (h "" "****************************************************************"
      [starNetwork] [] (by decide)).1
    revert hname
    decide

/-! ## Trace hashes -/

/-- `encode_canonical`. -/
def encodeCanonical (values : List Int64) : Bytes := toBe 4 values.length ++ values.flatMap i64Be

/-- What `trace_hash_v1` hashes. -/
def traceBytesV1 (net : TernaryNetwork) (input output : List Int64) : Bytes :=
  net.header.weightsHash.toList ++ encodeCanonical input ++ encodeCanonical output

/-- What `trace_hash_v2` hashes. -/
def traceBytesV2 (net : TernaryNetwork) (input output : List Int64) : Bytes :=
  net.header.weightsHashV2.toList ++ encodeCanonical input ++ encodeCanonical output

/-- What `TernaryProgram::trace_hash` hashes. -/
def TernaryProgram.traceBytes (p : TernaryProgram) (input output : Bytes) : Bytes :=
  p.programHash.toList ++ (toBe 4 input.length ++ input) ++ (toBe 4 output.length ++ output)

section TraceHash

variable [Blake3]

def traceHashV1 (net : TernaryNetwork) (input output : List Int64) : Hash :=
  Blake3.digest (traceBytesV1 net input output)

def traceHashV2 (net : TernaryNetwork) (input output : List Int64) : Hash :=
  Blake3.digest (traceBytesV2 net input output)

def TernaryProgram.traceHash (p : TernaryProgram) (input output : Bytes) : Hash :=
  Blake3.digest (p.traceBytes input output)

end TraceHash

theorem delimiting_encodeCanonical :
    SelfDelimiting (fun values : List Int64 => values.length < 2 ^ 32) encodeCanonical := by
  intro x y r s hx hy h
  exact delimiting_list_be reads_i64.selfDelimiting ⟨hx, fun _ _ => trivial⟩ ⟨hy, fun _ _ => trivial⟩ h

/-- A digest and two delimited values are read back in turn. -/
theorem digest_pair_inj {α : Type} {ok : α → Prop} {enc : α → Bytes} (h : SelfDelimiting ok enc) {n : ℕ}
    {c c' : ByteArr n} {x x' y y' : α} (hx : ok x) (hx' : ok x') (hy : ok y) (hy' : ok y')
    (heq : c.toList ++ enc x ++ enc y = c'.toList ++ enc x' ++ enc y') : c = c' ∧ x = x' ∧ y = y' := by
  rw [List.append_assoc, List.append_assoc] at heq
  obtain ⟨hc, hrest⟩ := delimiting_array n trivial trivial heq
  obtain ⟨hxx, hyy⟩ := h hx hx' hrest
  exact ⟨hc, hxx, h.inj hy hy' hyy⟩

/-- The three trace hashes commit to the network or program, to the input and to the output. -/
theorem trace_bytes_inj {x x' y y' : List Int64} {input input' output output' : Bytes}
    (hx : x.length < 2 ^ 32) (hx' : x'.length < 2 ^ 32) (hy : y.length < 2 ^ 32)
    (hy' : y'.length < 2 ^ 32) (hinput : input.length < 2 ^ 32) (hinput' : input'.length < 2 ^ 32)
    (houtput : output.length < 2 ^ 32) (houtput' : output'.length < 2 ^ 32)
    (net net' : TernaryNetwork) (p p' : TernaryProgram) :
    (traceBytesV1 net x y = traceBytesV1 net' x' y' →
      net.header.weightsHash = net'.header.weightsHash ∧ x = x' ∧ y = y') ∧
    (traceBytesV2 net x y = traceBytesV2 net' x' y' →
      net.header.weightsHashV2 = net'.header.weightsHashV2 ∧ x = x' ∧ y = y') ∧
    (p.traceBytes input output = p'.traceBytes input' output' →
      p.programHash = p'.programHash ∧ input = input' ∧ output = output') :=
  ⟨digest_pair_inj delimiting_encodeCanonical hx hx' hy hy',
    digest_pair_inj delimiting_encodeCanonical hx hx' hy hy',
    digest_pair_inj delimiting_bytes_be hinput hinput' houtput houtput'⟩

/-- Moving a value from the input to the output changes the bytes. -/
theorem trace_bytes_inj_boundary :
    traceBytesV1 starNetwork [7, 1] [] ≠ traceBytesV1 starNetwork [7] [1] := by
  intro h
  have hinj := @trace_bytes_inj [7, 1] [7] [] [1] [] [] [] [] (by decide) (by decide) (by decide)
    (by decide) (by decide) (by decide) (by decide) (by decide) starNetwork starNetwork
    ⟨"echo", .ok, ⟨List.Vector.replicate 64 0⟩, zeroHash⟩
    ⟨"echo", .ok, ⟨List.Vector.replicate 64 0⟩, zeroHash⟩
  have hinput := (hinj.1 h).2.1
  revert hinput
  decide

end PslBank.Contracts
