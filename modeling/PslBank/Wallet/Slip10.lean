import PslBank.Wallet.Policy
import PslBank.Lib.Runs

/-!
# Hierarchical key derivation

`agent_wallet/src/slip10.rs`. HMAC-SHA512 is an external crate and therefore a parameter, carried
by the class `HmacSha512`; no property of it is built in. A derivation from a seed along a path of
indices is one chain of MAC calls, and a result that needs collision freedom names the calls it
needs it for. The key of the first call is a text of 12 bytes and every later key a chain code of
32, so a master key is never taken for a child key.
-/
namespace PslBank.Wallet

open PslBank.Lib PslBank.Crypto

set_option autoImplicit false

/-- HMAC-SHA512 of a key and a message. -/
class HmacSha512 where
  mac : Bytes → Bytes → ByteArr 64

/-- Indices from here on are hardened. -/
def hardenedOffset : UInt32 := 0x80000000

/-- A private key with its chain code. -/
structure ExtendedKey where
  privateKey : ByteArr 32
  chainCode : ByteArr 32
  deriving DecidableEq

/-- The two halves of a MAC. -/
def ExtendedKey.ofMac (i : ByteArr 64) : ExtendedKey where
  privateKey := ⟨i.toList.take 32, by simp⟩
  chainCode := ⟨i.toList.drop 32, by simp⟩

structure Ed25519MasterKey where
  key : ExtendedKey

structure Ed25519ChildKey where
  key : ExtendedKey
  index : UInt32

/-- The MAC key of the master. -/
def seedKey : Bytes := utf8 "ed25519 seed"

/-- What the MAC of a child runs over. -/
def childData (privateKey : ByteArr 32) (index : UInt32) : Bytes :=
  [0] ++ privateKey.toList ++ toBe 4 index.toNat

section

variable [HmacSha512]

def Ed25519MasterKey.fromSeed (seed : Bytes) : Except WalletError Ed25519MasterKey :=
  if seed.length = 16 ∨ seed.length = 32 ∨ seed.length = 64 then
    .ok ⟨.ofMac (HmacSha512.mac seedKey seed)⟩
  else .error (.badSeedLength seed.length)

/-- One child. Ed25519 has no derivation but the hardened one. -/
def deriveHardened (parent : ExtendedKey) (index : UInt32) : Except WalletError Ed25519ChildKey :=
  if index < hardenedOffset then .error (.notHardened index)
  else .ok ⟨.ofMac (HmacSha512.mac parent.chainCode.toList (childData parent.privateKey index)), index⟩

def Ed25519MasterKey.deriveChild (master : Ed25519MasterKey) (index : UInt32) :
    Except WalletError Ed25519ChildKey :=
  deriveHardened master.key index

def Ed25519ChildKey.deriveChild (child : Ed25519ChildKey) (index : UInt32) :
    Except WalletError Ed25519ChildKey :=
  deriveHardened child.key index

/-- The key at the end of a path: the master key, then one child after the other. -/
def derivePath (seed : Bytes) (path : List UInt32) : Except WalletError ExtendedKey := do
  let master ← Ed25519MasterKey.fromSeed seed
  match path with
  | [] => return master.key
  | index :: rest =>
      let child ← master.deriveChild index
      let last ← rest.foldlM Ed25519ChildKey.deriveChild child
      return last.key

/-! ## The chain of MAC calls -/

/-- The key and the message of a child's MAC call. -/
def childCall (parent : ExtendedKey) (index : UInt32) : Bytes × Bytes :=
  (parent.chainCode.toList, childData parent.privateKey index)

def childKey (parent : ExtendedKey) (index : UInt32) : ExtendedKey :=
  .ofMac (HmacSha512.mac (childCall parent index).1 (childCall parent index).2)

def masterKey (seed : Bytes) : ExtendedKey := .ofMac (HmacSha512.mac seedKey seed)

/-- The key at the end of a path without the checks. -/
def keyAt (seed : Bytes) (path : List UInt32) : ExtendedKey := path.foldl childKey (masterKey seed)

/-- The MAC calls along a path below a key. -/
def childCalls : ExtendedKey → List UInt32 → List (Bytes × Bytes)
  | _, [] => []
  | parent, index :: rest => childCall parent index :: childCalls (childKey parent index) rest

/-- All MAC calls of a derivation, in order. -/
def macCalls (seed : Bytes) (path : List UInt32) : List (Bytes × Bytes) :=
  (seedKey, seed) :: childCalls (masterKey seed) path

/-- No two different calls of the list have one MAC. -/
def NoMacCollision (calls : List (Bytes × Bytes)) : Prop :=
  Set.InjOn (fun c : Bytes × Bytes => HmacSha512.mac c.1 c.2) {c | c ∈ calls}

theorem keyAt_snoc (seed : Bytes) (path : List UInt32) (index : UInt32) :
    keyAt seed (path ++ [index]) = childKey (keyAt seed path) index := List.foldl_append

theorem childCalls_snoc (parent : ExtendedKey) (path : List UInt32) (index : UInt32) :
    childCalls parent (path ++ [index]) =
      childCalls parent path ++ [childCall (path.foldl childKey parent) index] := by
  induction path generalizing parent with
  | nil => rfl
  | cons first path ih => exact congrArg (childCall parent first :: ·) (ih _)

theorem macCalls_snoc (seed : Bytes) (path : List UInt32) (index : UInt32) :
    macCalls seed (path ++ [index]) = macCalls seed path ++ [childCall (keyAt seed path) index] :=
  congrArg ((seedKey, seed) :: ·) (childCalls_snoc _ path index)

omit [HmacSha512] in
theorem ofMac_inj {i j : ByteArr 64} (h : ExtendedKey.ofMac i = ExtendedKey.ofMac j) : i = j := by
  have hprivate := congrArg (fun k => k.privateKey.toList) h
  have hchain := congrArg (fun k => k.chainCode.toList) h
  apply List.Vector.toList_injective
  rw [← List.take_append_drop 32 i.toList, ← List.take_append_drop 32 j.toList]
  exact congrArg₂ (· ++ ·) hprivate hchain

omit [HmacSha512] in
/-- The call of a child determines its parent and its index. -/
theorem childCall_inj {parent parent' : ExtendedKey} {index index' : UInt32}
    (h : childCall parent index = childCall parent' index') : parent = parent' ∧ index = index' := by
  obtain ⟨hchain, hdata⟩ := Prod.mk.inj h
  simp only [childData, List.cons_append, List.cons.injEq, true_and] at hdata
  obtain ⟨hprivate, hindex⟩ := List.append_inj hdata (by simp)
  have hlt := index.toNat_lt
  have hlt' := index'.toNat_lt
  refine ⟨?_, UInt32.toNat_inj.mp (toBe_inj (by omega) (by omega) hindex)⟩
  cases parent
  cases parent'
  exact congrArg₂ ExtendedKey.mk (List.Vector.toList_injective hprivate)
    (List.Vector.toList_injective hchain)

omit [HmacSha512] in
/-- The call of a master key is none of a child. -/
theorem seedCall_ne (seed : Bytes) (parent : ExtendedKey) (index : UInt32) :
    (seedKey, seed) ≠ childCall parent index := by
  intro h
  have hkey := congrArg (fun c : Bytes × Bytes => c.1.length) h
  have hlen : seedKey.length = 12 := by decide
  simp only [childCall, List.Vector.toList_length] at hkey
  omega

theorem NoMacCollision.mono {calls calls' : List (Bytes × Bytes)} (h : NoMacCollision calls')
    (hsub : calls ⊆ calls') : NoMacCollision calls := Set.InjOn.mono (fun _ hc => hsub hc) h

/-- Two calls of a list without collisions that give one key are one call. -/
theorem NoMacCollision.call_eq {calls : List (Bytes × Bytes)} (hnc : NoMacCollision calls)
    (c d : Bytes × Bytes) (hc : c ∈ calls) (hd : d ∈ calls)
    (h : ExtendedKey.ofMac (HmacSha512.mac c.1 c.2) = .ofMac (HmacSha512.mac d.1 d.2)) : c = d :=
  hnc hc hd (ofMac_inj h)

/-- Without a collision among their calls, two derivations end in one key only when they are the
same. -/
theorem keyAt_inj {seed seed' : Bytes} {path path' : List UInt32}
    (hnc : NoMacCollision (macCalls seed path ++ macCalls seed' path'))
    (h : keyAt seed path = keyAt seed' path') : seed = seed' ∧ path = path' := by
  induction path using List.reverseRecOn generalizing path' with
  | nil =>
    cases path' using List.reverseRecOn with
    | nil =>
      have hcall := hnc.call_eq (seedKey, seed) (seedKey, seed') (by simp [macCalls]) (by simp [macCalls]) h
      exact ⟨(Prod.mk.inj hcall).2, rfl⟩
    | append_singleton path' index' =>
      rw [keyAt_snoc] at h
      rw [macCalls_snoc] at hnc
      exact absurd (hnc.call_eq (seedKey, seed) (childCall (keyAt seed' path') index')
        (by simp [macCalls]) (by simp) h) (seedCall_ne seed (keyAt seed' path') index')
  | append_singleton path index ih =>
    rw [keyAt_snoc] at h
    rw [macCalls_snoc] at hnc
    cases path' using List.reverseRecOn with
    | nil =>
      exact absurd (hnc.call_eq (childCall (keyAt seed path) index) (seedKey, seed')
        (by simp) (by simp [macCalls]) h).symm (seedCall_ne seed' (keyAt seed path) index)
    | append_singleton path' index' =>
      rw [keyAt_snoc] at h
      rw [macCalls_snoc] at hnc
      obtain ⟨hparent, hindex⟩ := childCall_inj (hnc.call_eq (childCall (keyAt seed path) index)
        (childCall (keyAt seed' path') index') (by simp) (by simp) h)
      obtain ⟨hseed, hpath⟩ := ih (hnc.mono (by intro c hc; simp at hc ⊢; tauto)) hparent
      exact ⟨hseed, by rw [hpath, hindex]⟩

/-! ## The checks -/

theorem deriveHardened_of_le (parent : ExtendedKey) {index : UInt32} (h : hardenedOffset ≤ index) :
    deriveHardened parent index = .ok ⟨childKey parent index, index⟩ :=
  if_neg (UInt32.not_lt.mpr h)

/-- A descent reaches the end of its path, or stops at the first index that is not hardened. -/
theorem foldlM_deriveChild (child : Ed25519ChildKey) (path : List UInt32) :
    ((∀ index ∈ path, hardenedOffset ≤ index) ∧
      ∃ last, path.foldlM Ed25519ChildKey.deriveChild child = .ok last ∧
        last.key = path.foldl childKey child.key) ∨
    ∃ front index back, path = front ++ index :: back ∧ (∀ i ∈ front, hardenedOffset ≤ i) ∧
      index < hardenedOffset ∧
      path.foldlM Ed25519ChildKey.deriveChild child = .error (.notHardened index) := by
  induction path generalizing child with
  | nil => exact .inl ⟨by simp, child, rfl, rfl⟩
  | cons first path ih =>
    by_cases hlt : first < hardenedOffset
    · refine .inr ⟨[], first, path, rfl, by simp, hlt, ?_⟩
      rw [List.foldlM_cons, show child.deriveChild first = .error (.notHardened first) from if_pos hlt]
      rfl
    · have hle : hardenedOffset ≤ first := UInt32.not_lt.mp hlt
      have hstep : (first :: path).foldlM Ed25519ChildKey.deriveChild child =
          path.foldlM Ed25519ChildKey.deriveChild ⟨childKey child.key first, first⟩ := by
        rw [List.foldlM_cons, show child.deriveChild first = _ from deriveHardened_of_le child.key hle]
        rfl
      rw [hstep]
      rcases ih ⟨childKey child.key first, first⟩ with
        ⟨hall, last, hok, hkey⟩ | ⟨front, index, back, rfl, hfront, hindex, herror⟩
      · exact .inl ⟨List.forall_mem_cons.mpr ⟨hle, hall⟩, last, hok, hkey⟩
      · exact .inr ⟨first :: front, index, back, rfl, List.forall_mem_cons.mpr ⟨hle, hfront⟩, hindex, herror⟩

abbrev SeedAccepted (seed : Bytes) : Prop := seed.length = 16 ∨ seed.length = 32 ∨ seed.length = 64

/-- A derivation is refused for its seed, refused at its first index that is not hardened, or ends
in the key of its path. -/
theorem derivePath_cases (seed : Bytes) (path : List UInt32) :
    (¬ SeedAccepted seed ∧ derivePath seed path = .error (.badSeedLength seed.length)) ∨
    SeedAccepted seed ∧
      (((∀ index ∈ path, hardenedOffset ≤ index) ∧ derivePath seed path = .ok (keyAt seed path)) ∨
      ∃ front index back, path = front ++ index :: back ∧ (∀ i ∈ front, hardenedOffset ≤ i) ∧
        index < hardenedOffset ∧ derivePath seed path = .error (.notHardened index)) := by
  by_cases hseed : SeedAccepted seed
  · refine .inr ⟨hseed, ?_⟩
    have hmaster : Ed25519MasterKey.fromSeed seed = .ok ⟨masterKey seed⟩ := if_pos hseed
    unfold derivePath
    rw [hmaster]
    cases path with
    | nil => exact .inl ⟨by simp, rfl⟩
    | cons first path =>
      by_cases hlt : first < hardenedOffset
      · refine .inr ⟨[], first, path, rfl, by simp, hlt, ?_⟩
        show ((⟨masterKey seed⟩ : Ed25519MasterKey).deriveChild first >>= _) = _
        rw [show (⟨masterKey seed⟩ : Ed25519MasterKey).deriveChild first = .error (.notHardened first)
          from if_pos hlt]
        rfl
      · have hle : hardenedOffset ≤ first := UInt32.not_lt.mp hlt
        have hstep : (⟨masterKey seed⟩ : Ed25519MasterKey).deriveChild first =
            .ok ⟨childKey (masterKey seed) first, first⟩ := deriveHardened_of_le (masterKey seed) hle
        rcases foldlM_deriveChild ⟨childKey (masterKey seed) first, first⟩ path with
          ⟨hall, last, hok, hkey⟩ | ⟨front, index, back, rfl, hfront, hindex, herror⟩
        · refine .inl ⟨List.forall_mem_cons.mpr ⟨hle, hall⟩, ?_⟩
          exact bind_eq_ok_iff.mpr ⟨_, rfl, bind_eq_ok_iff.mpr ⟨_, hstep,
            bind_eq_ok_iff.mpr ⟨last, hok, congrArg Except.ok hkey⟩⟩⟩
        · refine .inr ⟨first :: front, index, back, rfl, List.forall_mem_cons.mpr ⟨hle, hfront⟩, hindex, ?_⟩
          exact bind_eq_error_iff.mpr (.inr ⟨_, rfl, bind_eq_error_iff.mpr (.inr ⟨_, hstep,
            bind_eq_error_iff.mpr (.inl herror)⟩)⟩)
  · exact .inl ⟨hseed, by rw [derivePath, show Ed25519MasterKey.fromSeed seed = _ from if_neg hseed]; rfl⟩

theorem derivePath_ok_iff (seed : Bytes) (path : List UInt32) (k : ExtendedKey) :
    derivePath seed path = .ok k ↔
      SeedAccepted seed ∧ (∀ index ∈ path, hardenedOffset ≤ index) ∧ k = keyAt seed path := by
  rcases derivePath_cases seed path with
    ⟨hbad, he⟩ | ⟨hseed, ⟨hall, hok⟩ | ⟨front, index, back, rfl, -, hindex, he⟩⟩
  · rw [he]
    exact ⟨fun h => (by cases h), fun h => absurd h.1 hbad⟩
  · rw [hok]
    exact ⟨fun h => ⟨hseed, hall, (Except.ok.inj h).symm⟩, fun h => by rw [h.2.2]⟩
  · rw [he]
    refine ⟨fun h => (by cases h), fun h => ?_⟩
    exact absurd hindex (UInt32.not_lt.mpr (h.2.1 index (by simp)))

/-- A derivation succeeds exactly for a seed of 16, 32 or 64 bytes and hardened indices, and two that
succeed end in the same private key and chain code exactly when seed and path are the same, unless two
of their MAC calls collide. -/
theorem derivations_distinct (seed : Bytes) (path : List UInt32) :
    ((∃ k, derivePath seed path = .ok k) ↔
      SeedAccepted seed ∧ ∀ index ∈ path, hardenedOffset ≤ index) ∧
    ∀ seed' path' k k', derivePath seed path = .ok k → derivePath seed' path' = .ok k' →
      NoMacCollision (macCalls seed path ++ macCalls seed' path') →
      (k = k' ↔ seed = seed' ∧ path = path') := by
  refine ⟨?_, ?_⟩
  · constructor
    · rintro ⟨k, hk⟩
      obtain ⟨hseed, hall, -⟩ := (derivePath_ok_iff seed path k).mp hk
      exact ⟨hseed, hall⟩
    · rintro ⟨hseed, hall⟩
      exact ⟨keyAt seed path, (derivePath_ok_iff seed path _).mpr ⟨hseed, hall, rfl⟩⟩
  · intro seed' path' k k' hk hk' hnc
    obtain ⟨-, -, rfl⟩ := (derivePath_ok_iff seed path k).mp hk
    obtain ⟨-, -, rfl⟩ := (derivePath_ok_iff seed' path' k').mp hk'
    constructor
    · exact keyAt_inj hnc
    · rintro ⟨rfl, rfl⟩
      rfl

end

section Sample

/-- A stand-in MAC for concrete derivations: the sum of key and message. -/
abbrev sampleHmac : HmacSha512 := ⟨fun key message => ⟨toLe 64 (leNat key + leNat message), length_toLe 64 _⟩⟩

attribute [local instance] sampleHmac

def sampleSeed : Bytes := List.replicate 16 1

/-- Two siblings have different keys. -/
theorem derivations_distinct_siblings :
    keyAt sampleSeed [0x80000000] ≠ keyAt sampleSeed [0x80000001] := by
  intro heq
  have hnc : NoMacCollision (macCalls sampleSeed [0x80000000] ++ macCalls sampleSeed [0x80000001]) := by
    have hall : ∀ c ∈ macCalls sampleSeed [0x80000000] ++ macCalls sampleSeed [0x80000001],
        ∀ d ∈ macCalls sampleSeed [0x80000000] ++ macCalls sampleSeed [0x80000001],
          HmacSha512.mac c.1 c.2 = HmacSha512.mac d.1 d.2 → c = d := by
      decide +kernel
    exact fun c hc d hd => hall c hc d hd
  have hhardened : ∀ {n : UInt32}, hardenedOffset ≤ n → ∀ index ∈ [n], hardenedOffset ≤ index :=
    fun hn index hmem => (List.mem_singleton.mp hmem).symm ▸ hn
  have hsame := (derivations_distinct sampleSeed [0x80000000]).2 sampleSeed [0x80000001] _ _
    ((derivePath_ok_iff _ _ _).mpr
      ⟨by decide, hhardened (UInt32.le_iff_toNat_le.mpr (by decide)), rfl⟩)
    ((derivePath_ok_iff _ _ _).mpr
      ⟨by decide, hhardened (UInt32.le_iff_toNat_le.mpr (by decide)), rfl⟩) hnc
  exact absurd (hsame.mp heq).2 (by decide)

end Sample

end PslBank.Wallet
