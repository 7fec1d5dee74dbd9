import PslBank.Crypto.Smt

/-!
# The imperative tree refines a map

The abstract tree is a function of the key-to-value map alone: a complete tree of
height 256 whose leaves are `leafHash` and whose inner nodes are `hashNode`. The
node store of the implementation only grows, so after overwrites and deletes it
holds stale nodes and default nodes too. `Represents` ties the two together, and
one `put` carries it from `m` to `m` with one key changed.
-/
namespace PslBank.Crypto

open PslBank.Lib

set_option autoImplicit false

/-! ## Keys and paths -/

/-- The byte with the given bits, most significant first. -/
def byteOfBits (f : Fin 8 → Bool) : UInt8 :=
  (List.finRange 8).foldl (fun b i => 2 * b + if f i then 1 else 0) 0

/-- The key at the end of a path of length 256. -/
def keyOfPath (p : List Bool) : Hash :=
  List.Vector.ofFn fun j : Fin 32 => byteOfBits fun t => p.getD (8 * j + t) false

def byteBit (b : UInt8) (t : ℕ) : Bool := ((b >>> UInt8.ofNat (7 - t)) &&& 1) == 1

theorem byteBit_byteOfBits (f : Fin 8 → Bool) (t : Fin 8) : byteBit (byteOfBits f) t = f t := by
  revert f t
  decide +kernel

theorem byteOfBits_byteBit (b : UInt8) : (byteOfBits fun t : Fin 8 => byteBit b t) = b := by
  revert b
  decide +kernel

theorem bit_eq (key : Hash) (i : Fin 256) (h : i.val / 8 < 32) :
    bit key i = byteBit (key.get ⟨i.val / 8, h⟩) (i.val % 8) := rfl

theorem getD_keyPath (key : Hash) (i : Fin 256) : (keyPath key).getD i false = bit key i :=
  Merkle.getD_map_finRange (bit key) false i

theorem bit_keyOfPath (p : List Bool) (i : Fin 256) :
    bit (keyOfPath p) i = p.getD i false := by
  have h := byteBit_byteOfBits (fun t => p.getD (8 * (i.val / 8) + t) false)
    ⟨i.val % 8, by omega⟩
  simp only [Nat.div_add_mod] at h
  rw [bit_eq _ i (by omega), keyOfPath, List.Vector.get_ofFn]
  exact h

theorem keyOfPath_keyPath (key : Hash) : keyOfPath (keyPath key) = key := by
  apply List.Vector.ext
  intro j
  have hbit : ∀ t : Fin 8, (keyPath key).getD (8 * j + t) false = byteBit (key.get j) t := by
    intro t
    have hdiv : (8 * j.val + t.val) / 8 = j.val := by omega
    have hmod : (8 * j.val + t.val) % 8 = t.val := by omega
    have hlt : (8 * j.val + t.val) / 8 < 32 := by omega
    have h := getD_keyPath key ⟨8 * j.val + t.val, by omega⟩
    simp only [bit_eq key ⟨8 * j.val + t.val, by omega⟩ hlt, hdiv, hmod] at h
    exact h
  rw [keyOfPath, List.Vector.get_ofFn]
  simp only [hbit, byteOfBits_byteBit]

theorem keyPath_keyOfPath {p : List Bool} (hp : p.length = 256) : keyPath (keyOfPath p) = p := by
  apply List.ext_getElem?
  intro i
  by_cases hi : i < 256
  · have h := getD_keyPath (keyOfPath p) ⟨i, hi⟩
    rw [bit_keyOfPath] at h
    have h1 : i < (keyPath (keyOfPath p)).length := by rw [length_keyPath]; exact hi
    rw [List.getElem?_eq_getElem h1, List.getElem?_eq_getElem (by omega)]
    rw [List.getD_eq_getElem?_getD, List.getD_eq_getElem?_getD, List.getElem?_eq_getElem h1,
      List.getElem?_eq_getElem (by omega)] at h
    exact congrArg some h
  · rw [List.getElem?_eq_none (by rw [length_keyPath]; omega), List.getElem?_eq_none (by omega)]

theorem nodePreimage_injective : Function.Injective nodePreimage := by
  rintro ⟨l, r⟩ ⟨l', r'⟩ h
  obtain ⟨hl, hr⟩ := List.append_inj h (by simp)
  exact Prod.ext (Subtype.ext hl) (Subtype.ext hr)

section

variable [Blake3]

/-! ## The abstract tree -/

/-- The leaf digest at the end of a path; an empty value is an absent key. -/
def leafAt (m : Hash → Bytes) (p : List Bool) : Hash := leafHash (keyOfPath p) (m (keyOfPath p))

/-- The root of the complete tree over the map `m`. -/
def functionalRoot (m : Hash → Bytes) : Hash := Merkle.root hashNode 256 (leafAt m)

/-- The roots of the subtrees beside the path of `key`, topmost first. -/
def siblingRoots (m : Hash → Bytes) (key : Hash) : List Hash :=
  Merkle.siblings hashNode (leafAt m) (keyPath key)

/-- The map after a history of puts; every key starts out absent. -/
def finalMap (puts : List (Hash × Bytes)) : Hash → Bytes :=
  puts.foldl (fun m kv => Function.update m kv.1 kv.2) fun _ => []

theorem leafAt_keyPath (m : Hash → Bytes) (key : Hash) :
    leafAt m (keyPath key) = leafHash key (m key) := by
  rw [leafAt, keyOfPath_keyPath]

theorem leafAt_update (m : Hash → Bytes) (key : Hash) (value : Bytes) {p : List Bool}
    (hp : p.length = 256) :
    leafAt (Function.update m key value) p =
      Function.update (leafAt m) (keyPath key) (leafHash key value) p := by
  by_cases h : p = keyPath key
  · subst h
    rw [Function.update_self, leafAt_keyPath, Function.update_self]
  · have hk : keyOfPath p ≠ key := by
      rintro rfl
      exact h (keyPath_keyOfPath hp).symm
    rw [Function.update_of_ne h, leafAt, Function.update_of_ne hk, leafAt]

/-- The pairs whose concatenation is one of the strings of `B`. -/
def hashedPairs (B : List Bytes) : Set (Hash × Hash) := {q | nodePreimage q ∈ B}

theorem injOn_hashedPairs {B : List Bytes} (hB : NoCollision B) :
    Set.InjOn (fun q : Hash × Hash => hashNode q.1 q.2) (hashedPairs B) :=
  fun _ hq _ hq' he => nodePreimage_injective (hB hq hq' he)

/-- The tree `t` stands for the map `m`, all of its hashing inside `B`. -/
structure Represents (B : List Bytes) (t : SparseMerkleTree) (m : Hash → Bytes) : Prop where
  root_eq : t.root = functionalRoot m
  leaves_eq : ∀ k, t.leaves k = if (m k).isEmpty then none else some (m k)
  defaults_eq : t.defaults = defaultHashes
  stored : Merkle.Sound hashNode (hashedPairs B) t.nodes
  known : Merkle.AllNodes hashNode (Merkle.Known hashNode t.nodes defaultHash) 256 (leafAt m)
  hashed : Merkle.PairsIn hashNode (hashedPairs B) 256 (leafAt m)
  leaf_hashed : ∀ k, leafPreimages k (m k) ⊆ B

variable {B : List Bytes} {t : SparseMerkleTree} {m : Hash → Bytes}

theorem default_hashed (hnew : newPreimages ⊆ B) {h : ℕ} (hh : h < 256) :
    (defaultHash h, defaultHash h) ∈ hashedPairs B :=
  hnew (List.mem_cons_of_mem _ (List.mem_map.mpr ⟨h, List.mem_range.mpr hh, rfl⟩))

/-- The path the implementation reads is the path of the abstract tree. -/
theorem Represents.path_eq (hr : Represents B t m) (hB : NoCollision B) (hnew : newPreimages ⊆ B)
    (key : Hash) : t.computePathToLeaf key = siblingRoots m key := by
  have hlen := length_keyPath key
  have hpairs : Merkle.PairsIn hashNode (hashedPairs B) (keyPath key).length (leafAt m) := by
    rw [hlen]; exact hr.hashed
  have hknown : Merkle.AllNodes hashNode (Merkle.Known hashNode t.nodes defaultHash)
      (keyPath key).length (leafAt m) := by
    rw [hlen]; exact hr.known
  have h := Merkle.descend_eq_siblings (injOn_hashedPairs hB) hr.stored (fun _ => rfl) (keyPath key)
    (fun n hn => default_hashed hnew (by rwa [hlen] at hn)) hpairs hknown
  rw [hlen] at h
  rw [t.computePathToLeaf_eq_descend hr.defaults_eq, hr.root_eq]
  exact h

theorem Represents.path_length (hr : Represents B t m) (hB : NoCollision B)
    (hnew : newPreimages ⊆ B) (key : Hash) : (t.computePathToLeaf key).length = 256 := by
  rw [hr.path_eq hB hnew, siblingRoots, Merkle.length_siblings, length_keyPath]

/-- One `put` of the implementation is one update of the map. -/
theorem Represents.put (hr : Represents B t m) (hB : NoCollision B) (hnew : newPreimages ⊆ B)
    (key : Hash) (value : Bytes) (hput : putPreimages t key value ⊆ B) :
    Represents B (t.put key value) (Function.update m key value) := by
  obtain ⟨hnodes, hroot⟩ := t.put_eq key value (hr.path_length hB hnew key)
  have hpath := hr.path_eq hB hnew key
  have hlen := length_keyPath key
  rw [hpath] at hnodes hroot
  have hpairs : ∀ q ∈ Merkle.climbPairs hashNode (keyPath key) (siblingRoots m key)
      (leafHash key value), q ∈ hashedPairs B := by
    intro q hq
    rw [← hpath] at hq
    exact hput (List.mem_append_right _ (List.mem_map_of_mem hq))
  -- the updated leaf function and `leafAt` of the updated map agree at full depth
  have hcongr : ∀ p : List Bool, p.length = 256 →
      Function.update (leafAt m) (keyPath key) (leafHash key value) p =
        leafAt (Function.update m key value) p := fun p hp => (leafAt_update m key value hp).symm
  refine ⟨?_, ?_, hr.defaults_eq, ?_, ?_, ?_, ?_⟩
  · rw [hroot, functionalRoot, ← Merkle.root_congr hashNode hcongr]
    have h := Merkle.root_update hashNode (leafAt m) (keyPath key) (leafHash key value)
    rw [hlen] at h
    exact h.symm
  · intro k
    change Function.update t.leaves key _ k = _
    by_cases hk : k = key
    · subst hk
      rw [Function.update_self, Function.update_self]
    · rw [Function.update_of_ne hk, Function.update_of_ne hk, hr.leaves_eq]
  · rw [hnodes]
    exact Merkle.sound_insertPath hr.stored hpairs
  · apply Merkle.allNodes_congr hashNode hcongr
    rw [hnodes]
    have hk := hr.known
    rw [← hlen] at hk
    have h := Merkle.known_insertPath (keyPath key) (leafAt m) (leafHash key value) hk
    rw [hlen] at h
    exact h
  · apply Merkle.allNodes_congr hashNode hcongr
    have h := Merkle.allNodes_update hashNode (P := fun _ l r => (l, r) ∈ hashedPairs B)
      (keyPath key) (leafAt m) (leafHash key value) (by rw [hlen]; exact hr.hashed)
      (fun q hq _ => hpairs q hq)
    rw [hlen] at h
    exact h
  · intro k
    by_cases hk : k = key
    · subst hk
      rw [Function.update_self]
      exact fun x hx => hput (List.mem_append_left _ hx)
    · rw [Function.update_of_ne hk]
      exact hr.leaf_hashed k

/-- The empty tree stands for the empty map. -/
theorem represents_new (hnew : newPreimages ⊆ B) :
    Represents B SparseMerkleTree.new fun _ => [] := by
  have hleaf : leafAt (fun _ => []) = fun _ => defaultHash 0 := rfl
  refine ⟨?_, fun _ => rfl, by simp only [SparseMerkleTree.new], ?_, ?_, ?_, ?_⟩
  · rw [functionalRoot, hleaf, Merkle.root_default hashNode (fun _ => rfl)]
    rfl
  · intro h q hq
    cases hq
  · rw [hleaf]
    exact Merkle.allNodes_default hashNode (fun _ => rfl) fun _ _ _ => rfl
  · rw [hleaf]
    exact Merkle.allNodes_default hashNode (fun _ => rfl) fun _ hi => default_hashed hnew hi
  · intro k x hx
    exact hnew (List.mem_cons.mpr (Or.inl (List.mem_singleton.mp hx)))

theorem Represents.putAll (hB : NoCollision B) (hnew : newPreimages ⊆ B)
    (puts : List (Hash × Bytes)) (hr : Represents B t m) (hsub : putAllPreimages t puts ⊆ B) :
    Represents B (t.putAll puts) (puts.foldl (fun m kv => Function.update m kv.1 kv.2) m) := by
  induction puts generalizing t m with
  | nil => exact hr
  | cons kv puts ih =>
    obtain ⟨hhead, htail⟩ := List.append_subset.mp hsub
    exact ih (hr.put hB hnew kv.1 kv.2 hhead) htail

theorem represents_history (hB : NoCollision B) (puts : List (Hash × Bytes))
    (hsub : historyPreimages puts ⊆ B) :
    Represents B (SparseMerkleTree.new.putAll puts) (finalMap puts) := by
  obtain ⟨hnew, hputs⟩ := List.append_subset.mp hsub
  exact (represents_new hnew).putAll hB hnew puts hputs

theorem Represents.proof_eq (hr : Represents B t m) (hB : NoCollision B) (hnew : newPreimages ⊆ B)
    (key : Hash) : t.proof key = ⟨siblingRoots m key, m key⟩ := by
  rw [SparseMerkleTree.proof, hr.path_eq hB hnew, hr.leaves_eq]
  cases hv : m key <;> rfl

/-- An honest proof verifies, for present and absent keys alike. -/
theorem Represents.verify_proof (hr : Represents B t m) (hB : NoCollision B)
    (hnew : newPreimages ⊆ B) (key : Hash) :
    SparseMerkleTree.verifyProof t.root key (t.proof key) = true := by
  have h := Merkle.climb_siblings hashNode (leafAt m) (keyPath key)
  rw [leafAt_keyPath, length_keyPath] at h
  rw [SparseMerkleTree.verifyProof_iff, hr.proof_eq hB hnew, hr.root_eq]
  exact ⟨by simp [siblingRoots], h⟩

/-- The tree after any history of puts is the abstract tree of the final map. -/
theorem smt_history_refines_map (puts : List (Hash × Bytes))
    (hB : NoCollision (historyPreimages puts)) :
    let t := SparseMerkleTree.new.putAll puts
    let m := finalMap puts
    t.root = functionalRoot m ∧
    (∀ k, t.get k = if (m k).isEmpty then none else some (m k)) ∧
    (∀ k, (t.proof k).siblings = siblingRoots m k ∧ (t.proof k).value = m k) ∧
    (∀ k, SparseMerkleTree.verifyProof t.root k (t.proof k) = true) ∧
    ∀ puts', NoCollision (historyPreimages puts') → finalMap puts' = m →
      (SparseMerkleTree.new.putAll puts').root = t.root ∧
      ∀ k, (SparseMerkleTree.new.putAll puts').proof k = t.proof k := by
  intro t m
  have hnew : ∀ puts, newPreimages ⊆ historyPreimages puts :=
    fun puts => List.subset_append_left _ _
  have hr := represents_history hB puts (List.Subset.refl _)
  refine ⟨hr.root_eq, hr.leaves_eq, fun k => ?_, hr.verify_proof hB (hnew puts), ?_⟩
  · have h := hr.proof_eq hB (hnew puts) k
    exact ⟨congrArg MerkleProof.siblings h, congrArg MerkleProof.value h⟩
  · intro puts' hB' hm
    have hr' := represents_history hB' puts' (List.Subset.refl _)
    rw [hm] at hr'
    refine ⟨hr'.root_eq.trans hr.root_eq.symm, fun k => ?_⟩
    rw [hr'.proof_eq hB' (hnew puts'), hr.proof_eq hB (hnew puts)]

/-! ## Binding -/

theorem leafPreimages_of_ne {key : Hash} {value : Bytes} (hv : value ≠ []) :
    leafPreimages key value = [value, [0] ++ key.toList ++ (hashBytes value).toList] := by
  simp [leafPreimages, hv]

/-- A leaf digest determines its value: the empty leaf, a 65-byte leaf string and
the value under it are told apart by their lengths. -/
theorem leafHash_inj (hB : NoCollision B) {key : Hash} {v v' : Bytes}
    (hv : leafPreimages key v ⊆ B) (hv' : leafPreimages key v' ⊆ B)
    (he : leafHash key v = leafHash key v') : v = v' := by
  by_cases h : v = []
  · by_cases h' : v' = []
    · rw [h, h']
    · rw [leafPreimages_of_ne h'] at hv'
      have hstr := hB (hv (by simp [h, leafPreimages]) : [] ∈ B)
        (hv' (List.mem_cons_of_mem _ List.mem_cons_self))
        (by simpa [leafHash, h, h', hashBytes, hashThree] using he)
      simp at hstr
  · rw [leafPreimages_of_ne h] at hv
    by_cases h' : v' = []
    · have hstr := hB (hv (List.mem_cons_of_mem _ List.mem_cons_self))
        (hv' (by simp [h', leafPreimages]) : [] ∈ B)
        (by simpa [leafHash, h, h', hashBytes, hashThree] using he)
      simp at hstr
    · rw [leafPreimages_of_ne h'] at hv'
      have hstr := hB (hv (List.mem_cons_of_mem _ List.mem_cons_self))
        (hv' (List.mem_cons_of_mem _ List.mem_cons_self))
        (by simpa [leafHash, h, h', hashThree] using he)
      have hvh : hashBytes v = hashBytes v' := Subtype.ext (List.append_cancel_left hstr)
      exact hB (hv List.mem_cons_self) (hv' List.mem_cons_self) hvh

theorem Represents.get_eq (hr : Represents B t m) (key : Hash) : (t.get key).getD [] = m key := by
  rw [SparseMerkleTree.get, hr.leaves_eq]
  cases m key <;> rfl

/-- Any proof that verifies against the root carries the stored value. -/
theorem Represents.verify_sound (hr : Represents B t m) (hB : NoCollision B) {key : Hash}
    {proof : MerkleProof} (hsub : verifyPreimages key proof ⊆ B)
    (hv : SparseMerkleTree.verifyProof t.root key proof = true) : proof.value = m key := by
  obtain ⟨hlen, hclimb⟩ := (SparseMerkleTree.verifyProof_iff _ _ _).mp hv
  obtain ⟨hleafs, hpairs⟩ := List.append_subset.mp hsub
  have hn : Merkle.PairsIn hashNode (hashedPairs B) (keyPath key).length (leafAt m) := by
    rw [length_keyPath]; exact hr.hashed
  obtain ⟨hleaf, _⟩ := Merkle.climb_sound (injOn_hashedPairs hB) (by rw [hlen, length_keyPath])
    (fun q hq => hpairs (List.mem_map_of_mem hq)) hn
    (by rw [hclimb, length_keyPath, hr.root_eq]; rfl)
  rw [leafAt_keyPath] at hleaf
  exact leafHash_inj hB hleafs (hr.leaf_hashed key) hleaf

/-- One root, one map. -/
theorem Represents.map_eq {t' : SparseMerkleTree} {m' : Hash → Bytes} (hr : Represents B t m)
    (hr' : Represents B t' m') (hB : NoCollision B) (he : t.root = t'.root) : m = m' := by
  funext key
  rw [hr.root_eq, hr'.root_eq] at he
  have hlen := length_keyPath key
  have hn := hr.hashed
  have hn' := hr'.hashed
  rw [functionalRoot, functionalRoot, ← hlen] at he
  rw [← hlen] at hn hn'
  have hleaf := Merkle.root_inj (injOn_hashedPairs hB) (keyPath key) hn hn' he
  rw [leafAt_keyPath, leafAt_keyPath] at hleaf
  exact leafHash_inj hB (hr.leaf_hashed key) (hr'.leaf_hashed key) hleaf

/-- Proofs and roots bind: an accepted proof, however made, carries the value the
tree holds, and two trees with one root hold one map. -/
theorem smt_root_binds_values (puts : List (Hash × Bytes)) :
    (∀ key proof, NoCollision (historyPreimages puts ++ verifyPreimages key proof) →
      SparseMerkleTree.verifyProof (SparseMerkleTree.new.putAll puts).root key proof = true →
      proof.value = ((SparseMerkleTree.new.putAll puts).get key).getD []) ∧
    ∀ puts', NoCollision (historyPreimages puts ++ historyPreimages puts') →
      (SparseMerkleTree.new.putAll puts).root = (SparseMerkleTree.new.putAll puts').root →
      ∀ key, (SparseMerkleTree.new.putAll puts).get key =
        (SparseMerkleTree.new.putAll puts').get key := by
  refine ⟨fun key proof hB hv => ?_, fun puts' hB he key => ?_⟩
  · have hr := represents_history hB puts (List.subset_append_left _ _)
    rw [hr.get_eq]
    exact hr.verify_sound hB (List.subset_append_right _ _) hv
  · have hr := represents_history hB puts (List.subset_append_left _ _)
    have hr' := represents_history hB puts' (List.subset_append_right _ _)
    rw [SparseMerkleTree.get, SparseMerkleTree.get, hr.leaves_eq, hr'.leaves_eq,
      hr.map_eq hr' hB he]

end

/-! ## A concrete history

Two keys that part at the root hold values of at most one byte. The stand-in digest
numbers apart every string a history of such puts can hash: a value ends in 512 modulo
1024, a leaf in 0, a node in its height. -/

section Sample

/-- A stand-in digest. A node is numbered one above its left child; a right child that
is no default is kept above bit 64. -/
def historyDigest (x : Bytes) : Hash :=
  if x.length = 0 then hashOfNat 0
  else if x.length = 1 then hashOfNat (1024 * leNat x + 512)
  else if x.length = 64 then
    let right := leNat (x.drop 32)
    hashOfNat (leNat (x.take 32) + 1 + if right < 256 then 0 else 2 ^ 64 * right)
  else hashOfNat (1024 * (1 + leNat ((x.drop 1).take 32) + 256 * leNat (x.drop 33)))

abbrev historyBlake3 : Blake3 := ⟨historyDigest⟩

attribute [local instance] historyBlake3

/-- The first key of each half of the tree. -/
def topKey (b : Bool) : Hash := keyOfPath (b :: List.replicate 255 false)

theorem keyPath_topKey (b : Bool) : keyPath (topKey b) = b :: List.replicate 255 false :=
  keyPath_keyOfPath (by rw [List.length_cons, List.length_replicate])

theorem topKey_ne : topKey true ≠ topKey false := by
  intro h
  have hpath := congrArg keyPath h
  rw [keyPath_topKey, keyPath_topKey] at hpath
  exact Bool.noConfusion (List.cons.inj hpath).1

theorem leNat_topKey (b : Bool) : leNat (topKey b).toList = if b then 128 else 0 := by
  cases b <;> decide +kernel

/-- A leaf over 1024; an absent key counts as the default leaf. -/
def leafIndex (b : Bool) (value : Bytes) : ℕ :=
  if value = [] then 0 else 1 + (if b then 128 else 0) + 256 * (1024 * leNat value + 512)

/-- The strings a history of short puts under the two keys hashes, by shape. -/
inductive SampleString : Bytes → Prop
  | empty : SampleString []
  | value (v : UInt8) : SampleString [v]
  | leaf (b : Bool) (v : UInt8) :
      SampleString ([0] ++ (topKey b).toList ++ (hashOfNat (1024 * v.toNat + 512)).toList)
  | node {a h : ℕ} (ha : a < 2 ^ 40) (hh : h < 256) :
      SampleString (nodePreimage (hashOfNat (1024 * a + h), hashOfNat h))
  | top {a c : ℕ} (ha : a < 2 ^ 40) (hc : c < 2 ^ 40) :
      SampleString (nodePreimage (hashOfNat (1024 * a + 255), hashOfNat (1024 * c + 255)))

theorem history_node {a c : ℕ} (ha : a < 2 ^ 64) (hc : c < 2 ^ 64) :
    hashNode (hashOfNat a) (hashOfNat c) =
      hashOfNat (a + 1 + if c < 256 then 0 else 2 ^ 64 * c) := by
  have hlen : ((hashOfNat a).toList ++ (hashOfNat c).toList).length = 64 := by simp
  have htake : ((hashOfNat a).toList ++ (hashOfNat c).toList).take 32 = (hashOfNat a).toList :=
    List.take_left' (by simp)
  have hdrop : ((hashOfNat a).toList ++ (hashOfNat c).toList).drop 32 = (hashOfNat c).toList :=
    List.drop_left' (by simp)
  have ha : a < 2 ^ 256 := by omega
  have hc : c < 2 ^ 256 := by omega
  change historyDigest ((hashOfNat a).toList ++ (hashOfNat c).toList) = _
  rw [historyDigest, hlen, htake, hdrop, leNat_hashOfNat ha, leNat_hashOfNat hc]
  rfl

theorem history_default {h : ℕ} (hh : h ≤ 256) : defaultHash h = hashOfNat h := by
  induction h with
  | zero => rfl
  | succ h ih => rw [defaultHash, ih (by omega), history_node (by omega) (by omega), if_pos (by omega)]

theorem hashBytes_single (v : UInt8) : hashBytes [v] = hashOfNat (1024 * v.toNat + 512) := by
  change hashOfNat (1024 * leNat [v] + 512) = _
  rw [leNat_cons, leNat_nil]
  rfl

theorem history_leaf_string (b : Bool) (v : UInt8) :
    historyDigest ([0] ++ (topKey b).toList ++ (hashOfNat (1024 * v.toNat + 512)).toList) =
      hashOfNat (1024 * leafIndex b [v]) := by
  have hv := v.toNat_lt
  have hvh : 1024 * v.toNat + 512 < 2 ^ 256 := by omega
  have hlen : ([0] ++ (topKey b).toList ++ (hashOfNat (1024 * v.toNat + 512)).toList).length = 65 := by
    simp
  have hkey : (([0] ++ (topKey b).toList ++ (hashOfNat (1024 * v.toNat + 512)).toList).drop 1).take 32 =
      (topKey b).toList := List.take_left' (by simp)
  have hvalue : ([0] ++ (topKey b).toList ++ (hashOfNat (1024 * v.toNat + 512)).toList).drop 33 =
      (hashOfNat (1024 * v.toNat + 512)).toList := List.drop_left' (by simp)
  rw [historyDigest, hlen, hkey, hvalue, leNat_hashOfNat hvh, leNat_topKey, leafIndex, leNat_cons,
    leNat_nil]
  rfl

/-- A value of at most one byte: either no leaf, or one of the numbered ones. -/
theorem short_cases {value : Bytes} (h : value.length ≤ 1) : value = [] ∨ ∃ v, value = [v] := by
  cases value with
  | nil => exact .inl rfl
  | cons v rest => exact .inr ⟨v, by simpa using h⟩

theorem history_leaf (b : Bool) {value : Bytes} (h : value.length ≤ 1) :
    leafHash (topKey b) value = hashOfNat (1024 * leafIndex b value) := by
  obtain rfl | ⟨v, rfl⟩ := short_cases h
  · rfl
  · rw [← history_leaf_string, ← hashBytes_single]
    rfl

theorem leafIndex_lt (b : Bool) {value : Bytes} (h : value.length ≤ 1) :
    leafIndex b value < 2 ^ 40 := by
  obtain rfl | ⟨v, rfl⟩ := short_cases h
  · exact Nat.two_pow_pos 40
  · have hv := v.toNat_lt
    rw [leafIndex, leNat_cons, leNat_nil, if_neg (List.cons_ne_nil v [])]
    split <;> omega

/-- Up an all-left path with defaults beside it the digest counts the levels. -/
theorem history_climb {a : ℕ} (ha : a < 2 ^ 40) {n : ℕ} (hn : n ≤ 256) :
    Merkle.climb hashNode (List.replicate n false) ((List.range n).map defaultHash).reverse
        (hashOfNat (1024 * a)) = hashOfNat (1024 * a + n) ∧
      ∀ q ∈ Merkle.climbPairs hashNode (List.replicate n false)
        ((List.range n).map defaultHash).reverse (hashOfNat (1024 * a)),
        ∃ h < n, q = (hashOfNat (1024 * a + h), hashOfNat h) := by
  induction n with
  | zero => simp [Merkle.climb, Merkle.climbPairs]
  | succ n ih =>
    obtain ⟨hclimb, hpairs⟩ := ih (by omega)
    rw [List.replicate_succ, List.range_succ, List.map_append, List.reverse_append,
      List.map_singleton, List.reverse_singleton, List.singleton_append, history_default (by omega)]
    constructor
    · rw [Merkle.climb, hclimb]
      simp only [Bool.false_eq_true, ↓reduceIte]
      rw [history_node (by omega) (by omega), if_pos (by omega)]
      rfl
    · intro q hq
      rw [Merkle.climbPairs, hclimb] at hq
      rcases List.mem_cons.mp hq with rfl | hq
      · exact ⟨n, by omega, rfl⟩
      · obtain ⟨h, hh, rfl⟩ := hpairs q hq
        exact ⟨h, by omega, rfl⟩

/-- Nothing but short values under the two keys. -/
structure TwoKeys (m : Hash → Bytes) : Prop where
  short : ∀ b, (m (topKey b)).length ≤ 1
  absent : ∀ k, (∀ b, k ≠ topKey b) → m k = []

theorem TwoKeys.update {m : Hash → Bytes} (hm : TwoKeys m) (b : Bool) {value : Bytes}
    (h : value.length ≤ 1) : TwoKeys (Function.update m (topKey b) value) where
  short c := by
    by_cases hc : topKey c = topKey b
    · rwa [hc, Function.update_self]
    · rw [Function.update_of_ne hc]
      exact hm.short c
  absent k hk := by
    rw [Function.update_of_ne (hk b)]
    exact hm.absent k hk

/-- In either half at most the leaf of its first key is set. -/
theorem TwoKeys.half_default {m : Hash → Bytes} (hm : TwoKeys m) (b : Bool) {q : List Bool}
    (hq : q.length = 255) (hne : q ≠ List.replicate 255 false) :
    Merkle.under b (leafAt m) q = defaultHash 0 := by
  have hkey : ∀ c, keyOfPath (b :: q) ≠ topKey c := by
    intro c h
    have hpath := congrArg keyPath h
    rw [keyPath_keyOfPath (by simp [hq]), keyPath_topKey] at hpath
    exact hne (List.cons.inj hpath).2
  rw [Merkle.under, leafAt, hm.absent _ hkey]
  rfl

theorem TwoKeys.half_siblings {m : Hash → Bytes} (hm : TwoKeys m) (b : Bool) :
    Merkle.siblings hashNode (Merkle.under b (leafAt m)) (List.replicate 255 false) =
      ((List.range 255).map defaultHash).reverse := by
  have hhalf : ∀ q : List Bool, q.length = (List.replicate 255 false).length →
      q ≠ List.replicate 255 false → Merkle.under b (leafAt m) q = defaultHash 0 :=
    fun q hq hne => hm.half_default b (by rwa [List.length_replicate] at hq) hne
  have h := Merkle.siblings_lone hashNode (fun _ => rfl) (List.replicate 255 false) hhalf
  rwa [List.length_replicate] at h

/-- The root of one half is numbered by its one leaf. -/
theorem TwoKeys.half_root {m : Hash → Bytes} (hm : TwoKeys m) (b : Bool) :
    Merkle.root hashNode 255 (Merkle.under b (leafAt m)) =
      hashOfNat (1024 * leafIndex b (m (topKey b)) + 255) := by
  have hclimb := Merkle.climb_siblings hashNode (Merkle.under b (leafAt m)) (List.replicate 255 false)
  have hleaf : Merkle.under b (leafAt m) (List.replicate 255 false) =
      hashOfNat (1024 * leafIndex b (m (topKey b))) := history_leaf b (hm.short b)
  rw [List.length_replicate, hm.half_siblings, hleaf] at hclimb
  rw [← hclimb]
  exact (history_climb (leafIndex_lt b (hm.short b)) (by omega)).1

/-- Whatever is put under one key, beside what the other holds, hashes sample strings. -/
theorem TwoKeys.climbPreimages {m : Hash → Bytes} (hm : TwoKeys m) (b : Bool) {value : Bytes}
    (h : value.length ≤ 1) :
    ∀ x ∈ climbPreimages (topKey b) value (siblingRoots m (topKey b)), SampleString x := by
  intro x hx
  rcases List.mem_append.mp hx with hx | hx
  · obtain rfl | ⟨v, rfl⟩ := short_cases h
    · simp only [leafPreimages, List.isEmpty_nil, ↓reduceIte, List.mem_singleton] at hx
      exact hx ▸ .empty
    · simp only [leafPreimages, List.isEmpty_cons, Bool.false_eq_true, ↓reduceIte, List.mem_cons,
        List.not_mem_nil, or_false, hashBytes_single] at hx
      rcases hx with rfl | rfl
      · exact .value v
      · exact .leaf b v
  · obtain ⟨q, hq, rfl⟩ := List.mem_map.mp hx
    have hindex := leafIndex_lt b h
    have hother := leafIndex_lt (!b) (hm.short (!b))
    obtain ⟨hclimb, hpairs⟩ := history_climb hindex (show 255 ≤ 256 by omega)
    rw [history_leaf b h, siblingRoots, keyPath_topKey, Merkle.siblings, List.length_replicate,
      hm.half_root, hm.half_siblings, Merkle.climbPairs, hclimb] at hq
    rcases List.mem_cons.mp hq with rfl | hq
    · cases b
      · exact .top hindex hother
      · exact .top hother hindex
    · obtain ⟨i, hi, rfl⟩ := hpairs q hq
      exact .node hindex (by omega)

/-- Puts of at most one byte under the two keys. -/
def ShortPuts (puts : List (Hash × Bytes)) : Prop :=
  ∀ kv ∈ puts, (∃ b, kv.1 = topKey b) ∧ kv.2.length ≤ 1

/-- Reads a sample string back from the number of its digest. -/
def sampleDecode (n : ℕ) : Bytes :=
  if n = 0 then []
  else if n % 1024 = 512 then [UInt8.ofNat (n / 1024)]
  else if n % 1024 = 0 then
    [0] ++ (topKey ((n / 1024 - 1) % 256 == 128)).toList ++
      (hashOfNat ((n / 1024 - 1) / 256)).toList
  else if n < 2 ^ 64 then nodePreimage (hashOfNat (n - 1), hashOfNat ((n - 1) % 1024))
  else nodePreimage (hashOfNat (n % 2 ^ 64 - 1), hashOfNat (n / 2 ^ 64))

theorem sampleDecode_node {a h : ℕ} (ha : a < 2 ^ 40) (hh : h < 256) :
    sampleDecode (leNat (historyDigest (nodePreimage (hashOfNat (1024 * a + h), hashOfNat h))).toList) =
      nodePreimage (hashOfNat (1024 * a + h), hashOfNat h) := by
  have hd := history_node (show 1024 * a + h < 2 ^ 64 by omega) (show h < 2 ^ 64 by omega)
  rw [if_pos hh, Nat.add_zero] at hd
  have hlow : (1024 * a + h) % 1024 = h := by omega
  change sampleDecode (leNat (hashNode (hashOfNat (1024 * a + h)) (hashOfNat h)).toList) = _
  rw [hd, leNat_hashOfNat (by omega), sampleDecode, if_neg (by omega), if_neg (by omega),
    if_neg (by omega), if_pos (by omega), Nat.add_sub_cancel, hlow]

theorem sampleDecode_digest {x : Bytes} (hx : SampleString x) :
    sampleDecode (leNat (historyDigest x).toList) = x := by
  cases hx with
  | empty => rfl
  | value v =>
    have hv := v.toNat_lt
    have hdiv : (1024 * v.toNat + 512) / 1024 = v.toNat := by omega
    change sampleDecode (leNat (hashBytes [v]).toList) = _
    rw [hashBytes_single, leNat_hashOfNat (by omega), sampleDecode, if_neg (by omega),
      if_pos (by omega), hdiv, UInt8.ofNat_toNat]
  | leaf b v =>
    have hv := v.toNat_lt
    have hindex : leafIndex b [v] = 1 + (if b then 128 else 0) + 256 * (1024 * v.toNat + 512) := by
      rw [leafIndex, leNat_cons, leNat_nil]
      rfl
    have hlt := @leafIndex_lt b [v] le_rfl
    rw [history_leaf_string, leNat_hashOfNat (by omega), sampleDecode, if_neg (by rw [hindex]; omega),
      if_neg (by omega), if_pos (by omega), hindex]
    have hkey : (1024 * (1 + (if b then 128 else 0) + 256 * (1024 * v.toNat + 512))) / 1024 - 1 =
        (if b then 128 else 0) + 256 * (1024 * v.toNat + 512) := by omega
    have hlow : ((if b then 128 else 0) + 256 * (1024 * v.toNat + 512)) % 256 =
        if b then 128 else 0 := by split <;> omega
    have hhigh : ((if b then 128 else 0) + 256 * (1024 * v.toNat + 512)) / 256 =
        1024 * v.toNat + 512 := by split <;> omega
    have hbit : ((if b then 128 else 0) == 128) = b := by cases b <;> rfl
    rw [hkey, hlow, hhigh, hbit]
  | node ha hh => exact sampleDecode_node ha hh
  | @top a c ha hc =>
    by_cases hzero : c = 0
    · rw [hzero]
      exact sampleDecode_node ha (by omega)
    · have hd := history_node (show 1024 * a + 255 < 2 ^ 64 by omega)
        (show 1024 * c + 255 < 2 ^ 64 by omega)
      rw [if_neg (by omega)] at hd
      change sampleDecode (leNat (hashNode (hashOfNat (1024 * a + 255))
        (hashOfNat (1024 * c + 255))).toList) = _
      rw [hd, leNat_hashOfNat (by omega), sampleDecode, if_neg (by omega), if_neg (by omega),
        if_neg (by omega), if_neg (by omega)]
      have hl : (1024 * a + 255 + 1 + 2 ^ 64 * (1024 * c + 255)) % 2 ^ 64 - 1 = 1024 * a + 255 := by
        omega
      have hr : (1024 * a + 255 + 1 + 2 ^ 64 * (1024 * c + 255)) / 2 ^ 64 = 1024 * c + 255 := by
        omega
      rw [hl, hr]

theorem sample_noCollision {xs : List Bytes} (h : ∀ x ∈ xs, SampleString x) : NoCollision xs := by
  intro x hx y hy he
  have hxy := congrArg (fun d : Hash => sampleDecode (leNat d.toList)) he
  exact (sampleDecode_digest (h x hx)).symm.trans (hxy.trans (sampleDecode_digest (h y hy)))

theorem putAllPreimages_concat (t : SparseMerkleTree) (puts : List (Hash × Bytes))
    (key : Hash) (value : Bytes) :
    putAllPreimages t (puts ++ [(key, value)]) =
      putAllPreimages t puts ++ putPreimages (t.putAll puts) key value := by
  induction puts generalizing t with
  | nil => exact List.append_nil _
  | cons kv puts ih =>
    rw [List.cons_append, putAllPreimages, ih, putAllPreimages, List.append_assoc]
    rfl

/-- A history of short puts hashes sample strings only and ends in a short map. -/
theorem ShortPuts.history {puts : List (Hash × Bytes)} (h : ShortPuts puts) :
    TwoKeys (finalMap puts) ∧ ∀ x ∈ historyPreimages puts, SampleString x := by
  induction puts using List.reverseRecOn with
  | nil =>
    refine ⟨⟨fun _ => Nat.zero_le 1, fun _ _ => rfl⟩, fun x hx => ?_⟩
    rw [historyPreimages, putAllPreimages, List.append_nil] at hx
    rcases List.mem_cons.mp hx with rfl | hx
    · exact .empty
    · obtain ⟨i, hi, rfl⟩ := List.mem_map.mp hx
      have hi := List.mem_range.mp hi
      have hnode := SampleString.node (Nat.two_pow_pos 40) hi
      rwa [Nat.mul_zero, Nat.zero_add, ← history_default (by omega)] at hnode
  | append_singleton puts kv ih =>
    obtain ⟨hm, hstrings⟩ := ih fun kv hkv => h kv (List.mem_append_left _ hkv)
    obtain ⟨⟨b, hkey⟩, hshort⟩ := h kv (by simp)
    obtain ⟨key, value⟩ := kv
    obtain rfl : key = topKey b := hkey
    constructor
    · rw [finalMap, List.foldl_append]
      exact hm.update b hshort
    · -- the strings so far do not collide, so the next put reads the siblings of the map
      have hB := sample_noCollision hstrings
      have hr := represents_history hB puts (List.Subset.refl _)
      rw [historyPreimages, putAllPreimages_concat, ← List.append_assoc]
      intro x hx
      rcases List.mem_append.mp hx with hx | hx
      · exact hstrings x hx
      · rw [putPreimages, hr.path_eq hB (List.subset_append_left _ _)] at hx
        exact hm.climbPreimages b hshort x hx

/-- Both keys are set, the first is overwritten, the second deleted again. -/
def samplePuts : List (Hash × Bytes) :=
  [(topKey false, [7]), (topKey true, [9]), (topKey false, [8]), (topKey true, [])]

/-- The history that puts what remains, at once. -/
def shorterPuts : List (Hash × Bytes) := [(topKey false, [8])]

theorem samplePuts_short : ShortPuts samplePuts := by
  intro kv hkv
  simp only [samplePuts, List.mem_cons, List.not_mem_nil, or_false] at hkv
  rcases hkv with rfl | rfl | rfl | rfl <;> exact ⟨⟨_, rfl⟩, by simp⟩

theorem shorterPuts_short : ShortPuts shorterPuts := by
  intro kv hkv
  rw [shorterPuts, List.mem_singleton] at hkv
  subst hkv
  exact ⟨⟨_, rfl⟩, le_rfl⟩

/-- A value that was overwritten and a key that was deleted leave no trace in the map. -/
theorem finalMap_overwritten {a b : Hash} (hab : b ≠ a) (x y z : Bytes) :
    finalMap [(a, z)] = finalMap [(a, x), (b, y), (a, z), (b, [])] := by
  funext k
  simp only [finalMap, List.foldl_cons, List.foldl_nil, Function.update_apply]
  by_cases hb : k = b
  · rw [if_pos hb, if_neg (hb ▸ hab)]
  · rw [if_neg hb, if_neg hb]
    split <;> rfl

theorem finalMap_shorterPuts : finalMap shorterPuts = finalMap samplePuts :=
  finalMap_overwritten topKey_ne [7] [9] [8]

theorem finalMap_samplePuts :
    finalMap samplePuts (topKey false) = [8] ∧ finalMap samplePuts (topKey true) = [] := by
  rw [← finalMap_shorterPuts]
  simp only [finalMap, shorterPuts, List.foldl_cons, List.foldl_nil]
  exact ⟨Function.update_self .., Function.update_of_ne topKey_ne ..⟩

theorem smt_history_refines_map_sample :
    let t := SparseMerkleTree.new.putAll samplePuts
    t.root = functionalRoot (finalMap samplePuts) ∧
    t.get (topKey false) = some [8] ∧ t.get (topKey true) = none ∧
    (∀ k, SparseMerkleTree.verifyProof t.root k (t.proof k) = true) ∧
    (SparseMerkleTree.new.putAll shorterPuts).root = t.root := by
  have h := smt_history_refines_map samplePuts (sample_noCollision samplePuts_short.history.2)
  obtain ⟨hset, hdeleted⟩ := finalMap_samplePuts
  refine ⟨h.1, ?_, ?_, h.2.2.2.1, ?_⟩
  · rw [h.2.1, hset]
    rfl
  · rw [h.2.1, hdeleted]
    rfl
  · exact (h.2.2.2.2 shorterPuts (sample_noCollision shorterPuts_short.history.2)
      finalMap_shorterPuts).1

theorem smt_root_binds_values_sample :
    let t := SparseMerkleTree.new.putAll samplePuts
    (t.proof (topKey true)).value = (t.get (topKey true)).getD [] ∧
    (SparseMerkleTree.new.putAll shorterPuts).get (topKey false) = t.get (topKey false) := by
  obtain ⟨hm, hstrings⟩ := samplePuts_short.history
  have hshorter := shorterPuts_short.history.2
  have hB := sample_noCollision hstrings
  have hB' := sample_noCollision hshorter
  have hnew : ∀ puts, newPreimages ⊆ historyPreimages puts := fun _ => List.subset_append_left _ _
  have hr := represents_history hB samplePuts (List.Subset.refl _)
  have hr' := represents_history hB' shorterPuts (List.Subset.refl _)
  constructor
  · apply (smt_root_binds_values samplePuts).1
    · apply sample_noCollision
      intro x hx
      rcases List.mem_append.mp hx with hx | hx
      · exact hstrings x hx
      · simp only [verifyPreimages, hr.proof_eq hB (hnew _)] at hx
        exact hm.climbPreimages true (hm.short true) x hx
    · exact hr.verify_proof hB (hnew _) _
  · refine ((smt_root_binds_values samplePuts).2 shorterPuts ?_ ?_ (topKey false)).symm
    · exact sample_noCollision fun x hx =>
        (List.mem_append.mp hx).elim (hstrings x) (hshorter x)
    · rw [hr.root_eq, hr'.root_eq, finalMap_shorterPuts]

end Sample

end PslBank.Crypto
