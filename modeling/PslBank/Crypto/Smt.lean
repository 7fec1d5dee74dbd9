import PslBank.Crypto.Hash
import PslBank.Lib.MerkleTree

/-!
# The sparse Merkle tree of `crypto/src/smt.rs`

`nodes` and `leaves` are the two hash maps of the source, as partial functions;
nothing ever iterates over them. A loop `for i in (0..KEY_BITS).rev()` is a
`foldr` over the indices, which visits 255 first. The `*Preimages` lists collect
the byte strings each operation hands to BLAKE3.
-/
namespace PslBank.Crypto

open PslBank.Lib

set_option autoImplicit false

/-- The `(left, right)` children of an inner node. -/
abbrev InternalNode := Hash × Hash

/-- The claimed value of a key, with the siblings from the root down. -/
structure MerkleProof where
  siblings : List Hash
  value : Bytes
  deriving DecidableEq

structure SparseMerkleTree where
  nodes : Hash → Option InternalNode
  leaves : Hash → Option Bytes
  root : Hash
  defaults : List Hash

/-- Bit `i` of a key, 0 the most significant. -/
def bit (key : Hash) (i : Fin 256) : Bool :=
  ((key.get ⟨i / 8, by omega⟩ >>> UInt8.ofNat (7 - i % 8)) &&& 1) == 1

/-- The bits of a key in the order the tree branches on them. -/
def keyPath (key : Hash) : List Bool := (List.finRange 256).map (bit key)

@[simp] theorem length_keyPath (key : Hash) : (keyPath key).length = 256 := by simp [keyPath]

section

variable [Blake3]

/-- Parent digest of two child digests. -/
def hashNode (left right : Hash) : Hash := hashConcat left.toList right.toList

/-- The default subtree of a given height; the source indexes them by depth. -/
def defaultHash : ℕ → Hash
  | 0 => hashBytes []
  | h + 1 => hashNode (defaultHash h) (defaultHash h)

/-- `defaults[d]` is the default at depth `d`, that is at height `256 - d`. -/
def defaultHashes : List Hash := ((List.range 257).map defaultHash).reverse

/-- An absent key and an empty value hash alike. -/
def leafHash (key : Hash) (value : Bytes) : Hash :=
  if value.isEmpty then hashBytes []
  else
    let valueHash := hashBytes value
    hashThree [0] key.toList valueHash.toList

namespace SparseMerkleTree

/-- Every key is absent, and the root is the default at depth 0. -/
def new : SparseMerkleTree where
  nodes := fun _ => none
  leaves := fun _ => none
  root := defaultHash 256
  defaults := defaultHashes

/-- `None` for a key that is absent. -/
def get (t : SparseMerkleTree) (key : Hash) : Option Bytes := t.leaves key

/-- The loop of `compute_path_to_leaf` from depth `d` on. The miss copies
`defaults[d + 1 ..]` into the rest of the array and leaves the loop. -/
def pathFrom (t : SparseMerkleTree) (key : Hash) : List (Fin 256) → Hash → List Hash
  | [], _ => []
  | d :: ds, current =>
      match t.nodes current with
      | some (left, right) =>
          if bit key d then left :: t.pathFrom key ds right
          else right :: t.pathFrom key ds left
      | none => t.defaults.drop (d + 1)

def computePathToLeaf (t : SparseMerkleTree) (key : Hash) : List Hash :=
  t.pathFrom key (List.finRange 256) t.root

/-- Insert or update `key`; an empty value removes it. -/
def put (t : SparseMerkleTree) (key : Hash) (value : Bytes) : SparseMerkleTree :=
  let newLeafHash := leafHash key value
  let path := t.computePathToLeaf key
  let up := (List.finRange 256).foldr
    (fun (i : Fin 256) (st : (Hash → Option InternalNode) × Hash) =>
      let sibling := path.getD i zeroHash
      let (left, right) := if bit key i then (sibling, st.2) else (st.2, sibling)
      let parent := hashNode left right
      (Function.update st.1 parent (some (left, right)), parent))
    (t.nodes, newLeafHash)
  { t with
    nodes := up.1
    leaves := Function.update t.leaves key (if value.isEmpty then none else some value)
    root := up.2 }

/-- An absent key is proved with the empty value. -/
def proof (t : SparseMerkleTree) (key : Hash) : MerkleProof where
  siblings := t.computePathToLeaf key
  value := (t.leaves key).getD []

/-- Recompute the root from the leaf up and compare. -/
def verifyProof (root key : Hash) (proof : MerkleProof) : Bool :=
  if proof.siblings.length != 256 then false
  else
    let current := (List.finRange 256).foldr
      (fun (d : Fin 256) current =>
        let sibling := proof.siblings.getD d zeroHash
        let (left, right) := if bit key d then (sibling, current) else (current, sibling)
        hashNode left right)
      (leafHash key proof.value)
    current == root

/-- The tree after a history of `put` calls. -/
def putAll (t : SparseMerkleTree) (puts : List (Hash × Bytes)) : SparseMerkleTree :=
  puts.foldl (fun t kv => t.put kv.1 kv.2) t

end SparseMerkleTree

/-! ## Byte strings hashed -/

/-- What an inner node hashes. -/
def nodePreimage (q : Hash × Hash) : Bytes := q.1.toList ++ q.2.toList

def leafPreimages (key : Hash) (value : Bytes) : List Bytes :=
  if value.isEmpty then [[]]
  else [value, [0] ++ key.toList ++ (hashBytes value).toList]

/-- What `default_hashes` hashes. -/
def newPreimages : List Bytes :=
  [] :: (List.range 256).map fun h => nodePreimage (defaultHash h, defaultHash h)

/-- What recomputing a root from a leaf value hashes. -/
def climbPreimages (key : Hash) (value : Bytes) (siblings : List Hash) : List Bytes :=
  leafPreimages key value ++
    (Merkle.climbPairs hashNode (keyPath key) siblings (leafHash key value)).map nodePreimage

def putPreimages (t : SparseMerkleTree) (key : Hash) (value : Bytes) : List Bytes :=
  climbPreimages key value (t.computePathToLeaf key)

def verifyPreimages (key : Hash) (proof : MerkleProof) : List Bytes :=
  climbPreimages key proof.value proof.siblings

def putAllPreimages : SparseMerkleTree → List (Hash × Bytes) → List Bytes
  | _, [] => []
  | t, (key, value) :: puts => putPreimages t key value ++ putAllPreimages (t.put key value) puts

/-- Everything hashed by `new` and the `put` calls after it. -/
def historyPreimages (puts : List (Hash × Bytes)) : List Bytes :=
  newPreimages ++ putAllPreimages SparseMerkleTree.new puts

/-! ## The loops as climbs and descents -/

/-- The loop of `verify_proof`. -/
theorem zip_foldr_climb (key leaf : Hash) :
    ∀ (ds : List (Fin 256)) (path : List Hash), path.length = ds.length →
    (ds.zip path).foldr
      (fun (q : Fin 256 × Hash) current =>
        let (left, right) := if bit key q.1 then (q.2, current) else (current, q.2)
        hashNode left right) leaf =
    Merkle.climb hashNode (ds.map (bit key)) path leaf := by
  intro ds
  induction ds with
  | nil => intro path _; simp [Merkle.climb]
  | cons d ds ih =>
    intro path hlen
    obtain ⟨s, path, rfl⟩ := List.exists_cons_of_length_eq_add_one hlen
    rw [List.zip_cons_cons, List.foldr_cons, ih path (by simpa using hlen)]
    cases hb : bit key d <;> simp [Merkle.climb, hb]

/-- The loop of `put`, which also enters every node it passes. -/
theorem zip_foldr_insert (key leaf : Hash) (nodes : Hash → Option InternalNode) :
    ∀ (ds : List (Fin 256)) (path : List Hash), path.length = ds.length →
    (ds.zip path).foldr
      (fun (q : Fin 256 × Hash) (st : (Hash → Option InternalNode) × Hash) =>
        let (left, right) := if bit key q.1 then (q.2, st.2) else (st.2, q.2)
        (Function.update st.1 (hashNode left right) (some (left, right)), hashNode left right))
      (nodes, leaf) =
    (Merkle.insertPath hashNode nodes (Merkle.climbPairs hashNode (ds.map (bit key)) path leaf),
      Merkle.climb hashNode (ds.map (bit key)) path leaf) := by
  intro ds
  induction ds with
  | nil => intro path _; simp [Merkle.insertPath, Merkle.climbPairs, Merkle.climb]
  | cons d ds ih =>
    intro path hlen
    obtain ⟨s, path, rfl⟩ := List.exists_cons_of_length_eq_add_one hlen
    rw [List.zip_cons_cons, List.foldr_cons, ih path (by simpa using hlen)]
    cases hb : bit key d <;> simp [Merkle.climbPairs, Merkle.climb, Merkle.insertPath, hb]

namespace SparseMerkleTree

theorem put_eq (t : SparseMerkleTree) (key : Hash) (value : Bytes)
    (hlen : (t.computePathToLeaf key).length = 256) :
    (t.put key value).nodes = Merkle.insertPath hashNode t.nodes
      (Merkle.climbPairs hashNode (keyPath key) (t.computePathToLeaf key) (leafHash key value)) ∧
    (t.put key value).root =
      Merkle.climb hashNode (keyPath key) (t.computePathToLeaf key) (leafHash key value) := by
  have h := zip_foldr_insert key (leafHash key value) t.nodes (List.finRange 256)
    (t.computePathToLeaf key) (by simpa using hlen)
  rw [← Merkle.foldr_getD_eq_zip (t.computePathToLeaf key) hlen zeroHash
    (fun (i : Fin 256) sibling (st : (Hash → Option InternalNode) × Hash) =>
      let (left, right) := if bit key i then (sibling, st.2) else (st.2, sibling)
      (Function.update st.1 (hashNode left right) (some (left, right)), hashNode left right))] at h
  exact ⟨congrArg Prod.fst h, congrArg Prod.snd h⟩

theorem get_put (t : SparseMerkleTree) (key k : Hash) (value : Bytes) :
    (t.put key value).get k =
      if k = key then (if value.isEmpty then none else some value) else t.get k := by
  simp only [get, put, Function.update_apply]

theorem verifyProof_iff (root key : Hash) (proof : MerkleProof) :
    verifyProof root key proof = true ↔ proof.siblings.length = 256 ∧
      Merkle.climb hashNode (keyPath key) proof.siblings (leafHash key proof.value) = root := by
  by_cases hlen : proof.siblings.length = 256
  · have h := zip_foldr_climb key (leafHash key proof.value) (List.finRange 256) proof.siblings
      (by simpa using hlen)
    rw [← Merkle.foldr_getD_eq_zip proof.siblings hlen zeroHash (fun (i : Fin 256) sibling current =>
      let (left, right) := if bit key i then (sibling, current) else (current, sibling)
      hashNode left right)] at h
    simp only [verifyProof, hlen, bne_self_eq_false, Bool.false_eq_true, ↓reduceIte, beq_iff_eq,
      true_and]
    exact Eq.congr_left h
  · simp [verifyProof, hlen]

theorem drop_defaultHashes (d : Fin 256) :
    defaultHashes.drop (d + 1) = ((List.range (256 - d)).map defaultHash).reverse := by
  have hsub : 257 - (d.val + 1) = 256 - d.val := by omega
  rw [defaultHashes, List.drop_reverse, List.length_map, List.length_range, hsub,
    ← List.map_take, List.take_range, min_eq_left (by omega)]

/-- On a suffix of the depths the source loop is the descent through the cache. -/
theorem pathFrom_eq_descend (t : SparseMerkleTree) (hd : t.defaults = defaultHashes) (key : Hash) :
    ∀ (ds done : List (Fin 256)), done ++ ds = List.finRange 256 → ∀ current,
      t.pathFrom key ds current = Merkle.descend t.nodes defaultHash (ds.map (bit key)) current := by
  intro ds
  induction ds with
  | nil => intro _ _ _; rfl
  | cons d ds ih =>
    intro done hdone current
    have ih := ih (done ++ [d]) (by rw [← hdone]; simp)
    rw [pathFrom, List.map_cons, Merkle.descend]
    cases t.nodes current with
    | some q => simp only [ih]
    | none =>
      -- the depth of `d` is its position, so the rest of the loop has `256 - d` rounds
      have hpos : d.val = done.length := by
        have hget : (List.finRange 256)[done.length]? = some d := by rw [← hdone]; simp
        obtain ⟨hlt, hval⟩ := List.getElem?_eq_some_iff.mp hget
        rw [← hval]
        simp
      have hlen : done.length + (ds.length + 1) = 256 := by
        have h := congrArg List.length hdone
        simpa using h
      simp only [hd, drop_defaultHashes, List.length_map]
      rw [show 256 - d.val = ds.length + 1 by omega]

theorem computePathToLeaf_eq_descend (t : SparseMerkleTree) (hd : t.defaults = defaultHashes)
    (key : Hash) :
    t.computePathToLeaf key = Merkle.descend t.nodes defaultHash (keyPath key) t.root :=
  pathFrom_eq_descend t hd key _ [] rfl t.root

end SparseMerkleTree

end

end PslBank.Crypto
