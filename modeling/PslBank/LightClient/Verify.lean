import PslBank.Crypto.Account
import PslBank.Crypto.SmtRefinement
import PslBank.Lib.Runs
import Mathlib.Data.List.Chain

/-!
# The light client

`light_client/src/header.rs` and `light_client/src/lib.rs`. The client walks the list
of signed headers, checks the signature of each and that each names the full hash of
the one before it, and then checks a Merkle proof against the root in the last one.
`verifyBalance_ok_iff` says when it accepts and with which value; everything about
accepted inputs follows from it.
-/
namespace PslBank.LightClient

open PslBank.Lib PslBank.Crypto

set_option autoImplicit false

/-- The header again, defined apart from the sequencer's. -/
structure Header where
  blockN : UInt64
  parentHash : Hash
  prevStateRoot : Hash
  txListHash : Hash
  traceHash : Hash
  newStateRoot : Hash
  issuerRegistryRoot : Hash
  timestampMs : UInt64
  sequencerPubkey : PublicKey
  deriving DecidableEq

def Header.signingBytes (h : Header) : Bytes :=
  toLe 8 h.blockN.toNat ++ h.parentHash.toList ++ h.prevStateRoot.toList ++ h.txListHash.toList ++
    h.traceHash.toList ++ h.newStateRoot.toList ++ h.issuerRegistryRoot.toList ++
    toLe 8 h.timestampMs.toNat ++ h.sequencerPubkey.toList

/-- Not used for linking. -/
def Header.unsignedHash [Blake3] (h : Header) : Hash := hashBytes h.signingBytes

structure SignedHeader where
  header : Header
  signature : Signature
  deriving DecidableEq

inductive VerifyError where
  | genesisMismatch
  | headerChainBroken (index : ℕ)
  | invalidSignature (blockN : UInt64)
  | proofFailed
  deriving DecidableEq, Repr

/-- The bytes of an account record give its balance; any other length counts as 0. -/
def decodeBalance (bytes : Bytes) : ℕ :=
  if h : bytes.length = 64 then (⟨⟨bytes, h⟩⟩ : Account).balance else 0

theorem decodeBalance_account (a : Account) : decodeBalance a.bytes.toList = a.balance :=
  dif_pos a.bytes.toList_length

section

variable [Ed25519]

def SignedHeader.sign (header : Header) (kp : KeyPair) : SignedHeader :=
  ⟨header, PslBank.Crypto.sign kp header.signingBytes⟩

def SignedHeader.verify (h : SignedHeader) (expected : PublicKey) : Except SigError Unit :=
  if h.header.sequencerPubkey ≠ expected then .error .verificationFailed
  else PslBank.Crypto.verify h.header.sequencerPubkey h.header.signingBytes h.signature

theorem SignedHeader.verify_sign {header : Header} {kp : KeyPair} (hkp : kp.SignsValidly)
    (hkey : header.sequencerPubkey = kp.public) :
    (SignedHeader.sign header kp).verify kp.public = .ok () := by
  have hcheck : (SignedHeader.sign header kp).verify kp.public =
      PslBank.Crypto.verify header.sequencerPubkey header.signingBytes
        (PslBank.Crypto.sign kp header.signingBytes) := if_neg (not_not_intro hkey)
  rw [hcheck, hkey]
  exact hkp header.signingBytes

variable [Blake3]

/-- What the next header's `parent_hash` must be: the hash over header and signature. -/
def SignedHeader.fullHash (h : SignedHeader) : Hash :=
  hashBytes (h.header.signingBytes ++ h.signature.toList)

/-- The link of one header: to the hash before it, or to the genesis root. -/
def checkLink (genesisRoot : Hash) (prevHash : Option Hash) (i : ℕ) (h : SignedHeader) :
    Except VerifyError Unit :=
  match prevHash with
  | some p => if h.header.parentHash ≠ p then .error (.headerChainBroken i) else .ok ()
  | none => if h.header.prevStateRoot ≠ genesisRoot then .error .genesisMismatch else .ok ()

/-- The loop over the headers from index `i` on. -/
def checkHeaders (genesisRoot : Hash) (expectedSigner : PublicKey) :
    Option Hash → ℕ → List SignedHeader → Except VerifyError Unit
  | _, _, [] => .ok ()
  | prevHash, i, h :: hs => do
      checkLink genesisRoot prevHash i h
      (h.verify expectedSigner).mapError fun _ => .invalidSignature h.header.blockN
      checkHeaders genesisRoot expectedSigner (some h.fullHash) (i + 1) hs

def verifyBalance (genesisRoot : Hash) (headers : List SignedHeader) (expectedSigner : PublicKey)
    (accountPubkey : PublicKey) (proof : MerkleProof) : Except VerifyError ℕ :=
  match headers.getLast? with
  | none => .error (.headerChainBroken 0)
  | some head => do
      checkHeaders genesisRoot expectedSigner none 0 headers
      if !SparseMerkleTree.verifyProof head.header.newStateRoot accountPubkey proof then
        .error .proofFailed
      return decodeBalance proof.value

/-! ## What is accepted -/

/-- The one link between consecutive headers that is checked. -/
def HashLinked (h h' : SignedHeader) : Prop := h'.header.parentHash = h.fullHash

/-- A list of headers that passes the loop. -/
structure AcceptedChain (genesisRoot : Hash) (signer : PublicKey) (headers : List SignedHeader) :
    Prop where
  anchored : ∀ h, headers.head? = some h → h.header.prevStateRoot = genesisRoot
  signed : ∀ h ∈ headers, h.verify signer = .ok ()
  linked : headers.IsChain HashLinked

variable {genesisRoot : Hash} {signer : PublicKey}

theorem checkHeaders_some_iff {p : Hash} {i : ℕ} {hs : List SignedHeader} :
    checkHeaders genesisRoot signer (some p) i hs = .ok () ↔
      (∀ h ∈ hs.head?, h.header.parentHash = p) ∧ (∀ h ∈ hs, h.verify signer = .ok ()) ∧
        hs.IsChain HashLinked := by
  induction hs generalizing p i with
  | nil => simp [checkHeaders]
  | cons h hs ih =>
    have hlink : checkLink genesisRoot (some p) i h = .ok () ↔ h.header.parentHash = p := by
      unfold checkLink
      by_cases hp : h.header.parentHash = p <;> simp [hp]
    rw [checkHeaders, bind_eq_ok_iff]
    simp only [bind_eq_ok_iff, mapError_eq_ok_iff, ih, List.isChain_cons, List.head?_cons,
      List.forall_mem_cons, Option.mem_some_iff, forall_eq', HashLinked]
    constructor
    · intro hyp
      obtain ⟨_, h1, _, h2, h3, h4, h5⟩ := hyp
      exact ⟨hlink.mp h1, ⟨h2, h4⟩, h3, h5⟩
    · intro hyp
      obtain ⟨h1, ⟨h2, h4⟩, h3, h5⟩ := hyp
      exact ⟨(), hlink.mpr h1, (), h2, h3, h4, h5⟩

theorem checkHeaders_iff {headers : List SignedHeader} :
    checkHeaders genesisRoot signer none 0 headers = .ok () ↔
      AcceptedChain genesisRoot signer headers := by
  cases headers with
  | nil => exact ⟨fun _ => ⟨by simp, by simp, List.isChain_nil⟩, fun _ => rfl⟩
  | cons h hs =>
    have hlink : checkLink genesisRoot none 0 h = .ok () ↔ h.header.prevStateRoot = genesisRoot := by
      unfold checkLink
      by_cases hp : h.header.prevStateRoot = genesisRoot <;> simp [hp]
    rw [checkHeaders, bind_eq_ok_iff]
    simp only [bind_eq_ok_iff, mapError_eq_ok_iff, checkHeaders_some_iff]
    constructor
    · intro hyp
      obtain ⟨_, h1, _, h2, h3, h4, h5⟩ := hyp
      refine ⟨fun x hx => ?_, List.forall_mem_cons.mpr ⟨h2, h4⟩, List.isChain_cons.mpr ⟨h3, h5⟩⟩
      obtain rfl := Option.some.inj hx
      exact hlink.mp h1
    · intro hyp
      obtain ⟨hanchor, hsigned, hlinked⟩ := hyp
      obtain ⟨h2, h4⟩ := List.forall_mem_cons.mp hsigned
      obtain ⟨h3, h5⟩ := List.isChain_cons.mp hlinked
      exact ⟨(), hlink.mpr (hanchor h rfl), (), h2, h3, h4, h5⟩

/-- The client accepts with the balance in the proof exactly when the chain passes and
the proof fits the last root. -/
theorem verifyBalance_ok_iff {headers : List SignedHeader} {key : PublicKey} {proof : MerkleProof}
    {v : ℕ} :
    verifyBalance genesisRoot headers signer key proof = .ok v ↔
      AcceptedChain genesisRoot signer headers ∧
        (∃ head, headers.getLast? = some head ∧
          SparseMerkleTree.verifyProof head.header.newStateRoot key proof = true) ∧
        v = decodeBalance proof.value := by
  unfold verifyBalance
  cases hl : headers.getLast? with
  | none => simp
  | some head =>
    constructor
    · intro h
      obtain ⟨u, hchain, h⟩ := bind_eq_ok_iff.mp h
      cases hp : SparseMerkleTree.verifyProof head.header.newStateRoot key proof with
      | false =>
        rw [hp] at h
        cases h
      | true =>
        rw [hp] at h
        exact ⟨checkHeaders_iff.mp hchain, ⟨head, rfl, hp⟩, (Except.ok.inj h).symm⟩
    · intro hyp
      obtain ⟨hchain, ⟨head', hhead, hp⟩, rfl⟩ := hyp
      obtain rfl := Option.some.inj hhead
      dsimp only
      rw [checkHeaders_iff.mpr hchain, hp]
      rfl

/-! ## Soundness -/

/-- A history of puts of account records, under any keys. -/
def recordPuts (records : List (Hash × Account)) : List (Hash × Bytes) :=
  records.map fun r => (r.1, r.2.bytes.toList)

omit [Ed25519] [Blake3] in
/-- A key of a tree of records is absent or holds a record. -/
theorem finalMap_recordPuts (records : List (Hash × Account)) (key : Hash) :
    finalMap (recordPuts records) key = [] ∨
      ∃ a : Account, finalMap (recordPuts records) key = a.bytes.toList := by
  have hfold : ∀ (records : List (Hash × Account)) (m : Hash → Bytes),
      (∀ k, m k = [] ∨ ∃ a : Account, m k = a.bytes.toList) →
      ∀ k, (recordPuts records).foldl (fun m kv => Function.update m kv.1 kv.2) m k = [] ∨
        ∃ a : Account,
          (recordPuts records).foldl (fun m kv => Function.update m kv.1 kv.2) m k = a.bytes.toList := by
    intro records
    induction records with
    | nil => exact fun m hm => hm
    | cons r records ih =>
      intro m hm
      refine ih (Function.update m r.1 r.2.bytes.toList) fun k => ?_
      by_cases hk : k = r.1
      · subst hk
        exact .inr ⟨r.2, Function.update_self _ _ _⟩
      · rw [Function.update_of_ne hk]
        exact hm k
  exact hfold records _ (fun _ => .inl rfl) key

/-- Whatever the headers and the proof, an accepted value is the balance of the record
that any tree of account records with the last root holds under the key. -/
theorem light_client_sound (records : List (Hash × Account)) (headers : List SignedHeader)
    (key : PublicKey) (proof : MerkleProof) (v : ℕ)
    (hok : verifyBalance genesisRoot headers signer key proof = .ok v)
    (hroot : headers.getLast?.map (fun h => h.header.newStateRoot) =
      some (SparseMerkleTree.new.putAll (recordPuts records)).root)
    (hnc : NoCollision (historyPreimages (recordPuts records) ++ verifyPreimages key proof)) :
    ((SparseMerkleTree.new.putAll (recordPuts records)).get key = none ∧ v = 0) ∨
      ∃ a : Account, (SparseMerkleTree.new.putAll (recordPuts records)).get key =
        some a.bytes.toList ∧ v = a.balance := by
  obtain ⟨-, ⟨head, hhead, hproof⟩, rfl⟩ := verifyBalance_ok_iff.mp hok
  rw [hhead] at hroot
  have hhroot : head.header.newStateRoot = _ := Option.some.inj hroot
  rw [hhroot] at hproof
  have hr := represents_history hnc (recordPuts records) (List.subset_append_left _ _)
  have hvalue := hr.verify_sound hnc (List.subset_append_right _ _) hproof
  have hget := hr.leaves_eq key
  rw [hvalue]
  rcases finalMap_recordPuts records key with habsent | ⟨a, ha⟩
  · left
    rw [habsent] at hget ⊢
    exact ⟨hget, rfl⟩
  · right
    rw [ha] at hget ⊢
    refine ⟨a, ?_, decodeBalance_account a⟩
    rw [a.isEmpty_bytes] at hget
    exact hget

end

section Sample

/-- A stand-in digest that numbers a node one above its larger child, so that the nodes
above one record under any key are numbered apart. Strings of other lengths go by
length and first byte, which for a header is its block number. -/
def maxDigest (x : Bytes) : Hash :=
  if x.length = 0 then hashOfNat 0
  else if x.length = 64 then hashOfNat (max (leNat (x.take 32)) (leNat (x.drop 32)) + 1)
  else hashOfNat (1000 * x.length + (x.headD 0).toNat)

abbrev maxBlake3 : Blake3 := ⟨maxDigest⟩

attribute [local instance] maxBlake3 sampleEd25519

theorem maxDigest_node {a b : ℕ} (ha : a < 2 ^ 256) (hb : b < 2 ^ 256) :
    hashNode (hashOfNat a) (hashOfNat b) = hashOfNat (max a b + 1) := by
  have hlen : ((hashOfNat a).toList ++ (hashOfNat b).toList).length = 64 := by simp
  have htake : ((hashOfNat a).toList ++ (hashOfNat b).toList).take 32 = (hashOfNat a).toList :=
    List.take_left' (by simp)
  have hdrop : ((hashOfNat a).toList ++ (hashOfNat b).toList).drop 32 = (hashOfNat b).toList :=
    List.drop_left' (by simp)
  show maxDigest ((hashOfNat a).toList ++ (hashOfNat b).toList) = _
  rw [maxDigest, hlen, htake, hdrop, leNat_hashOfNat ha, leNat_hashOfNat hb]
  rfl

theorem maxDigest_default {h : ℕ} (hh : h ≤ 256) : defaultHash h = hashOfNat h := by
  induction h with
  | zero => rfl
  | succ h ih => rw [defaultHash, ih (by omega), maxDigest_node (by omega) (by omega), max_self]

/-- The pair hashed above a lone record at height `h`; `b` says on which side it is. -/
def lonePair (b : Bool) (h : ℕ) : Hash × Hash :=
  if b then (hashOfNat h, hashOfNat (65000 + h)) else (hashOfNat (65000 + h), hashOfNat h)

theorem lonePair_node (b : Bool) {h : ℕ} (hh : h < 256) :
    hashNode (lonePair b h).1 (lonePair b h).2 = hashOfNat (65001 + h) := by
  have hsum : 65001 + h = 65000 + h + 1 := by omega
  unfold lonePair
  rw [hsum]
  cases b
  · simp only [Bool.false_eq_true, ↓reduceIte]
    rw [maxDigest_node (by omega) (by omega), max_eq_left (by omega)]
  · simp only [↓reduceIte]
    rw [maxDigest_node (by omega) (by omega), max_eq_right (by omega)]

/-- Up any path with defaults beside it the digest counts the levels. -/
theorem lone_climb {p : List Bool} (hp : p.length ≤ 256) :
    Merkle.climb hashNode p ((List.range p.length).map defaultHash).reverse (hashOfNat 65000) =
        hashOfNat (65000 + p.length) ∧
      ∀ q ∈ Merkle.climbPairs hashNode p ((List.range p.length).map defaultHash).reverse
        (hashOfNat 65000), ∃ h < p.length, q = lonePair (p.reverse.getD h false) h := by
  induction p with
  | nil => simp [Merkle.climb, Merkle.climbPairs]
  | cons b p ih =>
    have hlt : p.length < 256 := hp
    obtain ⟨hclimb, hpairs⟩ := ih hlt.le
    have hnode := lonePair_node b hlt
    rw [List.length_cons, List.range_succ, List.map_append, List.reverse_append, List.map_singleton,
      List.reverse_singleton, List.singleton_append, maxDigest_default hlt.le]
    have htop : (if b then (hashOfNat p.length, hashOfNat (65000 + p.length))
        else (hashOfNat (65000 + p.length), hashOfNat p.length)) = lonePair b p.length := rfl
    constructor
    · have hsum : 65000 + (p.length + 1) = 65001 + p.length := by omega
      rw [Merkle.climb, hclimb, hsum]
      cases b <;> simpa only [lonePair, Bool.false_eq_true, ↓reduceIte] using hnode
    · intro q hq
      rw [Merkle.climbPairs, hclimb, htop] at hq
      rcases List.mem_cons.mp hq with rfl | hq
      · exact ⟨p.length, by omega, by simp [List.getD_eq_getElem?_getD]⟩
      · obtain ⟨h, hh, rfl⟩ := hpairs q hq
        refine ⟨h, by omega, ?_⟩
        rw [List.reverse_cons, List.getD_eq_getElem?_getD, List.getD_eq_getElem?_getD,
          List.getElem?_append_left (by simpa using hh)]

/-- The strings hashed for one value under a key, by shape. -/
def LoneString (key : Hash) (value x : Bytes) : Prop :=
  x = [] ∨ (∃ h < 256, x = nodePreimage (hashOfNat h, hashOfNat h)) ∨ x = value ∨
    x = [0] ++ key.toList ++ (hashBytes value).toList ∨
    ∃ h < 256, x = nodePreimage (lonePair ((keyPath key).reverse.getD h false) h)

/-- Reads such a string back from the number of its digest. -/
def loneDecode (key : Hash) (value : Bytes) (n : ℕ) : Bytes :=
  if n = 0 then []
  else if n ≤ 256 then nodePreimage (hashOfNat (n - 1), hashOfNat (n - 1))
  else if n = 65000 then [0] ++ key.toList ++ (hashBytes value).toList
  else if n ≤ 65256 then nodePreimage (lonePair ((keyPath key).reverse.getD (n - 65001) false) (n - 65001))
  else value

theorem loneDecode_digest {key : Hash} {value x : Bytes}
    (hbig : 65256 < leNat (maxDigest value).toList) (hx : LoneString key value x) :
    loneDecode key value (leNat (maxDigest x).toList) = x := by
  rcases hx with rfl | ⟨h, hh, rfl⟩ | rfl | rfl | ⟨h, hh, rfl⟩
  · rfl
  · have hd : maxDigest (nodePreimage (hashOfNat h, hashOfNat h)) = hashOfNat (h + 1) := by
      have hnode := maxDigest_node (a := h) (b := h) (by omega) (by omega)
      rwa [max_self] at hnode
    rw [hd, leNat_hashOfNat (by omega), loneDecode, if_neg (by omega), if_pos (by omega),
      Nat.add_sub_cancel]
  · rw [loneDecode, if_neg (by omega), if_neg (by omega), if_neg (by omega), if_neg (by omega)]
  · have hd : maxDigest ([0] ++ key.toList ++ (hashBytes value).toList) = hashOfNat 65000 := by
      rw [maxDigest]
      simp
    have hn : leNat (hashOfNat 65000).toList = 65000 := leNat_hashOfNat (by norm_num)
    rw [hd, hn, loneDecode, if_neg (by norm_num), if_neg (by norm_num), if_pos rfl]
  · have hd : ∀ b, maxDigest (nodePreimage (lonePair b h)) = hashOfNat (65001 + h) :=
      fun b => lonePair_node b hh
    rw [hd, leNat_hashOfNat (by omega), loneDecode, if_neg (by omega), if_neg (by omega),
      if_neg (by omega), if_pos (by omega), Nat.add_sub_cancel_left]

theorem lone_noCollision (key : Hash) {value : Bytes} {xs : List Bytes}
    (hbig : 65256 < leNat (maxDigest value).toList) (h : ∀ x ∈ xs, LoneString key value x) :
    NoCollision xs := by
  intro x hx y hy he
  have hxy := congrArg (fun d : Hash => loneDecode key value (leNat d.toList)) he
  exact (loneDecode_digest hbig (h x hx)).symm.trans (hxy.trans (loneDecode_digest hbig (h y hy)))

theorem lone_path (key : Hash) :
    SparseMerkleTree.new.computePathToLeaf key = ((List.range 256).map defaultHash).reverse := by
  rw [SparseMerkleTree.computePathToLeaf_eq_descend _ (by simp only [SparseMerkleTree.new])]
  have hlen := length_keyPath key
  cases hp : keyPath key with
  | nil =>
    rw [hp] at hlen
    cases hlen
  | cons b p =>
    rw [← hlen, hp]
    rfl

theorem lone_climbPreimages {key : Hash} {value : Bytes} (hne : value ≠ []) :
    ∀ x ∈ climbPreimages key value ((List.range 256).map defaultHash).reverse,
      LoneString key value x := by
  intro x hx
  have hleaf : leafHash key value = hashOfNat 65000 := by
    have hd : maxDigest ([0] ++ key.toList ++ (hashBytes value).toList) = hashOfNat 65000 := by
      rw [maxDigest]
      simp
    rw [leafHash, if_neg (by simpa using hne)]
    exact hd
  rcases List.mem_append.mp hx with hx | hx
  · rw [leafPreimages_of_ne hne] at hx
    rcases List.mem_cons.mp hx with rfl | hx
    · exact .inr (.inr (.inl rfl))
    · exact .inr (.inr (.inr (.inl (List.mem_singleton.mp hx))))
  · obtain ⟨q, hq, rfl⟩ := List.mem_map.mp hx
    have hlen := length_keyPath key
    rw [hleaf, ← hlen] at hq
    obtain ⟨h, hh, rfl⟩ := (lone_climb hlen.le).2 q hq
    exact .inr (.inr (.inr (.inr ⟨h, hlen ▸ hh, rfl⟩)))

theorem lone_history {key : Hash} {value : Bytes} (hne : value ≠ []) :
    ∀ x ∈ historyPreimages [(key, value)], LoneString key value x := by
  intro x hx
  rcases List.mem_append.mp hx with hx | hx
  · rcases List.mem_cons.mp hx with rfl | hx
    · exact .inl rfl
    · obtain ⟨h, hh, rfl⟩ := List.mem_map.mp hx
      have hlt := List.mem_range.mp hh
      rw [maxDigest_default hlt.le]
      exact .inr (.inl ⟨h, hlt, rfl⟩)
  · rw [putAllPreimages, putAllPreimages, List.append_nil, putPreimages, lone_path] at hx
    exact lone_climbPreimages hne x hx

/-- The defaults prove a value that is alone in its tree. -/
def loneProof (value : Bytes) : MerkleProof := ⟨((List.range 256).map defaultHash).reverse, value⟩

theorem loneProof_verifies (key : Hash) (value : Bytes) :
    SparseMerkleTree.verifyProof (SparseMerkleTree.new.putAll [(key, value)]).root key
      (loneProof value) = true := by
  have hlen : (SparseMerkleTree.new.computePathToLeaf key).length = 256 := by
    rw [lone_path]
    simp
  have hroot := (SparseMerkleTree.new.put_eq key value hlen).2
  rw [lone_path] at hroot
  rw [SparseMerkleTree.verifyProof_iff, loneProof, SparseMerkleTree.putAll, List.foldl_cons,
    List.foldl_nil, hroot]
  simp only [List.length_reverse, List.length_map, List.length_range, and_self]

/-- The record of an account with five units. -/
def fundedRecord : Account := ((Account.new (hashOfNat 4)).setBalance 5).setLastActive 1

def fundedTree : SparseMerkleTree :=
  SparseMerkleTree.new.putAll (recordPuts [(hashOfNat 4, fundedRecord)])

/-- One signed header with the root of the tree that holds the record alone. -/
def fundedHeader : SignedHeader :=
  .sign ⟨0, zeroHash, SparseMerkleTree.new.root, zeroHash, zeroHash, fundedTree.root, zeroHash, 1,
    hashOfNat 77⟩ ⟨hashOfNat 77⟩

theorem light_client_sound_funded :
    verifyBalance SparseMerkleTree.new.root [fundedHeader] (hashOfNat 77) (hashOfNat 4)
        (loneProof fundedRecord.bytes.toList) = .ok 5 ∧
      ((fundedTree.get (hashOfNat 4) = none ∧ 5 = 0) ∨
        ∃ a : Account, fundedTree.get (hashOfNat 4) = some a.bytes.toList ∧ 5 = a.balance) := by
  have hbig : 65256 < leNat (maxDigest fundedRecord.bytes.toList).toList := by decide +kernel
  have hne : fundedRecord.bytes.toList ≠ [] := by decide +kernel
  have hok : verifyBalance SparseMerkleTree.new.root [fundedHeader] (hashOfNat 77) (hashOfNat 4)
      (loneProof fundedRecord.bytes.toList) = .ok 5 := by
    refine verifyBalance_ok_iff.mpr ⟨⟨fun h hh => ?_, fun h hh => ?_, List.isChain_singleton _⟩,
      ⟨fundedHeader, rfl, ?_⟩, by decide +kernel⟩
    · obtain rfl := Option.some.inj hh
      rfl
    · rw [List.mem_singleton.mp hh]
      exact SignedHeader.verify_sign (sample_signsValidly _) rfl
    · exact loneProof_verifies (hashOfNat 4) fundedRecord.bytes.toList
  refine ⟨hok, light_client_sound [(hashOfNat 4, fundedRecord)] [fundedHeader] (hashOfNat 4) _ 5 hok
    rfl (lone_noCollision (hashOfNat 4) hbig fun x hx => ?_)⟩
  rcases List.mem_append.mp hx with hx | hx
  · exact lone_history hne x hx
  · simp only [verifyPreimages, loneProof] at hx
    exact lone_climbPreimages hne x hx

end Sample

end PslBank.LightClient
