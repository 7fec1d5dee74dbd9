import Mathlib.Data.Set.Function
import Mathlib.Data.List.FinRange
import Mathlib.Logic.Function.Basic

/-!
# Complete binary Merkle trees and hash-keyed node stores

A tree of height `n` is a function from paths of length `n` to leaf digests. Its
root, the siblings along a path and the climb from a leaf back to the root are
computed by recursion on the path. A `Store` maps a node digest to the two
children it was computed from; it is a cache, so an entry may be missing, and a
descent that misses falls back to the digests of the default subtree.

Nothing here assumes that `node` is injective. The results that read a node back
from its digest take a set `S` of pairs on which `node` has no collision.
-/
namespace PslBank.Lib.Merkle

set_option autoImplicit false

variable {α : Type*}

/-- An indexed read of a list of full length is a walk along it. -/
theorem foldr_getD_eq_zip {β : Type*} {n : ℕ} (path : List α) (hlen : path.length = n) (d : α)
    (f : Fin n → α → β → β) (z : β) :
    (List.finRange n).foldr (fun i acc => f i (path.getD i d) acc) z =
      ((List.finRange n).zip path).foldr (fun q acc => f q.1 q.2 acc) z := by
  have hzip : (List.finRange n).zip path = (List.finRange n).map fun i : Fin n => (i, path.getD i d) := by
    apply List.ext_getElem
    · simp [hlen]
    · intro i h1 h2
      have hi : i < path.length := by simp [hlen] at h1 ⊢; omega
      simp [List.getD_eq_getElem?_getD, hi]
  rw [hzip, List.foldr_map]

theorem getD_map_finRange {n : ℕ} (f : Fin n → α) (d : α) (i : Fin n) :
    ((List.finRange n).map f).getD i d = f i := by
  simp [List.getD_eq_getElem?_getD]

/-- The leaves below one child of the root. -/
def under (b : Bool) (leaf : List Bool → α) : List Bool → α := fun p => leaf (b :: p)

section Functional

variable (node : α → α → α)

/-- The root of the complete tree of height `n`. -/
def root : ℕ → (List Bool → α) → α
  | 0, leaf => leaf []
  | n + 1, leaf => node (root n (under false leaf)) (root n (under true leaf))

/-- The roots of the subtrees left aside on the way down `p`, topmost first. -/
def siblings : (List Bool → α) → List Bool → List α
  | _, [] => []
  | leaf, b :: p => root node p.length (under (!b) leaf) :: siblings (under b leaf) p

/-- Recompute a root from the digest at the bottom of `p`. -/
def climb : List Bool → List α → α → α
  | b :: p, s :: ss, x => if b then node s (climb p ss x) else node (climb p ss x) s
  | _, _, x => x

/-- The `(left, right)` pairs the climb hashes, topmost first. -/
def climbPairs : List Bool → List α → α → List (α × α)
  | b :: p, s :: ss, x =>
      (if b then (s, climb node p ss x) else (climb node p ss x, s)) :: climbPairs p ss x
  | _, _, _ => []

/-- `P` holds at every inner node; it sees the height of the node's children. -/
def AllNodes (P : ℕ → α → α → Prop) : ℕ → (List Bool → α) → Prop
  | 0, _ => True
  | n + 1, leaf => P n (root node n (under false leaf)) (root node n (under true leaf)) ∧
      AllNodes P n (under false leaf) ∧ AllNodes P n (under true leaf)

@[simp] theorem length_siblings (leaf : List Bool → α) (p : List Bool) :
    (siblings node leaf p).length = p.length := by
  induction p generalizing leaf with
  | nil => rfl
  | cons b p ih => simp [siblings, ih]

/-- The honest climb ends at the root. -/
theorem climb_siblings (leaf : List Bool → α) (p : List Bool) :
    climb node p (siblings node leaf p) (leaf p) = root node p.length leaf := by
  induction p generalizing leaf with
  | nil => rfl
  | cons b p ih =>
    have h := ih (under b leaf)
    change climb node p (siblings node (under b leaf) p) (leaf (b :: p)) = _ at h
    cases b <;> simp [siblings, climb, root, h]

theorem under_update_same (b : Bool) (p : List Bool) (leaf : List Bool → α) (x : α) :
    under b (Function.update leaf (b :: p) x) = Function.update (under b leaf) p x := by
  funext q
  by_cases h : q = p <;> simp [under, h]

theorem under_update_other (b : Bool) (p : List Bool) (leaf : List Bool → α) (x : α) :
    under (!b) (Function.update leaf (b :: p) x) = under (!b) leaf := by
  funext q
  cases b <;> simp [under]

/-- Writing a leaf does not move the subtrees beside its path. -/
theorem siblings_update (leaf : List Bool → α) (p : List Bool) (x : α) :
    siblings node (Function.update leaf p x) p = siblings node leaf p := by
  induction p generalizing leaf with
  | nil => rfl
  | cons b p ih => simp only [siblings, under_update_same, under_update_other, ih]

/-- The root after a write is the climb from the new leaf along the old siblings. -/
theorem root_update (leaf : List Bool → α) (p : List Bool) (x : α) :
    root node p.length (Function.update leaf p x) = climb node p (siblings node leaf p) x := by
  rw [← climb_siblings, siblings_update, Function.update_self]

/-- Only the leaves at full depth count. -/
theorem root_congr {n : ℕ} {leaf leaf' : List Bool → α}
    (h : ∀ p : List Bool, p.length = n → leaf p = leaf' p) :
    root node n leaf = root node n leaf' := by
  induction n generalizing leaf leaf' with
  | zero => exact h [] rfl
  | succ n ih =>
    have hu : ∀ b, root node n (under b leaf) = root node n (under b leaf') :=
      fun b => ih fun p hp => h (b :: p) (by simp [hp])
    rw [root, root, hu, hu]

theorem allNodes_congr {P : ℕ → α → α → Prop} {n : ℕ} {leaf leaf' : List Bool → α}
    (h : ∀ p : List Bool, p.length = n → leaf p = leaf' p) (hn : AllNodes node P n leaf) :
    AllNodes node P n leaf' := by
  induction n generalizing leaf leaf' with
  | zero => trivial
  | succ n ih =>
    have hu : ∀ b (p : List Bool), p.length = n → under b leaf p = under b leaf' p :=
      fun b p hp => h (b :: p) (by simp [hp])
    refine ⟨?_, ih (hu false) hn.2.1, ih (hu true) hn.2.2⟩
    rw [← root_congr node (hu false), ← root_congr node (hu true)]
    exact hn.1

/-- The tree whose leaves are all the default leaf. -/
theorem root_default {dflt : ℕ → α} (hd : ∀ n, dflt (n + 1) = node (dflt n) (dflt n)) (n : ℕ) :
    root node n (fun _ => dflt 0) = dflt n := by
  induction n with
  | zero => rfl
  | succ n ih =>
    change node (root node n fun _ => dflt 0) (root node n fun _ => dflt 0) = _
    rw [ih, hd]

/-- Beside the one leaf that may differ from the default, every subtree is a default. -/
theorem siblings_lone {dflt : ℕ → α} (hd : ∀ n, dflt (n + 1) = node (dflt n) (dflt n))
    (p : List Bool) {leaf : List Bool → α}
    (h : ∀ q : List Bool, q.length = p.length → q ≠ p → leaf q = dflt 0) :
    siblings node leaf p = ((List.range p.length).map dflt).reverse := by
  induction p generalizing leaf with
  | nil => rfl
  | cons b p ih =>
    have hother : root node p.length (under (!b) leaf) = dflt p.length := by
      rw [← root_default node hd p.length]
      exact root_congr node fun q hq => h _ (by simp [hq]) (by simp)
    have hsame : ∀ q : List Bool, q.length = p.length → q ≠ p → under b leaf q = dflt 0 :=
      fun q hq hne => h _ (by simp [hq]) (by simpa using hne)
    rw [siblings, hother, ih hsame, List.length_cons, List.range_succ, List.map_append,
      List.reverse_append, List.map_singleton, List.reverse_singleton, List.singleton_append]

theorem allNodes_default {P : ℕ → α → α → Prop} {dflt : ℕ → α}
    (hd : ∀ n, dflt (n + 1) = node (dflt n) (dflt n)) {n : ℕ}
    (h : ∀ i < n, P i (dflt i) (dflt i)) : AllNodes node P n (fun _ => dflt 0) := by
  induction n with
  | zero => trivial
  | succ n ih =>
    have hn := ih fun i hi => h i (by omega)
    refine ⟨?_, hn, hn⟩
    change P n (root node n fun _ => dflt 0) (root node n fun _ => dflt 0)
    rw [root_default node hd]
    exact h n (by omega)

theorem allNodes_mono {P Q : ℕ → α → α → Prop} (h : ∀ n l r, P n l r → Q n l r) :
    ∀ {n : ℕ} {leaf : List Bool → α}, AllNodes node P n leaf → AllNodes node Q n leaf := by
  intro n
  induction n with
  | zero => exact fun _ => trivial
  | succ n ih => exact fun hn => ⟨h _ _ _ hn.1, ih hn.2.1, ih hn.2.2⟩

/-- A write replaces exactly the nodes on its path; those are the climbed pairs. -/
theorem allNodes_update {P : ℕ → α → α → Prop} (p : List Bool) (leaf : List Bool → α) (x : α)
    (hn : AllNodes node P p.length leaf)
    (hp : ∀ q ∈ climbPairs node p (siblings node leaf p) x, ∀ h, P h q.1 q.2) :
    AllNodes node P p.length (Function.update leaf p x) := by
  induction p generalizing leaf with
  | nil => trivial
  | cons b p ih =>
    obtain ⟨_, hf, ht⟩ := hn
    simp only [siblings, climbPairs, List.mem_cons, forall_eq_or_imp] at hp
    obtain ⟨htop, hrest⟩ := hp
    have hr := root_update node (under b leaf) p x
    cases b with
    | false =>
      have hsame := under_update_same false p leaf x
      have hother := under_update_other false p leaf x
      simp only [Bool.not_false] at hother htop
      refine ⟨?_, ?_, ?_⟩
      · rw [hsame, hother, hr]; exact htop _
      · rw [hsame]; exact ih _ hf hrest
      · rw [hother]; exact ht
    | true =>
      have hsame := under_update_same true p leaf x
      have hother := under_update_other true p leaf x
      simp only [Bool.not_true] at hother htop
      refine ⟨?_, ?_, ?_⟩
      · rw [hsame, hother, hr]; exact htop _
      · rw [hother]; exact hf
      · rw [hsame]; exact ih _ ht hrest

end Functional

section Collision

variable {node : α → α → α} {S : Set (α × α)}

theorem pair_eq (hS : Set.InjOn (fun q : α × α => node q.1 q.2) S) {l r l' r' : α}
    (h : (l, r) ∈ S) (h' : (l', r') ∈ S) (he : node l r = node l' r') : l = l' ∧ r = r' := by
  have hq := hS h h' he
  exact ⟨congrArg Prod.fst hq, congrArg Prod.snd hq⟩

/-- Every inner pair of the tree lies in `S`. -/
def PairsIn (node : α → α → α) (S : Set (α × α)) (n : ℕ) (leaf : List Bool → α) : Prop :=
  AllNodes node (fun _ l r => (l, r) ∈ S) n leaf

/-- Whatever siblings the prover picks, a climb that reaches the root started at
the leaf of the tree and went past its own siblings. -/
theorem climb_sound (hS : Set.InjOn (fun q : α × α => node q.1 q.2) S) {p : List Bool}
    {ss : List α} {x : α} {leaf : List Bool → α} (hlen : ss.length = p.length)
    (hpairs : ∀ q ∈ climbPairs node p ss x, q ∈ S) (hn : PairsIn node S p.length leaf)
    (he : climb node p ss x = root node p.length leaf) :
    x = leaf p ∧ ss = siblings node leaf p := by
  induction p generalizing ss leaf with
  | nil => exact ⟨he, List.length_eq_zero_iff.mp hlen⟩
  | cons b p ih =>
    obtain ⟨s, ss, rfl⟩ := List.exists_cons_of_length_eq_add_one hlen
    obtain ⟨htop, hf, ht⟩ := hn
    simp only [climbPairs, List.mem_cons, forall_eq_or_imp] at hpairs
    have hl : ss.length = p.length := by simpa using hlen
    cases b with
    | false =>
      obtain ⟨hx, hs⟩ := pair_eq hS hpairs.1 htop (by simpa [climb, root] using he)
      obtain ⟨h1, h2⟩ := ih hl hpairs.2 hf hx
      exact ⟨h1, by rw [siblings, hs, h2]; rfl⟩
    | true =>
      obtain ⟨hs, hx⟩ := pair_eq hS hpairs.1 htop (by simpa [climb, root] using he)
      obtain ⟨h1, h2⟩ := ih hl hpairs.2 ht hx
      exact ⟨h1, by rw [siblings, hs, h2]; rfl⟩

/-- Two trees of one height with one root have the same leaves. -/
theorem root_inj (hS : Set.InjOn (fun q : α × α => node q.1 q.2) S) {leaf leaf' : List Bool → α}
    (p : List Bool) (hn : PairsIn node S p.length leaf) (hn' : PairsIn node S p.length leaf')
    (he : root node p.length leaf = root node p.length leaf') : leaf p = leaf' p := by
  induction p generalizing leaf leaf' with
  | nil => exact he
  | cons b p ih =>
    obtain ⟨hl, hr⟩ := pair_eq hS hn.1 hn'.1 he
    cases b with
    | false => exact ih hn.2.1 hn'.2.1 hl
    | true => exact ih hn.2.2 hn'.2.2 hr

end Collision

section Stored

/-- A node store: digest of a node to the pair it was hashed from. -/
abbrev Store (α : Type*) := α → Option (α × α)

/-- Read the siblings along `p` out of the store. A missing node is a default
subtree, whose siblings are the defaults of the heights below it. -/
def descend (store : Store α) (dflt : ℕ → α) : List Bool → α → List α
  | [], _ => []
  | b :: p, cur =>
      match store cur with
      | some (l, r) => if b then l :: descend store dflt p r else r :: descend store dflt p l
      | none => ((List.range (p.length + 1)).map dflt).reverse

variable {node : α → α → α} {S : Set (α × α)} {store : Store α} {dflt : ℕ → α}

/-- Entries are filed under their own digest and were hashed inside `S`. -/
def Sound (node : α → α → α) (S : Set (α × α)) (store : Store α) : Prop :=
  ∀ h q, store h = some q → node q.1 q.2 = h ∧ q ∈ S

/-- A node may be missing only when it is the default of its height. -/
def Known (node : α → α → α) (store : Store α) (dflt : ℕ → α) (n : ℕ) (l r : α) : Prop :=
  store (node l r) = none → node l r = dflt (n + 1)

theorem lookup_eq (hS : Set.InjOn (fun q : α × α => node q.1 q.2) S) (hs : Sound node S store)
    {l r : α} (h : (l, r) ∈ S) {q : α × α} (hq : store (node l r) = some q) : q = (l, r) :=
  hS (hs _ _ hq).2 h (hs _ _ hq).1

/-- Inside a default subtree every sibling is a default. -/
theorem siblings_default (hS : Set.InjOn (fun q : α × α => node q.1 q.2) S)
    (hd : ∀ n, dflt (n + 1) = node (dflt n) (dflt n)) (p : List Bool) {leaf : List Bool → α}
    (hdS : ∀ n < p.length, (dflt n, dflt n) ∈ S) (hn : PairsIn node S p.length leaf)
    (he : root node p.length leaf = dflt p.length) :
    siblings node leaf p = ((List.range p.length).map dflt).reverse := by
  induction p generalizing leaf with
  | nil => rfl
  | cons b p ih =>
    rw [List.length_cons, root, hd] at he
    obtain ⟨hl, hr⟩ := pair_eq hS hn.1 (hdS _ (by simp)) he
    have hdS' : ∀ n < p.length, (dflt n, dflt n) ∈ S :=
      fun n h => hdS n (by simp; omega)
    rw [List.length_cons, List.range_succ, List.map_append, List.reverse_append, siblings]
    cases b with
    | false => rw [ih hdS' hn.2.1 hl]; simp [hr]
    | true => rw [ih hdS' hn.2.2 hr]; simp [hl]

/-- The descent through the cache reads exactly the siblings of the tree. -/
theorem descend_eq_siblings (hS : Set.InjOn (fun q : α × α => node q.1 q.2) S)
    (hs : Sound node S store) (hd : ∀ n, dflt (n + 1) = node (dflt n) (dflt n)) (p : List Bool)
    {leaf : List Bool → α} (hdS : ∀ n < p.length, (dflt n, dflt n) ∈ S)
    (hn : PairsIn node S p.length leaf)
    (hk : AllNodes node (Known node store dflt) p.length leaf) :
    descend store dflt p (root node p.length leaf) = siblings node leaf p := by
  induction p generalizing leaf with
  | nil => rfl
  | cons b p ih =>
    have hdS' : ∀ n < p.length, (dflt n, dflt n) ∈ S :=
      fun n h => hdS n (by simp; omega)
    cases hc : store (root node (b :: p).length leaf) with
    | some q =>
      obtain rfl := lookup_eq hS hs hn.1 hc
      cases b with
      | false => simp only [descend, hc, siblings, ih hdS' hn.2.1 hk.2.1]; rfl
      | true => simp only [descend, hc, siblings, ih hdS' hn.2.2 hk.2.2]; rfl
    | none =>
      have he : root node (b :: p).length leaf = dflt (b :: p).length := hk.1 hc
      rw [siblings_default hS hd (b :: p) hdS hn he, descend, hc]
      rfl

variable [DecidableEq α]

/-- Enter every pair of a path, bottom pair first. -/
def insertPath (node : α → α → α) (store : Store α) (pairs : List (α × α)) : Store α :=
  pairs.foldr (fun q st => Function.update st (node q.1 q.2) (some q)) store

theorem sound_insertPath (hs : Sound node S store) {pairs : List (α × α)}
    (hp : ∀ q ∈ pairs, q ∈ S) : Sound node S (insertPath node store pairs) := by
  induction pairs with
  | nil => exact hs
  | cons q pairs ih =>
    intro h q' hq'
    have ih := ih fun q hq => hp q (List.mem_cons_of_mem _ hq)
    simp only [insertPath, List.foldr_cons, Function.update_apply] at hq'
    split at hq'
    · rename_i he
      obtain rfl := Option.some.inj hq'
      exact ⟨he.symm, hp _ List.mem_cons_self⟩
    · exact ih h q' hq'

/-- Insertion never forgets a digest, and remembers every inserted pair. -/
theorem insertPath_eq_none {pairs : List (α × α)} {h : α}
    (hn : insertPath node store pairs h = none) :
    store h = none ∧ ∀ q ∈ pairs, node q.1 q.2 ≠ h := by
  induction pairs with
  | nil => exact ⟨hn, by simp⟩
  | cons q pairs ih =>
    simp only [insertPath, List.foldr_cons, Function.update_apply] at hn
    split at hn
    · cases hn
    · rename_i hne
      obtain ⟨h1, h2⟩ := ih hn
      refine ⟨h1, ?_⟩
      rintro q' hq' rfl
      rcases List.mem_cons.mp hq' with rfl | hm
      · exact hne rfl
      · exact h2 q' hm rfl

/-- A write through the cache: the new tree is covered by the extended store. -/
theorem known_insertPath (p : List Bool) (leaf : List Bool → α) (x : α)
    (hk : AllNodes node (Known node store dflt) p.length leaf) :
    AllNodes node (Known node (insertPath node store
      (climbPairs node p (siblings node leaf p) x)) dflt) p.length (Function.update leaf p x) := by
  apply allNodes_update
  · exact allNodes_mono node (fun n l r h hnone => h (insertPath_eq_none hnone).1) hk
  · intro q hq _ hnone
    exact absurd rfl ((insertPath_eq_none hnone).2 q hq)

end Stored

end PslBank.Lib.Merkle
