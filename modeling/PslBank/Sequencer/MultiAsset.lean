import PslBank.Sequencer.Ledger

/-!
# `multi_asset` against chained transfers

`multi_asset` computes every transfer from the accounts as they were before the
first one and hands all updated records back in order. Chained transfers read the
state the previous one left. The two agree on every state exactly when the list of
pairs is not empty (an empty witness is an error) and no account occurs in two
different pairs.
-/
namespace PslBank.Sequencer

open PslBank.Lib PslBank.Crypto

set_option autoImplicit false

/-- The pairs `(from_i, to_i)` of a multi-asset payment. -/
abbrev Pairs := List (PublicKey × PublicKey)

/-- The witness accounts `(from_0, to_0, from_1, to_1, …)` read from one state. -/
def snapshot (s : State) (pairs : Pairs) : List Account :=
  pairs.flatMap fun p => [s.account p.1, s.account p.2]

/-- The witness of `multi_asset`; it does not read the flag. -/
def multiWitness (s : State) (epoch : UInt32) (amount : ByteArr 16) (pairs : Pairs) : Witness :=
  ⟨epoch, snapshot s pairs, amount, 0⟩

section

variable [Blake3]

/-- The transfers one after the other: the state they leave, and whether all succeeded. -/
def chainedTransfers (epoch : UInt32) (amount : ByteArr 16) : State → Pairs → State × Bool
  | s, [] => (s, true)
  | s, p :: pairs =>
      match NativeTraceExecutor.transfer ⟨epoch, [s.account p.1, s.account p.2], amount, 0⟩ with
      | .error _ => (s, false)
      | .ok res =>
          let (s', allSuccess) := chainedTransfers epoch amount (writeBack s res) pairs
          (s', res.success && allSuccess)

/-- A successful `multi_asset` leaves the state of the chained transfers, and it
succeeds exactly when they all do. -/
def MatchesChain (s : State) (epoch : UInt32) (amount : ByteArr 16) (pairs : Pairs) : Prop :=
  (∀ res, NativeTraceExecutor.multiAsset (multiWitness s epoch amount pairs) = .ok res →
    res.success = true → writeBack s res = (chainedTransfers epoch amount s pairs).1) ∧
  ((∃ res, NativeTraceExecutor.multiAsset (multiWitness s epoch amount pairs) = .ok res ∧
    res.success = true) ↔ (chainedTransfers epoch amount s pairs).2 = true)

end

/-- No account of one pair occurs in the other. -/
def Apart (p q : PublicKey × PublicKey) : Prop :=
  p.1 ≠ q.1 ∧ p.1 ≠ q.2 ∧ p.2 ≠ q.1 ∧ p.2 ≠ q.2

instance (p q : PublicKey × PublicKey) : Decidable (Apart p q) :=
  inferInstanceAs (Decidable (p.1 ≠ q.1 ∧ p.1 ≠ q.2 ∧ p.2 ≠ q.1 ∧ p.2 ≠ q.2))

/-! ## What the two sides compute -/

section

variable {epoch : UInt32} {amount : ByteArr 16}

theorem snapshot_cons (s : State) (p : PublicKey × PublicKey) (pairs : Pairs) :
    snapshot s (p :: pairs) = s.account p.1 :: s.account p.2 :: snapshot s pairs := rfl

theorem length_snapshot (s : State) (pairs : Pairs) : (snapshot s pairs).length = 2 * pairs.length := by
  induction pairs with
  | nil => rfl
  | cons p pairs ih =>
    rw [snapshot_cons, List.length_cons, List.length_cons, ih, List.length_cons]
    omega

theorem multiAsset_nil (s : State) :
    NativeTraceExecutor.multiAsset (multiWitness s epoch amount []) =
      .error "multi_asset needs an even, nonzero number of accounts" := rfl

theorem multiAsset_eq (s : State) {pairs : Pairs} (h : pairs ≠ []) :
    NativeTraceExecutor.multiAsset (multiWitness s epoch amount pairs) =
      .ok ⟨(NativeTraceExecutor.multiAssetLoop epoch (leNat amount.toList) (snapshot s pairs)).1,
        nativeTraceMarker,
        (NativeTraceExecutor.multiAssetLoop epoch (leNat amount.toList) (snapshot s pairs)).2⟩ := by
  have heven : (snapshot s pairs).length % 2 = 0 := by
    rw [length_snapshot]
    omega
  have hsome : (snapshot s pairs).isEmpty = false := by
    cases pairs with
    | nil => exact absurd rfl h
    | cons p pairs => rfl
  unfold NativeTraceExecutor.multiAsset multiWitness
  simp only [heven, hsome, bne_self_eq_false, Bool.or_self, Bool.false_eq_true, ↓reduceIte]

theorem multiAssetLoop_cons (s : State) (p : PublicKey × PublicKey) (pairs : Pairs) (n : ℕ) :
    NativeTraceExecutor.multiAssetLoop epoch n (snapshot s (p :: pairs)) =
      match transferPair epoch n (s.account p.1) (s.account p.2) with
      | none => (Account.default :: Account.default ::
          (NativeTraceExecutor.multiAssetLoop epoch n (snapshot s pairs)).1, false)
      | some (a, b) => (a :: b :: (NativeTraceExecutor.multiAssetLoop epoch n (snapshot s pairs)).1,
          (NativeTraceExecutor.multiAssetLoop epoch n (snapshot s pairs)).2) := rfl

theorem chainedTransfers_cons [Blake3] (s : State) (p : PublicKey × PublicKey) (pairs : Pairs) :
    chainedTransfers epoch amount s (p :: pairs) =
      match transferPair epoch (leNat amount.toList) (s.account p.1) (s.account p.2) with
      | none => ((chainedTransfers epoch amount s pairs).1, false)
      | some (a, b) => chainedTransfers epoch amount ((s.putAccount a).putAccount b) pairs := by
  rw [chainedTransfers]
  unfold NativeTraceExecutor.transfer
  cases hp : transferPair epoch (leNat amount.toList) (s.account p.1) (s.account p.2) with
  | none =>
    simp only [hp, refused, Bool.false_and]
    rfl
  | some pair =>
    simp only [hp, applied, Bool.true_and, Prod.mk.eta]
    rfl

end

/-! ## Disjoint pairs: the snapshots are what the chain reads -/

section

variable [Blake3]

/-- The chain from `t` against the loop over a snapshot of `s`, where `s` and `t`
agree on the accounts of the pairs. -/
theorem chainedTransfers_eq_loop (epoch : UInt32) (amount : ByteArr 16) {s : State}
    (hs : s.WellKeyed) {pairs : Pairs} (hd : pairs.Pairwise Apart) {t : State}
    (hagree : ∀ p ∈ pairs, t.account p.1 = s.account p.1 ∧ t.account p.2 = s.account p.2) :
    (chainedTransfers epoch amount t pairs).2 =
        (NativeTraceExecutor.multiAssetLoop epoch (leNat amount.toList) (snapshot s pairs)).2 ∧
      ((NativeTraceExecutor.multiAssetLoop epoch (leNat amount.toList) (snapshot s pairs)).2 = true →
        (chainedTransfers epoch amount t pairs).1 =
          (NativeTraceExecutor.multiAssetLoop epoch (leNat amount.toList)
            (snapshot s pairs)).1.foldl State.putAccount t) := by
  induction pairs generalizing t with
  | nil => exact ⟨rfl, fun _ => rfl⟩
  | cons p pairs ih =>
    rw [List.pairwise_cons] at hd
    obtain ⟨h1, h2⟩ := hagree p List.mem_cons_self
    rw [chainedTransfers_cons, multiAssetLoop_cons, h1, h2]
    cases hp : transferPair epoch (leNat amount.toList) (s.account p.1) (s.account p.2) with
    | none => simp
    | some pair =>
      obtain ⟨a, b⟩ := pair
      obtain ⟨-, ⟨hak, -⟩, ⟨hbk, -⟩⟩ := transferPair_spec hp
      rw [hs] at hak hbk
      simp only [List.foldl_cons]
      refine ih hd.2 fun q hq => ?_
      obtain ⟨hq1, hq2⟩ := hagree q (List.mem_cons_of_mem _ hq)
      obtain ⟨h11, h12, h21, h22⟩ := hd.1 q hq
      -- the two records just written are under keys of `p`, not of `q`
      have hkeep : ∀ k, p.1 ≠ k → p.2 ≠ k →
          ((t.putAccount a).putAccount b).account k = t.account k := by
        intro k hk1 hk2
        rw [State.account_putAccount, State.account_putAccount, hak, hbk, if_neg (Ne.symm hk2),
          if_neg (Ne.symm hk1)]
      exact ⟨(hkeep q.1 h11 h21).trans hq1, (hkeep q.2 h12 h22).trans hq2⟩

theorem matchesChain_of_apart {epoch : UInt32} {amount : ByteArr 16} {s : State}
    (hs : s.WellKeyed) {pairs : Pairs} (hne : pairs ≠ []) (hd : pairs.Pairwise Apart) : MatchesChain s epoch amount pairs := by
  obtain ⟨hsucc, hstate⟩ := chainedTransfers_eq_loop epoch amount hs hd (t := s)
    fun p _ => ⟨rfl, rfl⟩
  unfold MatchesChain
  rw [multiAsset_eq s hne, hsucc]
  constructor
  · intro res hres hok
    obtain rfl := Except.ok.inj hres
    unfold writeBack
    rw [if_pos hok]
    exact (hstate hok).symm
  · constructor
    · rintro ⟨res, hres, hok⟩
      obtain rfl := Except.ok.inj hres
      exact hok
    · exact fun hok => ⟨_, rfl, hok⟩

end

/-! ## Overlapping pairs: one unit each tells them apart

With one unit in every account and amount one, the chain counts how often an
account pays and is paid, while the write-back keeps only its last record. -/

/-- How often `k` pays another account. -/
def sends (k : PublicKey) (pairs : Pairs) : ℕ := pairs.countP fun p => decide (p.1 = k ∧ p.2 ≠ k)

/-- How often `k` is paid. -/
def receives (k : PublicKey) (pairs : Pairs) : ℕ := pairs.countP fun p => decide (p.2 = k)

def oneUnit : ByteArr 16 := amountOfNat 1

theorem leNat_oneUnit : leNat oneUnit.toList = 1 := by
  decide +kernel

/-- One unit, not frozen, nonce zero. -/
def oneUnitHolding : Holding := ⟨1, by decide, false, 0⟩

theorem pairwise_apart_of_count {pairs : Pairs}
    (h : ∀ k, sends k pairs + receives k pairs ≤ 1) : pairs.Pairwise Apart := by
  induction pairs with
  | nil => exact List.Pairwise.nil
  | cons p pairs ih =>
    -- a pair of which `k` is part counts once
    have hpart : ∀ (k : PublicKey) (q : PublicKey × PublicKey), q.1 = k ∨ q.2 = k →
        sends k [q] + receives k [q] = 1 := by
      intro k q hq
      by_cases h2 : q.2 = k
      · simp [sends, receives, h2]
      · simp [sends, receives, h2, hq.resolve_right h2]
    have hcons : ∀ k, sends k (p :: pairs) + receives k (p :: pairs) =
        (sends k [p] + receives k [p]) + (sends k pairs + receives k pairs) := by
      intro k
      simp only [sends, receives, List.countP_cons, List.countP_nil]
      omega
    have hmem : ∀ (k : PublicKey) q, q ∈ pairs → q.1 = k ∨ q.2 = k →
        1 ≤ sends k pairs + receives k pairs := by
      intro k q hq hk
      by_cases h2 : q.2 = k
      · have hpos : 0 < receives k pairs := List.countP_pos_iff.mpr ⟨q, hq, by simpa using h2⟩
        omega
      · have hpos : 0 < sends k pairs :=
          List.countP_pos_iff.mpr ⟨q, hq, by simpa [h2] using hk.resolve_right h2⟩
        omega
    have hno : ∀ k, p.1 = k ∨ p.2 = k → ∀ q ∈ pairs, ¬ (q.1 = k ∨ q.2 = k) := by
      intro k hk q hq hqk
      have hle := h k
      rw [hcons, hpart k p hk] at hle
      have hge := hmem k q hq hqk
      omega
    rw [List.pairwise_cons]
    refine ⟨fun q hq => ?_, ih fun k => ?_⟩
    · have h1 := hno p.1 (.inl rfl) q hq
      have h2 := hno p.2 (.inr rfl) q hq
      exact ⟨fun e => h1 (.inl e.symm), fun e => h1 (.inr e.symm), fun e => h2 (.inl e.symm),
        fun e => h2 (.inr e.symm)⟩
    · have hle := h k
      rw [hcons] at hle
      omega

/-- Everyone who pays has the unit to pay with. -/
theorem multiAssetLoop_succeeds (epoch : UInt32) {s : State} {pairs : Pairs}
    (h : ∀ p ∈ pairs, s.ledger p.1 = oneUnitHolding) :
    (NativeTraceExecutor.multiAssetLoop epoch 1 (snapshot s pairs)).2 = true := by
  induction pairs with
  | nil => rfl
  | cons p pairs ih =>
    have hp := h p List.mem_cons_self
    have hfrozen : (s.account p.1).isFrozen = false := congrArg Holding.frozen hp
    have hbalance : (s.account p.1).balance = 1 := congrArg Holding.balance hp
    have hsome : ∃ pair, transferPair epoch 1 (s.account p.1) (s.account p.2) = some pair := by
      unfold transferPair
      rw [hfrozen, hbalance]
      exact ⟨_, rfl⟩
    obtain ⟨pair, hpair⟩ := hsome
    rw [multiAssetLoop_cons, hpair]
    exact ih fun q hq => h q (List.mem_cons_of_mem _ hq)

section

variable [Blake3]

/-- One unit for each of the keys. -/
def fund (keys : List PublicKey) : State :=
  keys.foldl (fun s k => s.putAccount ((Account.new k).setBalance 1)) State.new

theorem fund_spec (keys : List PublicKey) :
    (fund keys).WellKeyed ∧ ∀ k ∈ keys, (fund keys).ledger k = oneUnitHolding := by
  have hone : ∀ k, holding ((Account.new k).setBalance 1) = oneUnitHolding := by
    intro k
    have h := holding_deposit (Account.new k) (n := 1) (by rw [Account.balance_new]; decide)
    rw [Account.balance_new, Nat.zero_add] at h
    rw [h]
    ext <;> simp [holding, oneUnitHolding]
  -- a key already served keeps its unit
  have hfold : ∀ (ks : List PublicKey) (s : State), s.WellKeyed →
      (ks.foldl (fun s k => s.putAccount ((Account.new k).setBalance 1)) s).WellKeyed ∧
        ∀ k, k ∈ ks ∨ s.ledger k = oneUnitHolding →
          (ks.foldl (fun s k => s.putAccount ((Account.new k).setBalance 1)) s).ledger k =
            oneUnitHolding := by
    intro ks
    induction ks with
    | nil => exact fun s hs => ⟨hs, fun k hk => hk.resolve_left (by simp)⟩
    | cons k0 ks ih =>
      intro s hs
      obtain ⟨hkeyed, hunit⟩ := ih _ (hs.putAccount ((Account.new k0).setBalance 1))
      refine ⟨hkeyed, fun k hk => hunit k ?_⟩
      rw [ledger_putAccount, Account.pubkey_setBalance, Account.pubkey_new, hone]
      by_cases h0 : k = k0
      · subst h0
        exact .inr (Function.update_self _ _ _)
      · rw [Function.update_of_ne h0]
        rcases hk with hk | hk
        · exact .inl ((List.mem_cons.mp hk).resolve_left h0)
        · exact .inr hk
  obtain ⟨hkeyed, hunit⟩ := hfold keys State.new State.wellKeyed_new
  exact ⟨hkeyed, fun k hk => hunit k (.inl hk)⟩

theorem ledger_pair {epoch : UInt32} {n : ℕ} {s t : State} {p : PublicKey × PublicKey}
    {a b : Account} (hs : s.WellKeyed)
    (hp : transferPair epoch n (s.account p.1) (s.account p.2) = some (a, b)) :
    n ≤ (s.ledger p.1).balance ∧ ((t.putAccount a).putAccount b).ledger =
      Function.update (Function.update t.ledger p.1 ((s.ledger p.1).withdraw n).bump) p.2
        ((s.ledger p.2).deposit n) := by
  obtain ⟨hcan, ⟨hak, hah⟩, ⟨hbk, hbh⟩⟩ := transferPair_spec hp
  rw [ledger_putAccount, ledger_putAccount, hak, hbk, hs, hs, hah, hbh]
  exact ⟨hcan.2, rfl⟩

/-- A chain of one-unit transfers that all succeed counts payments in nonces and
balances. -/
theorem chainedTransfers_counts {epoch : UInt32} {s : State} (hs : s.WellKeyed) {pairs : Pairs}
    (hall : (chainedTransfers epoch oneUnit s pairs).2 = true) (k : PublicKey)
    (hnonce : (s.ledger k).nonce.toNat + pairs.length < 2 ^ 64)
    (hbalance : (s.ledger k).balance + pairs.length < 2 ^ 127) :
    ((chainedTransfers epoch oneUnit s pairs).1.ledger k).nonce.toNat =
        (s.ledger k).nonce.toNat + sends k pairs ∧
      ((chainedTransfers epoch oneUnit s pairs).1.ledger k).balance + sends k pairs =
        (s.ledger k).balance + receives k pairs := by
  induction pairs generalizing s with
  | nil => exact ⟨rfl, rfl⟩
  | cons p pairs ih =>
    rw [chainedTransfers_cons, leNat_oneUnit] at hall ⊢
    cases hp : transferPair epoch 1 (s.account p.1) (s.account p.2) with
    | none =>
      rw [hp] at hall
      cases hall
    | some pair =>
      obtain ⟨a, b⟩ := pair
      rw [hp] at hall
      simp only at hall ⊢
      obtain ⟨hle, hledger⟩ := ledger_pair (t := s) hs hp
      have hkeyed : ((s.putAccount a).putAccount b).WellKeyed := (hs.putAccount a).putAccount b
      rw [List.length_cons] at hnonce hbalance
      -- what the first pair does to `k`
      have hfirst : (((s.putAccount a).putAccount b).ledger k).nonce.toNat =
            (s.ledger k).nonce.toNat + sends k [p] ∧
          (((s.putAccount a).putAccount b).ledger k).balance + sends k [p] =
            (s.ledger k).balance + receives k [p] := by
        rw [hledger]
        by_cases h2 : p.2 = k
        · subst h2
          rw [Function.update_self, Holding.nonce_deposit, Holding.balance_deposit,
            Nat.mod_eq_of_lt (by omega)]
          simp [sends, receives]
        · rw [Function.update_of_ne (Ne.symm h2)]
          by_cases h1 : p.1 = k
          · subst h1
            have hsucc := toNat_nonce_succ (lt_of_le_of_lt (Nat.add_le_add_left
              (Nat.le_add_left 1 pairs.length) (s.ledger p.1).nonce.toNat) hnonce)
            rw [Function.update_self, Holding.nonce_bump, Holding.nonce_withdraw, hsucc,
              Holding.balance_bump, Holding.balance_withdraw]
            simp [sends, receives, h2, Nat.sub_add_cancel hle]
          · rw [Function.update_of_ne (Ne.symm h1)]
            simp [sends, receives, h1, h2]
      have hsends : sends k (p :: pairs) = sends k [p] + sends k pairs := by
        simp [sends, List.countP_cons, Nat.add_comm]
      have hreceives : receives k (p :: pairs) = receives k [p] + receives k pairs := by
        simp [receives, List.countP_cons, Nat.add_comm]
      have hs1 : sends k [p] ≤ 1 := List.countP_le_length
      have hr1 : receives k [p] ≤ 1 := List.countP_le_length
      obtain ⟨hn, hb⟩ := ih hkeyed hall (by omega) (by omega)
      omega

/-- After the write-back an account of the pairs has one of two records. -/
theorem multiAssetLoop_last {epoch : UInt32} {n : ℕ} {s : State} (hs : s.WellKeyed) {pairs : Pairs}
    (hall : (NativeTraceExecutor.multiAssetLoop epoch n (snapshot s pairs)).2 = true) (t : State)
    (k : PublicKey) :
    let L' := ((NativeTraceExecutor.multiAssetLoop epoch n (snapshot s pairs)).1.foldl
      State.putAccount t).ledger
    (L' k = t.ledger k ∧ sends k pairs + receives k pairs = 0) ∨
      L' k = ((s.ledger k).withdraw n).bump ∨ L' k = (s.ledger k).deposit n := by
  induction pairs generalizing t with
  | nil => exact .inl ⟨rfl, rfl⟩
  | cons p pairs ih =>
    rw [multiAssetLoop_cons] at hall ⊢
    cases hp : transferPair epoch n (s.account p.1) (s.account p.2) with
    | none =>
      rw [hp] at hall
      cases hall
    | some pair =>
      obtain ⟨a, b⟩ := pair
      rw [hp] at hall
      simp only [List.foldl_cons] at hall ⊢
      obtain ⟨-, hledger⟩ := ledger_pair (t := t) hs hp
      rcases ih hall ((t.putAccount a).putAccount b) with ⟨hsame, hnone⟩ | hlast
      · rw [hsame, hledger]
        by_cases h2 : k = p.2
        · subst h2
          exact .inr (.inr (Function.update_self _ _ _))
        · rw [Function.update_of_ne h2]
          by_cases h1 : k = p.1
          · subst h1
            exact .inr (.inl (Function.update_self _ _ _))
          · rw [Function.update_of_ne h1]
            refine .inl ⟨rfl, ?_⟩
            simpa [sends, receives, List.countP_cons, Ne.symm h1, Ne.symm h2] using hnone
      · exact .inr hlast

/-- On every state the pairs of a multi-asset payment act like chained transfers,
exactly when there is a pair and no account is in two of them. -/
theorem multi_asset_matches_chain_iff {pairs : Pairs} (hlen : 2 * pairs.length < 2 ^ 64) :
    (∀ (s : State) (epoch : UInt32) (amount : ByteArr 16), s.WellKeyed →
      MatchesChain s epoch amount pairs) ↔ pairs ≠ [] ∧ pairs.Pairwise Apart := by
  constructor
  · intro h
    have hne : pairs ≠ [] := by
      rintro rfl
      obtain ⟨res, hres, -⟩ := (h State.new 0 oneUnit State.wellKeyed_new).2.mpr rfl
      rw [multiAsset_nil] at hres
      cases hres
    refine ⟨hne, pairwise_apart_of_count fun k => ?_⟩
    -- `k` and everyone who pays start with one unit
    obtain ⟨hkeyed, hunit⟩ := fund_spec (k :: pairs.map Prod.fst)
    generalize fund (k :: pairs.map Prod.fst) = s at hkeyed hunit
    have hk := hunit k List.mem_cons_self
    have hloop := multiAssetLoop_succeeds 0 fun p (hp : p ∈ pairs) =>
      hunit p.1 (List.mem_cons_of_mem _ (List.mem_map_of_mem hp))
    obtain ⟨hstate, hsuccess⟩ := h s 0 oneUnit hkeyed
    rw [multiAsset_eq s hne, leNat_oneUnit] at hstate hsuccess
    have hall := hsuccess.mp ⟨_, rfl, hloop⟩
    have heq := hstate _ rfl hloop
    unfold writeBack at heq
    rw [if_pos hloop] at heq
    obtain ⟨hn, hb⟩ := chainedTransfers_counts hkeyed hall k
      (by rw [hk]; show 0 + pairs.length < 2 ^ 64; omega)
      (by rw [hk]; show 1 + pairs.length < 2 ^ 127; omega)
    rw [← heq, hk] at hn hb
    have hlast := multiAssetLoop_last hkeyed hloop s k
    rw [hk] at hlast
    rcases hlast with ⟨-, hzero⟩ | hpaid | hgot
    · omega
    · rw [hpaid] at hn hb
      change 1 = 0 + sends k pairs at hn
      change 0 + sends k pairs = 1 + receives k pairs at hb
      omega
    · rw [hgot] at hn hb
      change 0 = 0 + sends k pairs at hn
      change 2 + sends k pairs = 1 + receives k pairs at hb
      omega
  · exact fun h s epoch amount hs => matchesChain_of_apart hs h.1 h.2

end

section Sample

attribute [local instance] sampleBlake3

/-- Alice, with ten units. -/
def aliceWithTen : State := State.new.putAccount ((Account.new alice).setBalance 10)

theorem multi_asset_matches_chain_two_payers :
    2 * [(alice, bob), (carol, issuer)].length < 2 ^ 64 ∧
      MatchesChain aliceWithTen 1 (amountOfNat 4) [(alice, bob), (carol, issuer)] :=
  ⟨by decide,
    (multi_asset_matches_chain_iff (by decide)).mpr ⟨by decide, by decide +kernel⟩
      aliceWithTen 1 (amountOfNat 4) (State.wellKeyed_new.putAccount _)⟩

/-- Alice pays four units to Bob and four to Carol: chained she is left with two
units, after the write-back with six. -/
theorem multi_asset_not_chain_one_payer :
    aliceWithTen.WellKeyed ∧
      ¬ MatchesChain aliceWithTen 1 (amountOfNat 4) [(alice, bob), (alice, carol)] := by
  refine ⟨State.wellKeyed_new.putAccount _, fun h => ?_⟩
  have hleft : ((chainedTransfers 1 (amountOfNat 4) aliceWithTen
      [(alice, bob), (alice, carol)]).1.account alice).balance = 2 := by
    decide +kernel
  have hmulti : (NativeTraceExecutor.multiAsset (multiWitness aliceWithTen 1 (amountOfNat 4)
      [(alice, bob), (alice, carol)])).toOption.map
        (fun res => ((writeBack aliceWithTen res).account alice).balance) = some 6 := by
    decide +kernel
  obtain ⟨res, hres, hok⟩ := h.2.mpr (by decide +kernel)
  have heq := h.1 res hres hok
  rw [hres] at hmulti
  have hsix := Option.some.inj hmulti
  simp only [heq] at hsix
  omega

end Sample

end PslBank.Sequencer
