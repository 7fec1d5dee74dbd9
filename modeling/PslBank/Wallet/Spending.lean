import PslBank.Lib.Runs
import PslBank.Wallet.Policy
import Mathlib.Data.List.TakeWhile

/-!
# The spending tracker

`SpendingTracker` of `agent_wallet/src/policy.rs`. The queue is in the order of
admission, and a call drops its front while that is older than the window at the clock
of the call. What is dropped is forgotten for good, also when the call is refused. A
caller with an earlier clock is then judged without spends that lie in its own window,
so the cap of a rolling window is kept only while no forgotten spend comes near a later
clock; clocks that never run back are enough for that.
-/
namespace PslBank.Wallet

open PslBank.Lib PslBank.Crypto

set_option autoImplicit false

/-- A recorded spend: its time in seconds and its amount. -/
abbrev Spend := UInt64 × BitVec 128

def KeyPolicy.allowsContract (p : KeyPolicy) (contract : String) : Bool :=
  p.allowedContracts.isEmpty || p.allowedContracts.any (· == contract)

def KeyPolicy.allowsCounterparty (p : KeyPolicy) (cp : PublicKey) : Bool :=
  p.allowedCounterparties.isEmpty || p.allowedCounterparties.any (· == cp)

def KeyPolicy.expired (p : KeyPolicy) (now : UInt64) : Bool :=
  p.expiryUnix != 0 && decide (p.expiryUnix ≤ now)

/-- `u128::saturating_add`. -/
def saturatingAdd (a b : ℕ) : ℕ := min (a + b) (2 ^ 128 - 1)

structure SpendingTracker where
  policy : KeyPolicy
  spends : List Spend

namespace SpendingTracker

def new (policy : KeyPolicy) : SpendingTracker := ⟨policy, []⟩

/-- `now.saturating_sub(window_secs)`. -/
def cutoff (t : SpendingTracker) (now : UInt64) : ℕ := now.toNat - t.policy.windowSecs.toNat

def evictExpired (t : SpendingTracker) (now : UInt64) : SpendingTracker :=
  { t with spends := t.spends.dropWhile fun s => decide (s.1.toNat < t.cutoff now) }

def currentWindowTotal (t : SpendingTracker) (now : UInt64) : SpendingTracker × ℕ :=
  let t := t.evictExpired now
  (t, t.spends.foldl (fun total s => saturatingAdd total s.2.toNat) 0)

def trySpend (t : SpendingTracker) (now : UInt64) (amount : BitVec 128) :
    SpendingTracker × Except WalletError Unit :=
  if t.policy.expired now then (t, .error (.policyExpired t.policy.expiryUnix now))
  else
    let (t, current) := t.currentWindowTotal now
    let wouldSpend := current + amount.toNat
    if 2 ^ 128 ≤ wouldSpend then
      (t, .error (.policyOverspend (BitVec.allOnes 128) t.policy.capPerWindow))
    else if t.policy.capPerWindow.toNat < wouldSpend then
      (t, .error (.policyOverspend (BitVec.ofNat 128 wouldSpend) t.policy.capPerWindow))
    else ({ t with spends := t.spends ++ [(now, amount)] }, .ok ())

/-- `admit`: the allow-lists, then the window. -/
def admitSpend (t : SpendingTracker) (now : UInt64) (contract : String) (counterparty : PublicKey)
    (amount : BitVec 128) : SpendingTracker × Except WalletError Unit :=
  if !t.policy.allowsContract contract then (t, .error (.policyContractDisallowed contract))
  else if !t.policy.allowsCounterparty counterparty then
    (t, .error (.policyCounterpartyDisallowed counterparty))
  else t.trySpend now amount

end SpendingTracker

/-! ## What one call does -/

/-- The sum of the amounts. -/
def amountOf (spends : List Spend) : ℕ := (spends.map (·.2.toNat)).sum

theorem amountOf_append (l m : List Spend) : amountOf (l ++ m) = amountOf l + amountOf m := by
  simp [amountOf]

theorem amountOf_singleton (s : Spend) : amountOf [s] = s.2.toNat := by simp [amountOf]

theorem amountOf_sublist {l m : List Spend} (h : l.Sublist m) : amountOf l ≤ amountOf m :=
  (h.map _).sum_le_sum fun _ _ => Nat.zero_le _

/-- Below the top of `u128` the saturating sum is the sum. -/
theorem foldl_saturatingAdd (spends : List Spend) {total : ℕ}
    (h : total + amountOf spends < 2 ^ 128) :
    spends.foldl (fun total s => saturatingAdd total s.2.toNat) total = total + amountOf spends := by
  induction spends generalizing total with
  | nil => rfl
  | cons s spends ih =>
    have hsplit : amountOf (s :: spends) = s.2.toNat + amountOf spends := rfl
    rw [hsplit] at h
    have hexact : saturatingAdd total s.2.toNat = total + s.2.toNat := by
      unfold saturatingAdd
      omega
    rw [List.foldl_cons, hexact, ih (by omega), hsplit, Nat.add_assoc]

/-- The arguments of one `admit`. -/
structure AdmitCall where
  now : UInt64
  contract : String
  counterparty : PublicKey
  amount : BitVec 128
  deriving DecidableEq

namespace SpendingTracker

/-- The call gets as far as the window total. -/
def Judges (t : SpendingTracker) (c : AdmitCall) : Prop :=
  t.policy.allowsContract c.contract = true ∧ t.policy.allowsCounterparty c.counterparty = true ∧
    t.policy.expired c.now = false

theorem evictExpired_suffix (t : SpendingTracker) (now : UInt64) :
    (t.evictExpired now).spends <:+ t.spends := List.dropWhile_suffix _

/-- A call is refused, with or without eviction, or it appends its spend to a queue in
which there was room for it. -/
theorem admitSpend_cases (t : SpendingTracker) (c : AdmitCall)
    (hq : amountOf t.spends ≤ t.policy.capPerWindow.toNat) :
    (∃ kept e, (kept = t.spends ∨ kept = (t.evictExpired c.now).spends) ∧
      t.admitSpend c.now c.contract c.counterparty c.amount = (⟨t.policy, kept⟩, .error e)) ∨
    t.Judges c ∧
      amountOf (t.evictExpired c.now).spends + c.amount.toNat ≤ t.policy.capPerWindow.toNat ∧
      t.admitSpend c.now c.contract c.counterparty c.amount =
        (⟨t.policy, (t.evictExpired c.now).spends ++ [(c.now, c.amount)]⟩, .ok ()) := by
  have hcap := t.policy.capPerWindow.isLt
  have hle := amountOf_sublist (t.evictExpired_suffix c.now).sublist
  have htotal : (t.evictExpired c.now).spends.foldl
      (fun total s => saturatingAdd total s.2.toNat) 0 = amountOf (t.evictExpired c.now).spends := by
    rw [foldl_saturatingAdd _ (by omega), Nat.zero_add]
  cases hcontract : t.policy.allowsContract c.contract with
  | false => exact .inl ⟨t.spends, _, Or.inl rfl, by simp [admitSpend, hcontract]; rfl⟩
  | true =>
    cases hparty : t.policy.allowsCounterparty c.counterparty with
    | false => exact .inl ⟨t.spends, _, Or.inl rfl, by simp [admitSpend, hcontract, hparty]; rfl⟩
    | true =>
      have hspend : t.admitSpend c.now c.contract c.counterparty c.amount = t.trySpend c.now c.amount := by
        simp [admitSpend, hcontract, hparty]
      rw [hspend]
      cases hexpired : t.policy.expired c.now with
      | true => exact .inl ⟨t.spends, _, Or.inl rfl, by simp [trySpend, hexpired]; rfl⟩
      | false =>
        simp only [trySpend, hexpired, currentWindowTotal, htotal, Bool.false_eq_true, ↓reduceIte]
        by_cases hfits : 2 ^ 128 ≤ amountOf (t.evictExpired c.now).spends + c.amount.toNat
        · rw [if_pos hfits]
          exact .inl ⟨_, _, Or.inr rfl, rfl⟩
        · rw [if_neg hfits]
          by_cases hover : (t.evictExpired c.now).policy.capPerWindow.toNat <
              amountOf (t.evictExpired c.now).spends + c.amount.toNat
          · rw [if_pos hover]
            exact .inl ⟨_, _, Or.inr rfl, rfl⟩
          · rw [if_neg hover]
            exact .inr ⟨⟨hcontract, hparty, hexpired⟩, Nat.le_of_not_lt hover, rfl⟩

end SpendingTracker

/-! ## Whole histories of calls -/

/-- The tracker with everything it has admitted, in the order of the calls. -/
structure SpendLog where
  tracker : SpendingTracker
  admitted : List Spend

/-- The spend lies in `[T - w, T]`. -/
def InWindow (w T : ℕ) (s : Spend) : Prop := T ≤ s.1.toNat + w ∧ s.1.toNat ≤ T

instance (w T : ℕ) (s : Spend) : Decidable (InWindow w T s) :=
  inferInstanceAs (Decidable (T ≤ s.1.toNat + w ∧ s.1.toNat ≤ T))

def spentIn (w T : ℕ) (spends : List Spend) : ℕ :=
  amountOf (spends.filter fun s => decide (InWindow w T s))

theorem spentIn_append (w T : ℕ) (l m : List Spend) :
    spentIn w T (l ++ m) = spentIn w T l + spentIn w T m := by
  rw [spentIn, List.filter_append, amountOf_append]
  rfl

theorem spentIn_le (w T : ℕ) (l : List Spend) : spentIn w T l ≤ amountOf l :=
  amountOf_sublist List.filter_sublist

theorem spentIn_eq_zero {w T : ℕ} {l : List Spend} (h : ∀ s ∈ l, ¬ InWindow w T s) :
    spentIn w T l = 0 := by
  rw [spentIn, List.filter_eq_nil_iff.mpr (by simpa using h)]
  rfl

namespace SpendLog

def new (policy : KeyPolicy) : SpendLog := ⟨.new policy, []⟩

def windowSecs (log : SpendLog) : ℕ := log.tracker.policy.windowSecs.toNat

def cap (log : SpendLog) : ℕ := log.tracker.policy.capPerWindow.toNat

/-- One call of `admit`; what it admits is noted. -/
def step (log : SpendLog) (c : AdmitCall) : SpendLog :=
  let (tracker, result) := log.tracker.admitSpend c.now c.contract c.counterparty c.amount
  match result with
  | .ok () => ⟨tracker, log.admitted ++ [(c.now, c.amount)]⟩
  | .error _ => ⟨tracker, log.admitted⟩

/-- No window of the policy's length holds more than the cap, wherever it ends. -/
def CapRespected (log : SpendLog) : Prop :=
  ∀ T, spentIn log.windowSecs T log.admitted ≤ log.cap

/-- What was admitted and is no longer in the queue. -/
def forgotten (log : SpendLog) : List Spend :=
  log.admitted.take (log.admitted.length - log.tracker.spends.length)

/-- A call whose amount is weighed finds every earlier spend within `window_secs` of its
clock still in the queue. -/
def Remembers (log : SpendLog) (c : AdmitCall) : Prop :=
  log.tracker.Judges c → ∀ s ∈ log.forgotten,
    ¬ (s.1.toNat ≤ c.now.toNat + log.windowSecs ∧ c.now.toNat ≤ s.1.toNat + log.windowSecs)

/-- The queue is the end of what was admitted and stays within the cap by itself. -/
structure Inv (log : SpendLog) : Prop where
  suffix : log.tracker.spends <:+ log.admitted
  queued : amountOf log.tracker.spends ≤ log.cap
  windows : log.CapRespected

theorem forgotten_append {log : SpendLog} (h : log.tracker.spends <:+ log.admitted) :
    log.forgotten ++ log.tracker.spends = log.admitted := by
  obtain ⟨front, hfront⟩ := h
  rw [forgotten, ← hfront, List.length_append, Nat.add_sub_cancel, List.take_left' rfl]

/-- Eviction splits off a front of spends that are older than the window. -/
theorem evictExpired_split (t : SpendingTracker) (now : UInt64) :
    ∃ front, front ++ (t.evictExpired now).spends = t.spends ∧
      ∀ s ∈ front, s.1.toNat + t.policy.windowSecs.toNat < now.toNat := by
  refine ⟨t.spends.takeWhile fun s => decide (s.1.toNat < t.cutoff now),
    List.takeWhile_append_dropWhile, ?_⟩
  intro s hs
  have hlt : s.1.toNat < t.cutoff now := by simpa using List.mem_takeWhile_imp hs
  unfold SpendingTracker.cutoff at hlt
  omega

/-- A window that ends at the clock of the call or later loses nothing. -/
theorem spentIn_evictExpired (t : SpendingTracker) {now : UInt64} {T : ℕ} (hT : now.toNat ≤ T) :
    spentIn t.policy.windowSecs.toNat T (t.evictExpired now).spends =
      spentIn t.policy.windowSecs.toNat T t.spends := by
  obtain ⟨front, hsplit, hold⟩ := evictExpired_split t now
  have hzero : spentIn t.policy.windowSecs.toNat T front = 0 := by
    apply spentIn_eq_zero
    intro s hs hin
    have hlt := hold s hs
    have hge := hin.1
    omega
  rw [← hsplit, spentIn_append, hzero, Nat.zero_add]

theorem step_cases (log : SpendLog) (c : AdmitCall) (hq : amountOf log.tracker.spends ≤ log.cap) :
    (∃ kept, (kept = log.tracker.spends ∨ kept = (log.tracker.evictExpired c.now).spends) ∧
      log.step c = ⟨⟨log.tracker.policy, kept⟩, log.admitted⟩) ∨
    log.tracker.Judges c ∧
      amountOf (log.tracker.evictExpired c.now).spends + c.amount.toNat ≤ log.cap ∧
      log.step c = ⟨⟨log.tracker.policy,
        (log.tracker.evictExpired c.now).spends ++ [(c.now, c.amount)]⟩,
        log.admitted ++ [(c.now, c.amount)]⟩ := by
  rcases log.tracker.admitSpend_cases c hq with ⟨kept, e, hkept, he⟩ | ⟨hjudged, hroom, he⟩
  · exact .inl ⟨kept, hkept, by simp only [step, he]⟩
  · exact .inr ⟨hjudged, hroom, by simp only [step, he]⟩

theorem step_inv {log : SpendLog} {c : AdmitCall} (hg : log.Remembers c) (h : log.Inv) :
    (log.step c).Inv := by
  have hevict := log.tracker.evictExpired_suffix c.now
  rcases log.step_cases c h.queued with ⟨kept, hkept, hstep⟩ | ⟨hjudged, hroom, hstep⟩
  · -- refused: the queue may only have lost its front
    have hsuffix : kept <:+ log.tracker.spends := by
      rcases hkept with rfl | rfl
      · exact List.suffix_refl _
      · exact hevict
    rw [hstep]
    exact ⟨hsuffix.trans h.suffix, (amountOf_sublist hsuffix.sublist).trans h.queued, h.windows⟩
  · rw [hstep]
    refine ⟨?_, ?_, ?_⟩
    · obtain ⟨front, hfront⟩ := hevict.trans h.suffix
      exact ⟨front, by rw [← hfront, List.append_assoc]⟩
    · show amountOf (_ ++ [(c.now, c.amount)]) ≤ _
      rw [amountOf_append, amountOf_singleton]
      exact hroom
    · intro T
      show spentIn log.windowSecs T (log.admitted ++ [(c.now, c.amount)]) ≤ log.cap
      rw [spentIn_append]
      by_cases hin : InWindow log.windowSecs T (c.now, c.amount)
      · -- the window contains the new spend, so nothing forgotten is in it
        have hforgotten : spentIn log.windowSecs T log.forgotten = 0 := by
          apply spentIn_eq_zero
          intro s hs hs'
          apply hg hjudged s hs
          obtain ⟨h1, h2⟩ := hs'
          obtain ⟨h3, h4⟩ := hin
          simp only at h3 h4
          omega
        have hqueue := spentIn_evictExpired log.tracker (show c.now.toNat ≤ T from hin.2)
        have hle := spentIn_le log.windowSecs T (log.tracker.evictExpired c.now).spends
        have hnew := spentIn_le log.windowSecs T [(c.now, c.amount)]
        rw [amountOf_singleton] at hnew
        rw [← forgotten_append h.suffix, spentIn_append, hforgotten]
        have hq : spentIn log.windowSecs T (log.tracker.evictExpired c.now).spends =
            spentIn log.windowSecs T log.tracker.spends := hqueue
        have hr : amountOf (log.tracker.evictExpired c.now).spends + c.amount.toNat ≤ log.cap := hroom
        simp only at hnew
        omega
      · have hout : spentIn log.windowSecs T [(c.now, c.amount)] = 0 :=
          spentIn_eq_zero (List.forall_mem_singleton.mpr hin)
        rw [hout, Nat.add_zero]
        exact h.windows T

theorem inv_new (policy : KeyPolicy) : (new policy).Inv :=
  ⟨List.suffix_refl _, Nat.zero_le _, fun _ => Nat.zero_le _⟩

/-- In every state of a run whose calls remember what is near them, every window of the
policy's length, wherever it ends, holds at most the cap. -/
theorem rolling_cap_respected (policy : KeyPolicy) (calls : List AdmitCall)
    (hm : Meets step Remembers (new policy) calls) :
    ∀ part, part <+: calls → (run step (new policy) part).CapRespected := by
  intro part hpart
  exact (run_invariant Inv (fun _ _ => step_inv) (hm.of_prefix hpart) (inv_new policy)).windows

/-! ## Clocks that never run back -/

/-- Everything forgotten is older than the window at the clock. -/
def Outdated (log : SpendLog) (clock : ℕ) : Prop :=
  ∃ front, front ++ log.tracker.spends = log.admitted ∧
    ∀ s ∈ front, s.1.toNat + log.windowSecs < clock

theorem Outdated.remembers {log : SpendLog} {c : AdmitCall} {clock : ℕ} (h : log.Outdated clock)
    (hc : clock ≤ c.now.toNat) : log.Remembers c := by
  intro _ s hs hnear
  obtain ⟨front, hfront, hold⟩ := h
  have hsplit := forgotten_append ⟨front, hfront⟩
  rw [← hfront] at hsplit
  rw [List.append_cancel_right hsplit] at hs
  have hlt := hold s hs
  omega

theorem Outdated.mono {log : SpendLog} {clock T : ℕ} (h : log.Outdated clock) (hT : clock ≤ T) :
    log.Outdated T := by
  obtain ⟨front, hfront, hold⟩ := h
  exact ⟨front, hfront, fun s hs => (hold s hs).trans_le hT⟩

/-- What an eviction drops is older than the window, too. -/
theorem Outdated.evict {log : SpendLog} {now : UInt64} {clock : ℕ} (h : log.Outdated clock)
    (hc : clock ≤ now.toNat) :
    ∃ front, front ++ (log.tracker.evictExpired now).spends = log.admitted ∧
      ∀ s ∈ front, s.1.toNat + log.windowSecs < now.toNat := by
  obtain ⟨front, hfront, hold⟩ := h.mono hc
  obtain ⟨dropped, hdropped, hexpired⟩ := evictExpired_split log.tracker now
  refine ⟨front ++ dropped, by rw [List.append_assoc, hdropped, hfront], ?_⟩
  intro s hs
  rcases List.mem_append.mp hs with hs | hs
  · exact hold s hs
  · exact hexpired s hs

theorem Outdated.step {log : SpendLog} {c : AdmitCall} {clock : ℕ} (h : log.Outdated clock)
    (hc : clock ≤ c.now.toNat) (hq : amountOf log.tracker.spends ≤ log.cap) :
    (log.step c).Outdated c.now.toNat := by
  obtain ⟨front, hfront, hold⟩ := h.evict hc
  rcases log.step_cases c hq with ⟨kept, rfl | rfl, hstep⟩ | ⟨-, -, hstep⟩
  · rw [hstep]
    exact h.mono hc
  · rw [hstep]
    exact ⟨front, hfront, hold⟩
  · rw [hstep]
    exact ⟨front, by rw [← List.append_assoc, hfront], hold⟩

/-- A single clock that does not run back never asks about a forgotten spend. -/
theorem remembers_of_sorted {log : SpendLog} {calls : List AdmitCall} {clock : ℕ} (h : log.Inv)
    (hold : log.Outdated clock) (hsorted : (calls.map (·.now.toNat)).Pairwise (· ≤ ·))
    (hstart : ∀ c ∈ calls, clock ≤ c.now.toNat) : Meets step Remembers log calls := by
  induction calls generalizing log clock with
  | nil => trivial
  | cons c calls ih =>
    have hc := hstart c List.mem_cons_self
    have hg := hold.remembers hc
    rw [List.map_cons, List.pairwise_cons] at hsorted
    refine ⟨hg, ih (step_inv hg h) (hold.step hc h.queued) hsorted.2 ?_⟩
    intro d hd
    exact hsorted.1 _ (List.mem_map_of_mem hd)

theorem outdated_new (policy : KeyPolicy) : (new policy).Outdated 0 :=
  ⟨[], rfl, fun _ hs => (List.not_mem_nil hs).elim⟩

/-! ## Concrete histories -/

/-- Five units in any ten seconds. -/
def fivePerTen : KeyPolicy := ⟨hashOfNat 1, hashOfNat 9, 5, 10, [], [], 0, 1⟩

def spendAt (now : UInt64) (amount : BitVec 128) : AdmitCall := ⟨now, "transfer", hashOfNat 2, amount⟩

/-- Spends at 100, 105 and 200. -/
theorem rolling_cap_respected_forward :
    (run step (new fivePerTen) [spendAt 100 3, spendAt 105 2, spendAt 200 5]).admitted =
        [(100, 3), (105, 2), (200, 5)] ∧
      (run step (new fivePerTen) [spendAt 100 3, spendAt 105 2, spendAt 200 5]).CapRespected := by
  refine ⟨by decide, ?_⟩
  apply rolling_cap_respected fivePerTen [spendAt 100 3, spendAt 105 2, spendAt 200 5]
  · apply remembers_of_sorted (inv_new fivePerTen) (outdated_new fivePerTen)
    · decide
    · intro c _
      exact Nat.zero_le _
  · exact List.prefix_refl _

/-- Five units at 100, one at 200, and four more at 100: the second call has dropped the first
spend, and nine units fall into the window that ends at 100. -/
theorem late_clock_forgets :
    ¬ (run step (new fivePerTen) [spendAt 100 5, spendAt 200 1, spendAt 100 4]).CapRespected := by
  intro h
  have hwindow := h 100
  revert hwindow
  decide

end SpendLog

end PslBank.Wallet
