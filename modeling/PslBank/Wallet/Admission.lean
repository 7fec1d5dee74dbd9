import PslBank.Wallet.Spending

/-!
# What the tracker admits

The queue of the tracker is judged here against everything that was ever admitted. Under
a clock that does not run back, the spends that the queue has lost are older than every later
window, and what is left after an eviction is the window itself. So a call is admitted
exactly when the policy allows it with the true sum of the window, and a refused call, which
may still evict, changes no later outcome.
-/
namespace PslBank.Wallet

open PslBank.Lib PslBank.Crypto

set_option autoImplicit false

/-- A call of a tracker from outside. -/
inductive TrackerCall where
  | admitSpend (c : AdmitCall)
  | windowTotal (now : UInt64)

def TrackerCall.now : TrackerCall → UInt64
  | .admitSpend c => c.now
  | .windowTotal now => now

inductive TrackerOutcome where
  | admission (result : Except WalletError Unit)
  | total (amount : ℕ)

namespace SpendingTracker

def call (t : SpendingTracker) : TrackerCall → SpendingTracker × TrackerOutcome
  | .admitSpend c =>
      let (t, result) := t.admitSpend c.now c.contract c.counterparty c.amount
      (t, .admission result)
  | .windowTotal now =>
      let (t, amount) := t.currentWindowTotal now
      (t, .total amount)

/-- The results of the calls, one after the other. -/
def outcomes : SpendingTracker → List TrackerCall → List TrackerOutcome
  | _, [] => []
  | t, c :: calls => (t.call c).2 :: outcomes (t.call c).1 calls

/-! ## One call -/

variable {t t' : SpendingTracker}

/-- An admission is a matter of the lists, the expiry and the room behind the eviction. -/
theorem admitSpend_ok_iff {c : AdmitCall} (hq : amountOf t.spends ≤ t.policy.capPerWindow.toNat) :
    (t.admitSpend c.now c.contract c.counterparty c.amount).2 = .ok () ↔
      t.Judges c ∧
        amountOf (t.evictExpired c.now).spends + c.amount.toNat ≤ t.policy.capPerWindow.toNat := by
  constructor
  · intro h
    rcases t.admitSpend_cases c hq with ⟨kept, e, -, he⟩ | ⟨hjudged, hroom, -⟩
    · rw [he] at h
      cases h
    · exact ⟨hjudged, hroom⟩
  · intro hyp
    obtain ⟨⟨hcontract, hparty, hexpired⟩, hroom⟩ := hyp
    have hcap := t.policy.capPerWindow.isLt
    have htotal : (t.evictExpired c.now).spends.foldl
        (fun total s => saturatingAdd total s.2.toNat) 0 = amountOf (t.evictExpired c.now).spends := by
      rw [foldl_saturatingAdd _ (by omega), Nat.zero_add]
    have hover : ¬ (t.evictExpired c.now).policy.capPerWindow.toNat <
        amountOf (t.evictExpired c.now).spends + c.amount.toNat := Nat.not_lt.mpr hroom
    simp only [admitSpend, hcontract, hparty, trySpend, hexpired, currentWindowTotal, htotal,
      Bool.not_true, Bool.false_eq_true, ↓reduceIte]
    rw [if_neg (by omega), if_neg hover]

/-- A refused admission has evicted or has done nothing. -/
theorem admitSpend_error {c : AdmitCall} {e : WalletError}
    (h : (t.admitSpend c.now c.contract c.counterparty c.amount).2 = .error e) :
    (t.admitSpend c.now c.contract c.counterparty c.amount).1 = t ∨
      (t.admitSpend c.now c.contract c.counterparty c.amount).1 = t.evictExpired c.now := by
  revert h
  unfold admitSpend trySpend currentWindowTotal
  split
  · exact fun _ => .inl rfl
  · split
    · exact fun _ => .inl rfl
    · split
      · exact fun _ => .inl rfl
      · simp only
        split
        · exact fun _ => .inr rfl
        · split
          · exact fun _ => .inr rfl
          · intro h
            cases h

/-! ## A queue that still holds outdated spends -/

/-- `t` is `t'` with more spends in front, all older than the window at the clock. -/
structure Lags (t t' : SpendingTracker) (clock : ℕ) : Prop where
  policy : t'.policy = t.policy
  spends : ∃ front, front ++ t'.spends = t.spends ∧
    ∀ s ∈ front, s.1.toNat + t.policy.windowSecs.toNat < clock

theorem Lags.evictExpired_eq {clock : ℕ} {now : UInt64} (h : Lags t t' clock)
    (hc : clock ≤ now.toNat) : t'.evictExpired now = t.evictExpired now := by
  obtain ⟨hpolicy, front, hfront, hold⟩ := h
  have hcut : t'.cutoff now = t.cutoff now := by rw [cutoff, cutoff, hpolicy]
  have hdrop : ∀ s ∈ front, decide (s.1.toNat < t.cutoff now) = true := by
    intro s hs
    have hlt := hold s hs
    rw [decide_eq_true_iff, cutoff]
    omega
  unfold evictExpired
  rw [hpolicy, hcut, ← hfront, List.dropWhile_append_of_pos hdrop]

/-- Outdated spends in front of the queue do not show in the result of a later call. -/
theorem Lags.call_eq {clock : ℕ} {c : TrackerCall} (h : Lags t t' clock) (hc : clock ≤ c.now.toNat) :
    (t'.call c).2 = (t.call c).2 ∧
      ((t'.call c).1 = (t.call c).1 ∨ (t'.call c).1 = t' ∧ (t.call c).1 = t) := by
  have hpolicy := h.policy
  have hevict := h.evictExpired_eq hc
  cases c with
  | windowTotal now =>
    change t'.evictExpired now = t.evictExpired now at hevict
    refine ⟨?_, .inl ?_⟩
    · simp only [call, currentWindowTotal, hevict]
    · simp only [call, currentWindowTotal, hevict]
  | admitSpend c =>
    change t'.evictExpired c.now = t.evictExpired c.now at hevict
    simp only [call, admitSpend, trySpend, currentWindowTotal, hpolicy, hevict]
    split
    · exact ⟨rfl, .inr ⟨rfl, rfl⟩⟩
    · split
      · exact ⟨rfl, .inr ⟨rfl, rfl⟩⟩
      · split
        · exact ⟨rfl, .inr ⟨rfl, rfl⟩⟩
        · exact ⟨rfl, .inl rfl⟩

theorem Lags.outcomes_eq {clock : ℕ} {calls : List TrackerCall} (h : Lags t t' clock)
    (hsorted : (calls.map fun c => c.now.toNat).Pairwise (· ≤ ·))
    (hstart : ∀ c ∈ calls, clock ≤ c.now.toNat) : t'.outcomes calls = t.outcomes calls := by
  induction calls with
  | nil => rfl
  | cons c calls ih =>
    rw [List.map_cons, List.pairwise_cons] at hsorted
    obtain ⟨hc, hrest⟩ := List.forall_mem_cons.mp hstart
    obtain ⟨hresult, hsame | ⟨hkept', hkept⟩⟩ := h.call_eq hc
    · rw [outcomes, outcomes, hresult, hsame]
    · rw [outcomes, outcomes, hresult, hkept', hkept, ih hsorted.2 hrest]

theorem lags_of_error {c : TrackerCall} {e : WalletError} (h : (t.call c).2 = .admission (.error e)) :
    Lags t (t.call c).1 c.now.toNat := by
  cases c with
  | windowTotal now => cases h
  | admitSpend c =>
    have herror : (t.admitSpend c.now c.contract c.counterparty c.amount).2 = .error e :=
      TrackerOutcome.admission.inj h
    have hstate : (t.call (.admitSpend c)).1 =
        (t.admitSpend c.now c.contract c.counterparty c.amount).1 := rfl
    rw [hstate]
    rcases admitSpend_error herror with hkept | hevicted
    · rw [hkept]
      exact ⟨rfl, [], rfl, fun s hs => (List.not_mem_nil hs).elim⟩
    · rw [hevicted]
      exact ⟨rfl, SpendLog.evictExpired_split t c.now⟩

end SpendingTracker

/-! ## The queue and the window -/

namespace SpendLog

def next (log : SpendLog) : TrackerCall → SpendLog
  | .admitSpend c => log.step c
  | .windowTotal now => ⟨(log.tracker.currentWindowTotal now).1, log.admitted⟩

theorem tracker_next (log : SpendLog) (c : TrackerCall) :
    (log.next c).tracker = (log.tracker.call c).1 := by
  cases c with
  | windowTotal now => rfl
  | admitSpend c =>
    simp only [next, step, SpendingTracker.call]
    split
    · rfl
    · rfl

theorem tracker_run_next (log : SpendLog) (calls : List TrackerCall) :
    (run next log calls).tracker = run (fun t c => (t.call c).1) log.tracker calls := by
  induction calls generalizing log with
  | nil => rfl
  | cons c calls ih =>
    show (run next (log.next c) calls).tracker = _
    rw [ih, tracker_next]
    rfl

/-- Everything a call does to the log: it may evict, and it appends at most its own spend. -/
theorem next_cases (log : SpendLog) (c : TrackerCall) (hq : amountOf log.tracker.spends ≤ log.cap) :
    (∃ kept, (kept = log.tracker.spends ∨ kept = (log.tracker.evictExpired c.now).spends) ∧
      log.next c = ⟨⟨log.tracker.policy, kept⟩, log.admitted⟩) ∨
    ∃ amount, amountOf (log.tracker.evictExpired c.now).spends + BitVec.toNat amount ≤ log.cap ∧
      log.next c = ⟨⟨log.tracker.policy,
        (log.tracker.evictExpired c.now).spends ++ [(c.now, amount)]⟩,
        log.admitted ++ [(c.now, amount)]⟩ := by
  cases c with
  | windowTotal now => exact .inl ⟨_, .inr rfl, rfl⟩
  | admitSpend c =>
    rcases log.step_cases c hq with hrefused | ⟨-, hroom, hstep⟩
    · exact .inl hrefused
    · exact .inr ⟨c.amount, hroom, hstep⟩

/-- What the log is like when no call was later than `clock`. -/
structure Timely (log : SpendLog) (clock : ℕ) : Prop where
  outdated : log.Outdated clock
  queued : amountOf log.tracker.spends ≤ log.cap
  ordered : (log.admitted.map fun s => s.1.toNat).Pairwise (· ≤ ·)
  started : ∀ s ∈ log.admitted, s.1.toNat ≤ clock

theorem timely_new (policy : KeyPolicy) : (new policy).Timely 0 :=
  ⟨outdated_new policy, Nat.zero_le _, .nil, fun _ hs => (List.not_mem_nil hs).elim⟩

theorem Timely.mono {log : SpendLog} {clock T : ℕ} (h : log.Timely clock) (hT : clock ≤ T) :
    log.Timely T :=
  ⟨h.outdated.mono hT, h.queued, h.ordered, fun s hs => (h.started s hs).trans hT⟩


theorem Timely.next {log : SpendLog} {c : TrackerCall} {clock : ℕ} (h : log.Timely clock)
    (hc : clock ≤ c.now.toNat) : (log.next c).Timely c.now.toNat := by
  obtain ⟨front, hfront, hold⟩ := h.outdated.evict hc
  have hlater := h.mono hc
  have hle := amountOf_sublist (log.tracker.evictExpired_suffix c.now).sublist
  rcases log.next_cases c h.queued with ⟨kept, rfl | rfl, hnext⟩ | ⟨amount, hroom, hnext⟩
  · rw [hnext]
    exact ⟨hlater.outdated, h.queued, h.ordered, hlater.started⟩
  · rw [hnext]
    exact ⟨⟨front, hfront, hold⟩, hle.trans h.queued, h.ordered, hlater.started⟩
  · rw [hnext]
    refine ⟨⟨front, by rw [← List.append_assoc, hfront], hold⟩, ?_, ?_, ?_⟩
    · show amountOf (_ ++ [(c.now, amount)]) ≤ _
      rw [amountOf_append, amountOf_singleton]
      exact hroom
    · show ((log.admitted ++ [(c.now, amount)]).map fun s => s.1.toNat).Pairwise (· ≤ ·)
      rw [List.map_append, List.pairwise_append]
      refine ⟨h.ordered, List.pairwise_singleton _ _, ?_⟩
      intro t ht u hu
      obtain ⟨s, hs, rfl⟩ := List.mem_map.mp ht
      obtain rfl := List.mem_singleton.mp hu
      exact hlater.started s hs
    · intro s hs
      rcases List.mem_append.mp hs with hs | hs
      · exact hlater.started s hs
      · obtain rfl := List.mem_singleton.mp hs
        exact Nat.le_refl _

theorem policy_next (log : SpendLog) (c : TrackerCall)
    (hq : amountOf log.tracker.spends ≤ log.cap) : (log.next c).tracker.policy = log.tracker.policy := by
  rcases log.next_cases c hq with ⟨kept, -, hnext⟩ | ⟨amount, -, hnext⟩
  · rw [hnext]
  · rw [hnext]

/-- Under a clock that does not run back the log stays timely, and the policy is never touched. -/
theorem Timely.run_next {log : SpendLog} {calls : List TrackerCall} {clock T : ℕ}
    (h : log.Timely clock) (hsorted : (calls.map fun c => c.now.toNat).Pairwise (· ≤ ·))
    (hstart : ∀ c ∈ calls, clock ≤ c.now.toNat) (hT : clock ≤ T) (hend : ∀ c ∈ calls, c.now.toNat ≤ T) :
    (run SpendLog.next log calls).Timely T ∧
      (run SpendLog.next log calls).tracker.policy = log.tracker.policy := by
  induction calls generalizing log clock with
  | nil => exact ⟨h.mono hT, rfl⟩
  | cons c calls ih =>
    rw [List.map_cons, List.pairwise_cons] at hsorted
    have hlater : ∀ d ∈ calls, c.now.toNat ≤ d.now.toNat := fun d hd =>
      hsorted.1 _ (List.mem_map_of_mem hd)
    obtain ⟨htimely, hpolicy⟩ := ih (h.next (hstart c List.mem_cons_self)) hsorted.2 hlater
      (hend c List.mem_cons_self) fun d hd => hend d (List.mem_cons_of_mem c hd)
    exact ⟨htimely, hpolicy.trans (log.policy_next c h.queued)⟩

theorem le_of_mem_dropWhile {cutoff : ℕ} {spends : List Spend}
    (hordered : (spends.map fun s => s.1.toNat).Pairwise (· ≤ ·)) :
    ∀ s ∈ spends.dropWhile fun s => decide (s.1.toNat < cutoff), cutoff ≤ s.1.toNat := by
  induction spends with
  | nil => exact fun s hs => (List.not_mem_nil hs).elim
  | cons a spends ih =>
    rw [List.map_cons, List.pairwise_cons] at hordered
    by_cases ha : a.1.toNat < cutoff
    · rw [List.dropWhile_cons_of_pos (by simpa using ha)]
      exact ih hordered.2
    · rw [List.dropWhile_cons_of_neg (by simpa using ha)]
      intro s hs
      rcases List.mem_cons.mp hs with rfl | hs
      · exact Nat.le_of_not_lt ha
      · exact (Nat.le_of_not_lt ha).trans (hordered.1 _ (List.mem_map_of_mem hs))

/-- After an eviction the queue holds the window, out of everything that was admitted. -/
theorem Timely.evictExpired_eq {log : SpendLog} {now : UInt64} {clock : ℕ} (h : log.Timely clock)
    (hc : clock ≤ now.toNat) :
    (log.tracker.evictExpired now).spends =
      log.admitted.filter fun s => decide (log.tracker.cutoff now ≤ s.1.toNat) := by
  obtain ⟨front, hfront, hold⟩ := h.outdated.evict hc
  obtain ⟨lost, hlost, -⟩ := h.outdated
  have hordered : (log.tracker.spends.map fun s => s.1.toNat).Pairwise (· ≤ ·) := by
    have hall := h.ordered
    rw [← hlost, List.map_append, List.pairwise_append] at hall
    exact hall.2.1
  have hdropped : front.filter (fun s => decide (log.tracker.cutoff now ≤ s.1.toNat)) = [] := by
    apply List.filter_eq_nil_iff.mpr
    intro s hs
    have hlt := hold s hs
    rw [decide_eq_true_iff, SpendingTracker.cutoff]
    exact Nat.not_le.mpr (Nat.lt_sub_of_add_lt hlt)
  have hkept : (log.tracker.evictExpired now).spends.filter
      (fun s => decide (log.tracker.cutoff now ≤ s.1.toNat)) =
        (log.tracker.evictExpired now).spends := by
    apply List.filter_eq_self.mpr
    intro s hs
    exact decide_eq_true (le_of_mem_dropWhile hordered s hs)
  rw [← hfront, List.filter_append, hdropped, hkept, List.nil_append]

end SpendLog

/-! ## Decisions -/

/-- The policy allows the call, with the amounts that the history has in the window. -/
def KeyPolicy.Permits (p : KeyPolicy) (history : List Spend) (c : AdmitCall) : Prop :=
  p.allowsContract c.contract = true ∧ p.allowsCounterparty c.counterparty = true ∧
    p.expired c.now = false ∧
    c.amount.toNat +
      amountOf (history.filter fun s => decide (c.now.toNat - p.windowSecs.toNat ≤ s.1.toNat)) ≤
        p.capPerWindow.toNat

instance (p : KeyPolicy) (history : List Spend) (c : AdmitCall) : Decidable (p.Permits history c) :=
  inferInstanceAs (Decidable (_ ∧ _ ∧ _ ∧ _ ≤ _))

namespace SpendLog

theorem Timely.admitSpend_ok_iff {log : SpendLog} {c : AdmitCall} {clock : ℕ} (h : log.Timely clock)
    (hc : clock ≤ c.now.toNat) :
    (log.tracker.admitSpend c.now c.contract c.counterparty c.amount).2 = .ok () ↔
      log.tracker.policy.Permits log.admitted c := by
  have hwindow := h.evictExpired_eq hc
  rw [SpendingTracker.cutoff] at hwindow
  rw [SpendingTracker.admitSpend_ok_iff h.queued, SpendingTracker.Judges, hwindow, Nat.add_comm,
    KeyPolicy.Permits, and_assoc, and_assoc]

theorem outcomes_append (t : SpendingTracker) (calls calls' : List TrackerCall) :
    t.outcomes (calls ++ calls') =
      t.outcomes calls ++ (run (fun t c => (t.call c).1) t calls).outcomes calls' := by
  induction calls generalizing t with
  | nil => rfl
  | cons c calls ih =>
    rw [List.cons_append, SpendingTracker.outcomes, SpendingTracker.outcomes, ih, List.cons_append]
    rfl

theorem length_outcomes (t : SpendingTracker) (calls : List TrackerCall) :
    (t.outcomes calls).length = calls.length := by
  induction calls generalizing t with
  | nil => rfl
  | cons c calls ih => rw [SpendingTracker.outcomes, List.length_cons, ih, List.length_cons]

/-- What the earlier calls of a sorted sequence leave behind. -/
theorem timely_before (policy : KeyPolicy) {before after : List TrackerCall} {c : TrackerCall}
    (hsorted : ((before ++ c :: after).map fun c => c.now.toNat).Pairwise (· ≤ ·)) :
    (run next (new policy) before).Timely c.now.toNat ∧
      (run next (new policy) before).tracker.policy = policy ∧
      (after.map fun c => c.now.toNat).Pairwise (· ≤ ·) ∧ ∀ d ∈ after, c.now.toNat ≤ d.now.toNat := by
  rw [List.map_append, List.pairwise_append, List.map_cons, List.pairwise_cons] at hsorted
  obtain ⟨hbefore, ⟨hlater, hafter⟩, hcross⟩ := hsorted
  obtain ⟨htimely, hpolicy⟩ := (timely_new policy).run_next hbefore (fun _ _ => Nat.zero_le _)
    (Nat.zero_le c.now.toNat)
    fun d hd => hcross _ (List.mem_map_of_mem hd) _ List.mem_cons_self
  exact ⟨htimely, hpolicy, hafter, fun d hd => hlater _ (List.mem_map_of_mem hd)⟩

/-- Under a clock that does not run back, a call is admitted exactly when the policy permits it
against the whole history, and leaving out a refused call changes no other outcome. -/
theorem admissions_exact (policy : KeyPolicy) (calls : List TrackerCall)
    (hsorted : (calls.map fun c => c.now.toNat).Pairwise (· ≤ ·)) :
    (∀ before c after, calls = before ++ .admitSpend c :: after →
      (((run next (new policy) before).tracker.admitSpend c.now c.contract c.counterparty c.amount).2 =
          .ok () ↔
        policy.Permits (run next (new policy) before).admitted c)) ∧
    (∀ before c after e, calls = before ++ c :: after →
      ((run next (new policy) before).tracker.call c).2 = .admission (.error e) →
      (SpendingTracker.new policy).outcomes (before ++ after) =
        ((SpendingTracker.new policy).outcomes calls).eraseIdx before.length) := by
  constructor
  · intro before c after hsplit
    rw [hsplit] at hsorted
    obtain ⟨htimely, hpolicy, -⟩ := timely_before policy hsorted
    have hiff := htimely.admitSpend_ok_iff (Nat.le_refl c.now.toNat)
    rwa [hpolicy] at hiff
  · intro before c after e hsplit herror
    rw [hsplit] at hsorted
    obtain ⟨-, -, hafter, hlater⟩ := timely_before policy hsorted
    have hlags := SpendingTracker.lags_of_error herror
    have hsame := hlags.outcomes_eq hafter hlater
    have hlen := length_outcomes (SpendingTracker.new policy) before
    rw [tracker_run_next] at hsame
    rw [hsplit, outcomes_append, outcomes_append, ← hlen,
      List.eraseIdx_append_of_length_le (Nat.le_refl _), Nat.sub_self, SpendingTracker.outcomes,
      List.eraseIdx_cons_zero]
    exact congrArg _ hsame.symm

/-- Three units at 100, three refused at 105, and five at 111, when the first ones are out. -/
theorem admissions_exact_third :
    ((run next (new fivePerTen) [.admitSpend (spendAt 100 3), .admitSpend (spendAt 105 3),
      .windowTotal 106]).tracker.admitSpend 111 "transfer" (hashOfNat 2) 5).2 = .ok () := by
  apply ((admissions_exact fivePerTen [.admitSpend (spendAt 100 3), .admitSpend (spendAt 105 3),
    .windowTotal 106, .admitSpend (spendAt 111 5)] (by decide)).1 _ (spendAt 111 5) [] rfl).mpr
  decide

end SpendLog

end PslBank.Wallet
