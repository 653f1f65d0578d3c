import Resilience.Onchain.Attempts
import Resilience.Onchain.Breaker
import Mathlib.Data.List.TakeWhile

/-!
# What a call leaves in the breaker

A call of `sendWithRetry` that runs alone on its circuit breaker. What it records is what the
answers to its other requests charge (`records_eq_charges`): a failure for an attempt that ends in a
revert or in an error which is neither a `TxFailedError` nor taken for a stale nonce, another one
for a stale nonce of the last attempt whose refresh succeeds, and a success for a good receipt. So a
call that rejects has raised the count of failures exactly when its answers charge enough
(`accounted_iff`).
-/

namespace Resilience.Onchain.TypeScript

open Prog

/-! ## The breaker along a trace -/

/-- The breaker after a trace; `clock i` is the time of its `i`-th request. -/
def CircuitBreaker.after (clock : ℕ → ℚ) (b : CircuitBreaker) : Trace → CircuitBreaker
  | [] => b
  | ⟨.recordSuccess, _⟩ :: t => b.recordSuccess.after (fun i => clock (i + 1)) t
  | ⟨.recordFailure, _⟩ :: t => (b.recordFailure (clock 0)).after (fun i => clock (i + 1)) t
  | _ :: t => b.after (fun i => clock (i + 1)) t

/-- `failures`. -/
def CircuitBreaker.failures (b : CircuitBreaker) : ℕ := b.consecutiveFailures

/-- What is recorded: a failed attempt, or a confirmed transaction. -/
inductive Charge
  | failed
  | confirmed
  deriving DecidableEq, Repr

/-- What a request records. -/
def recordOf : Event Request Answer → Option Charge
  | ⟨.recordSuccess, _⟩ => some .confirmed
  | ⟨.recordFailure, _⟩ => some .failed
  | _ => none

def records (t : Trace) : List Charge := t.filterMap recordOf

/-- The count of failures after the charges. -/
def tally (failures : ℕ) (charges : List Charge) : ℕ :=
  charges.foldl (fun n c => if c = .failed then n + 1 else 0) failures

theorem failures_after (clock : ℕ → ℚ) (b : CircuitBreaker) (t : Trace) :
    (b.after clock t).failures = tally b.failures (records t) := by
  induction t generalizing b clock with
  | nil => rfl
  | cons ev t ih =>
    obtain ⟨e, r⟩ := ev
    cases e <;> exact ih _ _

theorem records_append (t u : Trace) : records (t ++ u) = records t ++ records u :=
  List.filterMap_append

/-- The charges after the last success. -/
def sinceConfirmed (charges : List Charge) : List Charge :=
  charges.reverse.takeWhile (· = .failed)

/-- Charges that raise the count: some failure, if there is no success, and else more failures after
the last success than there were before. -/
def Raises (failures : ℕ) (charges : List Charge) : Prop :=
  if .confirmed ∈ charges then failures < (sinceConfirmed charges).length else charges ≠ []

instance (failures : ℕ) (charges : List Charge) : Decidable (Raises failures charges) :=
  inferInstanceAs (Decidable (if .confirmed ∈ charges then
    failures < (sinceConfirmed charges).length else charges ≠ []))

theorem tally_concat (failures : ℕ) (charges : List Charge) (c : Charge) :
    tally failures (charges ++ [c]) = if c = .failed then tally failures charges + 1 else 0 := by
  simp [tally]

/-- The count, from the last success on. -/
theorem tally_eq (failures : ℕ) (charges : List Charge) :
    tally failures charges = (sinceConfirmed charges).length +
      if .confirmed ∈ charges then 0 else failures := by
  induction charges using List.reverseRecOn with
  | nil => simp [tally, sinceConfirmed]
  | append_singleton charges c ih =>
    rw [tally_concat, ih]
    cases c with
    | failed => simp [sinceConfirmed]; omega
    | confirmed => simp [sinceConfirmed]

theorem lt_tally_iff (failures : ℕ) (charges : List Charge) :
    failures < tally failures charges ↔ Raises failures charges := by
  rw [tally_eq, Raises]
  split_ifs with hmem
  · rfl
  · have hall : sinceConfirmed charges = charges.reverse := by
      refine List.takeWhile_eq_self_iff.2 fun c hc => ?_
      cases c with
      | failed => rfl
      | confirmed => exact absurd (List.mem_reverse.1 hc) hmem
    rw [hall, List.length_reverse, ← List.length_pos_iff]
    omega

/-! ## What the answers charge -/

section Charges

variable (s : Settings)

/-- An error that the `catch` block counts at once. -/
def chargeOfResult {α : Type} : Except Thrown α → List Charge
  | .ok _ => []
  | .error err => if err.isTxFailedError || isNonceTooLow err then [] else [.failed]

/-- What an answer charges; `attempt` is the number of the latest attempt. -/
def chargeOf (attempt : ℤ) : Event Request Answer → List Charge
  | ⟨.signSend ctx, r⟩ => chargeOfResult (Race.result s.timeoutMs s!"attempt {ctx.attempt}" r)
  | ⟨.wait _, .settled (.ok receipt)⟩ =>
    if isReceiptSuccess receipt then [.confirmed] else [.failed]
  | ⟨.wait _, r⟩ => chargeOfResult (Race.result s.timeoutMs s!"attempt {attempt}" r)
  | ⟨.log (.sent _ _ _ _), r⟩ => chargeOfResult r.result
  | ⟨.log (.confirmed _ _), r⟩ => chargeOfResult r.result
  | ⟨.fetchState, .ok st⟩ =>
    if attempt = s.maxAttempts ∧ (initialFee s.feeMode st.fee).isOk then [.failed] else []
  | _ => []

/-- The number of the latest attempt after a request. -/
def attemptOf (attempt : ℤ) : Event Request Answer → ℤ
  | ⟨.signSend ctx, _⟩ => ctx.attempt
  | _ => attempt

/-- What the answers of a trace charge. -/
def charges (attempt : ℤ) : Trace → List Charge
  | [] => []
  | ev :: t => chargeOf s attempt ev ++ charges (attemptOf attempt ev) t

end Charges

/-- The logger has taken the line of a confirmed transaction. -/
def Confirmed (t : Trace) : Prop :=
  ∃ attempt hash, (⟨.log (.confirmed attempt hash), .ok ()⟩ : Event Request Answer) ∈ t

theorem confirmed_append {t u : Trace} : Confirmed (t ++ u) ↔ Confirmed t ∨ Confirmed u := by
  simp only [Confirmed, List.mem_append, exists_or]

/-- The first state charges nothing. -/
theorem charges_fetchState {s : Settings} (hmax : 1 ≤ s.maxAttempts) (r : Called StateResult)
    (v : Trace) : charges s 0 (⟨.fetchState, r⟩ :: v) = charges s 0 v := by
  have hne : 0 ≠ s.maxAttempts := by omega
  cases r <;> simp [charges, chargeOf, attemptOf, hne]

/-! ## One attempt -/

section Runs

variable {s : Settings} {attempt nonce : ℤ} {fee : FeeFields} {err : Thrown} {t : Trace}

theorem runs_recordFailure_on (hs : s.breaker = true) {res : Except Thrown Unit}
    (h : (recordFailure s).run.Runs t res) : res = .ok () ∧ t = [⟨.recordFailure, ()⟩] := by
  rw [recordFailure, if_pos hs] at h
  obtain ⟨r, rfl, rfl⟩ := runs_perform.1 h
  exact ⟨rfl, rfl⟩

theorem runs_recordSuccess_on (hs : s.breaker = true) {res : Except Thrown Unit}
    (h : (recordSuccess s).run.Runs t res) : res = .ok () ∧ t = [⟨.recordSuccess, ()⟩] := by
  rw [recordSuccess, if_pos hs] at h
  obtain ⟨r, rfl, rfl⟩ := runs_perform.1 h
  exact ⟨rfl, rfl⟩

/-- How the verdict on a receipt is recorded. -/
inductive Verdict (receipt : NormalizedReceipt) : Trace → Except Thrown NormalizedReceipt → Prop
  | reverted {m} (h : isReceiptSuccess receipt = false) :
    Verdict receipt [⟨.recordFailure, ()⟩] (.error (.txFailed m receipt))
  | confirmed {attempt hash} (h : isReceiptSuccess receipt = true) :
    Verdict receipt [⟨.recordSuccess, ()⟩, ⟨.log (.confirmed attempt hash), .ok ()⟩] (.ok receipt)
  | unlogged {attempt hash e} (h : isReceiptSuccess receipt = true) :
    Verdict receipt [⟨.recordSuccess, ()⟩, ⟨.log (.confirmed attempt hash), .error e⟩]
      (.error (.foreign e))

theorem verdict_confirm (hs : s.breaker = true) {receipt : NormalizedReceipt}
    {res : Except Thrown NormalizedReceipt}
    (h : (confirm s attempt receipt).run.Runs t res) : Verdict receipt t res := by
  unfold confirm at h
  split at h
  · rename_i hrevert
    obtain ⟨t₁, _, t₂, rfl, h₁, h₂⟩ | ⟨e, rfl, h₁⟩ := runs_except_bind.1 h
    · obtain ⟨-, rfl⟩ := runs_recordFailure_on hs h₁
      obtain ⟨rfl, rfl⟩ := h₂
      exact .reverted (by simpa using hrevert)
    · cases (runs_recordFailure_on hs h₁).1
  · rename_i hsuccess
    rw [Bool.not_eq_true', Bool.not_eq_false] at hsuccess
    obtain ⟨t₁, _, t₂, rfl, h₁, h₂⟩ | ⟨e, rfl, h₁⟩ := runs_except_bind.1 h
    · obtain ⟨-, rfl⟩ := runs_recordSuccess_on hs h₁
      obtain ⟨logged, t₃, rfl, h₃⟩ := runs_perform_bind.1 h₂
      cases logged with
      | error e =>
        obtain ⟨rfl, rfl⟩ := h₃
        exact .unlogged hsuccess
      | ok _ =>
        obtain ⟨rfl, rfl⟩ := h₃
        exact .confirmed hsuccess
    · cases (runs_recordSuccess_on hs h₁).1

/-- An attempt that confirms charges and records a success. -/
structure Confirms (s : Settings) (attempt : ℤ) (t : Trace) : Prop where
  records_eq : records t = [.confirmed]
  charges_eq : ∀ a v, charges s a (t ++ v) = .confirmed :: charges s attempt v
  logged : Confirmed t

/-- An attempt that fails has recorded what its answers charge, except for its error. -/
structure Fails (s : Settings) (attempt : ℤ) (err : Thrown) (t : Trace) : Prop where
  charges_eq : ∀ a v, charges s a (t ++ v) =
    records t ++ chargeOfResult (.error err : Except Thrown Unit) ++ charges s attempt v
  not_logged : ¬ Confirmed t

theorem submitAndConfirm_accounts (hs : s.breaker = true)
    {res : Except Thrown NormalizedReceipt}
    (h : (submitAndConfirm s attempt nonce fee).run.Runs t res) :
    (∃ receipt, res = .ok receipt ∧ Confirms s attempt t) ∨
      ∃ err, res = .error err ∧ Fails s attempt err t := by
  -- the answers that end the attempt before there is a receipt
  have hfails {t : Trace} {err : Thrown} (hrecords : records t = [])
      (hcharges : ∀ a v, charges s a (t ++ v) =
        chargeOfResult (.error err : Except Thrown Unit) ++ charges s attempt v)
      (hlog : ¬ Confirmed t) : Fails s attempt err t :=
    ⟨fun a v => by rw [hcharges, hrecords, List.nil_append], hlog⟩
  obtain ⟨r, t₁, rfl, h₁⟩ := runs_perform_bind.1 h
  rcases r with (e | submitted) | -
  · obtain ⟨rfl, rfl⟩ := h₁
    exact .inr ⟨_, rfl, hfails rfl (fun a v => rfl) (by simp [Confirmed])⟩
  · obtain ⟨logged, t₂, rfl, h₂⟩ := runs_perform_bind.1 h₁
    cases logged with
    | error e =>
      obtain ⟨rfl, rfl⟩ := h₂
      exact .inr ⟨_, rfl, hfails rfl (fun a v => rfl) (by simp [Confirmed])⟩
    | ok _ =>
      obtain ⟨r, t₃, rfl, h₃⟩ := runs_perform_bind.1 h₂
      rcases r with (e | receipt) | -
      · obtain ⟨rfl, rfl⟩ := h₃
        exact .inr ⟨_, rfl, hfails rfl (fun a v => rfl) (by simp [Confirmed])⟩
      · cases verdict_confirm hs h₃ with
        | reverted hrevert =>
          refine .inr ⟨_, rfl, fun a v => ?_, by simp [Confirmed]⟩
          show charges s a _ = [.failed] ++ [] ++ charges s attempt v
          simp [charges, chargeOf, attemptOf, chargeOfResult, hrevert, Race.result, Called.result,
            Except.mapError]
        | @confirmed n hash hsuccess =>
          refine .inl ⟨_, rfl, rfl, fun a v => ?_, n, hash, by simp⟩
          simp [charges, chargeOf, attemptOf, chargeOfResult, hsuccess, Race.result,
            Called.result, Except.mapError]
        | unlogged hsuccess =>
          refine .inr ⟨_, rfl, fun a v => ?_, by simp [Confirmed]⟩
          show charges s a _ = [.confirmed] ++ _ ++ charges s attempt v
          simp [charges, chargeOf, attemptOf, chargeOfResult, hsuccess, Race.result,
            Called.result, Except.mapError]
      · obtain ⟨rfl, rfl⟩ := h₃
        refine .inr ⟨_, rfl, hfails rfl (fun a v => ?_) (by simp [Confirmed])⟩
        simp [charges, chargeOf, attemptOf, chargeOfResult, Race.result, Called.result,
          Except.mapError]
  · obtain ⟨rfl, rfl⟩ := h₁
    exact .inr ⟨_, rfl, hfails rfl (fun a v => rfl) (by simp [Confirmed])⟩

/-! ## After a failed attempt -/

theorem bumpAndSleep_accounts {res : Except Thrown (ℤ × FeeFields)}
    (h : (bumpAndSleep s attempt nonce fee err).run.Runs t res) :
    records t = [] ∧ ¬ Confirmed t ∧ ∀ a v, charges s a (t ++ v) = charges s a v := by
  have hnil : records [] = [] ∧ ¬ Confirmed [] ∧ ∀ a v, charges s a ([] ++ v) = charges s a v :=
    ⟨rfl, by simp [Confirmed], fun a v => rfl⟩
  unfold bumpAndSleep at h
  split at h
  · obtain ⟨t₁, fee', t₂, rfl, ⟨rfl, -⟩, h₂⟩ | ⟨e, rfl, rfl, -⟩ := runs_except_bind.1 h
    · obtain ⟨logged, t₃, rfl, h₃⟩ := runs_perform_bind.1 h₂
      cases logged with
      | error e =>
        obtain ⟨rfl, rfl⟩ := h₃
        exact ⟨rfl, by simp [Confirmed], fun a v => rfl⟩
      | ok _ =>
        obtain ⟨slept, t₄, rfl, h₄⟩ := runs_perform_bind.1 h₃
        obtain rfl : t₄ = [] := by cases slept <;> exact h₄.1
        exact ⟨rfl, by simp [Confirmed], fun a v => rfl⟩
    · exact hnil
  · obtain ⟨rfl, rfl⟩ := h
    exact hnil

theorem failAttempt_accounts (hs : s.breaker = true) {res : Except Thrown (ℤ × FeeFields)}
    (h : (failAttempt s attempt nonce fee err).run.Runs t res) :
    records t = [.failed] ∧ ¬ Confirmed t ∧ ∀ a v, charges s a (t ++ v) = charges s a v := by
  obtain ⟨t₁, _, t₂, rfl, h₁, h₂⟩ | ⟨e, rfl, h₁⟩ := runs_except_bind.1 h
  case inr => cases (runs_recordFailure_on hs h₁).1
  obtain ⟨-, rfl⟩ := runs_recordFailure_on hs h₁
  split at h₂
  · obtain ⟨rfl, rfl⟩ := h₂
    exact ⟨rfl, by simp [Confirmed], fun a v => rfl⟩
  · obtain ⟨hrecords, hlog, hcharges⟩ := bumpAndSleep_accounts h₂
    refine ⟨congrArg (Charge.failed :: ·) hrecords, ?_, hcharges⟩
    simpa [Confirmed] using hlog

/-- The `catch` block records the failure that the error charges, and one that a refresh charges. -/
theorem onError_accounts (hs : s.breaker = true) (hle : attempt ≤ s.maxAttempts)
    {res : Except Thrown (ℤ × FeeFields)} (h : (onError s attempt nonce fee err).run.Runs t res) :
    ¬ Confirmed t ∧ ∃ cs, records t = chargeOfResult (.error err : Except Thrown Unit) ++ cs ∧
      ∀ v, charges s attempt (t ++ v) = cs ++ charges s attempt v := by
  unfold onError at h
  split at h
  case isTrue htx =>
    obtain ⟨rfl, rfl⟩ := h
    exact ⟨by simp [Confirmed], [], by simp [chargeOfResult, htx, records], fun v => rfl⟩
  rename_i htx
  rw [Bool.not_eq_true] at htx
  split at h
  case isFalse hnonce =>
    obtain ⟨hrecords, hlog, hcharges⟩ := failAttempt_accounts hs h
    refine ⟨hlog, [], ?_, hcharges attempt⟩
    simp [hrecords, chargeOfResult, htx, hnonce]
  rename_i hnonce
  have hfree : chargeOfResult (.error err : Except Thrown Unit) = [] := by
    simp [chargeOfResult, hnonce]
  rw [hfree]
  obtain ⟨logged, t₁, rfl, h₁⟩ := runs_perform_bind.1 h
  cases logged with
  | error e =>
    obtain ⟨rfl, rfl⟩ := h₁
    exact ⟨by simp [Confirmed], [], rfl, fun v => rfl⟩
  | ok _ =>
    obtain ⟨state, t₂, rfl, h₂⟩ := runs_perform_bind.1 h₁
    cases state with
    | error e =>
      obtain ⟨rfl, rfl⟩ := h₂
      exact ⟨by simp [Confirmed], [], rfl, fun v => rfl⟩
    | ok st =>
      obtain ⟨t₃, fee', t₄, rfl, ⟨rfl, hfee⟩, h₄⟩ | ⟨e, rfl, rfl, hfee⟩ := runs_except_bind.1 h₂
      case inr =>
        refine ⟨by simp [Confirmed], [], rfl, fun v => ?_⟩
        simp [charges, chargeOf, attemptOf, hfee, Except.isOk, Except.toBool]
      split at h₄
      case isTrue hlt =>
        have hcharges (v : Trace) : charges s attempt (⟨.fetchState, .ok st⟩ :: v) =
            charges s attempt v := by simp [charges, chargeOf, attemptOf, hlt.ne]
        obtain ⟨slept, t₅, rfl, h₅⟩ := runs_perform_bind.1 h₄
        obtain rfl : t₅ = [] := by cases slept <;> exact h₅.1
        exact ⟨by simp [Confirmed], [], rfl, fun v => hcharges _⟩
      case isFalse hlt =>
        obtain rfl : attempt = s.maxAttempts := le_antisymm hle (not_lt.1 hlt)
        obtain ⟨hrecords, hlog, hcharges⟩ := failAttempt_accounts hs h₄
        refine ⟨by simpa [Confirmed] using hlog, [.failed], hrecords, fun v => ?_⟩
        simp [charges, chargeOf, attemptOf, hfee, Except.isOk, Except.toBool, hcharges]

/-! ## The call -/

/-- The loop records what its answers charge; it confirms if it resolves, and not otherwise. -/
theorem attempts_accounts (hs : s.breaker = true) {left : ℕ}
    (hleft : attempt + left = s.maxAttempts + 1) {res : Except Thrown NormalizedReceipt}
    (h : (attempts s left attempt nonce fee err).run.Runs t res) :
    (∀ a, charges s a t = records t) ∧
      ((∃ receipt, res = .ok receipt) ∧ Confirmed t ∧ (∃ cs, records t = cs ++ [.confirmed]) ∨
        (∃ e, res = .error e) ∧ ¬ Confirmed t) := by
  induction left generalizing attempt nonce fee err t with
  | zero =>
    obtain ⟨rfl, rfl⟩ := h
    exact ⟨fun a => rfl, .inr ⟨⟨_, rfl⟩, by simp [Confirmed]⟩⟩
  | succ left ih =>
    obtain ⟨t₁, r, t₂, rfl, h₁, h₂⟩ := runs_observe_bind.1 h
    rcases submitAndConfirm_accounts hs h₁ with ⟨receipt, rfl, hok⟩ | ⟨err, rfl, hfail⟩
    · obtain ⟨rfl, rfl⟩ := h₂
      rw [List.append_nil]
      refine ⟨fun a => ?_, .inl ⟨⟨_, rfl⟩, hok.logged, [], hok.records_eq⟩⟩
      have hcharges := hok.charges_eq a []
      rw [List.append_nil] at hcharges
      rw [hcharges, hok.records_eq, charges]
    · have hle : attempt ≤ s.maxAttempts := by push_cast at hleft; omega
      obtain ⟨u₁, next, u₂, rfl, h₃, h₄⟩ | ⟨e, rfl, h₃⟩ := runs_except_bind.1 h₂
      · obtain ⟨hlog, cs, hrecords, hcharges⟩ := onError_accounts hs hle h₃
        obtain ⟨hrest, hend⟩ := ih (by push_cast at hleft; omega) h₄
        have hconfirmed : Confirmed (t₁ ++ (u₁ ++ u₂)) ↔ Confirmed u₂ := by
          rw [confirmed_append, confirmed_append, or_iff_right hfail.not_logged, or_iff_right hlog]
        refine ⟨fun a => ?_, ?_⟩
        · rw [hfail.charges_eq, hcharges, hrest, records_append, records_append, hrecords]
          simp only [List.append_assoc]
        · rw [hconfirmed]
          refine hend.imp (fun hok => ⟨hok.1, hok.2.1, ?_⟩) id
          obtain ⟨cs', hcs'⟩ := hok.2.2
          exact ⟨records t₁ ++ records u₁ ++ cs', by simp [records_append, hcs']⟩
      · obtain ⟨hlog, cs, hrecords, hcharges⟩ := onError_accounts hs hle h₃
        refine ⟨fun a => ?_, .inr ⟨⟨_, rfl⟩, ?_⟩⟩
        · have hnil := hcharges []
          rw [List.append_nil] at hnil
          rw [hfail.charges_eq, hnil, records_append, hrecords]
          simp [charges]
        · rw [confirmed_append, not_or]
          exact ⟨hfail.not_logged, hlog⟩

/-- The call has passed `assertClosed`. -/
def Passed (t : Trace) : Prop := (⟨.assertClosed, .ok ()⟩ : Event Request Answer) ∈ t

/-- What a call with a breaker can do. -/
inductive GuardedShape (opts : SendWithRetryOpts) : Trace → Except Thrown NormalizedReceipt → Prop
  | refused {t e} (h : ¬ Passed t) (hguard : ∀ ev ∈ t, ev.1.Guard) :
    GuardedShape opts t (.error e)
  | unstarted {pre r e} (hguard : ∀ ev ∈ pre, ev.1.Guard) (hmax : 1 ≤ opts.settings.maxAttempts) :
    GuardedShape opts (pre ++ [⟨.fetchState, r⟩]) (.error e)
  | started {pre st nonce fee err u res} (hguard : ∀ ev ∈ pre, ev.1.Guard)
      (hmax : 1 ≤ opts.settings.maxAttempts)
      (hrun : (attempts opts.settings opts.settings.maxAttempts.toNat 1 nonce fee err).run.Runs
        u res) :
      GuardedShape opts (pre ++ ⟨.fetchState, .ok st⟩ :: u) res

theorem guard_guardIdempotency {opts : SendWithRetryOpts} {res : Except Thrown Unit}
    (h : (guardIdempotency opts).run.Runs t res) : (∀ ev ∈ t, ev.1.Guard) ∧ ¬ Passed t := by
  unfold guardIdempotency at h
  split at h
  · obtain ⟨r, u, rfl, h₁⟩ := runs_perform_bind.1 h
    obtain rfl : u = [] := by
      rcases r with e | - | -
      · exact h₁.1
      · exact h₁.1
      · exact h₁.1
    exact ⟨List.forall_mem_singleton.2 trivial, by simp [Passed]⟩
  · obtain ⟨rfl, -⟩ := h
    exact ⟨List.forall_mem_nil _, by simp [Passed]⟩

theorem shape_of_breaker {opts : SendWithRetryOpts} (hb : opts.breaker = true)
    {res : Except Thrown NormalizedReceipt} (h : (sendWithRetry opts).run.Runs t res) :
    GuardedShape opts t res := by
  have hnil : (∀ ev ∈ ([] : Trace), ev.1.Guard) ∧ ¬ Passed [] :=
    ⟨List.forall_mem_nil _, by simp [Passed]⟩
  unfold sendWithRetry at h
  extract_lets s at h
  split at h
  · obtain ⟨rfl, rfl⟩ := h
    exact .refused hnil.2 hnil.1
  split at h
  · obtain ⟨rfl, rfl⟩ := h
    exact .refused hnil.2 hnil.1
  rename_i hmax
  obtain ⟨t₁, _, t₂, rfl, h₁, h₂⟩ | ⟨e, rfl, h₁⟩ := runs_except_bind.1 h
  case inr => exact .refused (guard_guardIdempotency h₁).2 (guard_guardIdempotency h₁).1
  obtain ⟨hguard₁, hpassed₁⟩ := guard_guardIdempotency h₁
  have hguard {r : Answer .assertClosed} : ∀ ev ∈ t₁ ++ [⟨.assertClosed, r⟩], ev.1.Guard :=
    List.forall_mem_append.2 ⟨hguard₁, List.forall_mem_singleton.2 trivial⟩
  rw [guardBreaker, if_pos (show s.breaker = true from hb)] at h₂
  obtain ⟨closed, t₃, rfl, h₃⟩ := runs_perform_bind.1 h₂
  cases closed with
  | error m =>
    obtain ⟨rfl, rfl⟩ := h₃
    refine .refused (fun hpassed => ?_) hguard
    rcases List.mem_append.1 hpassed with hpassed | hpassed
    · exact hpassed₁ hpassed
    · cases List.mem_singleton.1 hpassed
  | ok _ =>
    obtain ⟨r, t₄, rfl, h₄⟩ := runs_perform_bind.1 h₃
    rw [List.append_cons]
    cases r with
    | error e =>
      obtain ⟨rfl, rfl⟩ := h₄
      exact .unstarted hguard (not_lt.1 hmax)
    | ok st =>
      obtain ⟨t₅, fee, t₆, rfl, ⟨rfl, -⟩, h₆⟩ | ⟨e, rfl, rfl, -⟩ := runs_except_bind.1 h₄
      · exact .started hguard (not_lt.1 hmax) h₆
      · exact .unstarted hguard (not_lt.1 hmax)

/-- The guards charge and record nothing. -/
theorem guard_accounts (hguard : ∀ ev ∈ t, ev.1.Guard) :
    records t = [] ∧ ¬ Confirmed t ∧ ∀ a v, charges s a (t ++ v) = charges s a v := by
  induction t with
  | nil => exact ⟨rfl, by simp [Confirmed], fun a v => rfl⟩
  | cons ev t ih =>
    obtain ⟨hev, hrest⟩ := List.forall_mem_cons.1 hguard
    obtain ⟨hrecords, hlog, hcharges⟩ := ih hrest
    obtain ⟨e, r⟩ := ev
    cases e with
    | alreadySent key => exact ⟨hrecords, by simpa [Confirmed] using hlog, hcharges⟩
    | assertClosed => exact ⟨hrecords, by simpa [Confirmed] using hlog, hcharges⟩
    | _ => exact absurd hev id

/-- A call records what its answers charge; it confirms if it resolves, and not otherwise. -/
theorem sendWithRetry_accounts {opts : SendWithRetryOpts} (hb : opts.breaker = true)
    {res : Except Thrown NormalizedReceipt} (h : (sendWithRetry opts).run.Runs t res) :
    charges opts.settings 0 t = records t ∧
      ((∃ receipt, res = .ok receipt) ∧ Confirmed t ∧ (∃ cs, records t = cs ++ [.confirmed]) ∨
        (∃ e, res = .error e) ∧ ¬ Confirmed t) := by
  cases shape_of_breaker hb h with
  | refused _ hguard =>
    obtain ⟨hrecords, hlog, hcharges⟩ := guard_accounts (s := opts.settings) hguard
    have hnil := hcharges 0 []
    rw [List.append_nil] at hnil
    exact ⟨hnil.trans hrecords.symm, .inr ⟨⟨_, rfl⟩, hlog⟩⟩
  | @unstarted pre r _ hguard hmax =>
    obtain ⟨hrecords, hlog, hcharges⟩ := guard_accounts (s := opts.settings) hguard
    refine ⟨?_, .inr ⟨⟨_, rfl⟩, by simpa [Confirmed] using hlog⟩⟩
    rw [hcharges, charges_fetchState hmax, records_append, hrecords]
    rfl
  | @started pre st nonce fee err u _ hguard hmax hrun =>
    obtain ⟨hrecords, hlog, hcharges⟩ := guard_accounts (s := opts.settings) hguard
    have hleft : (1 : ℤ) + opts.settings.maxAttempts.toNat = opts.settings.maxAttempts + 1 := by
      omega
    obtain ⟨hrun, hend⟩ := attempts_accounts hb hleft hrun
    have hwhole : records (pre ++ ⟨.fetchState, .ok st⟩ :: u) = records u := by
      rw [records_append, hrecords]
      rfl
    have hconfirmed : Confirmed (pre ++ ⟨.fetchState, .ok st⟩ :: u) ↔ Confirmed u := by
      rw [confirmed_append, or_iff_right hlog]
      simp [Confirmed]
    rw [hcharges, charges_fetchState hmax, hrun, hwhole, hconfirmed]
    exact ⟨rfl, hend⟩

end Runs

/-- A call that resolves leaves no failures, and a call that passed the breaker and rejects leaves
more than there were. -/
def Accounted (b : CircuitBreaker) (clock : ℕ → ℚ) (t : Trace) :
    Except Thrown NormalizedReceipt → Prop
  | .ok _ => (b.after clock t).failures = 0
  | .error _ => Passed t → b.failures < (b.after clock t).failures

/-- **When a call leaves what it should in the breaker**: when the logger takes the line of its
confirmed transaction, and else when, unless the breaker turns it away, its answers charge a
failure; and, if a receipt was a success, more failures after that than there were before. -/
theorem accounted_iff (opts : SendWithRetryOpts) (hb : opts.breaker = true) (b : CircuitBreaker)
    (clock : ℕ → ℚ) {t : Trace} {res : Except Thrown NormalizedReceipt}
    (hrun : (sendWithRetry opts).run.Runs t res) :
    Accounted b clock t res ↔
      Confirmed t ∨ (Passed t → Raises b.failures (charges opts.settings 0 t)) := by
  obtain ⟨hcharges, hend⟩ := sendWithRetry_accounts hb hrun
  rw [hcharges]
  rcases hend with ⟨⟨receipt, rfl⟩, hlog, cs, hrecords⟩ | ⟨⟨e, rfl⟩, hlog⟩
  · refine iff_of_true ?_ (.inl hlog)
    show (b.after clock t).failures = 0
    rw [failures_after, hrecords, tally_concat]
    rfl
  · rw [or_iff_right hlog]
    show (_ → _) ↔ _
    rw [failures_after, lt_tally_iff]

/-- One attempt, which is rejected. -/
theorem accounted_iff_rejected :
    ∃ (t : Trace) (res : Except Thrown NormalizedReceipt),
      (sendWithRetry { maxAttempts := some 1, bumpFactor := some 2, breaker := true }).run.Runs
        t res ∧ Passed t ∧ Accounted Shared.fragile (fun _ => 0) t res := by
  have hrun : ∃ e, (sendWithRetry
      { maxAttempts := some 1, bumpFactor := some 2, breaker := true }).run.Runs
        [⟨.assertClosed, .ok ()⟩, ⟨.fetchState, .ok ⟨7, { gasPrice := some 100 }⟩⟩,
          ⟨.signSend ⟨7, { gasPrice := some 100 }, 1⟩, .settled (.error ⟨"underpriced", false⟩)⟩,
          ⟨.recordFailure, ()⟩] (.error e) :=
    ⟨_, .ask (.ask (.ask (.ask ⟨rfl, rfl⟩)))⟩
  obtain ⟨e, hrun⟩ := hrun
  refine ⟨_, _, hrun, List.mem_cons_self .., ?_⟩
  exact (accounted_iff _ rfl Shared.fragile (fun _ => 0) hrun).2 (.inr fun _ => by decide)

/-- The chain cannot be reached, and the breaker does not count it. -/
theorem exists_not_accounted :
    ∃ (opts : SendWithRetryOpts) (b : CircuitBreaker) (clock : ℕ → ℚ) (t : Trace)
      (res : Except Thrown NormalizedReceipt), opts.breaker = true ∧
      b.assertClosed (clock 0) = .ok () ∧ (sendWithRetry opts).run.Runs t res ∧
      ¬ Accounted b clock t res := by
  refine ⟨{ bumpFactor := some 2, breaker := true }, Shared.fragile, fun _ => 0,
    [⟨.assertClosed, .ok ()⟩, ⟨.fetchState, .error ⟨"connect ECONNREFUSED", false⟩⟩],
    .error (.foreign ⟨"connect ECONNREFUSED", false⟩), rfl, rfl, .ask (.ask ⟨rfl, rfl⟩), ?_⟩
  intro h
  exact lt_irrefl _ (h (List.mem_cons_self ..))

end Resilience.Onchain.TypeScript
