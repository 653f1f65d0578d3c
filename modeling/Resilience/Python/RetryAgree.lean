import Resilience.Foundations.Handlers
import Resilience.Python.Retry

/-!
# The two drivers on the same outcomes

`_run_sync` and `_run_async` under one host: the same outcomes of the wrapped function, each within
the timeout, the same breaker and the same readings of its clock.

The drivers agree up to one clause: `_run_async` catches every `asyncio.TimeoutError` as the end of
its own deadline, also one that the function raises itself (`agree_iff`).
-/

namespace Resilience.Python

/-- What a run meets. The clock of the breaker is given by the number of calls made before. -/
structure Script (V : Type) where
  /-- Of the calls, in order. -/
  outcome : ℕ → Except PyException V
  /-- How long they take. -/
  took : ℕ → ℚ
  allowAt : ℕ → ℚ
  retryAfterAt : ℕ → ℚ × ℚ
  recordAt : ℕ → ℚ
  uniform : ℕ → ℚ → ℚ → ℚ

/-- What a run does: the calls, the operations of the breaker, latest first, and the breaker. -/
structure Log where
  breaker : CircuitBreaker
  ops : List GateOp := []
  calls : ℕ := 0

/-- What is done so far, and the reading of `time.monotonic`. -/
structure Host where
  log : Log
  now : ℚ

section Host

variable {V : Type} (script : Script V) (cb : Option BreakerParams)

/-- `cb.allow()`; without a breaker, every call is admitted. -/
def Log.allow (l : Log) : Bool × Log :=
  match cb with
  | none => (true, l)
  | some p =>
    let now := script.allowAt l.calls
    let (allowed, b) := l.breaker.allow p now
    (allowed, { l with breaker := b, ops := .allow now :: l.ops })

/-- `cb.retry_after()`. -/
def Log.retryAfter (l : Log) : ℚ × Log :=
  match cb with
  | none => (0, l)
  | some p =>
    let (now, later) := script.retryAfterAt l.calls
    let (seconds, b) := l.breaker.retryAfter p now later
    (seconds, { l with breaker := b, ops := .retryAfter now later :: l.ops })

/-- `cb.record_success()`, if there is a breaker. -/
def Log.success (l : Log) : Log :=
  match cb with
  | none => l
  | some _ => { l with
    breaker := l.breaker.recordSuccess
    ops := .recordSuccess (script.recordAt l.calls) :: l.ops }

/-- `cb.record_failure()`, if there is a breaker. -/
def Log.failure (l : Log) : Log :=
  match cb with
  | none => l
  | some p => { l with
    breaker := l.breaker.recordFailure p (script.recordAt l.calls)
    ops := .recordFailure (script.recordAt l.calls) :: l.ops }

def Log.called (l : Log) : Log := { l with calls := l.calls + 1 }

/-- The host. A call that ends within the timeout has the same outcome under `asyncio.wait_for`. -/
def Script.host : Handler Request (Reply V) Host
  | .allow, s => let (allowed, l) := s.log.allow script cb; (allowed, { s with log := l })
  | .retryAfter, s => let (seconds, l) := s.log.retryAfter script cb; (seconds, { s with log := l })
  | .recordSuccess, s => ((), { s with log := s.log.success script cb })
  | .recordFailure, s => ((), { s with log := s.log.failure script cb })
  | .monotonic, s => (s.now, s)
  | .call, s | .waitFor _, s =>
    (script.outcome s.log.calls, ⟨s.log.called, s.now + script.took s.log.calls⟩)
  | .debug _ _, s => (.ok (), s)
  | .uniform low high, s => (.ok (script.uniform s.log.calls low high), s)
  | .sleep delay, s => (.ok (), { s with now := s.now + delay })

end Host

/-! ## Attempts -/

section Attempts

variable {V : Type} (script : Script V) (policy : RetryPolicy)

/-- The run under the host, by what it does. -/
def play {α : Type} (x : Driver V α) (s : Host) : Except Raised α × Log :=
  let r := x.run.handle (script.host policy.circuitBreaker) s
  (r.1, r.2.log)

/-- A failure, recorded: raised, or left to the next attempt. -/
def failing (giveUp : Bool) (err : Raised) (l : Log) :
    Except Raised (Except Raised V) × Log :=
  (if giveUp then .error err else .ok (.error err), l.failure script policy.circuitBreaker)

/-- It returns, and leaves the log as it is. -/
def Pauses (x : Driver V Unit) : Prop :=
  ∀ s, ∃ now, x.run.handle (script.host policy.circuitBreaker) s = (.ok (), ⟨s.log, now⟩)

variable {script policy} {s : Host} {l : Log} {now : ℚ} (attempt : ℕ)

theorem pauses_sleepAsync : Pauses script policy (sleepAsync policy attempt) := by
  intro s
  rw [sleepAsync, handle_except_bind]
  exact ⟨_, rfl⟩

theorem pauses_sleepSync : Pauses script policy (sleepSync policy attempt) := by
  intro s
  rw [sleepSync, handle_except_bind]
  simp only [backoff, handle_perform, raised, Script.host, Except.mapError]
  split_ifs
  · exact ⟨_, rfl⟩
  · exact ⟨_, rfl⟩

theorem pauses_debug (exc : PyException) : Pauses script policy (do
    perform (.debug (attempt + 1) exc) raised
    sleepSync policy attempt) := by
  intro s
  rw [handle_except_bind]
  exact pauses_sleepSync attempt s

theorem play_failed (giveUp : Bool) (err : Raised) {pause : Driver V Unit}
    (hpause : Pauses script policy pause) :
    play script policy (failed policy giveUp err pause) s =
      failing script policy giveUp err s.log := by
  have hrecord : (recordFailure (V := V) policy).run.handle
      (script.host policy.circuitBreaker) s =
        (.ok (), { s with log := s.log.failure script policy.circuitBreaker }) := by
    rw [recordFailure]
    cases policy.circuitBreaker <;> rfl
  simp only [play, failed, handle_except_bind, hrecord, failing]
  cases giveUp with
  | true => rfl
  | false =>
    obtain ⟨now, hnow⟩ := hpause { s with log := s.log.failure script policy.circuitBreaker }
    simp only [Bool.false_eq_true, if_false, handle_except_bind, hnow, handle_fromExcept]

theorem play_succeeded (result : V) :
    play script policy (succeeded policy result) s =
      (.ok (.ok result), s.log.success script policy.circuitBreaker) := by
  have hrecord : (recordSuccess (V := V) policy).run.handle
      (script.host policy.circuitBreaker) s =
        (.ok (), { s with log := s.log.success script policy.circuitBreaker }) := by
    rw [recordSuccess]
    cases policy.circuitBreaker <;> rfl
  simp only [play, succeeded, handle_except_bind, hrecord, handle_fromExcept]

theorem play_attemptSync_ok {result : V} (hok : script.outcome l.calls = .ok result)
    (htook : script.took l.calls ≤ policy.timeout) :
    play script policy (attemptSync policy attempt) ⟨l, now⟩ =
      (.ok (.ok result), l.called.success script policy.circuitBreaker) := by
  rw [play, attemptSync]
  simp only [handle_except_bind, handle_perform, Script.host, hok, add_sub_cancel_left]
  rw [if_neg (not_lt.2 htook)]
  exact play_succeeded result

theorem play_attemptSync_error {exc : PyException}
    (herror : script.outcome l.calls = .error exc) :
    play script policy (attemptSync policy attempt) ⟨l, now⟩ =
      failing script policy (!policy.isRetryable exc || policy.isLast attempt) (.exc exc)
        l.called := by
  rw [play, attemptSync]
  simp only [handle_except_bind, handle_perform, Script.host, herror]
  exact play_failed _ _ (pauses_debug attempt exc)

theorem play_attemptAsync_ok {result : V} (hok : script.outcome l.calls = .ok result) :
    play script policy (attemptAsync policy attempt) ⟨l, now⟩ =
      (.ok (.ok result), l.called.success script policy.circuitBreaker) := by
  rw [play, attemptAsync]
  simp only [handle_except_bind, handle_perform, Script.host, hok]
  exact play_succeeded result

theorem play_attemptAsync_error {exc : PyException}
    (herror : script.outcome l.calls = .error exc)
    (htimeout : exc.isInstance .asyncioTimeoutError = false) :
    play script policy (attemptAsync policy attempt) ⟨l, now⟩ =
      failing script policy (!policy.isRetryable exc || policy.isLast attempt) (.exc exc)
        l.called := by
  rw [play, attemptAsync]
  simp only [handle_except_bind, handle_perform, Script.host, herror, htimeout]
  exact play_failed _ _ (pauses_sleepAsync attempt)

/-- What the function raises is taken for the end of the deadline. -/
theorem play_attemptAsync_timeout {exc : PyException}
    (herror : script.outcome l.calls = .error exc)
    (htimeout : exc.isInstance .asyncioTimeoutError = true) :
    play script policy (attemptAsync policy attempt) ⟨l, now⟩ =
      failing script policy (policy.isLast attempt) (.callExceeded policy.timeout exc)
        l.called := by
  rw [play, attemptAsync]
  simp only [handle_except_bind, handle_perform, Script.host, herror, htimeout]
  exact play_failed _ _ (pauses_sleepAsync attempt)

end Attempts

/-! ## The loop -/

section Loop

variable {V : Type} {script : Script V} {policy : RetryPolicy} {l : Log} {now : ℚ}

theorem handle_of_play {α : Type} {x : Driver V α} {s : Host} {r : Except Raised α}
    (h : play script policy x s = (r, l)) :
    ∃ now, x.run.handle (script.host policy.circuitBreaker) s = (r, ⟨l, now⟩) := by
  obtain ⟨rfl, rfl⟩ := Prod.mk.injEq .. ▸ h
  exact ⟨_, rfl⟩

/-- The error of a guard that refuses. -/
def refusal (script : Script V) (policy : RetryPolicy) (l : Log) : Raised :=
  .circuitOpenError ((policy.circuitBreaker.map (·.name)).getD "")
    (l.retryAfter script policy.circuitBreaker).1

theorem handle_guard :
    (guard (V := V) policy).run.handle (script.host policy.circuitBreaker) ⟨l, now⟩ =
      match l.allow script policy.circuitBreaker with
      | (true, l) => (.ok (), ⟨l, now⟩)
      | (false, l) =>
        (.error (refusal script policy l),
          ⟨(l.retryAfter script policy.circuitBreaker).2, now⟩) := by
  rw [guard]
  cases hcb : policy.circuitBreaker with
  | none => rfl
  | some p =>
    simp only [handle_except_bind, handle_perform, Script.host]
    rcases l.allow script (some p) with ⟨_ | _, l⟩
    · simp only [refusal, hcb]
      rfl
    · rfl

theorem play_drive_refused {body : ℕ → Driver V (Except Raised V)} {left attempt : ℕ}
    {lastExc : Option Raised} {l' : Log}
    (hallow : l.allow script policy.circuitBreaker = (false, l')) :
    play script policy (drive policy body (left + 1) attempt lastExc) ⟨l, now⟩ =
      (.error (refusal script policy l'), (l'.retryAfter script policy.circuitBreaker).2) := by
  rw [play, drive, handle_except_bind, handle_guard, hallow]

theorem play_drive_attempt {body : ℕ → Driver V (Except Raised V)} (left : ℕ) {attempt : ℕ}
    (lastExc : Option Raised) {l' l'' : Log} {r : Except Raised (Except Raised V)}
    (hallow : l.allow script policy.circuitBreaker = (true, l'))
    (hbody : play script policy (body attempt) ⟨l', now⟩ = (r, l'')) :
    ∃ now', play script policy (drive policy body (left + 1) attempt lastExc) ⟨l, now⟩ =
      match r with
      | .error err => (.error err, l'')
      | .ok (.ok result) => (.ok result, l'')
      | .ok (.error err) =>
        play script policy (drive policy body left (attempt + 1) (some err)) ⟨l'', now'⟩ := by
  obtain ⟨now', hnow⟩ := handle_of_play hbody
  refine ⟨now', ?_⟩
  rw [play, drive, handle_except_bind, handle_guard, hallow]
  dsimp only
  rw [handle_except_bind, hnow]
  rcases r with err | (err | result)
  · rfl
  · rfl
  · rfl

theorem play_drive_failing {body : ℕ → Driver V (Except Raised V)} (left : ℕ) {attempt : ℕ}
    (lastExc : Option Raised) {l' l'' : Log} {giveUp : Bool} {err : Raised}
    (hallow : l.allow script policy.circuitBreaker = (true, l'))
    (hbody : play script policy (body attempt) ⟨l', now⟩ = failing script policy giveUp err l'') :
    ∃ now', play script policy (drive policy body (left + 1) attempt lastExc) ⟨l, now⟩ =
      if giveUp then (.error err, l''.failure script policy.circuitBreaker)
      else play script policy (drive policy body left (attempt + 1) (some err))
        ⟨l''.failure script policy.circuitBreaker, now'⟩ := by
  obtain ⟨now', hplay⟩ := play_drive_attempt left lastExc hallow hbody
  refine ⟨now', hplay.trans ?_⟩
  cases giveUp with
  | true => rfl
  | false => rfl

end Loop

/-! ## More work -/

/-- The calls and the operations so far. -/
def Log.work (l : Log) : ℕ := l.calls + l.ops.length

section Work

variable {V : Type} (script : Script V) (policy : RetryPolicy) (cb : Option BreakerParams) (l : Log)

theorem work_allow : l.work ≤ (l.allow script cb).2.work := by
  cases cb with
  | none => exact le_rfl
  | some p => exact Nat.le_succ l.work

theorem work_allow_refused (h : (l.allow script cb).1 = false) :
    l.work < (l.allow script cb).2.work := by
  cases cb with
  | none => cases h
  | some p => exact Nat.lt_succ_self l.work

theorem work_retryAfter : l.work ≤ (l.retryAfter script cb).2.work := by
  cases cb with
  | none => exact le_rfl
  | some p => exact Nat.le_succ l.work

theorem work_success : l.work ≤ (l.success script cb).work := by
  cases cb with
  | none => exact le_rfl
  | some p => exact Nat.le_succ l.work

theorem work_failure : l.work ≤ (l.failure script cb).work := by
  cases cb with
  | none => exact le_rfl
  | some p => exact Nat.le_succ l.work

theorem work_called : l.called.work = l.work + 1 := by
  simp only [Log.work, Log.called]
  omega

/-- No request undoes what was done. -/
theorem work_play {α : Type} (x : Driver V α) (s : Host) :
    s.log.work ≤ (play script policy x s).2.work := by
  refine handle_keeps (script.host policy.circuitBreaker) (I := fun s' => s.log.work ≤ s'.log.work)
    (fun e s' hle => hle.trans ?_) x.run le_rfl
  cases e with
  | allow => exact work_allow _ _ _
  | retryAfter => exact work_retryAfter _ _ _
  | recordSuccess => exact work_success _ _ _
  | recordFailure => exact work_failure _ _ _
  | call => exact (Nat.le_succ _).trans (work_called _).ge
  | waitFor => exact (Nat.le_succ _).trans (work_called _).ge
  | monotonic => exact le_rfl
  | debug => exact le_rfl
  | uniform => exact le_rfl
  | sleep => exact le_rfl

theorem work_attemptAsync (attempt : ℕ) (now : ℚ) :
    l.work < (play script policy (attemptAsync policy attempt) ⟨l, now⟩).2.work := by
  have hcalled : l.work < l.called.work := by
    rw [work_called]
    omega
  cases houtcome : script.outcome l.calls with
  | ok result =>
    rw [play_attemptAsync_ok attempt houtcome]
    exact hcalled.trans_le (work_success _ _ _)
  | error exc =>
    cases htimeout : exc.isInstance .asyncioTimeoutError with
    | false =>
      rw [play_attemptAsync_error attempt houtcome htimeout]
      exact hcalled.trans_le (work_failure _ _ _)
    | true =>
      rw [play_attemptAsync_timeout attempt houtcome htimeout]
      exact hcalled.trans_le (work_failure _ _ _)

/-- An attempt that is left asks the breaker or calls the function. -/
theorem work_drive (left attempt : ℕ) (lastExc : Option Raised) (now : ℚ) :
    l.work <
      (play script policy (drive policy (attemptAsync policy) (left + 1) attempt lastExc)
        ⟨l, now⟩).2.work := by
  rcases hallow : l.allow script policy.circuitBreaker with ⟨_ | _, l'⟩
  · have hwork := work_allow_refused script policy.circuitBreaker l (congrArg Prod.fst hallow)
    rw [hallow] at hwork
    rw [play_drive_refused hallow]
    exact hwork.trans_le (work_retryAfter _ _ _)
  · have hwork := work_allow script policy.circuitBreaker l
    rw [hallow] at hwork
    have hattempt := work_attemptAsync script policy l' attempt now
    rcases hbody : play script policy (attemptAsync policy attempt) ⟨l', now⟩ with ⟨r, l''⟩
    rw [hbody] at hattempt
    obtain ⟨now', hplay⟩ := play_drive_attempt left lastExc hallow hbody
    rw [hplay]
    rcases r with err | (err | result)
    · exact hwork.trans_lt hattempt
    · exact (hwork.trans_lt hattempt).trans_le (work_play _ _ _ ⟨l'', now'⟩)
    · exact hwork.trans_lt hattempt

end Work

/-! ## Agreement -/

section Agree

variable {V : Type} (script : Script V) (policy : RetryPolicy)

/-- As many calls, the same operations of the breaker, and the same value or exception. -/
def Agree (x y : Except Raised V × Log) : Prop :=
  x.2.calls = y.2.calls ∧ x.2.ops = y.2.ops ∧ x.1 = y.1

/-- The first exception that the policy does not let another attempt follow, because it is not
retryable or comes in the last attempt, is no `asyncio.TimeoutError`. -/
def TimeoutsRetried : ℕ → ℕ → Log → Prop
  | 0, _, _ => True
  | left + 1, attempt, l =>
    match l.allow script policy.circuitBreaker with
    | (false, _) => True
    | (true, l) =>
      match script.outcome l.calls with
      | .ok _ => True
      | .error exc =>
        if !policy.isRetryable exc || policy.isLast attempt then
          exc.isInstance .asyncioTimeoutError = false
        else
          TimeoutsRetried left (attempt + 1) (l.called.failure script policy.circuitBreaker)

variable {script policy}

theorem timeoutsRetried_refused {l l' : Log} (left attempt : ℕ)
    (hallow : l.allow script policy.circuitBreaker = (false, l')) :
    TimeoutsRetried script policy (left + 1) attempt l := by
  rw [TimeoutsRetried, hallow]
  trivial

theorem timeoutsRetried_ok {l l' : Log} {result : V} (left attempt : ℕ)
    (hallow : l.allow script policy.circuitBreaker = (true, l'))
    (hok : script.outcome l'.calls = .ok result) :
    TimeoutsRetried script policy (left + 1) attempt l := by
  simp only [TimeoutsRetried, hallow, hok]

theorem timeoutsRetried_error {l l' : Log} {exc : PyException} (left attempt : ℕ)
    (hallow : l.allow script policy.circuitBreaker = (true, l'))
    (herror : script.outcome l'.calls = .error exc) :
    TimeoutsRetried script policy (left + 1) attempt l ↔
      if !policy.isRetryable exc || policy.isLast attempt then
        exc.isInstance .asyncioTimeoutError = false
      else
        TimeoutsRetried script policy left (attempt + 1)
          (l'.called.failure script policy.circuitBreaker) := by
  simp only [TimeoutsRetried, hallow, herror]

/-- Another attempt is left, unless this one is the last. -/
theorem exists_left {left attempt : ℕ} (h : attempt + (left + 1) = policy.maxAttempts.toNat)
    (hlast : policy.isLast attempt = false) : ∃ n, left = n + 1 := by
  have hpos := policy.maxAttempts_pos
  rw [RetryPolicy.isLast, beq_eq_false_iff_ne] at hlast
  exact ⟨left - 1, by omega⟩

/-- A run that has ended does not agree with one that has an attempt left. -/
theorem not_agree_of_left {r : Except Raised V} {l : Log} {left attempt : ℕ}
    {lastExc : Option Raised} {now : ℚ} :
    ¬ Agree (r, l) (play script policy
      (drive policy (attemptAsync policy) (left + 1) attempt lastExc) ⟨l, now⟩) := by
  intro hagree
  have hwork := work_drive script policy l left attempt lastExc now
  rw [Log.work, Log.work, ← hagree.1, ← hagree.2.1] at hwork
  exact lt_irrefl _ hwork

/-- From hosts with the same log, with `left + 1` attempts left. -/
theorem agree_drive (htook : ∀ k, script.took k ≤ policy.timeout) (left attempt : ℕ)
    (hleft : attempt + (left + 1) = policy.maxAttempts.toNat) (lastSync lastAsync : Option Raised)
    (l : Log) (now now' : ℚ) :
    Agree (play script policy (drive policy (attemptSync policy) (left + 1) attempt lastSync)
          ⟨l, now⟩)
        (play script policy (drive policy (attemptAsync policy) (left + 1) attempt lastAsync)
          ⟨l, now'⟩) ↔
      TimeoutsRetried script policy (left + 1) attempt l := by
  induction left using Nat.strong_induction_on generalizing attempt lastSync lastAsync l now
    now' with
  | _ left ih =>
    rcases hallow : l.allow script policy.circuitBreaker with ⟨_ | _, l'⟩
    · rw [play_drive_refused hallow, play_drive_refused hallow]
      exact iff_of_true ⟨rfl, rfl, rfl⟩ (timeoutsRetried_refused left attempt hallow)
    cases houtcome : script.outcome l'.calls with
    | ok result =>
      obtain ⟨_, hsync⟩ := play_drive_attempt left lastSync hallow
        (play_attemptSync_ok attempt houtcome (htook l'.calls))
      obtain ⟨_, hasync⟩ := play_drive_attempt left lastAsync hallow
        (play_attemptAsync_ok attempt houtcome)
      rw [hsync, hasync]
      exact iff_of_true ⟨rfl, rfl, rfl⟩ (timeoutsRetried_ok left attempt hallow houtcome)
    | error exc =>
      obtain ⟨t, hsync⟩ := play_drive_failing left lastSync hallow
        (play_attemptSync_error attempt houtcome)
      rw [hsync, timeoutsRetried_error left attempt hallow houtcome]
      -- The next attempt of both, if there is one left.
      have hnext (t' : ℚ) (err : Raised) (hlast : policy.isLast attempt = false) :
          Agree (play script policy (drive policy (attemptSync policy) left (attempt + 1)
                (some (.exc exc))) ⟨l'.called.failure script policy.circuitBreaker, t⟩)
              (play script policy (drive policy (attemptAsync policy) left (attempt + 1)
                (some err)) ⟨l'.called.failure script policy.circuitBreaker, t'⟩) ↔
            TimeoutsRetried script policy left (attempt + 1)
              (l'.called.failure script policy.circuitBreaker) := by
        obtain ⟨n, rfl⟩ := exists_left hleft hlast
        exact ih n (Nat.lt_succ_self n) (attempt + 1) (by omega) _ _ _ t t'
      cases htimeout : exc.isInstance .asyncioTimeoutError with
      | false =>
        obtain ⟨t', hasync⟩ := play_drive_failing left lastAsync hallow
          (play_attemptAsync_error attempt houtcome htimeout)
        rw [hasync]
        split_ifs with hgiveUp
        · exact iff_of_true ⟨rfl, rfl, rfl⟩ rfl
        · rw [Bool.not_eq_true, Bool.or_eq_false_iff] at hgiveUp
          exact hnext t' _ hgiveUp.2
      | true =>
        obtain ⟨t', hasync⟩ := play_drive_failing left lastAsync hallow
          (play_attemptAsync_timeout attempt houtcome htimeout)
        rw [hasync]
        cases hlast : policy.isLast attempt with
        | true =>
          simp only [Bool.or_true, if_true]
          refine iff_of_false (fun hagree => ?_) (by simp)
          cases hagree.2.2
        | false =>
          simp only [Bool.or_false, Bool.false_eq_true, if_false]
          split_ifs with hretry
          · -- `_run_sync` has ended, and `_run_async` has more to do.
            obtain ⟨n, rfl⟩ := exists_left hleft hlast
            exact iff_of_false not_agree_of_left (by simp)
          · exact hnext t' _ hlast

/-- **When the two drivers agree.** With every call within the timeout, `_run_sync` and `_run_async`
make as many calls, perform the same operations of the breaker and end alike exactly when the
exception after which the policy allows no further attempt is no `asyncio.TimeoutError`. -/
theorem agree_iff (script : Script V) (policy : RetryPolicy) (breaker : CircuitBreaker) (now : ℚ)
    (htook : ∀ k, script.took k ≤ policy.timeout) :
    Agree (play script policy (runSync policy) ⟨{ breaker }, now⟩)
        (play script policy (runAsync policy) ⟨{ breaker }, now⟩) ↔
      TimeoutsRetried script policy policy.maxAttempts.toNat 0 { breaker } := by
  have hpos := policy.maxAttempts_pos
  obtain ⟨left, hleft⟩ : ∃ left, policy.maxAttempts.toNat = left + 1 :=
    ⟨policy.maxAttempts.toNat - 1, by omega⟩
  rw [runSync, runAsync, hleft]
  exact agree_drive htook left 0 (by omega) none none { breaker } now now

/-- A retryable exception first, then a value. -/
theorem agree_iff_retried :
    let script : Script ℕ :=
      ⟨fun k => if k = 0 then .error ⟨"ValueError()", [.exception], none, none⟩
      else .ok k, fun _ => 1, fun _ => 0, fun _ => (0, 0), fun _ => 0, fun _ _ _ => 0⟩
    ∃ policy, RetryPolicy.create 1 2 0 0 1 = .ok policy ∧
      (Agree (play script policy (runSync policy) ⟨{ breaker := {} }, 0⟩)
          (play script policy (runAsync policy) ⟨{ breaker := {} }, 0⟩) ↔
        TimeoutsRetried script policy 2 0 { breaker := {} }) := by
  intro script
  refine ⟨⟨1, 2, 0, 0, 1, [.exception], defaultRetryableStatus, none, by norm_num, by norm_num,
    le_rfl, le_rfl, le_rfl⟩, rfl, ?_⟩
  exact agree_iff script _ {} 0 fun _ => le_rfl

/-- The function raises `asyncio.TimeoutError` at once, which the policy does not retry: `_run_sync`
raises it, `_run_async` calls the function again. -/
theorem exists_not_agree :
    ¬ ∀ (script : Script ℕ) (policy : RetryPolicy) (breaker : CircuitBreaker),
    (∀ k, script.took k ≤ policy.timeout) →
      Agree (play script policy (runSync policy) ⟨{ breaker }, 0⟩)
        (play script policy (runAsync policy) ⟨{ breaker }, 0⟩) := by
  intro hall
  let policy : RetryPolicy := ⟨1, 2, 0, 0, 1, [.other "ConnectionError"], defaultRetryableStatus,
    none, by norm_num, by norm_num, le_rfl, le_rfl, le_rfl⟩
  let script : Script ℕ := ⟨fun k => if k = 0 then
      .error ⟨"TimeoutError()", [.asyncioTimeoutError, .exception, .baseException], none, none⟩
    else .ok k, fun _ => 0, fun _ => 0, fun _ => (0, 0), fun _ => 0, fun _ _ _ => 0⟩
  have hagree := hall script policy {} fun _ => zero_le_one
  have hsync : (play script policy (runSync policy) ⟨{ breaker := {} }, 0⟩).2.calls = 1 := by
    decide +kernel
  have hasync : (play script policy (runAsync policy) ⟨{ breaker := {} }, 0⟩).2.calls = 2 := by
    decide +kernel
  rw [Agree, hsync, hasync] at hagree
  exact absurd hagree.1 (by decide)

end Agree

end Resilience.Python
