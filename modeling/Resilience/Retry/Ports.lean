import Resilience.Foundations.Retrying
import Resilience.Rust.RetryRuns
import Resilience.TypeScript.RetryRuns
import Resilience.Python.RetryBookkeeping
import Mathlib.Tactic.Positivity

/-!
# The retry loops of the three ports

`retry` of `rust/src/retry.rs`, `retry` of `typescript/src/retry.ts` and the two drivers of
`python/src/cubiczan_resilience/retry.py`, without a breaker, are loops in the sense of
`Resilience.Retrying`.

* An event shows a call, a pause in milliseconds or nothing.
* `Rust.loop_of_runs_retry`, `TypeScript.loop_of_runs_retry`, `Python.loop_of_runs_runSync` and
  `Python.loop_of_runs_runAsync` take a run to what it shows.
-/

/-! ## Rust -/

namespace Resilience.Rust

open Overflow Retrying

section Retry

variable {E T : Type} {build : Build} {policy : RetryPolicy} {retryable : E → Bool}

def shown : Prog.Event RetryRequest (RetryAnswer E T) → Option (Act E T)
  | ⟨.op, outcome⟩ => some (.call outcome)
  | ⟨.genRange _, _⟩ => none
  | ⟨.sleep delay, _⟩ => some (.pause (delay.nanoseconds / 1000000))

def RetryPolicy.terms (policy : RetryPolicy) (retryable : E → Bool) : Terms E where
  limit := policy.attemptLimit.toNat
  retryable
  ceiling k := (policy.cappedCeiling (.ofNat (k - 1))).nanoseconds / 1000000

/-- What is returned for the last error. -/
def lastError (policy : RetryPolicy) (retryable : E → Bool) (e : E) : ResilienceError E :=
  if retryable e then .exhausted policy.attemptLimit e else .terminal e

theorem between_of_runs {index : UInt32} {delay : Duration} {t t' : RetryTrace E T}
    {r : Except Halt Unit} (hdelay : (policy.jitteredDelay index).Runs t delay)
    (hpause : (pause delay).run.Runs t' r) :
    Between (((policy.cappedCeiling index).nanoseconds : ℚ) / 1000000)
      ((t ++ t').filterMap shown) := by
  have hle : (delay.nanoseconds : ℚ) ≤ (policy.cappedCeiling index).nanoseconds :=
    Nat.cast_le.2 (RetryPolicy.jitteredDelay_le hdelay)
  have hnonneg : (0 : ℚ) ≤ delay.nanoseconds / 1000000 :=
    div_nonneg (Nat.cast_nonneg _) (by norm_num)
  have hdiv := div_le_div_of_nonneg_right hle (by norm_num : (0 : ℚ) ≤ 1000000)
  have hsilent : t.filterMap shown = [] := by
    unfold RetryPolicy.jitteredDelay at hdelay
    dsimp only at hdelay
    split_ifs at hdelay
    · obtain ⟨rfl, -⟩ := hdelay
      rfl
    · obtain ⟨jittered, t', rfl, rfl, -⟩ := hdelay
      rfl
  rw [List.filterMap_append, hsilent, List.nil_append]
  unfold pause at hpause
  split_ifs at hpause
  · obtain ⟨rfl, rfl⟩ := hpause
    exact between_nil (hnonneg.trans hdiv)
  · obtain ⟨answer, rfl, rfl⟩ := runs_perform.1 hpause
    exact between_pause hnonneg hdiv

theorem loop_of_runs_attempts {fuel : ℕ} (attempt : UInt32) {t : RetryTrace E T}
    {r : Except Halt (Except (ResilienceError E) T)}
    (hattempt : attempt.toNat < policy.attemptLimit.toNat)
    (hfuel : policy.attemptLimit.toNat ≤ attempt.toNat + fuel)
    (h : (attempts build policy (fun _ => retryable) fuel attempt).run.Runs t r) :
    ∃ r', Loop (policy.terms retryable) (attempt.toNat + 1) (t.filterMap shown) r' ∧
      r = .ok (r'.mapError (lastError policy retryable)) := by
  induction fuel generalizing attempt t with
  | zero => omega
  | succ fuel ih =>
    rw [attempts] at h
    obtain ⟨outcome, t', rfl, hbody⟩ := runs_perform_bind.1 h
    clear h
    cases outcome with
    | ok v =>
      obtain ⟨rfl, rfl⟩ := hbody
      exact ⟨.ok v, .returned, rfl⟩
    | error e =>
      cases hretryable : retryable e with
      | false =>
        simp only [hretryable] at hbody
        obtain ⟨rfl, rfl⟩ := hbody
        exact ⟨.error e, .gaveUp (.inl hretryable),
          by simp [Except.mapError, lastError, hretryable]⟩
      | true =>
        simp only [hretryable] at hbody
        obtain ⟨next, hnext⟩ := exists_next hattempt
        have hindex : u32Of (build.op u32 ((next.toNat : ℤ) - 1)) = .ok attempt :=
          u32Of_op (by omega) rfl
        rw [u32Of_op (by omega) hnext] at hbody
        replace hbody := runs_fromExcept_bind.1 hbody
        dsimp only at hbody
        split_ifs at hbody with hle
        · have hlast : policy.attemptLimit.toNat ≤ next.toNat := hle
          have heq : next = policy.attemptLimit := UInt32.toNat_inj.1 (by omega)
          obtain ⟨rfl, rfl⟩ := hbody
          refine ⟨.error e, .gaveUp (.inr (hnext.symm.trans (congrArg _ heq))), ?_⟩
          simp [Except.mapError, lastError, hretryable, heq]
        · have hleft : next.toNat < policy.attemptLimit.toNat := not_le.1 hle
          rw [hindex] at hbody
          replace hbody := runs_fromExcept_bind.1 hbody
          obtain ⟨t₁, delay, t₂, rfl, hjitter, hpauses⟩ := runs_lift_bind.1 hbody
          obtain ⟨t₃, paused, t₄, rfl, hpause, hrest⟩ | ⟨halt, -, hpause⟩ :=
            runs_except_bind.1 hpauses
          · obtain ⟨r', hloop, hr⟩ := ih _ (by omega) (by omega) hrest
            rw [hnext] at hloop
            refine ⟨r', ?_, hr⟩
            have hcall : shown (⟨.op, .error e⟩ : Prog.Event RetryRequest (RetryAnswer E T)) =
                some (.call (.error e)) := rfl
            rw [← List.append_assoc, List.filterMap_cons_some hcall, List.filterMap_append]
            refine .again hretryable (hnext ▸ hleft) ?_ hloop
            have hbetween := between_of_runs hjitter hpause
            rwa [← attempt.ofNat_toNat] at hbetween
          · cases (opAnswers_pause hpause).2

/-- A run of `retry` in Rust is a run of a loop. -/
theorem loop_of_runs_retry {t : RetryTrace E T} {r : Except Halt (Except (ResilienceError E) T)}
    (h : (retry build policy fun _ => retryable).run.Runs t r) :
    ∃ r', Loop (policy.terms retryable) 1 (t.filterMap shown) r' ∧
      r = .ok (r'.mapError (lastError policy retryable)) := by
  have hpos : 0 < policy.attemptLimit.toNat := by
    rw [toNat_attemptLimit]
    exact lt_max_of_lt_right Nat.one_pos
  exact loop_of_runs_attempts 0 hpos (Nat.le_add_left ..) h

end Retry

end Resilience.Rust

/-! ## TypeScript -/

namespace Resilience.TypeScript

open Json Retrying

section Retry

variable {X T : Type} {call : RetryCall} {numberText : Number → Units} {limit : ℕ} {base cap : ℚ}
  {retryable : Thrown X → Bool} {t : List (RetryEvent X T)}

def shown : RetryEvent X T → Option (Act (Thrown X) T)
  | ⟨.call _, outcome⟩ => some (.call outcome)
  | ⟨.sleep (.finite ms), _⟩ => some (.pause ms)
  | _ => none

/-- Callbacks return, `shouldRetry` what it is to return, the jitter is a fraction, and nothing is
aborted. -/
def Civil (retryable : Thrown X → Bool) : RetryEvent X T → Prop
  | ⟨.shouldRetry error _, answer⟩ => answer = .ok (retryable error)
  | ⟨.onRetry _, answer⟩ | ⟨.sleep _, answer⟩ => answer = .ok ()
  | ⟨.random, answer⟩ => ∃ q, answer = .ok (.finite q) ∧ 0 ≤ q ∧ q < 1
  | ⟨.aborted, answer⟩ => answer = false
  | ⟨.call _, _⟩ | ⟨.reason, _⟩ => True

/-- The options of a call that has a classifier. -/
structure RetryCall.Sets (call : RetryCall) (limit : ℕ) (base cap : ℚ) : Prop where
  maxAttempts : call.maxAttempts = some (.finite limit)
  baseDelayMs : call.baseDelayMs = some (.finite base)
  maxDelayMs : call.maxDelayMs = some (.finite cap)
  shouldRetry : call.shouldRetry = true

theorem civil_checkSignal {attempt : ℕ} {r : Except (Thrown X) Unit}
    (h : (checkSignal (call.options (T := T)) attempt).run.Runs t r)
    (hcivil : ∀ ev ∈ t, Civil retryable ev) : t.filterMap shown = [] ∧ r = .ok () := by
  unfold checkSignal RetryCall.options at h
  cases hsignal : call.signal with
  | false =>
    simp only [hsignal, Bool.false_eq_true, if_false] at h
    obtain ⟨rfl, rfl⟩ := h
    exact ⟨rfl, rfl⟩
  | true =>
    simp only [hsignal, if_true] at h
    obtain ⟨aborted, t₁, rfl, h₁⟩ := runs_perform_bind.1 h
    obtain rfl : aborted = false := hcivil ⟨.aborted, aborted⟩ List.mem_cons_self
    obtain ⟨rfl, rfl⟩ := h₁
    exact ⟨rfl, rfl⟩

theorem civil_goesOn (hsets : call.Sets limit base cap) {error : Thrown X} {attempt : ℕ}
    {r : Except (Thrown X) Bool} (h : (goesOn (call.options (T := T)) error attempt).run.Runs t r)
    (hcivil : ∀ ev ∈ t, Civil retryable ev) :
    t.filterMap shown = [] ∧ r = .ok (decide (attempt < limit) && retryable error) := by
  have hlimit : (call.options (X := X) (T := T)).attemptLimit = .finite limit := by
    simp [RetryOptions.attemptLimit, RetryCall.options, hsets.maxAttempts]
  have hsome : (call.options (X := X) (T := T)).shouldRetry = some fun error attempt =>
      (perform (.shouldRetry error attempt) id : Async _ (RetryReply X T) X Bool) := by
    simp [RetryCall.options, hsets.shouldRetry]
  unfold goesOn at h
  rw [hlimit, hsome] at h
  split_ifs at h with hle
  · have hge : limit ≤ attempt := by simpa [Number.le] using hle
    obtain ⟨rfl, rfl⟩ := h
    simp [not_lt.2 hge]
  · have hlt : attempt < limit := by simpa [Number.le] using hle
    obtain ⟨answer, rfl, rfl⟩ := runs_perform.1 h
    have hanswer : answer = .ok (retryable error) := hcivil ⟨_, answer⟩ List.mem_cons_self
    simp [hlt, hanswer, shown]

/-- The delay is a whole number of milliseconds up to the ceiling. -/
theorem civil_computeBackoff (hbase : 0 ≤ base) (hcap : 0 ≤ cap) {attempt : ℕ}
    {r : Except (Thrown X) Number}
    (h : (computeBackoff attempt (.finite base) (.finite cap)
      (perform .random id : Async _ (RetryReply X T) X Number)).run.Runs t r)
    (hcivil : ∀ ev ∈ t, Civil retryable ev) :
    t.filterMap shown = [] ∧
      ∃ ms, r = .ok (.finite ms) ∧ 0 ≤ ms ∧ ms ≤ min (base * 2 ^ (attempt - 1)) cap := by
  have hceiling :
      (Number.finite cap).min (Number.mul (.finite base) (.finite (2 ^ (attempt - 1)))) =
        .finite (min (base * 2 ^ (attempt - 1)) cap) := by
    rcases lt_or_ge (base * 2 ^ (attempt - 1)) cap with hlt | hge
    · simp [Number.mul, Number.min, Number.lt, hlt, hlt.le]
    · simp [Number.mul, Number.min, Number.lt, hge]
  have hnonneg : 0 ≤ min (base * 2 ^ (attempt - 1)) cap := le_min (by positivity) hcap
  unfold computeBackoff at h
  dsimp only at h
  rw [hceiling] at h
  obtain ⟨answer, t', rfl, hrest⟩ := runs_perform_bind.1 h
  obtain ⟨q, rfl, hq, hlt⟩ : ∃ q, answer = .ok (.finite q) ∧ 0 ≤ q ∧ q < 1 :=
    hcivil ⟨.random, answer⟩ List.mem_cons_self
  obtain ⟨rfl, rfl⟩ := hrest
  refine ⟨rfl, _, rfl, ?_, ?_⟩
  · exact_mod_cast Int.floor_nonneg.2 (mul_nonneg hq hnonneg)
  · exact (Int.floor_le _).trans (mul_le_of_le_one_left hnonneg hlt.le)

theorem civil_sleep {ceiling ms : ℚ} (hnonneg : 0 ≤ ms) (hle : ms ≤ ceiling)
    {r : Except (Thrown X) Unit}
    (h : (perform (.sleep (.finite ms)) id :
      Async (RetryRequest X) (RetryReply X T) X Unit).run.Runs t r)
    (hcivil : ∀ ev ∈ t, Civil retryable ev) :
    Between ceiling (t.filterMap shown) ∧ r = .ok () := by
  obtain ⟨answer, rfl, rfl⟩ := runs_perform.1 h
  exact ⟨between_pause hnonneg hle, hcivil ⟨.sleep _, answer⟩ List.mem_cons_self⟩

theorem civil_backOff (hsets : call.Sets limit base cap) (hbase : 0 ≤ base) (hcap : 0 ≤ cap)
    {error : Thrown X} {attempt : ℕ} {r : Except (Thrown X) Unit}
    (h : (backOff (callbackRuntime numberText) (call.options (T := T)) error attempt).run.Runs t r)
    (hcivil : ∀ ev ∈ t, Civil retryable ev) :
    Between (min (base * 2 ^ (attempt - 1)) cap) (t.filterMap shown) ∧ r = .ok () := by
  have hrandom : (call.options (X := X) (T := T)).random.getD
      (callbackRuntime numberText).random =
        (perform .random id : Async (RetryRequest X) (RetryReply X T) X Number) := by
    cases hr : call.random <;> simp [RetryCall.options, callbackRuntime, hr]
  have hsleep : (call.options (X := X) (T := T)).sleep.getD
      (callbackRuntime numberText).defaultSleep = fun ms =>
        (perform (.sleep ms) id : Async (RetryRequest X) (RetryReply X T) X Unit) := by
    cases hs : call.sleep <;> simp [RetryCall.options, callbackRuntime, hs]
  have hdelays : (call.options (X := X) (T := T)).baseDelayMs = some (.finite base) ∧
      (call.options (X := X) (T := T)).maxDelayMs = some (.finite cap) :=
    ⟨hsets.baseDelayMs, hsets.maxDelayMs⟩
  unfold backOff at h
  rw [hrandom, hsleep, hdelays.1, hdelays.2, Option.getD_some, Option.getD_some] at h
  obtain ⟨t₁, delayMs, t₂, rfl, hdelay, hrest⟩ | ⟨error', rfl, hdelay⟩ := runs_except_bind.1 h
  · obtain ⟨hsilent, ms, hms, hnonneg, hle⟩ :=
      civil_computeBackoff hbase hcap hdelay fun ev hev => hcivil ev (List.mem_append_left _ hev)
    obtain rfl : delayMs = .finite ms := Except.ok.inj hms
    replace hcivil : ∀ ev ∈ t₂, Civil retryable ev := fun ev hev =>
      hcivil ev (List.mem_append_right _ hev)
    rw [List.filterMap_append, hsilent, List.nil_append]
    cases honRetry : call.onRetry with
    | false =>
      have hnone : (call.options (X := X) (T := T)).onRetry = none := by
        simp [RetryCall.options, honRetry]
      rw [hnone] at hrest
      exact civil_sleep hnonneg hle hrest hcivil
    | true =>
      have hsome : (call.options (X := X) (T := T)).onRetry =
          some fun info => (perform (.onRetry info) id : Async _ (RetryReply X T) X Unit) := by
        simp [RetryCall.options, honRetry]
      rw [hsome] at hrest
      obtain ⟨answer, t₃, rfl, hslept⟩ := runs_perform_bind.1 hrest
      obtain rfl : answer = .ok () := hcivil ⟨.onRetry _, answer⟩ List.mem_cons_self
      rw [List.filterMap_cons_none (show shown ⟨.onRetry _, .ok ()⟩ = none from rfl)]
      exact civil_sleep hnonneg hle hslept fun ev hev => hcivil ev (List.mem_cons_of_mem _ hev)
  · obtain ⟨-, ms, hms, -⟩ := civil_computeBackoff hbase hcap hdelay hcivil
    cases hms

/-- What an iteration of `retry` shows. -/
theorem Course.loop (hsets : call.Sets limit base cap) (hbase : 0 ≤ base) (hcap : 0 ≤ cap)
    {attempt : ℕ} {r : Except (Thrown X) T}
    (h : Course (callbackRuntime numberText) call.options callFunction attempt t r)
    (hattempt : attempt ≤ limit) (hcivil : ∀ ev ∈ t, Civil retryable ev) :
    ∃ r', Loop (.backoff limit retryable base cap) attempt (t.filterMap shown) r' ∧
      r = r'.mapError fun e =>
        .resilienceError (afterLoop (callbackRuntime numberText) (call.options (T := T)) e) := by
  induction h with
  | stopped hcheck => cases (civil_checkSignal hcheck hcivil).2
  | @returned attempt t₁ t₂ value hcheck hfn =>
    rw [List.forall_mem_append] at hcivil
    obtain rfl := runs_callFunction hfn
    rw [List.filterMap_append, (civil_checkSignal hcheck hcivil.1).1]
    exact ⟨.ok value, .returned, rfl⟩
  | @gaveUp attempt t₁ t₂ t₃ error hcheck hfn hends =>
    simp only [List.forall_mem_append] at hcivil
    obtain ⟨hchecked, -, hended⟩ := hcivil
    obtain rfl := runs_callFunction hfn
    obtain ⟨hsilent, hagain⟩ := civil_goesOn hsets hends hended
    rw [List.filterMap_append, List.filterMap_append, (civil_checkSignal hcheck hchecked).1,
      hsilent]
    refine ⟨.error error, .gaveUp ?_, rfl⟩
    rcases Nat.lt_or_eq_of_le hattempt with hlt | heq
    · have hfalse : retryable error = false := by simpa [hlt] using hagain
      exact .inl hfalse
    · exact .inr heq
  | @threw attempt t₁ t₂ t₃ error error' hcheck hfn hgoes =>
    simp only [List.forall_mem_append] at hcivil
    cases (civil_goesOn hsets hgoes hcivil.2.2).2
  | @pauseThrew attempt t₁ t₂ t₃ t₄ error error' hcheck hfn hgoes hpause =>
    simp only [List.forall_mem_append] at hcivil
    cases (civil_backOff hsets hbase hcap hpause hcivil.2.2.2).2
  | @again attempt t₁ t₂ t₃ t₄ t₅ error r hcheck hfn hgoes hpause hrest ih =>
    simp only [List.forall_mem_append] at hcivil
    obtain ⟨hchecked, -, hgone, hpaused, hlater⟩ := hcivil
    obtain rfl := runs_callFunction hfn
    obtain ⟨hsilent, hagain⟩ := civil_goesOn hsets hgoes hgone
    obtain ⟨hlt, hretryable⟩ : attempt < limit ∧ retryable error = true := by
      simpa using hagain.symm
    obtain ⟨r', hloop, hr⟩ := ih hlt hlater
    refine ⟨r', ?_, hr⟩
    simp only [List.filterMap_append, (civil_checkSignal hcheck hchecked).1, hsilent,
      List.nil_append]
    change Loop _ _ (.call (.error error) :: (t₄.filterMap shown ++ t₅.filterMap shown)) r'
    exact .again hretryable hlt (civil_backOff hsets hbase hcap hpause hpaused).1 hloop

/-- A run of `retry` in TypeScript is a run of a loop, if the callbacks are civil. -/
theorem loop_of_runs_retry (hsets : call.Sets limit base cap) (hlimit : 1 ≤ limit)
    (hbase : 0 ≤ base) (hcap : 0 ≤ cap) {fuel : ℕ} (hfuel : limit ≤ fuel)
    {r : Except (Thrown X) (Option T)}
    (h : (retry (callbackRuntime numberText) call.options callFunction fuel).run.Runs t r)
    (hcivil : ∀ ev ∈ t, Civil retryable ev) :
    ∃ r', Loop (.backoff limit retryable base cap) 1 (t.filterMap shown) r' ∧
      r = (r'.mapError fun e => .resilienceError
        (afterLoop (callbackRuntime numberText) (call.options (T := T)) e)).map some := by
  have hattempts : (call.options (X := X) (T := T)).attemptLimit = .finite limit := by
    simp [RetryOptions.attemptLimit, RetryCall.options, hsets.maxAttempts]
  obtain ⟨r', rfl, hcourse⟩ := course_of_runs_retry hattempts hlimit hfuel h
  obtain ⟨r'', hloop, rfl⟩ := hcourse.loop hsets hbase hcap hlimit hcivil
  exact ⟨r'', hloop, rfl⟩

end Retry

end Resilience.TypeScript

/-! ## Python -/

namespace Resilience.Python

open Retrying

section Retry

variable {V : Type} {policy : RetryPolicy} {attempt : ℕ}
  {t t' : List (Prog.Event Request (Reply V))}

def shown : Prog.Event Request (Reply V) → Option (Act PyException V)
  | ⟨.call, outcome⟩ | ⟨.waitFor _, outcome⟩ => some (.call outcome)
  | ⟨.sleep delay, _⟩ => some (.pause (delay * 1000))
  | _ => none

/-- The logger and the sleep return, the jitter is in its range, and the deadline of `wait_for` is
met: no `asyncio.TimeoutError` is raised. -/
def Civil : Prog.Event Request (Reply V) → Prop
  | ⟨.debug _ _, answer⟩ | ⟨.sleep _, answer⟩ => answer = .ok ()
  | ⟨.uniform low high, answer⟩ => ∃ q, answer = .ok q ∧ low ≤ q ∧ q ≤ high
  | ⟨.waitFor _, answer⟩ =>
    ∀ exc, answer = .error exc → exc.isInstance .asyncioTimeoutError = false
  | _ => True

/-- What the calls of a run take, where they return, is within the timeout. -/
structure InTime (timeout : ℚ) (t : List (Prog.Event Request (Reply V))) : Prop where
  civil : ∀ ev ∈ t, Civil ev
  returned : ∀ start result stop,
    [⟨.monotonic, start⟩, ⟨.call, .ok result⟩, ⟨.monotonic, stop⟩] <:+: t → stop - start ≤ timeout

theorem InTime.left {timeout : ℚ} (h : InTime timeout (t ++ t')) : InTime timeout t :=
  ⟨fun ev hev => h.civil ev (List.mem_append_left _ hev),
    fun start result stop hpart => h.returned start result stop
      (hpart.trans (List.infix_append' [] t t'))⟩

theorem InTime.right {timeout : ℚ} (h : InTime timeout (t ++ t')) : InTime timeout t' :=
  ⟨fun ev hev => h.civil ev (List.mem_append_right _ hev),
    fun start result stop hpart => h.returned start result stop
      (hpart.trans (List.suffix_append t t').isInfix)⟩

def RetryPolicy.terms (policy : RetryPolicy) : Terms PyException where
  limit := policy.maxAttempts.toNat
  retryable := policy.isRetryable
  ceiling k := min (policy.baseDelay * policy.multiplier ^ (k - 1)) policy.maxDelay * 1000

/-- A pause after an attempt. -/
def Rests (policy : RetryPolicy) (attempt : ℕ) (x : Driver V Unit) : Prop :=
  ∀ t r, x.run.Runs t r → (∀ ev ∈ t, Civil ev) →
    Between (policy.terms.ceiling (attempt + 1)) (t.filterMap shown) ∧ r = .ok ()

theorem runs_backoff {r : Except Raised ℚ} (h : (backoff (V := V) policy attempt).run.Runs t r)
    (hcivil : ∀ ev ∈ t, Civil ev) :
    t.filterMap shown = [] ∧
      ∃ delay, r = .ok delay ∧ 0 ≤ delay ∧ delay * 1000 ≤ policy.terms.ceiling (attempt + 1) := by
  obtain ⟨answer, rfl, rfl⟩ := runs_perform.1 h
  obtain ⟨q, rfl, hlow, hhigh⟩ := hcivil ⟨.uniform _ _, answer⟩ List.mem_cons_self
  exact ⟨rfl, q, rfl, hlow, mul_le_mul_of_nonneg_right hhigh (by norm_num)⟩

theorem rests_sleepAsync : Rests (V := V) policy attempt (sleepAsync policy attempt) := by
  intro t r h hcivil
  obtain ⟨t₁, delay, t₂, rfl, hbackoff, hsleep⟩ | ⟨err, rfl, hbackoff⟩ := runs_except_bind.1 h
  · rw [List.forall_mem_append] at hcivil
    obtain ⟨hsilent, _, ⟨⟩, hnonneg, hle⟩ := runs_backoff hbackoff hcivil.1
    obtain ⟨answer, rfl, rfl⟩ := runs_perform.1 hsleep
    obtain rfl : answer = .ok () := hcivil.2 ⟨.sleep delay, answer⟩ List.mem_cons_self
    rw [List.filterMap_append, hsilent]
    exact ⟨between_pause (by positivity) hle, rfl⟩
  · obtain ⟨-, _, ⟨⟩, -⟩ := runs_backoff hbackoff hcivil

theorem rests_sleepSync : Rests (V := V) policy attempt (sleepSync policy attempt) := by
  intro t r h hcivil
  obtain ⟨t₁, delay, t₂, rfl, hbackoff, hsleep⟩ | ⟨err, rfl, hbackoff⟩ := runs_except_bind.1 h
  · rw [List.forall_mem_append] at hcivil
    obtain ⟨hsilent, _, ⟨⟩, hnonneg, hle⟩ := runs_backoff hbackoff hcivil.1
    rw [List.filterMap_append, hsilent]
    split_ifs at hsleep
    · obtain ⟨answer, rfl, rfl⟩ := runs_perform.1 hsleep
      obtain rfl : answer = .ok () := hcivil.2 ⟨.sleep delay, answer⟩ List.mem_cons_self
      exact ⟨between_pause (by positivity) hle, rfl⟩
    · obtain ⟨rfl, rfl⟩ := hsleep
      exact ⟨between_nil (le_trans (by positivity) hle), rfl⟩
  · obtain ⟨-, _, ⟨⟩, -⟩ := runs_backoff hbackoff hcivil

theorem rests_debug (exc : PyException) : Rests (V := V) policy attempt (do
    perform (.debug (attempt + 1) exc) raised
    sleepSync policy attempt) := by
  intro t r h hcivil
  obtain ⟨answer, t', rfl, hsleep⟩ := runs_perform_bind.1 h
  rw [List.forall_mem_cons] at hcivil
  obtain rfl : answer = .ok () := hcivil.1
  exact rests_sleepSync t' r hsleep hcivil.2

/-- What an attempt shows, and what the driver makes of it. -/
inductive Turn (policy : RetryPolicy) (attempt : ℕ) :
    List (Act PyException V) → Except Raised (Except Raised V) → Prop
  | returned {result} : Turn policy attempt [.call (.ok result)] (.ok (.ok result))
  | gaveUp {exc} (hends : policy.isRetryable exc = false ∨ policy.isLast attempt = true) :
    Turn policy attempt [.call (.error exc)] (.error (.exc exc))
  | goesOn {exc pause} (hretryable : policy.isRetryable exc = true)
    (hlast : policy.isLast attempt = false)
    (hpause : Between (policy.terms.ceiling (attempt + 1)) pause) :
    Turn policy attempt (.call (.error exc) :: pause) (.ok (.error (.exc exc)))

/-- Without a breaker, an exception is raised or rested on. -/
theorem turn_failed (hcb : policy.circuitBreaker = none) {exc : PyException} {pause : Driver V Unit}
    (hrests : Rests policy attempt pause) {r : Except Raised (Except Raised V)}
    (h : (failed policy (!policy.isRetryable exc || policy.isLast attempt) (.exc exc)
      pause).run.Runs t r) (hcivil : ∀ ev ∈ t, Civil ev) :
    Turn policy attempt (.call (.error exc) :: t.filterMap shown) r := by
  have hrecord : recordFailure policy = (fromExcept (.ok ()) : Driver V Unit) := by
    simp [recordFailure, hcb]
  rw [failed, hrecord] at h
  replace h := runs_fromExcept_bind.1 h
  dsimp only at h
  split_ifs at h with hends
  · obtain ⟨rfl, rfl⟩ := h
    exact .gaveUp (by simpa using hends)
  · obtain ⟨hretryable, hlast⟩ : policy.isRetryable exc = true ∧ policy.isLast attempt = false := by
      simpa using hends
    obtain ⟨t₁, rested, t₂, rfl, hpause, rfl, rfl⟩ | ⟨err, rfl, hpause⟩ := runs_except_bind.1 h
    · rw [List.append_nil] at hcivil ⊢
      exact .goesOn hretryable hlast (hrests t₁ _ hpause hcivil).1
    · cases (hrests t _ hpause hcivil).2

theorem turn_succeeded (hcb : policy.circuitBreaker = none) {result : V}
    {r : Except Raised (Except Raised V)} (h : (succeeded policy result).run.Runs t r) :
    t = [] ∧ r = .ok (.ok result) := by
  have hrecord : recordSuccess policy = (fromExcept (.ok ()) : Driver V Unit) := by
    simp [recordSuccess, hcb]
  rw [succeeded, hrecord] at h
  obtain ⟨rfl, rfl⟩ := runs_fromExcept_bind.1 h
  exact ⟨rfl, rfl⟩

theorem turn_attemptSync (hcb : policy.circuitBreaker = none)
    {r : Except Raised (Except Raised V)} (h : (attemptSync policy attempt).run.Runs t r)
    (hintime : InTime policy.timeout t) : Turn policy attempt (t.filterMap shown) r := by
  obtain ⟨start, t₁, rfl, hstart⟩ := runs_perform_bind.1 h
  obtain ⟨outcome, t₂, rfl, hcall⟩ := runs_perform_bind.1 hstart
  have hcivil : ∀ ev ∈ t₂, Civil ev := fun ev hev =>
    hintime.civil ev (List.mem_cons_of_mem _ (List.mem_cons_of_mem _ hev))
  cases outcome with
  | error exc => exact turn_failed hcb (rests_debug exc) hcall hcivil
  | ok result =>
    obtain ⟨stop, t₃, rfl, hstop⟩ := runs_perform_bind.1 hcall
    have hle : stop - start ≤ policy.timeout :=
      hintime.returned start result stop (List.infix_append' [] _ t₃)
    dsimp only at hstop
    rw [if_neg (not_lt.2 hle)] at hstop
    obtain ⟨rfl, rfl⟩ := turn_succeeded hcb hstop
    exact .returned

theorem turn_attemptAsync (hcb : policy.circuitBreaker = none)
    {r : Except Raised (Except Raised V)} (h : (attemptAsync policy attempt).run.Runs t r)
    (hintime : InTime policy.timeout t) : Turn policy attempt (t.filterMap shown) r := by
  obtain ⟨outcome, t₁, rfl, hcall⟩ := runs_perform_bind.1 h
  have hcivil := List.forall_mem_cons.1 hintime.civil
  cases outcome with
  | error exc =>
    have htimeout : exc.isInstance .asyncioTimeoutError = false := hcivil.1 exc rfl
    dsimp only at hcall
    rw [htimeout] at hcall
    exact turn_failed hcb rests_sleepAsync hcall hcivil.2
  | ok result =>
    obtain ⟨rfl, rfl⟩ := turn_succeeded hcb hcall
    exact .returned

/-- A driver whose attempts are turns is a loop. -/
theorem loop_of_runs_drive (attempt : ℕ) (hcb : policy.circuitBreaker = none)
    {body : ℕ → Driver V (Except Raised V)}
    (hbody : ∀ attempt t r, (body attempt).run.Runs t r → InTime policy.timeout t →
      Turn policy attempt (t.filterMap shown) r) {left : ℕ} {lastExc : Option Raised}
    {r : Except Raised V} (hleft : (attempt : ℤ) + left = policy.maxAttempts) (hpos : 0 < left)
    (h : (drive policy body left attempt lastExc).run.Runs t r)
    (hintime : InTime policy.timeout t) :
    ∃ r', Loop policy.terms (attempt + 1) (t.filterMap shown) r' ∧ r = r'.mapError .exc := by
  induction left generalizing attempt lastExc t with
  | zero => cases hpos
  | succ left ih =>
    have hguard : guard policy = (fromExcept (.ok ()) : Driver V Unit) := by
      simp [guard, hcb]
    rw [drive, hguard] at h
    replace h := runs_fromExcept_bind.1 h
    obtain ⟨t₁, outcome, t₂, rfl, hattempt, hrest⟩ | ⟨err, rfl, hattempt⟩ := runs_except_bind.1 h
    · have hturn := hbody attempt t₁ _ hattempt hintime.left
      rw [List.filterMap_append]
      generalize t₁.filterMap shown = acts at hturn
      cases hturn with
      | returned =>
        obtain ⟨rfl, rfl⟩ := hrest
        exact ⟨.ok _, .returned, rfl⟩
      | goesOn hretryable hlast hpause =>
        simp only [RetryPolicy.isLast, beq_eq_false_iff_ne] at hlast
        have hlt : attempt + 1 < policy.maxAttempts.toNat := by omega
        obtain ⟨r', hloop, hr⟩ := ih _ (by omega) (by omega) hrest hintime.right
        exact ⟨r', .again hretryable hlt hpause hloop, hr⟩
    · have hturn := hbody attempt t _ hattempt hintime
      generalize t.filterMap shown = acts at hturn
      cases hturn with
      | gaveUp hends =>
        refine ⟨.error _, .gaveUp (hends.imp_right fun hlast => ?_), rfl⟩
        simp only [RetryPolicy.isLast, beq_iff_eq] at hlast
        show attempt + 1 = policy.maxAttempts.toNat
        omega

/-- A run of `_run_sync` without a breaker is a run of a loop, if its calls are in time. -/
theorem loop_of_runs_runSync (hcb : policy.circuitBreaker = none) {r : Except Raised V}
    (h : (runSync policy).run.Runs t r) (hintime : InTime policy.timeout t) :
    ∃ r', Loop policy.terms 1 (t.filterMap shown) r' ∧ r = r'.mapError .exc := by
  have hpos := policy.maxAttempts_pos
  exact loop_of_runs_drive 0 hcb (fun _ _ _ => turn_attemptSync hcb) (by omega)
    (by omega) h hintime

theorem loop_of_runs_runAsync (hcb : policy.circuitBreaker = none) {r : Except Raised V}
    (h : (runAsync policy).run.Runs t r) (hintime : InTime policy.timeout t) :
    ∃ r', Loop policy.terms 1 (t.filterMap shown) r' ∧ r = r'.mapError .exc := by
  have hpos := policy.maxAttempts_pos
  exact loop_of_runs_drive 0 hcb (fun _ _ _ => turn_attemptAsync hcb) (by omega)
    (by omega) h hintime

end Retry

end Resilience.Python
