import Resilience.Foundations.Interaction
import Resilience.Foundations.Json.Escape
import Resilience.Foundations.Numbers

/-!
# Retries

`typescript/src/retry.ts` and `typescript/src/errors.ts`. The callbacks of `retry` are programs,
which may ask and throw. The loop need not end, as `maxAttempts` may be `Infinity`; `fuel` bounds
the attempts of a run, and a run that is still going on then has the result `none`.
-/

namespace Resilience.TypeScript

open Json

/-! ## Errors -/

inductive ResilienceErrorKind
  | timeout
  | network
  | http
  | ssrf
  | exhausted
  | aborted
  deriving DecidableEq, Repr

structure ResilienceError (C : Type) where
  kind : ResilienceErrorKind
  message : Units
  attempts : Number := .finite 1
  status : Option Number := none
  /-- `undefined` where there is no cause. -/
  cause : C

/-- What is thrown. -/
inductive Thrown (X : Type)
  | undefined
  | resilienceError (err : ResilienceError (Thrown X))
  | other (value : X)

/-- Asynchronous code that may throw. -/
abbrev Async (E : Type) (R : E → Type) (X α : Type) := ExceptT (Thrown X) (Prog E R) α

section Retry

variable {E : Type} {R : E → Type} {X T : Type}

/-- `throw new ResilienceError(...)`. -/
def throwResilience {α : Type} (err : ResilienceError (Thrown X)) : Async E R X α :=
  fromExcept (.error (.resilienceError err))

structure AbortSignal (E : Type) (R : E → Type) (X : Type) where
  aborted : Async E R X Bool
  reason : Async E R X (Thrown X)

structure RetryInfo (X : Type) where
  error : Thrown X
  attempt : ℕ
  delayMs : Number

structure RetryOptions (E : Type) (R : E → Type) (X : Type) where
  maxAttempts : Option Number := none
  baseDelayMs : Option Number := none
  maxDelayMs : Option Number := none
  shouldRetry : Option (Thrown X → ℕ → Async E R X Bool) := none
  onRetry : Option (RetryInfo X → Async E R X Unit) := none
  sleep : Option (Number → Async E R X Unit) := none
  random : Option (Async E R X Number) := none
  signal : Option (AbortSignal E R X) := none

/-- What `retry` finds on its platform. -/
structure Runtime (E : Type) (R : E → Type) (X : Type) where
  /-- `Math.random()`. -/
  random : Async E R X Number
  /-- `defaultSleep`. -/
  defaultSleep : Number → Async E R X Unit
  /-- `${n}`. -/
  numberText : Number → Units

def computeBackoff (attempt : ℕ) (baseDelayMs maxDelayMs : Number) (random : Async E R X Number) :
    Async E R X Number := do
  let exponential := baseDelayMs.mul (.finite (2 ^ (attempt - 1)))
  let capped := maxDelayMs.min exponential
  let r ← random
  fromExcept (.ok (r.mul capped).floor)

variable (runtime : Runtime E R X) (options : RetryOptions E R X)

/-- `maxAttempts`, with its default. -/
def RetryOptions.attemptLimit : Number := options.maxAttempts.getD (.finite 3)

/-- What ends the loop before an attempt. -/
def checkSignal (attempt : ℕ) : Async E R X Unit :=
  match options.signal with
  | none => fromExcept (.ok ())
  | some signal => do
    let aborted ← signal.aborted
    if aborted then do
      let reason ← signal.reason
      throwResilience {
        kind := .aborted
        message := utf16 "retry aborted by signal"
        attempts := .finite (attempt - 1)
        cause := reason }
    else fromExcept (.ok ())

/-- Whether there is an attempt after this one, which threw `error`. -/
def goesOn (error : Thrown X) (attempt : ℕ) : Async E R X Bool :=
  if options.attemptLimit.le (.finite attempt) then fromExcept (.ok false)
  else
    match options.shouldRetry with
    | none => fromExcept (.ok true)
    | some shouldRetry => shouldRetry error attempt

/-- Between two attempts. -/
def backOff (error : Thrown X) (attempt : ℕ) : Async E R X Unit := do
  let delayMs ← computeBackoff attempt (options.baseDelayMs.getD (.finite 250))
    (options.maxDelayMs.getD (.finite 30000)) (options.random.getD runtime.random)
  match options.onRetry with
  | none => fromExcept (.ok ())
  | some onRetry => onRetry ⟨error, attempt, delayMs⟩
  (options.sleep.getD runtime.defaultSleep) delayMs

/-- After the loop. -/
def giveUp (lastError : Thrown X) : Async E R X (Option T) :=
  match lastError with
  | .resilienceError err => throwResilience err
  | _ => throwResilience {
      kind := .exhausted
      message := utf16 "operation failed after " ++ runtime.numberText options.attemptLimit ++
        utf16 " attempt(s)"
      attempts := options.attemptLimit
      cause := lastError }

/-- The loop of `retry`. -/
def attempts (fn : ℕ → Async E R X T) : ℕ → ℕ → Thrown X → Async E R X (Option T)
  | 0, attempt, lastError =>
    if (Number.finite attempt).le options.attemptLimit then fromExcept (.ok none)
    else giveUp runtime options lastError
  | fuel + 1, attempt, lastError =>
    if (Number.finite attempt).le options.attemptLimit then do
      checkSignal options attempt
      let outcome ← observe (fn attempt)
      match outcome with
      | .ok value => fromExcept (.ok (some value))
      | .error error => do
        let again ← goesOn options error attempt
        if again then do
          backOff runtime options error attempt
          attempts fn fuel (attempt + 1) error
        else giveUp runtime options error
    else giveUp runtime options lastError

def retry (fn : ℕ → Async E R X T) (fuel : ℕ) : Async E R X (Option T) :=
  if options.attemptLimit.lt (.finite 1) then
    throwResilience {
      kind := .exhausted
      message := utf16 "maxAttempts must be >= 1"
      attempts := .finite 0
      cause := .undefined }
  else attempts runtime options fn fuel 1 .undefined

/-! ## Runs -/

variable {runtime options} {fn : ℕ → Async E R X T}

/-- Without a signal, a first attempt that returns is all. -/
theorem runs_retry_first {fuel : ℕ} {value : T} {t : List (Prog.Event E R)}
    (hsignal : options.signal = none) (hlimit : options.attemptLimit = .finite 3)
    (h : (fn 1).run.Runs t (.ok value)) :
    (retry runtime options fn (fuel + 1)).run.Runs t (.ok (some value)) := by
  rw [retry, if_neg (by simp [hlimit, Number.lt]), attempts, if_pos (by simp [hlimit, Number.le]),
    checkSignal, hsignal]
  exact runs_fromExcept_bind.2
    (runs_observe_bind.2 ⟨t, .ok value, [], (List.append_nil t).symm, h, rfl, rfl⟩)

/-- The traces of the callbacks are in `P`. -/
structure RetryOptions.TracesIn (P : List (Prog.Event E R) → Prop) (options : RetryOptions E R X) :
    Prop where
  shouldRetry : ∀ f ∈ options.shouldRetry, ∀ error attempt, Resilience.TracesIn P (f error attempt)
  onRetry : ∀ f ∈ options.onRetry, ∀ info, Resilience.TracesIn P (f info)
  sleep : ∀ f ∈ options.sleep, ∀ ms, Resilience.TracesIn P (f ms)
  random : ∀ f ∈ options.random, Resilience.TracesIn P f
  signal : ∀ signal ∈ options.signal,
    Resilience.TracesIn P signal.aborted ∧ Resilience.TracesIn P signal.reason

structure Runtime.TracesIn (P : List (Prog.Event E R) → Prop) (runtime : Runtime E R X) : Prop where
  random : Resilience.TracesIn P runtime.random
  defaultSleep : ∀ ms, Resilience.TracesIn P (runtime.defaultSleep ms)

variable {P : List (Prog.Event E R) → Prop} (hP : Composes P)

include hP

theorem tracesIn_checkSignal (hoptions : options.TracesIn P) (attempt : ℕ) :
    TracesIn P (checkSignal options attempt) := by
  unfold checkSignal
  cases hsignal : options.signal with
  | none => exact tracesIn_fromExcept hP
  | some signal =>
    obtain ⟨haborted, hreason⟩ := hoptions.signal signal hsignal
    refine tracesIn_bind hP haborted fun aborted => ?_
    cases aborted
    · exact tracesIn_fromExcept hP
    · exact tracesIn_bind hP hreason fun _ => tracesIn_fromExcept hP

theorem tracesIn_goesOn (hoptions : options.TracesIn P) (error : Thrown X) (attempt : ℕ) :
    TracesIn P (goesOn options error attempt) := by
  unfold goesOn
  split
  · exact tracesIn_fromExcept hP
  · cases hretry : options.shouldRetry with
    | none => exact tracesIn_fromExcept hP
    | some shouldRetry => exact hoptions.shouldRetry shouldRetry hretry error attempt

theorem tracesIn_backOff (hruntime : runtime.TracesIn P) (hoptions : options.TracesIn P)
    (error : Thrown X) (attempt : ℕ) : TracesIn P (backOff runtime options error attempt) := by
  have hrandom : TracesIn P (options.random.getD runtime.random) := by
    cases hrandom : options.random with
    | none => exact hruntime.random
    | some random => exact hoptions.random random hrandom
  have hsleep : ∀ ms, TracesIn P ((options.sleep.getD runtime.defaultSleep) ms) := by
    intro ms
    cases hsleep : options.sleep with
    | none => exact hruntime.defaultSleep ms
    | some sleep => exact hoptions.sleep sleep hsleep ms
  unfold backOff computeBackoff
  refine tracesIn_bind hP (tracesIn_bind hP hrandom fun _ => tracesIn_fromExcept hP) fun ms => ?_
  cases honRetry : options.onRetry with
  | none => exact tracesIn_bind hP (tracesIn_fromExcept hP) fun _ => hsleep ms
  | some onRetry =>
    exact tracesIn_bind hP (hoptions.onRetry onRetry honRetry _) fun _ => hsleep ms

theorem tracesIn_giveUp (lastError : Thrown X) :
    TracesIn P (giveUp runtime options lastError : Async E R X (Option T)) := by
  cases lastError <;> exact tracesIn_fromExcept hP

theorem tracesIn_attempts (hruntime : runtime.TracesIn P) (hoptions : options.TracesIn P)
    (hfn : ∀ attempt, TracesIn P (fn attempt)) (fuel attempt : ℕ) (lastError : Thrown X) :
    TracesIn P (attempts runtime options fn fuel attempt lastError) := by
  induction fuel generalizing attempt lastError with
  | zero =>
    rw [attempts]
    split
    · exact tracesIn_fromExcept hP
    · exact tracesIn_giveUp hP lastError
  | succ fuel ih =>
    rw [attempts]
    split
    · refine tracesIn_bind hP (tracesIn_checkSignal hP hoptions attempt) fun _ => ?_
      refine tracesIn_bind hP (tracesIn_observe (hfn attempt)) fun outcome => ?_
      cases outcome with
      | ok value => exact tracesIn_fromExcept hP
      | error error =>
        refine tracesIn_bind hP (tracesIn_goesOn hP hoptions error attempt) fun again => ?_
        cases again
        · exact tracesIn_giveUp hP error
        · exact tracesIn_bind hP (tracesIn_backOff hP hruntime hoptions error attempt) fun _ =>
            ih (attempt + 1) error
    · exact tracesIn_giveUp hP lastError

/-- If the traces of the function and of the callbacks are in `P`, those of `retry` are. -/
theorem tracesIn_retry (hruntime : runtime.TracesIn P) (hoptions : options.TracesIn P)
    (hfn : ∀ attempt, TracesIn P (fn attempt)) (fuel : ℕ) :
    TracesIn P (retry runtime options fn fuel) := by
  unfold retry
  split
  · exact tracesIn_fromExcept hP
  · exact tracesIn_attempts hP hruntime hoptions hfn fuel 1 .undefined

end Retry

end Resilience.TypeScript
