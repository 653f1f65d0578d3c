import Resilience.Foundations.Interaction
import Resilience.Python.Circuit

/-!
# The retry drivers

`cubiczan_resilience/retry.py`. The drivers `_run_sync` and `_run_async` are programs: what they ask
is answered by the breaker, the clock, the wrapped function, the random generator, the logger and
the sleep.
-/

namespace Resilience.Python

/-! ## Exceptions -/

/-- An exception class. `asyncioTimeoutError` is the class `TimeoutError` since Python 3.11, and a
class of its own in Python 3.10. -/
inductive ExcClass
  | baseException
  | exception
  | timeoutError
  | asyncioTimeoutError
  | circuitOpenError
  | other (name : String)
  deriving DecidableEq, Repr

/-- An exception that a callback raises. -/
structure PyException where
  repr : String
  /-- The classes that it is an instance of. -/
  classes : List ExcClass
  /-- The attribute `response`, by its attribute `status_code` where that is an `int`. -/
  response : Option (Option ℤ) := none
  /-- The attribute `status_code`, where it is an `int`. -/
  statusCode : Option ℤ := none
  deriving DecidableEq, Repr

def PyException.isInstance (exc : PyException) (c : ExcClass) : Bool := exc.classes.contains c

/-- `_status_of`. -/
def statusOf (exc : PyException) : Option ℤ :=
  match exc.response with
  | some (some code) => some code
  | _ => exc.statusCode

/-- What a driver raises. -/
inductive Raised
  | exc (exc : PyException)
  /-- `circuit '{name}' is OPEN; retry in {retry_after:.2f}s`. -/
  | circuitOpenError (name : String) (retryAfter : ℚ)
  /-- `TimeoutExceeded`: `call took {elapsed:.3f}s, exceeding timeout {timeout:.3f}s`. -/
  | callTook (elapsed timeout : ℚ)
  /-- `TimeoutExceeded`: `call exceeded timeout {timeout:.3f}s`, with its cause. -/
  | callExceeded (timeout : ℚ) (cause : PyException)
  /-- `all {attempts} attempt(s) failed; last error: {last_exc!r}`. -/
  | retriesExhausted (attempts : ℤ) (lastExc : Raised)
  | assertionError
  deriving DecidableEq, Repr

/-! ## The policy -/

theorem one_le_of_not_lt_one_rat {q : ℚ} (h : ¬ q < 1) : 1 ≤ q := not_lt.1 h

/-- `RetryPolicy`. The breaker is recorded by its parameters, the random generator is asked. -/
structure RetryPolicy where
  timeout : ℚ
  maxAttempts : ℤ
  baseDelay : ℚ
  maxDelay : ℚ
  multiplier : ℚ
  retryableExceptions : List ExcClass
  retryableStatus : List ℤ
  circuitBreaker : Option BreakerParams
  timeout_pos : 0 < timeout
  maxAttempts_pos : 1 ≤ maxAttempts
  baseDelay_nonneg : 0 ≤ baseDelay
  maxDelay_nonneg : 0 ≤ maxDelay
  multiplier_ge : 1 ≤ multiplier

/-- `DEFAULT_RETRYABLE_STATUS`. -/
def defaultRetryableStatus : List ℤ := [408, 425, 429, 500, 502, 503, 504]

namespace RetryPolicy

/-- The checks of `__post_init__`. -/
def create (timeout : ℚ) (maxAttempts : ℤ := 3) (baseDelay : ℚ := 1 / 10) (maxDelay : ℚ := 30)
    (multiplier : ℚ := 2) (retryableExceptions : List ExcClass := [.exception])
    (retryableStatus : List ℤ := defaultRetryableStatus)
    (circuitBreaker : Option BreakerParams := none) : Except String RetryPolicy :=
  if ht : timeout ≤ 0 then .error "timeout must be > 0 (a mandatory deadline is required)"
  else if hn : maxAttempts < 1 then .error "max_attempts must be >= 1"
  else if hd : baseDelay < 0 ∨ maxDelay < 0 then .error "delays must be >= 0"
  else if hm : multiplier < 1 then .error "multiplier must be >= 1"
  else .ok {
    timeout, maxAttempts, baseDelay, maxDelay, multiplier, retryableExceptions, retryableStatus,
    circuitBreaker
    timeout_pos := not_le.1 ht
    maxAttempts_pos := one_le_of_not_lt_one hn
    baseDelay_nonneg := not_lt.1 fun h => hd (.inl h)
    maxDelay_nonneg := not_lt.1 fun h => hd (.inr h)
    multiplier_ge := one_le_of_not_lt_one_rat hm }

variable (policy : RetryPolicy)

def isRetryable (exc : PyException) : Bool :=
  if exc.isInstance .circuitOpenError then false
  else
    match statusOf exc with
    | some status => policy.retryableStatus.contains status
    | none => policy.retryableExceptions.any exc.isInstance

/-- `attempt == policy.max_attempts - 1`. -/
def isLast (attempt : ℕ) : Bool := (attempt : ℤ) == policy.maxAttempts - 1

end RetryPolicy

/-! ## Requests -/

inductive Request
  | allow
  | retryAfter
  | recordSuccess
  | recordFailure
  | monotonic
  /-- `fn(*args, **kwargs)`. -/
  | call
  /-- `await asyncio.wait_for(fn(*args, **kwargs), timeout=timeout)`. -/
  | waitFor (timeout : ℚ)
  /-- `retry %s attempt %d failed: %r`. -/
  | debug (attempt : ℕ) (exc : PyException)
  | uniform (low high : ℚ)
  | sleep (delay : ℚ)

/-- The answers; `V` is what the wrapped function returns. -/
abbrev Reply (V : Type) : Request → Type
  | .allow => Bool
  | .retryAfter => ℚ
  | .recordSuccess | .recordFailure => Unit
  | .monotonic => ℚ
  | .call | .waitFor _ => Except PyException V
  | .debug _ _ => Except PyException Unit
  | .uniform _ _ => Except PyException ℚ
  | .sleep _ => Except PyException Unit

/-- A function of the module that makes requests and may raise. -/
abbrev Driver (V α : Type) := ExceptT Raised (Prog Request (Reply V)) α

/-- An exception of a callback goes through. -/
def raised {α : Type} : Except PyException α → Except Raised α := Except.mapError .exc

section Driver

variable {V : Type} (policy : RetryPolicy) (attempt : ℕ)

/-- `cb.guard()`, if there is a breaker. -/
def guard : Driver V Unit :=
  match policy.circuitBreaker with
  | none => fromExcept (.ok ())
  | some cb => do
    let allowed ← perform .allow .ok
    if allowed then fromExcept (.ok ())
    else do
      let retryAfter ← perform .retryAfter .ok
      fromExcept (.error (.circuitOpenError cb.name retryAfter))

/-- `cb.record_success()`, if there is a breaker. -/
def recordSuccess : Driver V Unit :=
  if policy.circuitBreaker.isSome then perform .recordSuccess .ok else fromExcept (.ok ())

/-- `cb.record_failure()`, if there is a breaker. -/
def recordFailure : Driver V Unit :=
  if policy.circuitBreaker.isSome then perform .recordFailure .ok else fromExcept (.ok ())

/-- Full jitter. -/
def backoff : Driver V ℚ :=
  perform (.uniform 0 (min (policy.baseDelay * policy.multiplier ^ attempt) policy.maxDelay)) raised

/-- `_sleep_sync`. -/
def sleepSync : Driver V Unit := do
  let delay ← backoff policy attempt
  if 0 < delay then perform (.sleep delay) raised else fromExcept (.ok ())

/-- `await asyncio.sleep(policy.backoff(attempt))`. -/
def sleepAsync : Driver V Unit := do
  let delay ← backoff policy attempt
  perform (.sleep delay) raised

/-- A failed attempt: it is recorded, then raised or slept on. -/
def failed (giveUp : Bool) (err : Raised) (pause : Driver V Unit) : Driver V (Except Raised V) := do
  recordFailure policy
  if giveUp then fromExcept (.error err)
  else do
    pause
    fromExcept (.ok (.error err))

/-- An attempt that returned in time. -/
def succeeded (result : V) : Driver V (Except Raised V) := do
  recordSuccess policy
  fromExcept (.ok (.ok result))

/-- The body of the loop in `_run_sync`, after the guard: the result to return, or `last_exc` where
the loop goes on. -/
def attemptSync : Driver V (Except Raised V) := do
  let start ← perform .monotonic .ok
  let outcome ← perform .call .ok
  match outcome with
  | .error exc =>
    failed policy (!policy.isRetryable exc || policy.isLast attempt) (.exc exc) do
      perform (.debug (attempt + 1) exc) raised
      sleepSync policy attempt
  | .ok result => do
    let stop ← perform .monotonic .ok
    let elapsed := stop - start
    if policy.timeout < elapsed then
      failed policy (policy.isLast attempt) (.callTook elapsed policy.timeout)
        (sleepSync policy attempt)
    else succeeded policy result

/-- The body of the loop in `_run_async`, after the guard. -/
def attemptAsync : Driver V (Except Raised V) := do
  let outcome ← perform (.waitFor policy.timeout) .ok
  match outcome with
  | .error exc =>
    if exc.isInstance .asyncioTimeoutError then
      failed policy (policy.isLast attempt) (.callExceeded policy.timeout exc)
        (sleepAsync policy attempt)
    else
      failed policy (!policy.isRetryable exc || policy.isLast attempt) (.exc exc)
        (sleepAsync policy attempt)
  | .ok result => succeeded policy result

/-- The loop of both drivers, with the number of attempts left. -/
def drive (body : ℕ → Driver V (Except Raised V)) : ℕ → ℕ → Option Raised → Driver V V
  | 0, _, none => fromExcept (.error .assertionError)
  | 0, _, some lastExc => fromExcept (.error (.retriesExhausted policy.maxAttempts lastExc))
  | left + 1, attempt, _ => do
    guard policy
    let outcome ← body attempt
    match outcome with
    | .ok result => fromExcept (.ok result)
    | .error lastExc => drive body left (attempt + 1) (some lastExc)

def runSync : Driver V V := drive policy (attemptSync policy) policy.maxAttempts.toNat 0 none

def runAsync : Driver V V := drive policy (attemptAsync policy) policy.maxAttempts.toNat 0 none

end Driver

end Resilience.Python
