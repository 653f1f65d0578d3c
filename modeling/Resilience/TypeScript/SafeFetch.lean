import Resilience.TypeScript.Retry

/-!
# Fetching with retries

`typescript/src/safeFetch.ts`. URLs are of a type `U`, with the functions of a `Platform`. What a
program asks is answered by the caller's signal and callbacks, by the network, and by whatever stops
a request of `fetch` before it is sent.
-/

namespace Resilience.TypeScript

open Json

/-- What is used of URLs and strings. -/
structure Platform (U X : Type) where
  /-- `new URL(text)`. -/
  parse : Units → Except X U
  /-- `url.hostname`. -/
  hostname : U → Units
  /-- `s.toLowerCase()`. -/
  toLowerCase : Units → Units
  /-- `${n}`. -/
  numberText : Number → Units

/-- Why there is no response: the timer of the attempt or the caller aborted it, or it failed. -/
inductive Stop (X : Type)
  | timeout
  | aborted (reason : Thrown X)
  | failed (error : X)

structure Response where
  status : ℕ
  location : Option Units := none

/-- `response.ok`. -/
def Response.ok (response : Response) : Bool := 200 ≤ response.status && response.status ≤ 299

inductive Request (U X : Type)
  /-- `callerSignal.aborted`. -/
  | aborted
  /-- `callerSignal.reason`. -/
  | reason
  /-- A request is to be sent: whether it is stopped. -/
  | stopped (url : U)
  /-- A request is sent. -/
  | send (url : U)
  | mathRandom
  /-- The option `random`. -/
  | random
  /-- The option `onRetry`. -/
  | onRetry (info : RetryInfo X)
  | sleep (ms : Number)

abbrev Answer (U X : Type) : Request U X → Type
  | .aborted => Bool
  | .reason => Thrown X
  | .stopped _ => Option (Stop X)
  | .send _ => Except (Stop X) Response
  | .mathRandom => Number
  | .random => Except (Thrown X) Number
  | .onRetry _ => Except (Thrown X) Unit
  | .sleep _ => Unit

/-- Asynchronous code of `safeFetch`. -/
abbrev Fetching (U X α : Type) := Async (Request U X) (Answer U X) X α

inductive RedirectMode
  | follow
  | error
  | manual
  deriving DecidableEq, Repr

/-- The signal of an attempt: the reason for which it is aborted from the start, and the one that
the timer gives. -/
structure AttemptSignal (X : Type) where
  already : Option (Thrown X)
  timeout : Thrown X

/-- An implementation of `fetch`. -/
abbrev FetchImpl (U X : Type) :=
  U → Option RedirectMode → AttemptSignal X → Fetching U X Response

inductive Allowlist (U X : Type)
  | hook (allow : U → Except (Thrown X) Bool)
  | hosts (allowlist : List Units)

/-- `SafeFetchOptions`. Of the callbacks and the caller's signal it is known whether they are
given, and of `RequestInit` the redirect mode. -/
structure SafeFetchOptions (U X : Type) where
  timeoutMs : Option Number := none
  maxAttempts : Option Number := none
  baseDelayMs : Option Number := none
  maxDelayMs : Option Number := none
  allowlist : Option (Allowlist U X) := none
  fetchImpl : Option (FetchImpl U X) := none
  random : Bool := false
  onRetry : Bool := false
  signal : Bool := false
  redirect : Option RedirectMode := none

/-- The argument `url`. -/
inductive Url (U : Type)
  | url (url : U)
  | text (text : Units)

/-- `RETRYABLE_STATUS`. -/
def retryableStatus : List ℚ := [408, 425, 429, 500, 502, 503, 504]

def isRetryableStatus (status : Number) : Bool := (retryableStatus.map .finite).contains status

section SafeFetch

variable {U X : Type} (platform : Platform U X) (options : SafeFetchOptions U X)

/-- The host is on the list, in any case. -/
def Platform.listed (allowlist : List Units) (url : U) : Bool :=
  (allowlist.map platform.toLowerCase).contains (platform.toLowerCase (platform.hostname url))

def buildAllowlistHook : Option (Allowlist U X) → Option (U → Except (Thrown X) Bool)
  | none => none
  | some (.hook allow) => some allow
  | some (.hosts allowlist) => some fun url => .ok (platform.listed allowlist url)

/-- The guard on the host. -/
def checkHost (target : U) : Fetching U X Unit :=
  match buildAllowlistHook platform options.allowlist with
  | none => fromExcept (.ok ())
  | some allowHook => do
    let allowed ← fromExcept (allowHook target)
    if allowed then fromExcept (.ok ())
    else throwResilience {
      kind := .ssrf
      message := utf16 "host \"" ++ platform.hostname target ++ utf16 "\" is not in the allowlist"
      attempts := .finite 0
      cause := .undefined }

/-- The caller's signal, if there is one and it is aborted: its reason. -/
def callerAborted : Fetching U X (Option (Thrown X)) :=
  if options.signal then do
    let aborted ← perform .aborted .ok
    if aborted then perform .reason fun reason => .ok (some reason) else fromExcept (.ok none)
  else fromExcept (.ok none)

/-- What the timer of an attempt aborts it with. -/
def timeoutError : Thrown X :=
  .resilienceError {
    kind := .timeout
    message := utf16 "request timed out after " ++
      platform.numberText (options.timeoutMs.getD (.finite 10000)) ++ utf16 "ms"
    cause := .undefined }

/-- The response, unless it is one to retry. -/
def checkStatus (response : Response) : Fetching U X Response :=
  if !response.ok && isRetryableStatus (.finite response.status) then
    throwResilience {
      kind := .http
      message := utf16 "request failed with retryable status " ++
        platform.numberText (.finite response.status)
      status := some (.finite response.status)
      cause := .undefined }
  else fromExcept (.ok response)

/-- One attempt. -/
def attemptFetch (doFetch : FetchImpl U X) (target : U) : Fetching U X Response := do
  let already ← callerAborted options
  let outcome ← observe do
    let response ← doFetch target options.redirect ⟨already, timeoutError platform options⟩
    checkStatus platform response
  match outcome with
  | .ok response => fromExcept (.ok response)
  | .error error => do
    let aborted ← callerAborted options
    match aborted, error with
    | some reason, _ => throwResilience {
        kind := .aborted
        message := utf16 "request aborted by caller"
        cause := reason }
    | none, .resilienceError err => throwResilience err
    | none, error => throwResilience {
        kind := .network
        message := utf16 "network request failed"
        cause := error }

/-- The function `shouldRetry` of `safeFetch`. -/
def shouldRetry : Thrown X → Bool
  | .resilienceError err =>
    match err.kind with
    | .ssrf | .aborted => false
    | .http => err.status.any isRetryableStatus
    | _ => true
  | _ => true

/-- What `safeFetch` passes to `retry`. -/
def SafeFetchOptions.retryOptions : RetryOptions (Request U X) (Answer U X) X where
  maxAttempts := options.maxAttempts.getD (.finite 3)
  baseDelayMs := options.baseDelayMs.getD (.finite 250)
  maxDelayMs := options.maxDelayMs.getD (.finite 30000)
  shouldRetry := some fun error _ => fromExcept (.ok (shouldRetry error))
  onRetry := if options.onRetry then some fun info => perform (.onRetry info) id else none
  random := if options.random then some (perform .random id) else none
  signal := if options.signal then some ⟨perform .aborted .ok, perform .reason .ok⟩ else none

/-- `Math.random` and `setTimeout`. -/
def Platform.runtime : Runtime (Request U X) (Answer U X) X where
  random := perform .mathRandom .ok
  defaultSleep ms := perform (.sleep ms) .ok
  numberText := platform.numberText

/-- `safeFetch`; `globalFetch` is `globalThis.fetch`, if that is a function. -/
def safeFetch (globalFetch : Option (FetchImpl U X)) (url : Url U) (fuel : ℕ) :
    Fetching U X (Option Response) :=
  match options.fetchImpl <|> globalFetch with
  | none => throwResilience {
      kind := .network
      message := utf16 "global fetch is unavailable; pass options.fetchImpl"
      attempts := .finite 0
      cause := .undefined }
  | some doFetch => do
    let target ← fromExcept (match url with
      | .url url => .ok url
      | .text text => (platform.parse text).mapError .other)
    checkHost platform options target
    retry platform.runtime options.retryOptions
      (fun _ => attemptFetch platform options doFetch target) fuel

end SafeFetch

end Resilience.TypeScript
