import Resilience.Foundations.Interaction
import Resilience.Onchain.Types

/-!
# The TypeScript client

`onchain/typescript/src/index.ts`. `sendWithRetry` is a program whose requests are the calls it
makes out of the module: the callbacks in `SendWithRetryOpts`, `fetchState`, `signSend`, the
`wait` of a submission and the methods of the circuit breaker. The value or the error of each is
the world's answer.

`withTimeout` races an operation against a timer. The operation is a sequence of awaits, and the
timer may win while any of them is pending, so the answer to an await inside it is a `Race`. The
operation that lost goes on, outside the call.
-/

namespace Resilience.Onchain.TypeScript

/-! ## Fees and heuristics -/

inductive FeeMode
  | legacy
  | eip1559
  deriving DecidableEq, Repr

/-- `String(status)`. -/
def statusText : Status → String
  | .number n => toString n
  | .boolean b => if b then "true" else "false"
  | .string s => s

def isReceiptSuccess (r : NormalizedReceipt) : Bool :=
  match r.status with
  | .number s => s == 1
  | .boolean s => s
  | .string s =>
    let norm := toLowerCase s
    norm == "success".toList || norm == "1".toList || norm == "true".toList || norm == "ok".toList

def initialFee (mode : FeeMode) (base : FeeFields) : Except Thrown FeeFields :=
  match mode with
  | .legacy =>
    match base.gasPrice with
    | none => .error (.onchainWriteError "legacy mode requires gasPrice" "BAD_FEE")
    | some gasPrice => .ok { gasPrice := gasPrice }
  | .eip1559 =>
    match base.maxFeePerGas with
    | none => .error (.onchainWriteError "eip1559 mode requires maxFeePerGas" "BAD_FEE")
    | some maxFeePerGas =>
      .ok {
        maxFeePerGas := maxFeePerGas
        maxPriorityFeePerGas := base.maxPriorityFeePerGas.getD maxFeePerGas }

/-- `Math.round`: halves go up. -/
def mathRound (q : ℚ) : ℤ := ⌊q + 1 / 2⌋

/-- The `bump` inside `bumpFee`. Division of bigints truncates; a missing fee is a `TypeError`. -/
def bump (factor : ℚ) : Option ℤ → Except Thrown ℤ
  | none => .error (.foreign ⟨"Cannot mix BigInt and other types, use explicit conversions", false⟩)
  | some v => .ok ((v * mathRound (factor * 1000)).tdiv 1000 + 1)

def bumpFee (mode : FeeMode) (fee : FeeFields) (factor : ℚ) : Except Thrown FeeFields :=
  match mode with
  | .legacy => do
    let gasPrice ← bump factor fee.gasPrice
    return { gasPrice := gasPrice }
  | .eip1559 => do
    let maxFeePerGas ← bump factor fee.maxFeePerGas
    let maxPriorityFeePerGas ← bump factor (fee.maxPriorityFeePerGas <|> fee.maxFeePerGas)
    return { maxFeePerGas := maxFeePerGas, maxPriorityFeePerGas := maxPriorityFeePerGas }

def isNonceTooLow (err : Thrown) : Bool :=
  let msg := toLowerCase err.message
  includes msg "nonce too low" || includes msg "nonce-too-low" ||
    includes msg "nonce is too low" || includes msg "already known" ||
    includes msg "invalid nonce"

def isRetryable (err : Thrown) : Bool :=
  let msg := toLowerCase err.message
  let nonRetryable :=
    ["insufficient funds", "invalid signature", "execution reverted", "unauthorized"]
  !nonRetryable.any fun s => includes msg s

/-! ## Options -/

/-- `SendWithRetryOpts`. For the callbacks and the breaker it records whether they are given; their
answers come from the world. -/
structure SendWithRetryOpts where
  maxAttempts : Option ℤ := none
  feeMode : Option FeeMode := none
  bumpFactor : Option ℚ := none
  timeoutMs : Option ℤ := none
  backoffBaseMs : Option ℤ := none
  idempotencyKey : Option String := none
  alreadySent : Bool := false
  breaker : Bool := false

/-- The constants at the head of `sendWithRetry`, defaults filled in. -/
structure Settings where
  maxAttempts : ℤ
  feeMode : FeeMode
  bumpFactor : ℚ
  timeoutMs : ℤ
  backoffBaseMs : ℤ
  breaker : Bool

def SendWithRetryOpts.settings (opts : SendWithRetryOpts) : Settings where
  maxAttempts := opts.maxAttempts.getD 5
  feeMode := opts.feeMode.getD .legacy
  bumpFactor := opts.bumpFactor.getD (9 / 8)
  timeoutMs := opts.timeoutMs.getD 120000
  backoffBaseMs := opts.backoffBaseMs.getD 1000
  breaker := opts.breaker

/-! ## Requests -/

inductive Request
  | alreadySent (key : String)
  | assertClosed
  | recordSuccess
  | recordFailure
  | fetchState
  | signSend (ctx : TxContext)
  | wait (submitted : SubmitResult)
  | log (line : LogLine)
  | sleep (ms : ℚ)

/-- What an await inside `withTimeout` comes to: it settles, or the timer fires first. -/
inductive Race (α : Type)
  | settled (r : Called α)
  | timedOut

abbrev Answer : Request → Type
  | .alreadySent _ => Called Bool
  | .assertClosed => Except String Unit
  | .recordSuccess => Unit
  | .recordFailure => Unit
  | .fetchState => Called StateResult
  | .signSend _ => Race SubmitResult
  | .wait _ => Race NormalizedReceipt
  | .log _ => Called Unit
  | .sleep _ => Called Unit

/-- An asynchronous function of the module. -/
abbrev Async (α : Type) := ExceptT Thrown (Prog Request Answer) α

/-- How the race in `withTimeout(op, ms, label)` comes out of one await of `op`. -/
def Race.result {α : Type} (ms : ℤ) (label : String) : Race α → Except Thrown α
  | .settled r => r.result
  | .timedOut => .error (.onchainWriteError s!"{label} timed out after {ms}ms" "TIMEOUT")

def recordSuccess (s : Settings) : Async Unit :=
  if s.breaker then perform .recordSuccess .ok else fromExcept (.ok ())

def recordFailure (s : Settings) : Async Unit :=
  if s.breaker then perform .recordFailure .ok else fromExcept (.ok ())

def log (line : LogLine) : Async Unit := perform (.log line) Called.result

/-! ## sendWithRetry -/

/-- The success assertion, after the race: a revert is thrown, a success is recorded. -/
def confirm (s : Settings) (attempt : ℤ) (receipt : NormalizedReceipt) :
    Async NormalizedReceipt :=
  if !isReceiptSuccess receipt then do
    recordFailure s
    throw (.txFailed s!"tx confirmed but reverted (status={statusText receipt.status})" receipt)
  else do
    recordSuccess s
    log (.confirmed attempt (receipt.txHash.getD ""))
    return receipt

/-- The `try` block of one attempt; the first three requests are the operation under
`withTimeout`. -/
def submitAndConfirm (s : Settings) (attempt nonce : ℤ) (fee : FeeFields) :
    Async NormalizedReceipt := do
  let label := s!"attempt {attempt}"
  let submitted ← perform (.signSend ⟨nonce, fee, attempt⟩) (Race.result s.timeoutMs label)
  log (.sent attempt s.maxAttempts nonce submitted.txHash)
  let receipt ← perform (.wait submitted) (Race.result s.timeoutMs label)
  confirm s attempt receipt

/-- Bump the fee and back off, unless this was the last attempt. -/
def bumpAndSleep (s : Settings) (attempt nonce : ℤ) (fee : FeeFields) (err : Thrown) :
    Async (ℤ × FeeFields) :=
  if attempt < s.maxAttempts then do
    let fee ← fromExcept (bumpFee s.feeMode fee s.bumpFactor)
    let delay : ℚ := s.backoffBaseMs * 2 ^ (attempt - 1)
    log (.failed attempt err.message delay)
    perform (.sleep delay) Called.result
    return (nonce, fee)
  else return (nonce, fee)

/-- The end of the `catch` block: count the failure, then fail fast or go on. -/
def failAttempt (s : Settings) (attempt nonce : ℤ) (fee : FeeFields) (err : Thrown) :
    Async (ℤ × FeeFields) := do
  recordFailure s
  if !isRetryable err then
    throw (.nonRetryable
      s!"non-retryable on-chain error on attempt {attempt}: {err.message}" err)
  else bumpAndSleep s attempt nonce fee err

/-- The `catch` block of one attempt; it returns the nonce and the fee the loop goes on with. -/
def onError (s : Settings) (attempt nonce : ℤ) (fee : FeeFields) (err : Thrown) :
    Async (ℤ × FeeFields) :=
  if err.isTxFailedError then throw err
  else if isNonceTooLow err then do
    log (.refreshing attempt)
    let refreshed ← perform .fetchState Called.result
    let fee ← fromExcept (initialFee s.feeMode refreshed.fee)
    if attempt < s.maxAttempts then do
      perform (.sleep s.backoffBaseMs) Called.result
      return (refreshed.nonce, fee)
    -- on the last attempt the refreshed state is dropped and the error counts as a failure
    else failAttempt s attempt refreshed.nonce fee err
  else failAttempt s attempt nonce fee err

/-- The loop, with the number of attempts that are left. -/
def attempts (s : Settings) : ℕ → ℤ → ℤ → FeeFields → Thrown → Async NormalizedReceipt
  | 0, _, _, _, lastErr =>
    throw (.retryExhausted
      s!"on-chain write failed after {s.maxAttempts} attempts: {lastErr.message}" lastErr)
  | left + 1, attempt, nonce, fee, _ => do
    match ← observe (submitAndConfirm s attempt nonce fee) with
    | .ok receipt => return receipt
    | .error err =>
      let next ← onError s attempt nonce fee err
      attempts s left (attempt + 1) next.1 next.2 err

/-- The idempotency guard. -/
def guardIdempotency (opts : SendWithRetryOpts) : Async Unit :=
  match opts.idempotencyKey, opts.alreadySent with
  | some key, true => do
    let sent ← perform (.alreadySent key) Called.result
    if sent then
      throw (.onchainWriteError s!"idempotent: tx for key '{key}' already submitted"
        "ALREADY_SENT")
    else return ()
  | _, _ => return ()

/-- The check of the shared breaker. -/
def guardBreaker (s : Settings) : Async Unit :=
  if s.breaker then perform .assertClosed breakerResult else fromExcept (.ok ())

def sendWithRetry (opts : SendWithRetryOpts) : Async NormalizedReceipt :=
  let s := opts.settings
  if s.bumpFactor ≤ 1 then throw (.onchainWriteError "bumpFactor must be > 1" "BAD_CONFIG")
  else if s.maxAttempts < 1 then
    throw (.onchainWriteError "maxAttempts must be >= 1" "BAD_CONFIG")
  else do
    guardIdempotency opts
    guardBreaker s
    let state ← perform .fetchState Called.result
    let fee ← fromExcept (initialFee s.feeMode state.fee)
    -- `lastErr` starts out `undefined`
    attempts s s.maxAttempts.toNat 1 state.nonce fee (.foreign ⟨"undefined", false⟩)

end Resilience.Onchain.TypeScript
