import Resilience.Foundations.Interaction
import Resilience.Onchain.Types

/-!
# The Python client

`onchain/python/resilient_onchain/client.py`. As in the TypeScript client, the calls out of the
module are requests; the code is synchronous, so every one of them returns or raises before the
next. `_with_timeout` reads the clock before and after the operation and uses the difference only,
so the two readings are one request, `elapsed`, made after an operation that returned.
-/

namespace Resilience.Onchain.Python

/-! ## Fees and heuristics -/

/-- `str(status)`. -/
def statusText : Status → String
  | .number n => toString n
  | .boolean b => if b then "True" else "False"
  | .string s => s

def isReceiptSuccess (r : NormalizedReceipt) : Bool :=
  match r.status with
  | .boolean s => s
  | .number s => s == 1
  | .string s =>
    let norm := toLowerCase s
    norm == "success".toList || norm == "1".toList || norm == "true".toList || norm == "ok".toList

/-- The fee mode is any string; what is not `legacy` is treated as `eip1559`. -/
def initialFee (mode : String) (base : FeeFields) : Except Thrown FeeFields :=
  if mode == "legacy" then
    match base.gasPrice with
    | none => .error (.onchainWriteError "legacy mode requires gas_price" "BAD_FEE")
    | some gasPrice => .ok { gasPrice := gasPrice }
  else
    match base.maxFeePerGas with
    | none => .error (.onchainWriteError "eip1559 mode requires max_fee_per_gas" "BAD_FEE")
    | some maxFeePerGas =>
      .ok {
        maxFeePerGas := maxFeePerGas
        maxPriorityFeePerGas := base.maxPriorityFeePerGas.getD maxFeePerGas }

/-- `round`: halves go to the even neighbour. -/
def pyRound (q : ℚ) : ℤ :=
  let f := ⌊q⌋
  if q - f < 1 / 2 then f
  else if 1 / 2 < q - f then f + 1
  else if f % 2 = 0 then f else f + 1

/-- The `bump` inside `bump_fee`, after the assertion that the fee is there. -/
def bump (factor : ℚ) : Option ℤ → Except Thrown ℤ
  | none => .error (.foreign ⟨"", false⟩)
  | some v => .ok ((v * pyRound (factor * 1000)).fdiv 1000 + 1)

def bumpFee (mode : String) (fee : FeeFields) (factor : ℚ) : Except Thrown FeeFields :=
  if mode == "legacy" then do
    let gasPrice ← bump factor fee.gasPrice
    return { gasPrice := gasPrice }
  else do
    let maxFeePerGas ← bump factor fee.maxFeePerGas
    let maxPriorityFeePerGas ← bump factor (fee.maxPriorityFeePerGas <|> fee.maxFeePerGas)
    return { maxFeePerGas := maxFeePerGas, maxPriorityFeePerGas := maxPriorityFeePerGas }

def isNonceTooLow (err : Thrown) : Bool :=
  let msg := toLowerCase err.message
  ["nonce too low", "nonce-too-low", "nonce is too low", "already known", "invalid nonce"].any
    fun s => includes msg s

def isRetryable (err : Thrown) : Bool :=
  let msg := toLowerCase err.message
  let nonRetryable :=
    ["insufficient funds", "invalid signature", "execution reverted", "unauthorized"]
  !nonRetryable.any fun s => includes msg s

/-! ## The circuit breaker -/

/-- `CircuitBreaker`, without its clock. -/
structure CircuitBreaker where
  threshold : ℤ
  cooldown : ℚ
  consecutiveFailures : ℕ
  openedAt : Option ℚ
  threshold_ge : 1 ≤ threshold
  /-- It is opened when the failures reach the threshold. -/
  opened : openedAt.isSome = true ↔ threshold ≤ consecutiveFailures

namespace CircuitBreaker

/-- `__init__`. -/
def create (threshold : ℤ) (cooldown : ℚ := 0) : Except Thrown CircuitBreaker :=
  if h : threshold < 1 then .error (.onchainWriteError "threshold must be >= 1" "BAD_CONFIG")
  else .ok {
    threshold, cooldown
    consecutiveFailures := 0
    openedAt := none
    threshold_ge := not_lt.1 h
    opened := iff_of_false Bool.false_ne_true (by omega) }

variable (b : CircuitBreaker) (now : ℚ)

def assertClosed : Except String Unit :=
  match b.openedAt with
  | none => .ok ()
  | some openedAt =>
    if 0 < b.cooldown ∧ b.cooldown ≤ now - openedAt then .ok ()
    else .error s!"circuit open after {b.consecutiveFailures} consecutive failures"

def recordSuccess : CircuitBreaker where
  threshold := b.threshold
  cooldown := b.cooldown
  consecutiveFailures := 0
  openedAt := none
  threshold_ge := b.threshold_ge
  opened := iff_of_false Bool.false_ne_true (by have := b.threshold_ge; omega)

def recordFailure : CircuitBreaker where
  threshold := b.threshold
  cooldown := b.cooldown
  consecutiveFailures := b.consecutiveFailures + 1
  openedAt := if b.threshold ≤ ↑(b.consecutiveFailures + 1) then some now else b.openedAt
  threshold_ge := b.threshold_ge
  opened := by
    split
    · exact iff_of_true rfl ‹_›
    · rename_i h
      refine iff_of_false (fun hopened => h ?_) h
      have := b.opened.1 hopened
      omega

def isOpen : Bool :=
  match b.assertClosed now with
  | .ok _ => false
  | .error _ => true

end CircuitBreaker

/-! ## Options -/

/-- A number of seconds, and what `str` makes of it. -/
structure Seconds where
  value : ℚ
  text : String

/-- `SendOpts`. For the callbacks and the breaker it records whether they are given. -/
structure SendOpts where
  maxAttempts : ℤ := 5
  feeMode : String := "legacy"
  bumpFactor : ℚ := 9 / 8
  timeout : Seconds := ⟨120, "120.0"⟩
  backoffBase : ℚ := 1
  idempotencyKey : Option String := none
  alreadySent : Bool := false
  breaker : Bool := false

/-! ## Requests -/

inductive Request
  | alreadySent (key : String)
  | assertClosed
  | recordSuccess
  | recordFailure
  | fetchState
  | signSend (ctx : TxContext)
  | wait (submitted : SubmitResult)
  | elapsed
  | log (line : LogLine)
  | sleep (seconds : ℚ)

abbrev Answer : Request → Type
  | .alreadySent _ => Called Bool
  | .assertClosed => Except String Unit
  | .recordSuccess => Unit
  | .recordFailure => Unit
  | .fetchState => Called StateResult
  | .signSend _ => Called SubmitResult
  | .wait _ => Called NormalizedReceipt
  | .elapsed => ℚ
  | .log _ => Called Unit
  | .sleep _ => Called Unit

/-- A function of the module that makes requests and may raise. -/
abbrev Sync (α : Type) := ExceptT Thrown (Prog Request Answer) α

/-- What has happened: the requests made, with their answers. -/
abbrev Trace := List (Prog.Event Request Answer)

def recordSuccess (o : SendOpts) : Sync Unit :=
  if o.breaker then perform .recordSuccess .ok else fromExcept (.ok ())

def recordFailure (o : SendOpts) : Sync Unit :=
  if o.breaker then perform .recordFailure .ok else fromExcept (.ok ())

def log (line : LogLine) : Sync Unit := perform (.log line) Called.result

/-! ## send_with_retry -/

/-- `_with_timeout`: run `op`, and raise after the fact when it took too long. -/
def withTimeout (op : Sync NormalizedReceipt) (timeout : Seconds) (label : String) :
    Sync NormalizedReceipt := do
  let result ← op
  let elapsed ← perform .elapsed .ok
  if timeout.value < elapsed then
    throw (.onchainWriteError s!"{label} exceeded timeout of {timeout.text}s" "TIMEOUT")
  else return result

/-- `_submit_and_wait`. -/
def submitAndWait (o : SendOpts) (n : ℤ) (f : FeeFields) (a : ℤ) : Sync NormalizedReceipt := do
  let submitted ← perform (.signSend ⟨n, f, a⟩) Called.result
  log (.sent a o.maxAttempts n submitted.txHash)
  perform (.wait submitted) Called.result

/-- The success assertion: a revert is raised, a success is recorded. -/
def confirm (o : SendOpts) (attempt : ℤ) (receipt : NormalizedReceipt) : Sync NormalizedReceipt :=
  if !isReceiptSuccess receipt then do
    recordFailure o
    throw (.txFailed s!"tx confirmed but reverted (status={statusText receipt.status})" receipt)
  else do
    recordSuccess o
    log (.confirmed attempt (receipt.txHash.getD ""))
    return receipt

/-- The `try` block of one attempt. -/
def submitAndConfirm (o : SendOpts) (attempt nonce : ℤ) (fee : FeeFields) :
    Sync NormalizedReceipt := do
  let receipt ← withTimeout (submitAndWait o nonce fee attempt) o.timeout s!"attempt {attempt}"
  confirm o attempt receipt

/-- `o.backoff_base_s * 2 ** (attempt - 1)`. The base is a `float` and the power an `int`, which is
converted first: from `2 ** 1024` on that is an `OverflowError`. -/
def backoffDelay (backoffBase : ℚ) (attempt : ℤ) : Except Thrown ℚ :=
  if 1024 < attempt then .error (.foreign ⟨"int too large to convert to float", false⟩)
  else .ok (backoffBase * 2 ^ (attempt - 1))

/-- Bump the fee and back off, unless this was the last attempt. -/
def bumpAndSleep (o : SendOpts) (attempt nonce : ℤ) (fee : FeeFields) (err : Thrown) :
    Sync (ℤ × FeeFields) :=
  if attempt < o.maxAttempts then do
    let fee ← fromExcept (bumpFee o.feeMode fee o.bumpFactor)
    let delay ← fromExcept (backoffDelay o.backoffBase attempt)
    log (.failed attempt err.message delay)
    perform (.sleep delay) Called.result
    return (nonce, fee)
  else return (nonce, fee)

/-- The end of the handler: count the failure, then fail fast or go on. -/
def failAttempt (o : SendOpts) (attempt nonce : ℤ) (fee : FeeFields) (err : Thrown) :
    Sync (ℤ × FeeFields) := do
  recordFailure o
  if !isRetryable err then
    throw (.nonRetryable
      s!"non-retryable on-chain error on attempt {attempt}: {err.message}" err)
  else bumpAndSleep o attempt nonce fee err

/-- The two handlers of one attempt; they return the nonce and the fee the loop goes on with. -/
def onError (o : SendOpts) (attempt nonce : ℤ) (fee : FeeFields) (err : Thrown) :
    Sync (ℤ × FeeFields) :=
  if err.isTxFailedError then throw err
  else if isNonceTooLow err then do
    log (.refreshing attempt)
    let refreshed ← perform .fetchState Called.result
    let fee ← fromExcept (initialFee o.feeMode refreshed.fee)
    if attempt < o.maxAttempts then do
      perform (.sleep o.backoffBase) Called.result
      return (refreshed.nonce, fee)
    else failAttempt o attempt refreshed.nonce fee err
  else failAttempt o attempt nonce fee err

/-- The loop, with the number of attempts that are left. -/
def attempts (o : SendOpts) : ℕ → ℤ → ℤ → FeeFields → Thrown → Sync NormalizedReceipt
  | 0, _, _, _, lastErr =>
    throw (.retryExhausted
      s!"on-chain write failed after {o.maxAttempts} attempts: {lastErr.message}" lastErr)
  | left + 1, attempt, nonce, fee, _ => do
    match ← observe (submitAndConfirm o attempt nonce fee) with
    | .ok receipt => return receipt
    | .error err =>
      let next ← onError o attempt nonce fee err
      attempts o left (attempt + 1) next.1 next.2 err

/-- The idempotency guard. -/
def guardIdempotency (o : SendOpts) : Sync Unit :=
  match o.idempotencyKey, o.alreadySent with
  | some key, true => do
    let sent ← perform (.alreadySent key) Called.result
    if sent then
      throw (.onchainWriteError s!"idempotent: tx for key '{key}' already submitted"
        "ALREADY_SENT")
    else return ()
  | _, _ => return ()

/-- The check of the shared breaker. -/
def guardBreaker (o : SendOpts) : Sync Unit :=
  if o.breaker then perform .assertClosed breakerResult else fromExcept (.ok ())

def sendWithRetry (opts : Option SendOpts) : Sync NormalizedReceipt :=
  let o := opts.getD {}
  if o.bumpFactor ≤ 1 then throw (.onchainWriteError "bump_factor must be > 1" "BAD_CONFIG")
  else if o.maxAttempts < 1 then
    throw (.onchainWriteError "max_attempts must be >= 1" "BAD_CONFIG")
  else do
    guardIdempotency o
    guardBreaker o
    let state ← perform .fetchState Called.result
    let fee ← fromExcept (initialFee o.feeMode state.fee)
    -- `last_err` starts out `None`
    attempts o o.maxAttempts.toNat 1 state.nonce fee (.foreign ⟨"None", false⟩)

end Resilience.Onchain.Python
