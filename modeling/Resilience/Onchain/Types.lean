import Mathlib.Data.Rat.Floor
import Mathlib.Data.List.Infix

/-!
# The vocabulary of the on-chain write clients

What `onchain/typescript/src/index.ts` and `onchain/python/resilient_onchain/client.py` share: fee
fields, receipts, the context of one attempt, the values that are thrown, and the two string
operations their error heuristics rest on. Integers (`bigint`, `int`, nonces, attempt numbers) are
`ℤ`; the bump factor is an exact rational.
-/

namespace Resilience.Onchain

/-! ## Data -/

/-- `FeeFields`: `legacy` mode sets the gas price, `eip1559` mode the other two. -/
structure FeeFields where
  gasPrice : Option ℤ := none
  maxFeePerGas : Option ℤ := none
  maxPriorityFeePerGas : Option ℤ := none
  deriving DecidableEq, Repr

/-- The `status` of a receipt. -/
inductive Status
  | number (n : ℤ)
  | boolean (b : Bool)
  | string (s : String)
  deriving DecidableEq, Repr

/-- `NormalizedReceipt`, without the `raw` member that nothing reads. -/
structure NormalizedReceipt where
  status : Status
  txHash : Option String := none
  deriving DecidableEq, Repr

/-- `TxContext`: what one attempt is built, signed and sent from. -/
structure TxContext where
  nonce : ℤ
  fee : FeeFields
  attempt : ℤ
  deriving DecidableEq, Repr

/-- `SubmitResult`; its `wait` is a request of the client. -/
structure SubmitResult where
  txHash : String
  deriving DecidableEq, Repr

/-- What `fetchState` returns. -/
structure StateResult where
  nonce : ℤ
  fee : FeeFields
  deriving DecidableEq, Repr

/-- The lines the client logs. -/
inductive LogLine
  | sent (attempt maxAttempts nonce : ℤ) (txHash : String)
  | confirmed (attempt : ℤ) (txHash : String)
  | refreshing (attempt : ℤ)
  | failed (attempt : ℤ) (message : String) (delay : ℚ)
  deriving DecidableEq, Repr

/-- A value thrown by a callback: what `err?.message ?? String(err)` or `str(err)` gives, and
whether it is an instance of `TxFailedError`. -/
structure Foreign where
  message : String
  isTxFailedError : Bool := false
  deriving DecidableEq, Repr

/-- What may be thrown: a value from a callback, or one of the errors a client makes itself. -/
inductive Thrown
  | foreign (err : Foreign)
  | onchainWriteError (message code : String)
  | circuitOpen (message : String)
  | txFailed (message : String) (receipt : NormalizedReceipt)
  | nonRetryable (message : String) (cause : Thrown)
  | retryExhausted (message : String) (cause : Thrown)
  deriving DecidableEq, Repr

namespace Thrown

def message : Thrown → String
  | .foreign err => err.message
  | .onchainWriteError m _ | .circuitOpen m | .txFailed m _ | .nonRetryable m _
  | .retryExhausted m _ => m

/-- The `code` of an error; a value from a callback has one if it is a `TxFailedError`. -/
def code : Thrown → Option String
  | .foreign err => if err.isTxFailedError then some "TX_FAILED" else none
  | .onchainWriteError _ code => some code
  | .circuitOpen _ => some "CIRCUIT_OPEN"
  | .txFailed _ _ => some "TX_FAILED"
  | .nonRetryable _ _ => some "NON_RETRYABLE"
  | .retryExhausted _ _ => some "RETRY_EXHAUSTED"

/-- `err instanceof TxFailedError`. -/
def isTxFailedError : Thrown → Bool
  | .foreign err => err.isTxFailedError
  | .txFailed _ _ => true
  | _ => false

end Thrown

/-- The answer of a callback: its value, or what it throws. -/
abbrev Called (α : Type) := Except Foreign α

/-- A callback's value, or its throw passed on. -/
def Called.result {α : Type} (r : Called α) : Except Thrown α := r.mapError .foreign

@[simp] theorem Called.result_eq_ok {α : Type} {r : Called α} {a : α} :
    r.result = .ok a ↔ r = .ok a := by
  cases r <;> simp [result, Except.mapError]

/-- What `assertClosed` throws is a `CircuitOpenError`, here with its message. -/
def breakerResult (r : Except String Unit) : Except Thrown Unit := r.mapError .circuitOpen

/-! ## Searching messages -/

/-- The lower case of a character, for the characters whose lower case contains an ASCII
character: the capital letters, the Kelvin sign and the dotted capital I. Any other character
changes, if at all, to characters outside ASCII, which no search of the clients looks for. -/
def lowerChar (c : Char) : List Char :=
  if 'A' ≤ c ∧ c ≤ 'Z' then [Char.ofNat (c.toNat + 32)]
  else if c = Char.ofNat 0x212A then ['k']
  else if c = Char.ofNat 0x130 then ['i', Char.ofNat 0x307]
  else [c]

/-- `s.toLowerCase()`, `s.lower()`. -/
def toLowerCase (s : String) : List Char := s.toList.flatMap lowerChar

/-- `s.includes(pattern)`, `pattern in s`. -/
def includes (s : List Char) (pattern : String) : Bool := decide (pattern.toList <:+: s)

end Resilience.Onchain
