import Resilience.Foundations.Interaction
import Resilience.Foundations.Overflow
import Mathlib.Algebra.Order.Ring.Nat
import Mathlib.Tactic.SplitIfs

/-!
# The retry policy of the Rust crate

`RetryPolicy` of `rust/src/retry.rs`, with what it uses of `std::time::Duration` and of the machine
integers.

A ceiling is computed from whole milliseconds, of which 64 bits are kept. So it is the one that the
policy asks for exactly when neither loses anything that counts (`ceilingExact_iff`).
-/

namespace Resilience.Rust

/-! ## `std` -/

/-- `std::time::Duration`. -/
structure Duration where
  secs : UInt64
  nanos : ℕ
  nanos_lt : nanos < 1000000000

theorem millis_lt (ms : UInt64) : (ms % 1000).toNat * 1000000 < 1000000000 := by
  have hmod : (ms % 1000).toNat = ms.toNat % 1000 := by simp
  omega

theorem nanos_zero_lt : 0 < 1000000000 := by decide

namespace Duration

def nanoseconds (d : Duration) : ℕ := d.secs.toNat * 1000000000 + d.nanos

/-- `d.as_millis()`, a `u128`. -/
def asMillis (d : Duration) : ℕ := d.secs.toNat * 1000 + d.nanos / 1000000

def fromMillis (ms : UInt64) : Duration := ⟨ms / 1000, (ms % 1000).toNat * 1000000, millis_lt ms⟩

/-- `Duration::ZERO`. -/
def zero : Duration := ⟨0, 0, nanos_zero_lt⟩

def isZero (d : Duration) : Bool := d.secs == 0 && d.nanos == 0

theorem asMillis_eq (d : Duration) : d.asMillis = d.nanoseconds / 1000000 := by
  have := d.nanos_lt
  unfold asMillis nanoseconds
  omega

@[simp] theorem nanoseconds_fromMillis (ms : UInt64) :
    (fromMillis ms).nanoseconds = ms.toNat * 1000000 := by
  have hdiv : (ms / 1000).toNat = ms.toNat / 1000 := by simp
  have hmod : (ms % 1000).toNat = ms.toNat % 1000 := by simp
  unfold nanoseconds fromMillis
  dsimp only
  omega

@[simp] theorem asMillis_fromMillis (ms : UInt64) : (fromMillis ms).asMillis = ms.toNat := by
  rw [asMillis_eq, nanoseconds_fromMillis]
  omega

@[simp] theorem nanoseconds_zero : zero.nanoseconds = 0 := rfl

end Duration

/-- `u64::MAX`. -/
def maxU64 : UInt64 := 18446744073709551615

/-- `x.checked_shl(n)`. -/
def checkedShl (x : UInt64) (n : UInt32) : Option UInt64 :=
  if n < 64 then some (x <<< n.toUInt64) else none

/-- `a.saturating_mul(b)`. -/
def saturatingMul (a b : UInt64) : UInt64 :=
  if a.toNat * b.toNat ≤ maxU64.toNat then a * b else maxU64

/-- `a.min(b)`. -/
def minU64 (a b : UInt64) : UInt64 := if a ≤ b then a else b

theorem toNat_minU64 (a b : UInt64) : (minU64 a b).toNat = min a.toNat b.toNat := by
  unfold minU64
  split_ifs with h
  · exact (min_eq_left h).symm
  · exact (min_eq_right (not_le.1 h).le).symm

theorem toNat_le_maxU64 (a : UInt64) : a.toNat ≤ maxU64.toNat :=
  Nat.lt_succ_iff.1 a.toNat_lt

theorem toNat_saturatingMul (a b : UInt64) :
    (saturatingMul a b).toNat = min (a.toNat * b.toNat) maxU64.toNat := by
  unfold saturatingMul
  split_ifs with h
  · have hlt : a.toNat * b.toNat < 2 ^ 64 := Nat.lt_succ_of_le h
    rw [UInt64.toNat_mul, Nat.mod_eq_of_lt hlt, min_eq_left h]
  · rw [min_eq_right (not_le.1 h).le]

/-- A factor that does not fit is the greatest number. -/
theorem toNat_checkedShl (n : UInt32) :
    ((checkedShl 1 n).getD maxU64).toNat = min (2 ^ n.toNat) maxU64.toNat := by
  unfold checkedShl
  split_ifs with h
  · have hn : n.toNat < 64 := h
    have hpow : 2 ^ n.toNat ≤ 2 ^ 63 := Nat.pow_le_pow_right (by decide) (by omega)
    have hmax : 2 ^ 63 ≤ maxU64.toNat := by decide
    rw [min_eq_left (hpow.trans hmax), Option.getD_some, UInt64.toNat_shiftLeft]
    simp only [UInt32.toNat_toUInt64, Nat.mod_eq_of_lt hn, UInt64.toNat_one, Nat.one_shiftLeft]
    exact Nat.mod_eq_of_lt (hpow.trans_lt (by decide))
  · have hn : 64 ≤ n.toNat := not_lt.1 h
    have hpow : 2 ^ 64 ≤ 2 ^ n.toNat := Nat.pow_le_pow_right (by decide) hn
    have hmax : maxU64.toNat ≤ 2 ^ 64 := by decide
    rw [min_eq_right (hmax.trans hpow), Option.getD_none]

/-! ## The policy -/

structure RetryPolicy where
  maxAttempts : UInt32
  baseDelay : Duration
  maxDelay : Duration

/-- What `retry` asks for, with operations that return a `T` or fail with an `E`. -/
inductive RetryRequest
  | op
  /-- `rng.gen_range(0..=ceiling)`. -/
  | genRange (ceiling : UInt64)
  | sleep (delay : Duration)

abbrev RetryAnswer (E T : Type) : RetryRequest → Type
  | .op => Except E T
  | .genRange ceiling => { n : UInt64 // n ≤ ceiling }
  | .sleep _ => Unit

abbrev RetryProg (E T : Type) := Prog RetryRequest (RetryAnswer E T)

namespace RetryPolicy

def cappedCeiling (self : RetryPolicy) (attempt : UInt32) : Duration :=
  let factor := (checkedShl 1 attempt).getD maxU64
  let baseMs := UInt64.ofNat self.baseDelay.asMillis
  let rawMs := saturatingMul baseMs factor
  let cappedMs := minU64 rawMs (UInt64.ofNat self.maxDelay.asMillis)
  .fromMillis cappedMs

def jitteredDelay {E T : Type} (self : RetryPolicy) (attempt : UInt32) : RetryProg E T Duration :=
  let ceilingMs := UInt64.ofNat (self.cappedCeiling attempt).asMillis
  if ceilingMs = 0 then .ret .zero
  else .ask (.genRange ceilingMs) fun jittered => .ret (.fromMillis jittered.1)

variable (policy : RetryPolicy)

/-- `min(base_delay * 2^attempt, max_delay)`, in whole milliseconds. -/
def exactMillis (attempt : ℕ) : ℕ :=
  min (policy.baseDelay.nanoseconds * 2 ^ attempt) policy.maxDelay.nanoseconds / 1000000

/-- What the ceiling is for: it is exact, and so it rises with the attempts, keeps to the cap and
bounds the delays. -/
structure CeilingExact (attempt : UInt32) : Prop where
  exact : (policy.cappedCeiling attempt).nanoseconds = policy.exactMillis attempt.toNat * 1000000
  rises : ∀ next : UInt32, attempt ≤ next →
    (policy.cappedCeiling attempt).nanoseconds ≤ (policy.cappedCeiling next).nanoseconds
  capped : (policy.cappedCeiling attempt).nanoseconds ≤ policy.maxDelay.nanoseconds
  jittered : ∀ (E T : Type) t delay,
    (policy.jitteredDelay attempt : RetryProg E T Duration).Runs t delay →
    delay.nanoseconds ≤ (policy.cappedCeiling attempt).nanoseconds

/-- No bits are cut off that count, and what the base delay has beyond whole milliseconds does not
grow to one before the cap. -/
def Fits (attempt : ℕ) : Prop :=
  if policy.maxDelay.asMillis < 2 ^ 64 then
    if policy.baseDelay.asMillis < 2 ^ 64 then
      policy.baseDelay.nanoseconds % 1000000 * 2 ^ attempt < 1000000 ∨
        policy.maxDelay.asMillis ≤ policy.baseDelay.asMillis * 2 ^ attempt
    else policy.maxDelay.asMillis ≤ policy.baseDelay.asMillis % 2 ^ 64 * 2 ^ attempt
  else
    policy.baseDelay.nanoseconds % 1000000 * 2 ^ attempt < 1000000 ∧
      policy.baseDelay.asMillis * 2 ^ attempt ≤ policy.maxDelay.asMillis % 2 ^ 64

variable {policy}

/-- Above the cap it does not matter that numbers saturate. -/
theorem min_saturated {b p cap greatest : ℕ} (hcap : cap ≤ greatest) :
    min (min (b * min p greatest) greatest) cap = min (b * p) cap := by
  rcases Nat.eq_zero_or_pos b with rfl | hb
  · simp
  rcases le_total p greatest with hp | hp
  · rw [min_eq_left hp, min_assoc, min_eq_right hcap]
  · have hsaturated : greatest ≤ b * greatest := Nat.le_mul_of_pos_left greatest hb
    have hexact : greatest ≤ b * p := hp.trans (Nat.le_mul_of_pos_left p hb)
    rw [min_eq_right hp, min_eq_right hsaturated, min_eq_right hcap,
      min_eq_right (hcap.trans hexact)]

/-- In milliseconds the ceiling is the product that is asked for, of what 64 bits keep of the base
delay and of the cap. -/
theorem asMillis_cappedCeiling (attempt : UInt32) :
    (policy.cappedCeiling attempt).asMillis =
      min (policy.baseDelay.asMillis % 2 ^ 64 * 2 ^ attempt.toNat)
        (policy.maxDelay.asMillis % 2 ^ 64) := by
  have hcap : (UInt64.ofNat policy.maxDelay.asMillis).toNat ≤ maxU64.toNat := toNat_le_maxU64 _
  rw [UInt64.toNat_ofNat'] at hcap
  unfold cappedCeiling
  rw [Duration.asMillis_fromMillis, toNat_minU64, toNat_saturatingMul, toNat_checkedShl,
    UInt64.toNat_ofNat', UInt64.toNat_ofNat', min_saturated hcap]

theorem nanoseconds_cappedCeiling (attempt : UInt32) :
    (policy.cappedCeiling attempt).nanoseconds =
      (policy.cappedCeiling attempt).asMillis * 1000000 := by
  unfold cappedCeiling
  rw [Duration.asMillis_fromMillis, Duration.nanoseconds_fromMillis]

theorem cappedCeiling_mono {attempt next : UInt32} (h : attempt ≤ next) :
    (policy.cappedCeiling attempt).nanoseconds ≤ (policy.cappedCeiling next).nanoseconds := by
  have hpow : 2 ^ attempt.toNat ≤ 2 ^ next.toNat := Nat.pow_le_pow_right (by decide) h
  rw [nanoseconds_cappedCeiling, nanoseconds_cappedCeiling, asMillis_cappedCeiling,
    asMillis_cappedCeiling]
  apply Nat.mul_le_mul_right
  exact min_le_min_right _ (Nat.mul_le_mul_left _ hpow)

theorem cappedCeiling_le (attempt : UInt32) :
    (policy.cappedCeiling attempt).nanoseconds ≤ policy.maxDelay.nanoseconds := by
  have hcap := policy.maxDelay.asMillis_eq
  have hmod := Nat.mod_le policy.maxDelay.asMillis (2 ^ 64)
  have hmin := min_le_right (policy.baseDelay.asMillis % 2 ^ 64 * 2 ^ attempt.toNat)
    (policy.maxDelay.asMillis % 2 ^ 64)
  rw [nanoseconds_cappedCeiling, asMillis_cappedCeiling]
  omega

theorem jitteredDelay_le {E T : Type} {attempt : UInt32} {t : List (Prog.Event _ _)}
    {delay : Duration} (h : (policy.jitteredDelay attempt : RetryProg E T Duration).Runs t delay) :
    delay.nanoseconds ≤ (policy.cappedCeiling attempt).nanoseconds := by
  unfold jitteredDelay at h
  dsimp only at h
  split_ifs at h
  · obtain ⟨-, rfl⟩ := h
    simp
  · obtain ⟨jittered, t', -, -, rfl⟩ := h
    have hle : jittered.1.toNat ≤ (UInt64.ofNat (policy.cappedCeiling attempt).asMillis).toNat :=
      jittered.2
    have hmod := Nat.mod_le (policy.cappedCeiling attempt).asMillis (2 ^ 64)
    rw [UInt64.toNat_ofNat'] at hle
    rw [Duration.nanoseconds_fromMillis, nanoseconds_cappedCeiling]
    omega

/-- The milliseconds that are asked for: the fraction of the base delay counts too. -/
theorem exactMillis_eq (attempt : ℕ) :
    policy.exactMillis attempt =
      min (policy.baseDelay.asMillis * 2 ^ attempt +
          policy.baseDelay.nanoseconds % 1000000 * 2 ^ attempt / 1000000)
        policy.maxDelay.asMillis := by
  have hsplit : policy.baseDelay.nanoseconds * 2 ^ attempt =
      policy.baseDelay.nanoseconds % 1000000 * 2 ^ attempt +
        1000000 * (policy.baseDelay.asMillis * 2 ^ attempt) := by
    rw [Duration.asMillis_eq, ← Nat.mul_assoc, ← Nat.add_mul, Nat.mod_add_div]
  rw [exactMillis, hsplit, policy.maxDelay.asMillis_eq]
  omega

theorem exactMillis_eq_iff (attempt : UInt32) :
    (policy.cappedCeiling attempt).asMillis = policy.exactMillis attempt.toNat ↔
      policy.Fits attempt.toNat := by
  rw [asMillis_cappedCeiling, exactMillis_eq]
  unfold Fits
  generalize policy.baseDelay.asMillis = b
  generalize policy.maxDelay.asMillis = m
  generalize policy.baseDelay.nanoseconds % 1000000 * 2 ^ attempt.toNat = r
  have hpos : 1 ≤ 2 ^ attempt.toNat := Nat.one_le_two_pow
  generalize 2 ^ attempt.toNat = p at hpos
  have hle : b ≤ b * p := Nat.le_mul_of_pos_right b hpos
  have hmod : b % 2 ^ 64 * p ≤ b * p := Nat.mul_le_mul_right p (Nat.mod_le b _)
  split_ifs with hm hb
  · rw [Nat.mod_eq_of_lt hm, Nat.mod_eq_of_lt hb]
    omega
  · rw [Nat.mod_eq_of_lt hm]
    omega
  · rcases Nat.lt_or_ge b (2 ^ 64) with hb | hb
    · rw [Nat.mod_eq_of_lt hb]
      omega
    · omega

/-- **When the ceiling is exact.** -/
theorem ceilingExact_iff (policy : RetryPolicy) (attempt : UInt32) :
    policy.CeilingExact attempt ↔ policy.Fits attempt.toNat := by
  rw [← exactMillis_eq_iff]
  constructor
  · intro h
    have hexact := h.exact
    rw [nanoseconds_cappedCeiling] at hexact
    omega
  · intro h
    exact {
      exact := by rw [nanoseconds_cappedCeiling, h]
      rises := fun _ => cappedCeiling_mono
      capped := cappedCeiling_le attempt
      jittered := fun _ _ _ _ => jitteredDelay_le }

theorem halfMilli_lt : 500000 < 1000000000 := by decide

/-- `Duration::from_micros(500)`. -/
def halfMilli : Duration := ⟨0, 500000, halfMilli_lt⟩

/-- Half a millisecond is doubled to one, and the ceiling is zero. -/
theorem not_ceilingExact_halfMilli : ¬ CeilingExact ⟨4, halfMilli, .fromMillis 2000⟩ 1 := by
  intro h
  exact absurd h.exact (by decide +kernel)

end RetryPolicy

end Resilience.Rust
