import Resilience.Foundations.Runs
import Mathlib.Algebra.Order.Ring.Rat
import Mathlib.Tactic.Linarith
import Mathlib.Tactic.NormNum

/-!
# The circuit breaker

`cubiczan_resilience/circuit.py`. Every method takes the breaker's lock, so a run of any number of
callers is a sequence of operations. Each comes with what it reads of the clock. Differences of
times are rounded by `fl`, which is `double` in Python; without it the methods are those on exact
numbers.

The gate depends on the fields only through the history: `allow` answers as the failures since the
last success, the time of the last failure and the calls admitted since say (`allow_iff_admits`).
-/

namespace Resilience.Python

/-- `CircuitState`; `opened` is `OPEN`. -/
inductive CircuitState
  | closed
  | opened
  | halfOpen
  deriving DecidableEq, Repr

theorem one_le_of_not_lt_one {n : ℤ} (h : ¬ n < 1) : 1 ≤ n := not_lt.1 h

/-- The parameters of a breaker. -/
structure BreakerParams where
  name : String
  failureThreshold : ℤ
  cooldownSeconds : ℚ
  halfOpenMaxCalls : ℤ
  failureThreshold_pos : 1 ≤ failureThreshold
  cooldownSeconds_nonneg : 0 ≤ cooldownSeconds
  halfOpenMaxCalls_pos : 1 ≤ halfOpenMaxCalls

/-- The checks of `__init__`. -/
def BreakerParams.create (name : String := "default") (failureThreshold : ℤ := 5)
    (cooldownSeconds : ℚ := 30) (halfOpenMaxCalls : ℤ := 1) : Except String BreakerParams :=
  if hf : failureThreshold < 1 then .error "failure_threshold must be >= 1"
  else if hc : cooldownSeconds < 0 then .error "cooldown_seconds must be >= 0"
  else if hm : halfOpenMaxCalls < 1 then .error "half_open_max_calls must be >= 1"
  else .ok ⟨name, failureThreshold, cooldownSeconds, halfOpenMaxCalls, one_le_of_not_lt_one hf,
    not_lt.1 hc, one_le_of_not_lt_one hm⟩

/-- The fields of a breaker that change. -/
structure CircuitBreaker where
  state : CircuitState := .closed
  failureCount : ℕ := 0
  openedAt : Option ℚ := none
  halfOpenCalls : ℕ := 0
  deriving DecidableEq, Repr

namespace CircuitBreaker

section Rounded

variable (p : BreakerParams) (fl : ℚ → ℚ) (b : CircuitBreaker) (now : ℚ)

def maybeHalfOpenIn : CircuitBreaker :=
  match b.state, b.openedAt with
  | .opened, some openedAt =>
    if p.cooldownSeconds ≤ fl (now - openedAt) then
      { b with state := .halfOpen, halfOpenCalls := 0 }
    else b
  | _, _ => b

/-- The answer, and the breaker with the slot reserved. -/
def allowIn : Bool × CircuitBreaker :=
  let b := b.maybeHalfOpenIn p fl now
  match b.state with
  | .opened => (false, b)
  | .halfOpen =>
    if p.halfOpenMaxCalls ≤ b.halfOpenCalls then (false, b)
    else (true, { b with halfOpenCalls := b.halfOpenCalls + 1 })
  | .closed => (true, b)

/-- It reads the clock twice. -/
def retryAfterIn (later : ℚ) : ℚ × CircuitBreaker :=
  let b := b.maybeHalfOpenIn p fl now
  match b.state, b.openedAt with
  | .opened, some openedAt => (max 0 (fl (p.cooldownSeconds - fl (later - openedAt))), b)
  | _, _ => (0, b)

end Rounded

variable (p : BreakerParams) (b : CircuitBreaker) (now : ℚ)

def maybeHalfOpen : CircuitBreaker := b.maybeHalfOpenIn p id now

def allow : Bool × CircuitBreaker := b.allowIn p id now

def retryAfter (later : ℚ) : ℚ × CircuitBreaker := b.retryAfterIn p id now later

def recordSuccess (b : CircuitBreaker) : CircuitBreaker :=
  { b with state := .closed, failureCount := 0, openedAt := none, halfOpenCalls := 0 }

def tripOpen : CircuitBreaker :=
  { b with state := .opened, openedAt := some now, halfOpenCalls := 0 }

def recordFailure : CircuitBreaker :=
  if b.state = .halfOpen then b.tripOpen now
  else
    let b := { b with failureCount := b.failureCount + 1 }
    if p.failureThreshold ≤ b.failureCount then b.tripOpen now else b

def reset (b : CircuitBreaker) : CircuitBreaker :=
  { b with state := .closed, failureCount := 0, openedAt := none, halfOpenCalls := 0 }

variable {p b now}

theorem maybeHalfOpen_of_ne (h : b.state ≠ .opened) : b.maybeHalfOpen p now = b := by
  unfold maybeHalfOpen maybeHalfOpenIn
  split
  · exact absurd ‹_› h
  · rfl

theorem maybeHalfOpen_of_le {openedAt : ℚ} (h : b.state = .opened)
    (hat : b.openedAt = some openedAt)
    (hle : p.cooldownSeconds ≤ now - openedAt) :
    b.maybeHalfOpen p now = { b with state := .halfOpen, halfOpenCalls := 0 } := by
  rw [maybeHalfOpen, maybeHalfOpenIn, h, hat]
  exact if_pos hle

theorem maybeHalfOpen_of_lt {openedAt : ℚ} (h : b.state = .opened)
    (hat : b.openedAt = some openedAt)
    (hlt : now - openedAt < p.cooldownSeconds) : b.maybeHalfOpen p now = b := by
  rw [maybeHalfOpen, maybeHalfOpenIn, h, hat]
  exact if_neg (not_le.2 hlt)

theorem maybeHalfOpen_cases (p : BreakerParams) (b : CircuitBreaker) (now : ℚ) :
    b.maybeHalfOpen p now = b ∨
      ∃ openedAt, b.state = .opened ∧ b.openedAt = some openedAt ∧
        p.cooldownSeconds ≤ now - openedAt ∧
        b.maybeHalfOpen p now = { b with state := .halfOpen, halfOpenCalls := 0 } := by
  unfold maybeHalfOpen maybeHalfOpenIn
  split
  · rename_i openedAt hstate hat
    split_ifs with hle
    · exact .inr ⟨openedAt, hstate, hat, hle, rfl⟩
    · exact .inl rfl
  · exact .inl rfl

theorem allow_eq (p : BreakerParams) (b : CircuitBreaker) (now : ℚ) : b.allow p now =
    match (b.maybeHalfOpen p now).state with
    | .opened => (false, b.maybeHalfOpen p now)
    | .halfOpen =>
      if p.halfOpenMaxCalls ≤ (b.maybeHalfOpen p now).halfOpenCalls then
        (false, b.maybeHalfOpen p now)
      else
        (true, { b.maybeHalfOpen p now with
          halfOpenCalls := (b.maybeHalfOpen p now).halfOpenCalls + 1 })
    | .closed => (true, b.maybeHalfOpen p now) := rfl

theorem retryAfter_eq (p : BreakerParams) (b : CircuitBreaker) (now later : ℚ) :
    b.retryAfter p now later =
      match (b.maybeHalfOpen p now).state, (b.maybeHalfOpen p now).openedAt with
      | .opened, some openedAt =>
        (max 0 (p.cooldownSeconds - (later - openedAt)), b.maybeHalfOpen p now)
      | _, _ => (0, b.maybeHalfOpen p now) := rfl

/-- The ways `allow` can go, after the step to half open that the clock asks for. -/
theorem allow_cases (p : BreakerParams) (b : CircuitBreaker) (now : ℚ) :
    ((b.maybeHalfOpen p now).state = .halfOpen →
        p.halfOpenMaxCalls ≤ (b.maybeHalfOpen p now).halfOpenCalls) ∧
        b.allow p now = (false, b.maybeHalfOpen p now) ∨
      (b.maybeHalfOpen p now).state = .closed ∧ b.allow p now = (true, b.maybeHalfOpen p now) ∨
      (b.maybeHalfOpen p now).state = .halfOpen ∧
        ((b.maybeHalfOpen p now).halfOpenCalls : ℤ) < p.halfOpenMaxCalls ∧
        b.allow p now = (true, { b.maybeHalfOpen p now with
          halfOpenCalls := (b.maybeHalfOpen p now).halfOpenCalls + 1 }) := by
  rw [allow_eq]
  cases hstate : (b.maybeHalfOpen p now).state with
  | closed => exact .inr (.inl ⟨rfl, rfl⟩)
  | opened => exact .inl ⟨by rintro ⟨⟩, rfl⟩
  | halfOpen =>
    dsimp only
    split_ifs with hfull
    · exact .inl ⟨fun _ => hfull, rfl⟩
    · exact .inr (.inr ⟨rfl, not_le.1 hfull, rfl⟩)

@[simp] theorem allow_state (p : BreakerParams) (b : CircuitBreaker) (now : ℚ) :
    (b.allow p now).2.state = (b.maybeHalfOpen p now).state := by
  rcases allow_cases p b now with ⟨-, h⟩ | ⟨-, h⟩ | ⟨-, -, h⟩ <;> rw [h]

@[simp] theorem allow_openedAt (p : BreakerParams) (b : CircuitBreaker) (now : ℚ) :
    (b.allow p now).2.openedAt = (b.maybeHalfOpen p now).openedAt := by
  rcases allow_cases p b now with ⟨-, h⟩ | ⟨-, h⟩ | ⟨-, -, h⟩ <;> rw [h]

theorem recordFailure_cases (p : BreakerParams) (b : CircuitBreaker) (now : ℚ) :
    b.recordFailure p now = b.tripOpen now ∨
      b.recordFailure p now = { b.tripOpen now with failureCount := b.failureCount + 1 } ∨
      b.state ≠ .halfOpen ∧
        b.recordFailure p now = { b with failureCount := b.failureCount + 1 } := by
  unfold recordFailure
  dsimp only
  split_ifs with hhalf hle
  · exact .inl rfl
  · exact .inr (.inl rfl)
  · exact .inr (.inr ⟨hhalf, rfl⟩)

end CircuitBreaker

/-! ## The history -/

/-- What the gate depends on; the latest comes first in a history. -/
inductive GateEvent
  | allow (admitted : Bool)
  | success
  | failure (time : ℚ)
  | reset

/-- The failures recorded since the last success or reset. -/
def failures : List GateEvent → ℕ
  | [] => 0
  | .success :: _ | .reset :: _ => 0
  | .failure _ :: h => failures h + 1
  | .allow _ :: h => failures h

/-- The time of the last recorded failure. -/
def lastFailure : List GateEvent → Option ℚ
  | [] => none
  | .failure t :: _ => some t
  | _ :: h => lastFailure h

/-- The calls admitted since the last recorded failure. -/
def admitted : List GateEvent → ℕ
  | [] => 0
  | .failure _ :: _ => 0
  | .allow true :: h => admitted h + 1
  | _ :: h => admitted h

/-- Who is admitted, in terms of the history. -/
def Admits (p : BreakerParams) (h : List GateEvent) (now : ℚ) : Prop :=
  failures h < p.failureThreshold ∨
    ∃ t, lastFailure h = some t ∧ p.cooldownSeconds ≤ now - t ∧ admitted h < p.halfOpenMaxCalls

/-- A breaker whose fields say what the history says. -/
inductive Reflects (p : BreakerParams) (h : List GateEvent) (now : ℚ) (b : CircuitBreaker) : Prop
  | closed (hstate : b.state = .closed) (hcount : b.failureCount = failures h)
    (hlt : failures h < p.failureThreshold)
  | opened {t} (hstate : b.state = .opened) (hcount : p.failureThreshold ≤ b.failureCount)
    (hfailures : p.failureThreshold ≤ failures h) (hlast : lastFailure h = some t)
    (hat : b.openedAt = some t) (hnone : admitted h = 0)
  | halfOpen {t} (hstate : b.state = .halfOpen) (hcount : p.failureThreshold ≤ b.failureCount)
    (hfailures : p.failureThreshold ≤ failures h) (hlast : lastFailure h = some t)
    (helapsed : p.cooldownSeconds ≤ now - t) (hcalls : b.halfOpenCalls = admitted h)

section Reflects

variable {p : BreakerParams} {h : List GateEvent} {now later : ℚ} {b : CircuitBreaker}

theorem Reflects.mono (hb : Reflects p h now b) (hle : now ≤ later) : Reflects p h later b := by
  cases hb with
  | closed hstate hcount hlt => exact .closed hstate hcount hlt
  | opened hstate hcount hfailures hlast hat hnone =>
    exact .opened hstate hcount hfailures hlast hat hnone
  | halfOpen hstate hcount hfailures hlast helapsed hcalls =>
    exact .halfOpen hstate hcount hfailures hlast (by linarith) hcalls

theorem Reflects.exists_lastFailure (hb : Reflects p h now b)
    (hfailures : p.failureThreshold ≤ failures h) : ∃ t, lastFailure h = some t := by
  cases hb with
  | closed _ _ hlt => exact absurd hfailures (not_le.2 hlt)
  | opened _ _ _ hlast => exact ⟨_, hlast⟩
  | halfOpen _ _ _ hlast => exact ⟨_, hlast⟩

theorem reflects_maybeHalfOpen (hb : Reflects p h now b) :
    Reflects p h now (b.maybeHalfOpen p now) := by
  cases hb with
  | closed hstate hcount hlt =>
    rw [CircuitBreaker.maybeHalfOpen_of_ne (by simp [hstate])]
    exact .closed hstate hcount hlt
  | @opened t hstate hcount hfailures hlast hat hnone =>
    rcases le_or_gt p.cooldownSeconds (now - t) with hle | hlt
    · rw [CircuitBreaker.maybeHalfOpen_of_le hstate hat hle]
      exact .halfOpen rfl hcount hfailures hlast hle hnone.symm
    · rw [CircuitBreaker.maybeHalfOpen_of_lt hstate hat hlt]
      exact .opened hstate hcount hfailures hlast hat hnone
  | halfOpen hstate hcount hfailures hlast helapsed hcalls =>
    rw [CircuitBreaker.maybeHalfOpen_of_ne (by simp [hstate])]
    exact .halfOpen hstate hcount hfailures hlast helapsed hcalls

/-- It is open only while the cooldown has not elapsed. -/
theorem reflects_opened (hb : Reflects p h now b)
    (hstate : (b.maybeHalfOpen p now).state = .opened) :
    ∃ t, lastFailure h = some t ∧ now - t < p.cooldownSeconds ∧
      p.failureThreshold ≤ failures h := by
  cases hb with
  | closed hclosed =>
    rw [CircuitBreaker.maybeHalfOpen_of_ne (by simp [hclosed]), hclosed] at hstate
    cases hstate
  | @opened t hopened hcount hfailures hlast hat =>
    refine ⟨t, hlast, ?_, hfailures⟩
    by_contra hle
    rw [CircuitBreaker.maybeHalfOpen_of_le hopened hat (not_lt.1 hle)] at hstate
    cases hstate
  | halfOpen hhalf =>
    rw [CircuitBreaker.maybeHalfOpen_of_ne (by simp [hhalf]), hhalf] at hstate
    cases hstate

/-- **One call of `allow`**: it answers what the history says, and the fields follow. -/
theorem reflects_allow (hb : Reflects p h now b) :
    ((b.allow p now).1 = true ↔ Admits p h now) ∧
      Reflects p (.allow (b.allow p now).1 :: h) now (b.allow p now).2 := by
  have hopened := reflects_opened hb
  rw [CircuitBreaker.allow_eq]
  cases reflects_maybeHalfOpen hb with
  | closed hstate hcount hlt =>
    simp only [hstate]
    exact ⟨iff_of_true trivial (.inl hlt), .closed hstate hcount hlt⟩
  | opened hstate hcount hfailures hlast hat hnone =>
    obtain ⟨t, hlast', helapsed, -⟩ := hopened hstate
    simp only [hstate]
    refine ⟨iff_of_false Bool.false_ne_true ?_, .opened hstate hcount hfailures hlast hat hnone⟩
    rintro (hlt | ⟨t', ht', hle, -⟩)
    · exact absurd hlt (not_lt.2 hfailures)
    · rw [hlast', Option.some.injEq] at ht'
      exact absurd hle (ht' ▸ not_le.2 helapsed)
  | @halfOpen t hstate hcount hfailures hlast helapsed hcalls =>
    simp only [hstate]
    split_ifs with hfull
    · refine ⟨iff_of_false id ?_,
        .halfOpen hstate hcount hfailures hlast helapsed hcalls⟩
      rintro (hlt | ⟨-, -, -, hcap⟩)
      · exact absurd hlt (not_lt.2 hfailures)
      · rw [hcalls] at hfull
        exact absurd hcap (not_lt.2 hfull)
    · rw [hcalls] at hfull
      exact ⟨iff_of_true rfl (.inr ⟨t, hlast, helapsed, not_le.1 hfull⟩),
        .halfOpen rfl hcount hfailures hlast helapsed (congrArg (· + 1) hcalls)⟩

theorem reflects_recordFailure (hb : Reflects p h now b) :
    Reflects p (.failure now :: h) now (b.recordFailure p now) := by
  unfold CircuitBreaker.recordFailure
  cases hb with
  | closed hstate hcount hlt =>
    rw [if_neg (by simp [hstate])]
    have hcount' : b.failureCount + 1 = failures (.failure now :: h) := congrArg (· + 1) hcount
    dsimp only
    split_ifs with hle
    · exact .opened rfl hle (by rwa [← hcount']) rfl rfl rfl
    · refine .closed hstate hcount' ?_
      rw [← hcount']
      exact not_le.1 hle
  | opened hstate hcount hfailures =>
    have hle : p.failureThreshold ≤ ((b.failureCount + 1 : ℕ) : ℤ) := by omega
    have hle' : p.failureThreshold ≤ failures (.failure now :: h) := by
      rw [failures]
      omega
    rw [if_neg (by simp [hstate])]
    dsimp only
    rw [if_pos hle]
    exact .opened rfl hle hle' rfl rfl rfl
  | halfOpen hstate hcount hfailures =>
    have hle' : p.failureThreshold ≤ failures (.failure now :: h) := by
      rw [failures]
      omega
    rw [if_pos hstate]
    exact .opened rfl hcount hle' rfl rfl rfl

end Reflects

/-! ## Runs of operations -/

/-- A call of a method, with what it reads of the clock. -/
inductive GateOp
  | allow (now : ℚ)
  | recordSuccess (now : ℚ)
  | recordFailure (now : ℚ)
  | reset (now : ℚ)
  | state (now : ℚ)
  | retryAfter (now later : ℚ)

/-- The readings of the clock, in order. -/
def GateOp.readings : GateOp → List ℚ
  | .allow now | .recordSuccess now | .recordFailure now | .reset now | .state now => [now]
  | .retryAfter now later => [now, later]

/-- The last reading. -/
def GateOp.time : GateOp → ℚ
  | .allow now | .recordSuccess now | .recordFailure now | .reset now | .state now => now
  | .retryAfter _ later => later

theorem GateOp.time_mem_readings (op : GateOp) : op.time ∈ op.readings := by
  cases op <;> simp [time, readings]

/-- A breaker and its history. -/
structure Gate where
  breaker : CircuitBreaker
  history : List GateEvent

namespace Gate

variable (p : BreakerParams)

def init : Gate := ⟨{}, []⟩

/-- Numbers are rounded by `fl`. -/
def stepIn (fl : ℚ → ℚ) (g : Gate) : GateOp → Gate
  | .allow now =>
    let (admitted, b) := g.breaker.allowIn p fl now
    ⟨b, .allow admitted :: g.history⟩
  | .recordSuccess _ => ⟨g.breaker.recordSuccess, .success :: g.history⟩
  | .recordFailure now => ⟨g.breaker.recordFailure p now, .failure now :: g.history⟩
  | .reset _ => ⟨g.breaker.reset, .reset :: g.history⟩
  | .state now => { g with breaker := g.breaker.maybeHalfOpenIn p fl now }
  | .retryAfter now later => { g with breaker := (g.breaker.retryAfterIn p fl now later).2 }

def step (g : Gate) (op : GateOp) : Gate := g.stepIn p id op

@[simp] theorem step_allow (g : Gate) (now : ℚ) : g.step p (.allow now) =
    ⟨(g.breaker.allow p now).2, .allow (g.breaker.allow p now).1 :: g.history⟩ := rfl

@[simp] theorem step_recordSuccess (g : Gate) (now : ℚ) :
    g.step p (.recordSuccess now) = ⟨g.breaker.recordSuccess, .success :: g.history⟩ := rfl

@[simp] theorem step_reset (g : Gate) (now : ℚ) :
    g.step p (.reset now) = ⟨g.breaker.reset, .reset :: g.history⟩ := rfl

@[simp] theorem step_state (g : Gate) (now : ℚ) :
    g.step p (.state now) = { g with breaker := g.breaker.maybeHalfOpen p now } := rfl

@[simp] theorem step_retryAfter (g : Gate) (now later : ℚ) : g.step p (.retryAfter now later) =
    { g with breaker := (g.breaker.retryAfter p now later).2 } := rfl

variable {p}

theorem reflects_init (now : ℚ) : Reflects p init.history now init.breaker :=
  .closed rfl rfl (by have := p.failureThreshold_pos; simp [init, failures]; omega)

theorem reflects_recordSuccess (h : List GateEvent) (now : ℚ) (b : CircuitBreaker) :
    Reflects p (.success :: h) now b.recordSuccess := by
  have hpos := p.failureThreshold_pos
  exact .closed rfl rfl (by simp only [failures]; omega)

theorem reflects_reset (h : List GateEvent) (now : ℚ) (b : CircuitBreaker) :
    Reflects p (.reset :: h) now b.reset := by
  have hpos := p.failureThreshold_pos
  exact .closed rfl rfl (by simp only [failures]; omega)

theorem retryAfter_snd (b : CircuitBreaker) (now later : ℚ) :
    (b.retryAfter p now later).2 = b.maybeHalfOpen p now := by
  rw [CircuitBreaker.retryAfter_eq]
  split <;> rfl

/-- One operation, with readings of the clock that do not decrease. -/
theorem reflects_step {g : Gate} {now : ℚ} (h : Reflects p g.history now g.breaker) (op : GateOp)
    (hclock : (now :: op.readings).Pairwise (· ≤ ·)) :
    Reflects p (g.step p op).history op.time (g.step p op).breaker := by
  obtain ⟨hnow, hreadings⟩ := List.pairwise_cons.1 hclock
  cases op with
  | allow t => exact (reflects_allow (h.mono (hnow t (List.mem_singleton_self t)))).2
  | recordSuccess t => exact reflects_recordSuccess g.history t g.breaker
  | recordFailure t => exact reflects_recordFailure (h.mono (hnow t (List.mem_singleton_self t)))
  | reset t => exact reflects_reset g.history t g.breaker
  | state t => exact reflects_maybeHalfOpen (h.mono (hnow t (List.mem_singleton_self t)))
  | retryAfter t later =>
    have hle : t ≤ later := (List.pairwise_cons.1 hreadings).1 later (List.mem_singleton_self later)
    rw [step_retryAfter, retryAfter_snd]
    exact (reflects_maybeHalfOpen (h.mono (hnow t (List.mem_cons_self ..)))).mono hle

theorem reflects_run {g : Gate} {now later : ℚ} (h : Reflects p g.history now g.breaker)
    {ops : List GateOp}
    (hclock : (now :: (ops.flatMap GateOp.readings ++ [later])).Pairwise (· ≤ ·)) :
    Reflects p (Runs.run (step p) g ops).history later (Runs.run (step p) g ops).breaker := by
  induction ops generalizing g now with
  | nil => exact h.mono ((List.pairwise_cons.1 hclock).1 later (List.mem_singleton_self later))
  | cons op ops ih =>
    rw [List.flatMap_cons, List.append_assoc, ← List.cons_append, List.pairwise_append] at hclock
    obtain ⟨hop, hrest, hbefore⟩ := hclock
    have htime := List.mem_cons_of_mem now op.time_mem_readings
    exact ih (reflects_step h op hop) (List.pairwise_cons.2 ⟨hbefore op.time htime, hrest⟩)

/-- **The gate equals its history specification.** After any run of operations, with readings of
the clock that do not decrease, `allow` admits a call exactly when the history does. -/
theorem allow_iff_admits (p : BreakerParams) (ops : List GateOp) (now : ℚ)
    (hclock : (ops.flatMap GateOp.readings ++ [now]).Pairwise (· ≤ ·)) :
    ((Runs.run (step p) init ops).breaker.allow p now).1 = true ↔
      Admits p (Runs.run (step p) init ops).history now := by
  obtain ⟨first, hfirst⟩ := Runs.exists_pairwise_cons hclock
  exact (reflects_allow (reflects_run (reflects_init first) hfirst)).1

/-- The second trial, after the first one was admitted. -/
theorem allow_iff_admits_second_trial :
    let ops : List GateOp := [.allow 0, .recordFailure 1, .allow 5, .allow 31]
    ∃ p, BreakerParams.create "api" 1 30 1 = .ok p ∧
      (((Runs.run (step p) init ops).breaker.allow p 32).1 = true ↔
        Admits p (Runs.run (step p) init ops).history 32) := by
  intro ops
  refine ⟨⟨"api", 1, 30, 1, le_rfl, by norm_num, le_rfl⟩, rfl, ?_⟩
  exact allow_iff_admits _ ops 32 (by simp [ops, GateOp.readings]; norm_num)

end Gate

end Resilience.Python
