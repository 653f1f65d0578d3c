import Resilience.Retry.Ports

/-!
# The ports retry alike

One operation is retried in Rust, in TypeScript and by the two drivers in Python, under the same
options: at most so many calls, a classifier of errors, and delays that double up to a cap. All four
make the same calls, have the same result and pause no longer than the delays permit
(`retries_agree`).
-/

namespace Resilience.Retry

open Json Retrying

/-- The options, in whole milliseconds that are exact in every port, and the outcomes of the calls.
With more calls, `2.0 ** attempt` overflows in Python. -/
structure Scenario (E V : Type) where
  limit : ℕ
  base : ℕ
  cap : ℕ
  retryable : E → Bool
  outcomes : ℕ → Except E V
  one_le_limit : 1 ≤ limit
  limit_le : limit ≤ 1024
  base_lt : base < 2 ^ 53
  cap_lt : cap < 2 ^ 53

variable {E V : Type}

namespace Scenario

variable (s : Scenario E V)

def terms : Terms E := .backoff s.limit s.retryable s.base s.cap

def rust : Rust.RetryPolicy where
  maxAttempts := .ofNat s.limit
  baseDelay := .fromMillis (.ofNat s.base)
  maxDelay := .fromMillis (.ofNat s.cap)

/-- The options in TypeScript; `others` says which of the other callbacks are given. -/
def typescript (others : TypeScript.RetryCall) : TypeScript.RetryCall where
  maxAttempts := some (.finite s.limit)
  baseDelayMs := some (.finite s.base)
  maxDelayMs := some (.finite s.cap)
  shouldRetry := true
  onRetry := others.onRetry
  sleep := others.sleep
  random := others.random
  signal := others.signal

/-- What `shouldRetry` returns. -/
def shouldRetry : TypeScript.Thrown E → Bool
  | .other e => s.retryable e
  | _ => false

theorem seconds_nonneg (ms : ℕ) : (0 : ℚ) ≤ ms / 1000 := div_nonneg ms.cast_nonneg (by norm_num)

theorem one_le_natCast_limit : (1 : ℤ) ≤ s.limit := by exact_mod_cast s.one_le_limit

/-- The policy in Python: the deadline, and what `is_retryable` looks at, are `others`. -/
def python (others : Python.RetryPolicy) : Python.RetryPolicy where
  timeout := others.timeout
  maxAttempts := s.limit
  baseDelay := s.base / 1000
  maxDelay := s.cap / 1000
  multiplier := 2
  retryableExceptions := others.retryableExceptions
  retryableStatus := others.retryableStatus
  circuitBreaker := none
  timeout_pos := others.timeout_pos
  maxAttempts_pos := s.one_le_natCast_limit
  baseDelay_nonneg := seconds_nonneg s.base
  maxDelay_nonneg := seconds_nonneg s.cap
  multiplier_ge := one_le_two

/-- The outcome number `n` is the first that ends the loop. -/
def Ends (n : ℕ) : Prop := IsLeast { k | 1 ≤ k ∧ EndsAt s.terms s.outcomes k } n

/-- So many calls are made, with pauses as long as they may be. -/
structure Made {E' : Type} (n : ℕ) (acts : List (Act E' V)) : Prop where
  calls : (Retrying.calls acts).length = n
  paused_nonneg : 0 ≤ paused acts
  paused_le : paused acts ≤ ∑ i ∈ Finset.range (n - 1), min (s.base * 2 ^ i : ℚ) s.cap

variable {s}

/-- A loop with errors by another name makes the calls up to the first outcome that ends it. -/
theorem made_of_loop {E' : Type} {terms : Terms E'} {f : E → E'} (hlimit : terms.limit = s.limit)
    (hretryable : ∀ e, terms.retryable (f e) = s.retryable e)
    (hceiling : ∀ j, 1 ≤ j → j < terms.limit →
      terms.ceiling j ≤ min (s.base * 2 ^ (j - 1) : ℚ) s.cap)
    {acts : List (Act E' V)} {r : Except E' V} (h : Loop terms 1 acts r)
    (hanswered : Answered (fun k => (s.outcomes k).mapError f) 1 acts) :
    ∃ n, s.Ends n ∧ s.Made n acts ∧ r = (s.outcomes n).mapError f := by
  obtain ⟨n, hn, hleast, hr⟩ := h.ends hanswered
  have hends (k : ℕ) : EndsAt terms (fun k => (s.outcomes k).mapError f) k ↔
      EndsAt s.terms s.outcomes k := endsAt_mapError hlimit hretryable
  simp only [hends] at hleast
  obtain ⟨hnonneg, hle⟩ := (h.mono hceiling).paused_le
  have hcalls : (Retrying.calls acts).length = n := by omega
  refine ⟨n, hleast, ⟨hcalls, hnonneg, ?_⟩, hr⟩
  simpa only [hcalls, Nat.add_sub_cancel_left] using hle

theorem ceiling_rust {j : ℕ} (hj : j < s.limit) :
    (s.rust.terms s.retryable).ceiling j ≤ min (s.base * 2 ^ (j - 1) : ℚ) s.cap := by
  have hindex : (UInt32.ofNat (j - 1)).toNat = j - 1 :=
    UInt32.toNat_ofNat_of_lt' (by have := s.limit_le; rw [UInt32.size]; omega)
  have hbase : (UInt64.ofNat s.base).toNat = s.base :=
    UInt64.toNat_ofNat_of_lt' (s.base_lt.trans (by norm_num [UInt64.size]))
  have hcap : (UInt64.ofNat s.cap).toNat = s.cap :=
    UInt64.toNat_ofNat_of_lt' (s.cap_lt.trans (by norm_num [UInt64.size]))
  have hmillis : (s.rust.cappedCeiling (.ofNat (j - 1))).asMillis =
      min (s.base * 2 ^ (j - 1)) s.cap := by
    rw [Rust.RetryPolicy.asMillis_cappedCeiling, rust, Rust.Duration.asMillis_fromMillis,
      Rust.Duration.asMillis_fromMillis, hbase, hcap, hindex,
      Nat.mod_eq_of_lt (s.base_lt.trans (by norm_num)),
      Nat.mod_eq_of_lt (s.cap_lt.trans (by norm_num))]
  unfold Rust.RetryPolicy.terms
  dsimp only
  rw [Rust.RetryPolicy.nanoseconds_cappedCeiling, hmillis]
  push_cast
  rw [mul_div_cancel_right₀ _ (by norm_num)]

theorem ceiling_python (others : Python.RetryPolicy) (j : ℕ) :
    (s.python others).terms.ceiling j = min (s.base * 2 ^ (j - 1) : ℚ) s.cap := by
  rw [Python.RetryPolicy.terms, python]
  dsimp only
  rw [min_mul_of_nonneg _ _ (by norm_num)]
  congr 1 <;> ring

/-! ## Runs -/

variable (s)

/-- A run of `retry` in Rust, in which the calls have the outcomes of the scenario. -/
structure RustRun (build : Overflow.Build) (t : Rust.RetryTrace E V)
    (r : Except Rust.Halt (Except (Rust.ResilienceError E) V)) : Prop where
  runs : (Rust.retry build s.rust fun _ => s.retryable).run.Runs t r
  answered : Answered s.outcomes 1 (t.filterMap Rust.shown)

/-- A run of `retry` in TypeScript, with callbacks that do not disturb it. -/
structure TypeScriptRun (others : TypeScript.RetryCall) (numberText : Number → Units) (fuel : ℕ)
    (t : List (TypeScript.RetryEvent E V)) (r : Except (TypeScript.Thrown E) (Option V)) :
    Prop where
  enough : s.limit ≤ fuel
  runs : (TypeScript.retry (TypeScript.callbackRuntime numberText) (s.typescript others).options
    TypeScript.callFunction fuel).run.Runs t r
  civil : ∀ ev ∈ t, TypeScript.Civil s.shouldRetry ev
  answered : Answered (fun k => (s.outcomes k).mapError .other) 1 (t.filterMap TypeScript.shown)

/-- A run of a driver in Python that meets its deadlines, where errors are raised as exceptions
that `is_retryable` classifies alike. -/
structure PythonRun (others : Python.RetryPolicy) (exc : E → Python.PyException)
    (driver : Python.RetryPolicy → Python.Driver V V)
    (t : List (Prog.Event Python.Request (Python.Reply V))) (r : Except Python.Raised V) :
    Prop where
  classified : ∀ e, (s.python others).isRetryable (exc e) = s.retryable e
  runs : (driver (s.python others)).run.Runs t r
  intime : Python.InTime others.timeout t
  answered : Answered (fun k => (s.outcomes k).mapError exc) 1 (t.filterMap Python.shown)

variable {s} {n : ℕ}

theorem RustRun.made {build : Overflow.Build} {t : Rust.RetryTrace E V}
    {r : Except Rust.Halt (Except (Rust.ResilienceError E) V)} (h : s.RustRun build t r) :
    ∃ n, s.Ends n ∧ s.Made n (t.filterMap Rust.shown) ∧
      r = .ok ((s.outcomes n).mapError (Rust.lastError s.rust s.retryable)) := by
  obtain ⟨r', hloop, rfl⟩ := Rust.loop_of_runs_retry h.runs
  have hlimit : (s.rust.terms s.retryable).limit = s.limit := by
    have hmax : (UInt32.ofNat s.limit).toNat = s.limit :=
      UInt32.toNat_ofNat_of_lt' (s.limit_le.trans_lt (by norm_num [UInt32.size]))
    rw [Rust.RetryPolicy.terms, Rust.toNat_attemptLimit, rust, hmax, max_eq_left s.one_le_limit]
  -- the errors keep their names
  have hid (k : ℕ) : (s.outcomes k).mapError id = s.outcomes k := by cases s.outcomes k <;> rfl
  have hanswered : Answered (fun k => (s.outcomes k).mapError id) 1 (t.filterMap Rust.shown) := by
    simpa only [hid] using h.answered
  obtain ⟨n, hends, hmade, rfl⟩ := made_of_loop (f := id) hlimit (fun _ => rfl)
    (fun j _ hj => ceiling_rust (hlimit ▸ hj)) hloop hanswered
  exact ⟨n, hends, hmade, by rw [hid]⟩

theorem TypeScriptRun.made {others : TypeScript.RetryCall} {numberText : Number → Units} {fuel : ℕ}
    {t : List (TypeScript.RetryEvent E V)} {r : Except (TypeScript.Thrown E) (Option V)}
    (h : s.TypeScriptRun others numberText fuel t r) :
    ∃ n, s.Ends n ∧ s.Made n (t.filterMap TypeScript.shown) ∧
      r = (((s.outcomes n).mapError .other).mapError fun e => .resilienceError
        (TypeScript.afterLoop (TypeScript.callbackRuntime numberText)
          ((s.typescript others).options (T := V)) e)).map some := by
  have hsets : (s.typescript others).Sets s.limit s.base s.cap := ⟨rfl, rfl, rfl, rfl⟩
  obtain ⟨r', hloop, rfl⟩ := TypeScript.loop_of_runs_retry hsets s.one_le_limit s.base.cast_nonneg
    s.cap.cast_nonneg h.enough h.runs h.civil
  obtain ⟨n, hends, hmade, rfl⟩ := made_of_loop rfl (fun _ => rfl) (fun j _ _ => le_rfl) hloop
    h.answered
  exact ⟨n, hends, hmade, rfl⟩

theorem PythonRun.made {others : Python.RetryPolicy} {exc : E → Python.PyException}
    {driver : Python.RetryPolicy → Python.Driver V V}
    {t : List (Prog.Event Python.Request (Python.Reply V))} {r : Except Python.Raised V}
    (hdriver : ∃ r', Loop (s.python others).terms 1 (t.filterMap Python.shown) r' ∧
      r = r'.mapError .exc) (h : s.PythonRun others exc driver t r) :
    ∃ n, s.Ends n ∧ s.Made n (t.filterMap Python.shown) ∧
      r = ((s.outcomes n).mapError exc).mapError .exc := by
  obtain ⟨r', hloop, rfl⟩ := hdriver
  obtain ⟨n, hends, hmade, rfl⟩ := made_of_loop rfl h.classified
    (fun j _ _ => (ceiling_python others j).le) hloop h.answered
  exact ⟨n, hends, hmade, rfl⟩

/-- **The retry loops of the ports agree.** Each makes the calls up to the first outcome that ends
the loop and no others, returns that outcome, and pauses between the calls for no longer than
doubling delays up to the cap. -/
theorem retries_agree {build : Overflow.Build} {others : TypeScript.RetryCall}
    {numberText : Number → Units} {fuel : ℕ} {policy policy' : Python.RetryPolicy}
    {exc exc' : E → Python.PyException} {t₁ : Rust.RetryTrace E V}
    {r₁ : Except Rust.Halt (Except (Rust.ResilienceError E) V)}
    {t₂ : List (TypeScript.RetryEvent E V)} {r₂ : Except (TypeScript.Thrown E) (Option V)}
    {t₃ t₄ : List (Prog.Event Python.Request (Python.Reply V))} {r₃ r₄ : Except Python.Raised V}
    (hrust : s.RustRun build t₁ r₁) (htypescript : s.TypeScriptRun others numberText fuel t₂ r₂)
    (hsync : s.PythonRun policy exc Python.runSync t₃ r₃)
    (hasync : s.PythonRun policy' exc' Python.runAsync t₄ r₄) :
    ∃ n, s.Ends n ∧
      (s.Made n (t₁.filterMap Rust.shown) ∧
        r₁ = .ok ((s.outcomes n).mapError (Rust.lastError s.rust s.retryable))) ∧
      (s.Made n (t₂.filterMap TypeScript.shown) ∧
        r₂ = (((s.outcomes n).mapError .other).mapError fun e => .resilienceError
          (TypeScript.afterLoop (TypeScript.callbackRuntime numberText)
            ((s.typescript others).options (T := V)) e)).map some) ∧
      (s.Made n (t₃.filterMap Python.shown) ∧
        r₃ = ((s.outcomes n).mapError exc).mapError .exc) ∧
      s.Made n (t₄.filterMap Python.shown) ∧
        r₄ = ((s.outcomes n).mapError exc').mapError .exc := by
  obtain ⟨n, hends, hmade₁⟩ := hrust.made
  obtain ⟨n₂, hends₂, hmade₂⟩ := htypescript.made
  obtain ⟨n₃, hends₃, hmade₃⟩ :=
    hsync.made (Python.loop_of_runs_runSync rfl hsync.runs hsync.intime)
  obtain ⟨n₄, hends₄, hmade₄⟩ :=
    hasync.made (Python.loop_of_runs_runAsync rfl hasync.runs hasync.intime)
  obtain rfl := hends.unique hends₂
  obtain rfl := hends.unique hends₃
  obtain rfl := hends.unique hends₄
  exact ⟨n, hends, hmade₁, hmade₂, hmade₃, hmade₄⟩

end Scenario

/-! ## One retry -/

/-- The first call fails and the second one succeeds. -/
def secondTry : Scenario Unit ℕ where
  limit := 2
  base := 4
  cap := 10
  retryable _ := true
  outcomes k := if k = 1 then .error () else .ok 7
  one_le_limit := one_le_two
  limit_le := Nat.le_of_ble_eq_true rfl
  base_lt := Nat.le_of_ble_eq_true rfl
  cap_lt := Nat.le_of_ble_eq_true rfl

theorem rustRun_secondTry : secondTry.RustRun .release
    [⟨.op, .error ()⟩, ⟨.genRange 4, ⟨2, by decide⟩⟩, ⟨.sleep (.fromMillis 2), ()⟩, ⟨.op, .ok 7⟩]
    (.ok (.ok 7)) where
  runs := by
    refine ⟨.error (), _, rfl, ?_⟩
    refine ⟨⟨2, by decide⟩, _, rfl, ?_⟩
    have hpause : (Rust.pause (.fromMillis 2) : ExceptT Rust.Halt (Rust.RetryProg Unit ℕ) Unit) =
        perform (Rust.RetryRequest.sleep (.fromMillis 2)) .ok := by
      rw [Rust.pause, if_neg (by decide)]
    change (Rust.pause (.fromMillis 2) >>= fun _ => Rust.attempts .release secondTry.rust
      (fun _ => secondTry.retryable) 1 1 : ExceptT _ _ _).run.Runs _ _
    rw [hpause]
    exact ⟨(), _, rfl, .ok 7, _, rfl, rfl, rfl⟩
  answered := rfl

theorem typescriptRun_secondTry : secondTry.TypeScriptRun {} (fun _ => []) 2
    [⟨.call 1, .error (.other ())⟩, ⟨.shouldRetry (.other ()) 1, .ok true⟩,
      ⟨.random, .ok (.finite (1 / 2))⟩, ⟨.sleep (.finite 2), .ok ()⟩, ⟨.call 2, .ok 7⟩]
    (.ok (some 7)) where
  enough := le_rfl
  runs := by
    have hdelay : ((Number.finite (1 / 2)).mul ((Number.finite (10 : ℕ)).min
        ((Number.finite (4 : ℕ)).mul (.finite (2 ^ (1 - 1)))))).floor = .finite 2 := by
      have hmin : (Number.finite (10 : ℕ)).min ((Number.finite (4 : ℕ)).mul
          (.finite (2 ^ (1 - 1)))) = .finite 4 := by
        simp [Number.mul, Number.min, Number.lt, show (4 : ℚ) < 10 by norm_num]
      rw [hmin, Number.mul, Number.floor]
      norm_num
    refine ⟨.error (.other ()), _, rfl, .ok true, _, rfl, .ok (.finite (1 / 2)), _, rfl, ?_⟩
    refine ⟨.ok (), [⟨.call 2, .ok 7⟩], ?_, ?_⟩
    · exact congrArg (fun ms => ([⟨.sleep ms, .ok ()⟩, ⟨.call 2, .ok 7⟩] :
        List (TypeScript.RetryEvent Unit ℕ))) hdelay.symm
    · exact ⟨.ok 7, [], rfl, rfl, rfl⟩
  civil := by
    simp [TypeScript.Civil, Scenario.shouldRetry, secondTry]
    norm_num
  answered := rfl

def valueError : Python.PyException := ⟨"ValueError()", [.exception], none, none⟩

/-- The ceiling of the delay in Python. -/
def ceiling : ℚ := min (secondTry.base / 1000 * 2 ^ 0) (secondTry.cap / 1000)

theorem ceiling_eq : ceiling = 1 / 250 := by
  norm_num [ceiling, secondTry]

theorem pause_le : (0 : ℚ) ≤ 1 / 500 ∧ 1 / 500 ≤ ceiling := by
  rw [ceiling_eq]
  norm_num

theorem classified_secondTry (policy : Python.RetryPolicy)
    (hclasses : policy.retryableExceptions = [.exception]) :
    (secondTry.python policy).isRetryable valueError = true := by
  change policy.retryableExceptions.any valueError.isInstance = true
  rw [hclasses]
  rfl

theorem syncRun_secondTry (policy : Python.RetryPolicy) (htimeout : 1 ≤ policy.timeout)
    (hclasses : policy.retryableExceptions = [.exception]) :
    secondTry.PythonRun policy (fun _ => valueError) Python.runSync
    [⟨.monotonic, (0 : ℚ)⟩, ⟨.call, .error valueError⟩, ⟨.debug 1 valueError, .ok ()⟩,
      ⟨.uniform 0 ceiling, .ok (1 / 500)⟩, ⟨.sleep (1 / 500), .ok ()⟩, ⟨.monotonic, (0 : ℚ)⟩,
      ⟨.call, .ok 7⟩, ⟨.monotonic, (1 : ℚ)⟩] (.ok 7) where
  classified _ := classified_secondTry policy hclasses
  runs := by
    have hinTime : ¬ (secondTry.python policy).timeout < (1 : ℚ) - 0 := by
      rwa [sub_zero, not_lt]
    obtain ⟨⟩ := policy
    subst hclasses
    refine ⟨(0 : ℚ), _, rfl, .error valueError, _, rfl, .ok (), _, rfl, .ok (1 / 500), _, rfl, ?_⟩
    have hpos : (0 : ℚ) < 1 / 500 := by norm_num
    simp only [Prog.bind, ExceptT.bindCont, Python.raised, Except.mapError]
    rw [if_pos hpos]
    refine ⟨.ok (), _, rfl, (0 : ℚ), _, rfl, .ok 7, _, rfl, (1 : ℚ), _, rfl, ?_⟩
    simp only [Prog.bind, ExceptT.bindCont]
    rw [if_neg hinTime]
    exact ⟨rfl, rfl⟩
  intime := {
    civil := by simpa [Python.Civil] using pause_le
    returned := by
      intro start result stop hpart
      obtain ⟨rfl, rfl, rfl⟩ : start = 0 ∧ result = 7 ∧ stop = 1 := by
        simpa [List.infix_cons_iff, List.cons_prefix_cons] using hpart
      rwa [sub_zero] }
  answered := rfl

theorem asyncRun_secondTry (policy : Python.RetryPolicy)
    (hclasses : policy.retryableExceptions = [.exception]) :
    secondTry.PythonRun policy (fun _ => valueError) Python.runAsync
    [⟨.waitFor policy.timeout, .error valueError⟩, ⟨.uniform 0 ceiling, .ok (1 / 500)⟩,
      ⟨.sleep (1 / 500), .ok ()⟩, ⟨.waitFor policy.timeout, .ok 7⟩] (.ok 7) where
  classified _ := classified_secondTry policy hclasses
  runs := by
    obtain ⟨⟩ := policy
    subst hclasses
    refine ⟨.error valueError, _, rfl, .ok (1 / 500), _, rfl, .ok (), _, rfl, .ok 7, _, rfl, rfl,
      rfl⟩
  intime := {
    civil := by
      have hclass : valueError.isInstance .asyncioTimeoutError = false := rfl
      simpa [Python.Civil, hclass] using pause_le
    returned := by
      intro start result stop hpart
      simp [List.infix_cons_iff, List.cons_prefix_cons] at hpart }
  answered := rfl

/-- The second call ends the loop in all ports. -/
theorem retries_agree_secondTry : secondTry.Ends 2 := by
  let policy : Python.RetryPolicy := ⟨1, 1, 0, 0, 1, [.exception], [], none, one_pos, le_rfl,
    le_rfl, le_rfl, le_rfl⟩
  obtain ⟨n, hends, ⟨hmade, -⟩, -⟩ := Scenario.retries_agree rustRun_secondTry
    typescriptRun_secondTry (syncRun_secondTry policy le_rfl rfl) (asyncRun_secondTry policy rfl)
  have hn : 2 = n := hmade.calls
  rwa [hn]

end Resilience.Retry
