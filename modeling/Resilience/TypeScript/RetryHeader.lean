import Resilience.TypeScript.Auth
import Resilience.TypeScript.LimiterDoubles
import Resilience.TypeScript.ProxyGuard

/-!
# The `retry-after` header

Both guards hand an authenticated request to the limiters, and answer as these do (`Answers`). A
client that waits as long as the header of a denial says is admitted then, when the readings of the
clock and the windows are on a common grid (`retry_time_on_grid`). Off the grid doubles are rounded,
and a check at `resetAt` may be denied (`exists_denied_at_resetAt`).
-/

namespace Resilience.TypeScript

open Json SlidingWindow Runs

variable {k : ℤ}

/-! ## The limiter -/

namespace SlidingWindowRateLimiter

variable {l : SlidingWindowRateLimiter} {key : Units} {before between : List Call} {t t' : ℚ}

/-- A check that was denied, between the other calls of a run. -/
theorem check_around_resetAt {options : RateLimitOptions} (hl : create options = .ok l)
    (hclock : Clocked (before ++ .check key t :: (between ++ [.check key t'])))
    (hreset : .reset key ∉ between) (hdenied : ((l.after before).check key t).1.allowed = false) :
    let denied := (l.after before).check key t
    (t' < denied.1.resetAt → ((denied.2.after between).check key t').1.allowed = false) ∧
      (denied.1.resetAt ≤ t' →
        EachStep (fun l call => (l.perform call).2) (Spares key) denied.2 between →
        ((denied.2.after between).check key t').1.allowed = true) := by
  obtain ⟨now, hnow⟩ := hclock.exists_from
  obtain ⟨now', hordered, hnow'⟩ := ordered_after (ordered_create hl key now) hnow
  have hlast : ∀ ts ∈ between.filterMap Call.reading, ts ≤ t' := by
    have hpairs := (clockedFrom_cons.1 hnow').2
    rw [ClockedFrom, List.filterMap_append, ← List.cons_append, List.pairwise_append] at hpairs
    exact fun ts hts => hpairs.2.2 ts (List.mem_cons_of_mem _ hts) t' (List.mem_singleton_self t')
  exact ⟨check_before_resetAt hordered hdenied hreset hlast, fun hfrom hspared =>
    check_from_resetAt (bounded_after (bounded_create hl) before) hdenied hspared hfrom⟩

/-- The same of a run in doubles. -/
theorem checkIn_around_resetAt {options : RateLimitOptions} (hl : create options = .ok l)
    (hwindow : Measured k options.windowMs)
    (hclock : Clocked (before ++ .check key t :: (between ++ [.check key t'])))
    (hgrid : ∀ call ∈ before ++ .check key t :: (between ++ [.check key t']), call.OnGrid k)
    (hreset : .reset key ∉ between)
    (hdenied : ((l.afterIn double before).checkIn double key t).1.allowed = false) :
    let denied := (l.afterIn double before).checkIn double key t
    (t' < denied.1.resetAt →
        ((denied.2.afterIn double between).checkIn double key t').1.allowed = false) ∧
      (denied.1.resetAt ≤ t' →
        EachStep (fun l call => (l.performIn double call).2) (SparesIn double key) denied.2
          between →
        ((denied.2.afterIn double between).checkIn double key t').1.allowed = true) := by
  simp only [List.forall_mem_append, List.forall_mem_cons] at hgrid
  obtain ⟨hbefore, ht, hbetween, ht', -⟩ := hgrid
  obtain ⟨hrun, hon⟩ := afterIn_double (onGrid_create hl hwindow) hbefore
  rw [hrun] at hdenied ⊢
  obtain ⟨hallowed, hresetAt, hstate⟩ := checkIn_double hon (ht t rfl) key
  have hon' := onGrid_check hon (ht t rfl) key
  obtain ⟨hrun', hon''⟩ := afterIn_double hon' hbetween
  obtain ⟨hallowed', -, -⟩ := checkIn_double hon'' (ht' t' rfl) key
  dsimp only
  rw [hallowed] at hdenied
  rw [hresetAt, hstate, hrun', hallowed']
  obtain ⟨hearly, hlate⟩ := check_around_resetAt hl hclock hreset hdenied
  refine ⟨hearly, fun hfrom hspared => hlate hfrom ?_⟩
  exact EachStep.of_agree (I := OnGrid k) (A := Call.OnGrid k)
    (fun _ _ h hcall => onGrid_perform h hcall) (fun _ _ h hcall => performIn_double h hcall)
    (fun _ _ h hcall => sparesIn_double h hcall) hon' hbetween hspared

end SlidingWindowRateLimiter

/-! ## The guards -/

/-- The answer of a guard to a request that reaches the limiters. -/
def respond {K Ref : Type} (fl : ℚ → ℚ) :
    Except String (Option ℚ × Limiters K Ref) → Except String (Option HttpResponse × Limiters K Ref)
  | .ok (refusal, s) =>
    .ok (refusal.map fun ms => Denial.responseIn fl ⟨429, "Too Many Requests", some ms⟩, s)
  | .error e => .error e

section Auth

variable {Ref : Type}

/-- What `requireAuth` hands to the limiters, for a request with the token. -/
def RequireAuthOptions.limiting (options : RequireAuthOptions Ref) (req : HttpRequest) :
    Option (Limiting Ref Ref) :=
  let expected := options.token.getD []
  if expected.isEmpty then none
  else
    match extractBearer (req.header "authorization") with
    | none => none
    | some provided =>
      if provided ≠ expected then none
      else some ⟨options.ref, options.limiter, options.rateLimit,
        match options.keyFor with
        | some keyFor => keyFor req provided
        | none => provided⟩

variable [DecidableEq Ref] {fl : ℚ → ℚ} {s : Limiters Ref Ref} {req : HttpRequest}
  {options : RequireAuthOptions Ref} {now later : ℚ}

/-- The guard refuses before the limiters, or answers as they do. -/
theorem requireAuthResponseIn_eq :
    (options.limiting req = none ∧ ∃ d : Denial, d.status ≠ 429 ∧
      requireAuthResponseIn fl s req options now later = .ok (some (d.responseIn fl), s)) ∨
    ∃ x, options.limiting req = some x ∧
      requireAuthResponseIn fl s req options now later = respond fl (s.checkIn fl x now later) := by
  unfold RequireAuthOptions.limiting requireAuthResponseIn requireAuthIn
  dsimp only
  split_ifs with hempty
  · exact .inl ⟨rfl, _, by decide, rfl⟩
  · cases extractBearer (req.header "authorization") with
    | none => exact .inl ⟨rfl, _, by decide, rfl⟩
    | some provided =>
      dsimp only
      split_ifs with hne
      · exact .inl ⟨rfl, _, by decide, rfl⟩
      · refine .inr ⟨_, rfl, ?_⟩
        unfold Limiters.checkIn
        dsimp only
        rcases s.checkLimitIn fl options.ref options.limiter options.rateLimit _ now later with
          e | ⟨_ | ms, s'⟩ <;> rfl

end Auth

section Proxy

variable {Ref D : Type} (env : ProxyEnv D) [DecidableEq Ref] [DecidableEq D]

/-- What `checkProxyRequest` hands to the limiters, for a request with the secret. -/
def limitingProxy (processSecret : Option Units) (req : HttpRequest)
    (options : GuardProxyOptions Ref) : Option (Limiting Units Ref) :=
  let expected := (options.secret <|> processSecret).getD []
  let provided := (req.header (options.secretHeader.getD defaultSecretHeader)).getD []
  if expected.isEmpty then none
  else if provided.isEmpty || !secretsMatch env provided expected then none
  else some ⟨(options.rateLimit.map (limiterKey env)).getD [], options.limiter, options.rateLimit,
    clientIp req (options.ipHeaders.getD defaultIpHeaders) (options.trustedProxyCount.getD 1)⟩

variable {env} {fl : ℚ → ℚ} {s : Limiters Units Ref} {processSecret : Option Units}
  {req : HttpRequest} {options : GuardProxyOptions Ref} {now later : ℚ}

theorem guardProxyRequestIn_eq :
    (limitingProxy env processSecret req options = none ∧ ∃ d : Denial, d.status ≠ 429 ∧
      guardProxyRequestIn env fl s processSecret req options now later =
        .ok (some (d.responseIn fl), s)) ∨
    ∃ x, limitingProxy env processSecret req options = some x ∧
      guardProxyRequestIn env fl s processSecret req options now later =
        respond fl (s.checkIn fl x now later) := by
  unfold limitingProxy guardProxyRequestIn checkProxyRequestIn
  dsimp only
  split_ifs with hempty hwrong
  · exact .inl ⟨rfl, _, by decide, rfl⟩
  · exact .inl ⟨rfl, _, by decide, rfl⟩
  · refine .inr ⟨_, rfl, ?_⟩
    unfold Limiters.checkIn
    dsimp only
    rcases s.checkLimitIn fl _ options.limiter options.rateLimit _ now later with
      e | ⟨_ | ms, s'⟩ <;> rfl

end Proxy

/-! ## The header -/

section Header

variable {K Ref : Type} [DecidableEq K] [DecidableEq Ref]

/-- A denial of the first guard has a header, and who waits as long as it says is admitted by the
second one, if the client of `x` was not admitted by its limiter meanwhile. All the readings of the
clock and all the windows are on the grid. -/
def RetryAfterKept (k : ℤ) (x : Option (Limiting K Ref))
    (guard guard' : Limiters K Ref → ℚ → ℚ → Except String (Option HttpResponse × Limiters K Ref)) :
    Prop :=
  ∀ (start : Limiters K Ref) (before : List (LimiterUse K Ref)) (now later : ℚ)
    (response : HttpResponse) (s : Limiters K Ref), start.New →
    (∀ ref, Measured k (start.passed ref).windowMs) → (∀ y ∈ x, y.OnGrid k) →
    (∀ u ∈ before, u.OnGrid k) → Measured k now → Measured k later →
    guard (run (Limiters.useIn double) start before) now later = .ok (some response, s) →
    response.status = 429 →
    ∃ seconds : ℤ, response.headers =
        [("content-type", "application/json"), ("retry-after", toString seconds)] ∧
      ∀ (between : List (LimiterUse K Ref)) (now' later' : ℚ),
        (∀ u ∈ between, u.OnGrid k) → Measured k now' → Measured k later' →
        (∀ y ∈ x, ∀ σ ∈ y.slot,
          EachStep (Limiters.useIn double) (Limiters.SparesIn double σ y.client) s between) →
        later + 1000 * seconds ≤ now' →
        ∃ s', guard' (run (Limiters.useIn double) s between) now' later' = .ok (none, s')

/-- The guard refuses before the limiters, or answers as they do. -/
def Answers (x : Option (Limiting K Ref))
    (guard : Limiters K Ref → ℚ → ℚ → Except String (Option HttpResponse × Limiters K Ref)) :
    Prop :=
  ∀ s now later, (x = none ∧ ∃ d : Denial, d.status ≠ 429 ∧
      guard s now later = .ok (some (d.responseIn double), s)) ∨
    ∃ y, x = some y ∧ guard s now later = respond double (s.checkIn double y now later)

/-- What a denial sets the header to is a wait that is long enough. -/
theorem wait_le_seconds {s s' : Limiters K Ref} {x : Limiting K Ref} {now later ms : ℚ}
    (hk : k ≤ 0) (h : s.OnGrid k) (hx : x.OnGrid k) (hnow : Measured k now)
    (hlater : Measured k later) (hcheck : s.check x now later = .ok (some ms, s')) :
    ms ≤ 1000 * (double (ms / 1000)).ceil := by
  obtain ⟨-, hnone, -⟩ | ⟨σ, l, -, hl, -, -, hrefusal⟩ := Limiters.check_eq_ok hcheck
  · cases hnone
  have hgrid : l.OnGrid k := by
    rcases hl with hl | ⟨-, config, hconfig, hcreate⟩
    · exact h σ l hl
    · exact SlidingWindowRateLimiter.onGrid_create hcreate (hx config hconfig)
  split_ifs at hrefusal
  cases hrefusal
  have hwait := Grid.sub (SlidingWindowRateLimiter.grid_resetAt hgrid hnow x.client) hlater
  exact Grid.le_ceil_double hk ((Grid.zero k _).max hwait) (le_max_left ..)

theorem retryAfterKept_of_answers (hk : k ≤ 0) {x : Option (Limiting K Ref)}
    {guard guard' : Limiters K Ref → ℚ → ℚ → Except String (Option HttpResponse × Limiters K Ref)}
    (h : Answers x guard) (h' : Answers x guard') : RetryAfterKept k x guard guard' := by
  intro start before now later response s hnew hwindows hx hbefore hnow hlater hguard hstatus
  obtain ⟨hrun, hon⟩ := Limiters.run_useIn_double (Limiters.onGrid_new hnew hwindows) hbefore
  rw [hrun] at hguard
  obtain ⟨-, d, hd, heq⟩ | ⟨y, rfl, heq⟩ := h (run Limiters.use start before) now later
  · rw [heq] at hguard
    cases hguard
    exact absurd hstatus hd
  have hy : y.OnGrid k := hx y rfl
  rw [heq, Limiters.checkIn_double hon hy hnow hlater] at hguard
  cases hcheck : (run Limiters.use start before).check y now later with
  | error e =>
    rw [hcheck] at hguard
    cases hguard
  | ok r =>
    obtain ⟨refusal, s'⟩ := r
    rw [hcheck] at hguard
    cases refusal with
    | none => cases hguard
    | some ms =>
      cases hguard
      have hon' := Limiters.onGrid_check hon hy hnow hcheck
      refine ⟨(double (ms / 1000)).ceil, rfl, ?_⟩
      intro between now' later' hbetween hnow' hlater' hspared hwait
      obtain ⟨hrun', hon''⟩ := Limiters.run_useIn_double hon' hbetween
      have hbounded : (run Limiters.use start before).Bounded :=
        run_of_step (I := Limiters.Bounded) (fun _ u hs => Limiters.bounded_use hs u)
          (Limiters.bounded_new hnew) before
      have hms : later + ms ≤ now' := by
        have hseconds := wait_le_seconds hk hon hy hnow hlater hcheck
        linarith
      have hexact (σ) (hσ : σ ∈ y.slot) :
          EachStep Limiters.use (Limiters.Spares σ y.client) s between :=
        EachStep.of_agree (I := Limiters.OnGrid k) (A := LimiterUse.OnGrid k)
          (fun _ _ h hu => Limiters.onGrid_use h hu) (fun _ _ h hu => Limiters.useIn_double h hu)
          (fun _ _ h hu => Limiters.sparesIn_double h hu) hon' hbetween (hspared y rfl σ hσ)
      obtain ⟨s'', hadmitted⟩ := Limiters.check_after_wait hbounded hcheck hexact hms later'
      refine ⟨s'', ?_⟩
      obtain ⟨hnone, -⟩ | ⟨y', hy', heq'⟩ := h' (run Limiters.use s between) now' later'
      · cases hnone
      · cases hy'
        rw [hrun', heq', Limiters.checkIn_double hon'' hy hnow' hlater', hadmitted]
        rfl

end Header


/-- **The advertised retry time is exact** in doubles, when the readings of the clock and the
windows are multiples of one power of two that is at most 1. After a check that was denied, the
checks of its key are denied until `resetAt` and one is allowed from then on, unless another one was
allowed since; and what the guards write in the header of a denial is long enough a wait. -/
theorem retry_time_on_grid {k : ℤ} (hk : k ≤ 0) :
    (∀ (options : RateLimitOptions) (l : SlidingWindowRateLimiter),
      SlidingWindowRateLimiter.create options = .ok l → Measured k options.windowMs →
      ∀ (key : Units) (before between : List SlidingWindowRateLimiter.Call) (t t' : ℚ),
        SlidingWindowRateLimiter.Clocked
          (before ++ .check key t :: (between ++ [.check key t'])) →
        (∀ call ∈ before ++ .check key t :: (between ++ [.check key t']), call.OnGrid k) →
        .reset key ∉ between →
        ((l.afterIn double before).checkIn double key t).1.allowed = false →
        let denied := (l.afterIn double before).checkIn double key t
        (t' < denied.1.resetAt →
          ((denied.2.afterIn double between).checkIn double key t').1.allowed = false) ∧
        (denied.1.resetAt ≤ t' →
          EachStep (fun l call => (l.performIn double call).2)
            (SlidingWindowRateLimiter.SparesIn double key) denied.2 between →
          ((denied.2.afterIn double between).checkIn double key t').1.allowed = true)) ∧
    (∀ (Ref : Type) [DecidableEq Ref] (options options' : RequireAuthOptions Ref)
      (req req' : HttpRequest), options'.limiting req' = options.limiting req →
      RetryAfterKept k (options.limiting req)
        (fun s => requireAuthResponseIn double s req options)
        (fun s => requireAuthResponseIn double s req' options')) ∧
    ∀ (Ref D : Type) [DecidableEq Ref] [DecidableEq D] (env : ProxyEnv D)
      (processSecret processSecret' : Option Units) (options options' : GuardProxyOptions Ref)
      (req req' : HttpRequest),
      limitingProxy env processSecret' req' options' =
        limitingProxy env processSecret req options →
      RetryAfterKept k (limitingProxy env processSecret req options)
        (fun s => guardProxyRequestIn env double s processSecret req options)
        (fun s => guardProxyRequestIn env double s processSecret' req' options') := by
  refine ⟨?_, ?_, ?_⟩
  · intro options l hl hwindow key before between t t' hclock hgrid hreset hdenied
    exact SlidingWindowRateLimiter.checkIn_around_resetAt hl hwindow hclock hgrid hreset hdenied
  · intro Ref _ options options' req req' hsame
    refine retryAfterKept_of_answers hk (fun _ _ _ => requireAuthResponseIn_eq) ?_
    rw [← hsame]
    exact fun _ _ _ => requireAuthResponseIn_eq
  · intro Ref D _ _ env processSecret processSecret' options options' req req' hsame
    refine retryAfterKept_of_answers hk (fun _ _ _ => guardProxyRequestIn_eq) ?_
    rw [← hsame]
    exact fun _ _ _ => guardProxyRequestIn_eq

theorem exists_response {ε σ : Type} {x : Except ε (Option HttpResponse × σ)}
    {response : HttpResponse} (h : x.toOption.bind (·.1) = some response) :
    ∃ s, x = .ok (some response, s) := by
  rcases x with error | ⟨_ | r, s⟩
  · cases h
  · cases h
  · exact ⟨s, by rw [Option.some_inj.1 h]⟩

/-- The second request in a minute. -/
def tooManyRequests : HttpResponse where
  status := 429
  body := "\x7b\"error\":\"Too Many Requests\"\x7d"
  headers := [("content-type", "application/json"), ("retry-after", "60")]

theorem seconds_eq {seconds : ℤ} (h : tooManyRequests.headers =
    [("content-type", "application/json"), ("retry-after", toString seconds)]) : seconds = 60 := by
  simp only [tooManyRequests, List.cons.injEq, Prod.mk.injEq, true_and, and_true] at h
  cases seconds with
  | ofNat n =>
    have hdigits : ['6', '0'] = Nat.toDigits 10 n := String.ofList_inj.1 h
    have hread : Nat.ofDigitChars 10 (Nat.toDigits 10 n) 0 = n := Nat.ofDigitChars_ten_toDigits
    rw [← hdigits] at hread
    exact congrArg Int.ofNat hread.symm
  | negSucc n =>
    have hhead := congrArg (fun text => text.toList.head?) h
    simp [toString, Int.repr] at hhead

/-- One request a minute: the second one is denied, and admitted a minute later. -/
theorem retry_time_on_grid_one_per_minute :
    ∃ l, SlidingWindowRateLimiter.create ⟨1, 60000⟩ = .ok l ∧
      (((l.checkIn double [] 0).2.checkIn double [] 10).2.checkIn double [] 59999).1.allowed =
        false ∧
      (((l.checkIn double [] 0).2.checkIn double [] 10).2.checkIn double [] 60000).1.allowed =
        true ∧
      (∃ options req, ∃ s s' s'' : Limiters ℕ ℕ,
        requireAuthResponseIn double s req options 10 10 = .ok (some tooManyRequests, s') ∧
          requireAuthResponseIn double s' req options 60010 60010 = .ok (none, s'')) ∧
      ∃ options req, ∃ s s' s'' : Limiters Units ℕ,
        guardProxyRequestIn ProxyCall.fractions double s none req options 10 10 =
            .ok (some tooManyRequests, s') ∧
          guardProxyRequestIn ProxyCall.fractions double s' none req options 60010 60010 =
            .ok (none, s'') := by
  let l : SlidingWindowRateLimiter := ⟨1, 60000, fun _ => [], le_rfl, by norm_num⟩
  obtain ⟨hlimiter, hauth, hproxy⟩ := retry_time_on_grid (k := 0) le_rfl
  have hwindow : Measured 0 60000 := measured_intCast (n := 60000) (by decide)
  have hten : Measured 0 10 := measured_intCast (n := 10) (by decide)
  have hlate : Measured 0 60010 := measured_intCast (n := 60010) (by decide)
  have hzero : Measured 0 0 := measured_intCast (n := 0) (by decide)
  have hbetween (t : ℚ) (ht : Measured 0 t) :
      ∀ call ∈ [SlidingWindowRateLimiter.Call.check [] 0] ++ .check [] 10 :: ([] ++ [.check [] t]),
        call.OnGrid 0 := by
    simp [SlidingWindowRateLimiter.Call.OnGrid, SlidingWindowRateLimiter.Call.reading, hzero, hten,
      ht]
  refine ⟨l, rfl, ?_, ?_, ?_, ?_⟩
  · have hclock : SlidingWindowRateLimiter.Clocked
        ([.check [] 0] ++ .check [] 10 :: ([] ++ [.check [] 59999])) := by
      unfold SlidingWindowRateLimiter.Clocked; decide +kernel
    exact (hlimiter ⟨1, 60000⟩ l rfl hwindow [] [.check [] 0] [] 10 59999 hclock
      (hbetween _ (measured_intCast (n := 59999) (by decide))) (List.not_mem_nil)
      (by decide +kernel)).1 (by decide +kernel)
  · have hclock : SlidingWindowRateLimiter.Clocked
        ([.check [] 0] ++ .check [] 10 :: ([] ++ [.check [] 60000])) := by
      unfold SlidingWindowRateLimiter.Clocked; decide +kernel
    exact (hlimiter ⟨1, 60000⟩ l rfl hwindow [] [.check [] 0] [] 10 60000 hclock
      (hbetween _ hwindow) (List.not_mem_nil) (by decide +kernel)).2 (by decide +kernel) trivial
  · let start : Limiters ℕ ℕ := ⟨fun _ => none, fun _ => l⟩
    let call := AuthCall.atOnce ⟨1, 60000⟩ (utf16 "k") 0
    let x : Limiting ℕ ℕ := ⟨0, none, some ⟨1, 60000⟩, utf16 "k"⟩
    have hnew : start.New := ⟨fun _ => rfl, fun _ => ⟨⟨1, 60000⟩, rfl⟩⟩
    have hx : x.OnGrid 0 := by rintro config ⟨⟩; exact hwindow
    obtain ⟨s, hguard⟩ : ∃ s, requireAuthResponseIn double
        (run (Limiters.useIn double) start [.guard x 0 0]) call.req call.options 10 10 =
          .ok (some tooManyRequests, s) := by
      apply exists_response
      decide +kernel
    obtain ⟨seconds, hheaders, hkept⟩ := hauth ℕ call.options call.options call.req call.req rfl
      start [.guard x 0 0] 10 10 tooManyRequests s hnew (fun _ => hwindow)
      (by rintro y ⟨⟩; exact hx) (by simpa [LimiterUse.OnGrid] using ⟨hx, hzero⟩) hten hten hguard
      rfl
    obtain rfl := seconds_eq hheaders
    obtain ⟨s', hadmitted⟩ := hkept [] 60010 60010 (by simp) hlate hlate (fun _ _ _ _ => trivial)
      (by norm_num)
    exact ⟨_, _, _, s, s', hguard, hadmitted⟩
  · let start : Limiters Units ℕ := ⟨fun _ => none, fun _ => l⟩
    let call := ProxyCall.callAt "s3cret" 10
    let x : Limiting Units ℕ := ⟨limiterKey ProxyCall.fractions ⟨1, 60000⟩, none, some ⟨1, 60000⟩,
      utf16 "203.0.113.7"⟩
    have hnew : start.New := ⟨fun _ => rfl, fun _ => ⟨⟨1, 60000⟩, rfl⟩⟩
    have hx : x.OnGrid 0 := by rintro config ⟨⟩; exact hwindow
    let options : GuardProxyOptions ℕ := { call.options with secret := some (utf16 "s3cret") }
    obtain ⟨s, hguard⟩ : ∃ s, guardProxyRequestIn ProxyCall.fractions double
        (run (Limiters.useIn double) start [.guard x 0 0]) none call.req options 10 10 =
          .ok (some tooManyRequests, s) := by
      apply exists_response
      decide +kernel
    have hlimiting : limitingProxy ProxyCall.fractions none call.req options = some x := by
      decide +kernel
    obtain ⟨seconds, hheaders, hkept⟩ := hproxy ℕ ℕ ProxyCall.fractions none none options options
      call.req call.req rfl start [.guard x 0 0] 10 10 tooManyRequests s hnew (fun _ => hwindow)
      (by rw [hlimiting]; rintro y ⟨⟩; exact hx) (by simpa [LimiterUse.OnGrid] using ⟨hx, hzero⟩)
      hten hten hguard rfl
    obtain rfl := seconds_eq hheaders
    obtain ⟨s', hadmitted⟩ := hkept [] 60010 60010 (by simp) hlate hlate (fun _ _ _ _ => trivial)
      (by norm_num)
    exact ⟨_, _, _, s, s', hguard, hadmitted⟩

/-- One request a minute, and a clock that reads fractions of a millisecond: `resetAt` is rounded to
a time at which the difference to the window is still under the oldest time. -/
theorem exists_denied_at_resetAt :
    ∃ l, SlidingWindowRateLimiter.create ⟨1, 60000⟩ = .ok l ∧
      let hit := double (1 / 10)
      let denied := (l.checkIn double [] hit).2.checkIn double [] 60000
      SlidingWindowRateLimiter.Clocked
          [.check [] hit, .check [] 60000, .check [] denied.1.resetAt] ∧
        denied.1.allowed = false ∧
        (denied.2.checkIn double [] denied.1.resetAt).1.allowed = false := by
  let l : SlidingWindowRateLimiter := ⟨1, 60000, fun _ => [], le_rfl, by norm_num⟩
  refine ⟨l, rfl, ?_, ?_, ?_⟩
  · unfold SlidingWindowRateLimiter.Clocked
    decide +kernel
  · decide +kernel
  · decide +kernel

end Resilience.TypeScript
