import Resilience.TypeScript.RateLimit

/-!
# What the guards share

`auth.ts` and `proxyGuard.ts` refuse a request alike, and each finds the limiter of a call in a
registry, under a key of its own, makes it there where it is missing, and checks it
(`Limiters.checkLimit`, and `Limiters.checkLimitIn` where numbers are rounded). What is said of a
limiter is said of a registry then: of the calls under a key, for a client, as long as no call makes
a limiter of another configuration there.
-/

namespace Resilience.TypeScript

open Json SlidingWindow

/-! ## Requests and responses -/

/-- A request, by `headers.get`. -/
structure HttpRequest where
  header : String → Option Units

/-- The result `ok: false`. -/
structure Denial where
  status : ℕ
  reason : String
  retryAfterMs : Option ℚ := none
  deriving DecidableEq, Repr

structure HttpResponse where
  status : ℕ
  body : String
  headers : List (String × String)
  deriving DecidableEq, Repr

/-- The response that a denial becomes; numbers are rounded by `fl`. -/
def Denial.responseIn (fl : ℚ → ℚ) (d : Denial) : HttpResponse where
  status := d.status
  body := s!"\x7b\"error\":\"{d.reason}\"\x7d"
  headers := ("content-type", "application/json") ::
    match d.retryAfterMs with
    | some ms => if d.status = 429 then [("retry-after", toString (fl (ms / 1000)).ceil)] else []
    | none => []

/-! ## Registries -/

/-- The limiters: a registry under the keys `K`, and the limiters that callers pass, by identity. -/
structure Limiters (K Ref : Type) where
  registry : K → Option SlidingWindowRateLimiter
  passed : Ref → SlidingWindowRateLimiter

namespace Limiters

variable {K Ref : Type}

/-- `resolveLimiter`: the limiter, if there is one, and where its changes go. -/
def resolve [DecidableEq K] [DecidableEq Ref] (s : Limiters K Ref) (key : K) (limiter : Option Ref)
    (rateLimit : Option RateLimitOptions) :
    Except String
      (Option (SlidingWindowRateLimiter × (SlidingWindowRateLimiter → Limiters K Ref))) :=
  match limiter, rateLimit with
  | some ref, _ =>
    .ok (some (s.passed ref, fun l => { s with passed := Function.update s.passed ref l }))
  | none, none => .ok none
  | none, some rateLimit => do
    let l ← match s.registry key with
      | some l => .ok l
      | none => SlidingWindowRateLimiter.create rateLimit
    return some (l, fun l => { s with registry := Function.update s.registry key (some l) })

/-- Find the limiter and check it for `client`: the refusal, with its `retryAfterMs`, if there is
one. `later` is what `nowMs` reads. -/
def checkLimitIn [DecidableEq K] [DecidableEq Ref] (fl : ℚ → ℚ) (s : Limiters K Ref) (key : K)
    (limiter : Option Ref) (rateLimit : Option RateLimitOptions) (client : Units) (now later : ℚ) :
    Except String (Option ℚ × Limiters K Ref) := do
  match ← s.resolve key limiter rateLimit with
  | none => return (none, s)
  | some (l, put) =>
    let (result, l) := l.checkIn fl client now
    if result.allowed then return (none, put l)
    else return (some (max 0 (fl (result.resetAt - later))), put l)

/-- `checkLimitIn` on exact numbers. -/
def checkLimit [DecidableEq K] [DecidableEq Ref] (s : Limiters K Ref) (key : K)
    (limiter : Option Ref) (rateLimit : Option RateLimitOptions) (client : Units) (now later : ℚ) :
    Except String (Option ℚ × Limiters K Ref) :=
  s.checkLimitIn id key limiter rateLimit client now later

@[simp] theorem checkLimitIn_id [DecidableEq K] [DecidableEq Ref] (s : Limiters K Ref) (key : K)
    (limiter : Option Ref) (rateLimit : Option RateLimitOptions) (client : Units) (now later : ℚ) :
    s.checkLimitIn id key limiter rateLimit client now later =
      s.checkLimit key limiter rateLimit client now later := rfl

/-- The limiter that a call under `key` with this configuration finds or makes. -/
def Found (s : Limiters K Ref) (key : K) (config : RateLimitOptions)
    (l : SlidingWindowRateLimiter) : Prop :=
  s.registry key = some l ∨ s.registry key = none ∧ SlidingWindowRateLimiter.create config = .ok l

/-- The limiter that a call finds has its configuration and tracks the admitted times of `client`.
-/
def Tracks (s : Limiters K Ref) (key : K) (config : RateLimitOptions) (client : Units)
    (times : List ℚ) (now : ℚ) : Prop :=
  ∀ l, s.Found key config l →
    l.limit = config.limit ∧ l.windowMs = config.windowMs ∧ l.Tracks client times now

variable {s s' : Limiters K Ref} {key key' : K} {config : RateLimitOptions} {client client' : Units}
  {times : List ℚ} {before now later : ℚ} {limiter : Option Ref}
  {rateLimit : Option RateLimitOptions} {refusal : Option ℚ}

theorem tracks_of_none (h : s.registry key = none) : s.Tracks key config client [] now := by
  rintro l (hl | ⟨-, hl⟩)
  · rw [h] at hl
    cases hl
  · obtain ⟨hlimit, hwindow, hhits⟩ := SlidingWindowRateLimiter.create_eq_ok hl
    exact ⟨hlimit, hwindow, SlidingWindowRateLimiter.tracks_nil (hhits client)⟩

theorem Tracks.mono (h : s.Tracks key config client times before) (hle : before ≤ now) :
    s.Tracks key config client times now :=
  fun l hl => ⟨(h l hl).1, (h l hl).2.1, (h l hl).2.2.mono hle⟩

variable [DecidableEq K] [DecidableEq Ref]

theorem resolve_eq_ok {r : Option (SlidingWindowRateLimiter × (SlidingWindowRateLimiter →
    Limiters K Ref))} (h : s.resolve key limiter rateLimit = .ok r) :
    (∃ ref, limiter = some ref ∧
        r = some (s.passed ref, fun l => { s with passed := Function.update s.passed ref l })) ∨
      (limiter = none ∧ rateLimit = none ∧ r = none) ∨
      ∃ c l, limiter = none ∧ rateLimit = some c ∧ s.Found key c l ∧
        r = some (l, fun l => { s with registry := Function.update s.registry key (some l) }) := by
  unfold resolve at h
  split at h
  · cases h
    exact .inl ⟨_, rfl, rfl⟩
  · cases h
    exact .inr (.inl ⟨rfl, rfl, rfl⟩)
  · rename_i c
    refine .inr (.inr ⟨c, ?_⟩)
    cases hl : s.registry key with
    | some l =>
      rw [hl] at h
      cases h
      exact ⟨l, rfl, rfl, .inl hl, rfl⟩
    | none =>
      rw [hl] at h
      cases hcreate : SlidingWindowRateLimiter.create c with
      | error e =>
        rw [hcreate] at h
        cases h
      | ok l =>
        rw [hcreate] at h
        cases h
        exact ⟨l, rfl, rfl, .inr ⟨hl, hcreate⟩, rfl⟩

/-- The ways a call goes: it leaves the registry, or it checks the limiter that it finds there. -/
theorem checkLimit_eq_ok
    (h : s.checkLimit key limiter rateLimit client now later = .ok (refusal, s')) :
    s'.registry = s.registry ∧ (limiter.isSome = true ∨ rateLimit = none) ∨
      ∃ c l, limiter = none ∧ rateLimit = some c ∧ s.Found key c l ∧
        (refusal = none ↔ (l.check client now).1.allowed = true) ∧
        s'.registry = Function.update s.registry key (some (l.check client now).2) := by
  unfold checkLimit checkLimitIn at h
  cases hr : s.resolve key limiter rateLimit with
  | error e =>
    rw [hr] at h
    cases h
  | ok r =>
    rw [hr] at h
    rcases resolve_eq_ok hr with ⟨ref, rfl, rfl⟩ | ⟨rfl, rfl, rfl⟩ | ⟨c, l, rfl, rfl, hl, rfl⟩
    · left
      dsimp only [bind, Except.bind, pure, Except.pure] at h
      split_ifs at h <;> cases h <;> exact ⟨rfl, .inl rfl⟩
    · cases h
      exact .inl ⟨rfl, .inr rfl⟩
    · refine .inr ⟨c, l, rfl, rfl, hl, ?_⟩
      dsimp only [bind, Except.bind, pure, Except.pure] at h
      split_ifs at h with hallowed
      · cases h
        exact ⟨iff_of_true rfl hallowed, rfl⟩
      · cases h
        exact ⟨iff_of_false (by simp) hallowed, rfl⟩

/-- **A call for the client**: it is admitted while fewer than `limit` of its admitted times count.
-/
theorem Tracks.checkLimit (htracks : s.Tracks key config client times before) (hle : before ≤ now)
    (h : s.checkLimit key none (some config) client now later = .ok (refusal, s')) :
    (refusal = none ↔ (recent config.windowMs now times).length < config.limit) ∧
      s'.Tracks key config client (if refusal = none then times ++ [now] else times) now := by
  obtain ⟨-, hcase⟩ | ⟨c, l, -, hc, hl, hrefusal, hregistry⟩ := checkLimit_eq_ok h
  · simp at hcase
  cases hc
  obtain ⟨hlimit, hwindow, htrack⟩ := htracks.mono hle l hl
  constructor
  · rw [hrefusal, SlidingWindowRateLimiter.allowed_check htrack, hlimit, hwindow]
  · rintro l' (hl' | ⟨hl', -⟩)
    · rw [hregistry, Function.update_self, Option.some.injEq] at hl'
      rw [← hl', SlidingWindowRateLimiter.check_limit, SlidingWindowRateLimiter.check_windowMs]
      refine ⟨hlimit, hwindow, ?_⟩
      simp only [hrefusal]
      exact SlidingWindowRateLimiter.tracks_check htrack
    · rw [hregistry, Function.update_self] at hl'
      cases hl'

/-- A call under another key, or for another client. -/
theorem Tracks.checkLimit_other (htracks : s.Tracks key config client times now)
    (h : s.checkLimit key' limiter rateLimit client' before later = .ok (refusal, s'))
    (hother : ∀ c, limiter = none → rateLimit = some c → key' = key →
      c = config ∧ client' ≠ client) :
    s'.Tracks key config client times now := by
  intro l' hl'
  rcases checkLimit_eq_ok h with ⟨hregistry, -⟩ | ⟨c, l, hnone, hsome, hl, -, hregistry⟩
  · rw [Found, hregistry] at hl'
    exact htracks l' hl'
  · rcases eq_or_ne key' key with rfl | hne
    · obtain ⟨rfl, hclient⟩ := hother c hnone hsome rfl
      obtain ⟨hlimit, hwindow, htrack⟩ := htracks l hl
      rcases hl' with hl' | ⟨hl', -⟩
      · rw [hregistry, Function.update_self, Option.some.injEq] at hl'
        rw [← hl', SlidingWindowRateLimiter.check_limit, SlidingWindowRateLimiter.check_windowMs]
        exact ⟨hlimit, hwindow, SlidingWindowRateLimiter.tracks_check_of_ne htrack hclient.symm⟩
      · rw [hregistry, Function.update_self] at hl'
        cases hl'
    · rw [Found, hregistry, Function.update_of_ne hne.symm] at hl'
      exact htracks l' hl'

/-- A configuration that the constructor accepts gets an answer. -/
theorem exists_checkLimit_eq (s : Limiters K Ref) (key : K) (client : Units) (now later : ℚ)
    (hlimit : 1 ≤ config.limit) (hwindow : 0 < config.windowMs) :
    ∃ refusal s', s.checkLimit key none (some config) client now later = .ok (refusal, s') := by
  obtain ⟨l, hl⟩ : ∃ l, s.resolve key none (some config) = .ok (some (l, fun l =>
      { s with registry := Function.update s.registry key (some l) })) := by
    unfold resolve
    cases s.registry key with
    | some l => exact ⟨l, rfl⟩
    | none =>
      simp only [SlidingWindowRateLimiter.create, not_lt.2 hlimit, not_le.2 hwindow, dite_false]
      exact ⟨_, rfl⟩
  unfold checkLimit checkLimitIn
  rw [hl]
  dsimp only [bind, Except.bind, pure, Except.pure]
  split_ifs
  · exact ⟨_, _, rfl⟩
  · exact ⟨_, _, rfl⟩

end Limiters

end Resilience.TypeScript
