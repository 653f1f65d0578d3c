import Resilience.TypeScript.Guards
import Resilience.TypeScript.RetryTime
import Mathlib.Tactic.Linarith

/-!
# Uses of the limiters

A guard hands an authenticated request to a limiter (`Limiting`), under a key of a registry or
passed by the callers (`LimiterSlot`). Guards and callers use the limiters in any order
(`LimiterUse`), and what a denial leaves of the times of a client is only ever pruned until that
client is admitted again (`waits_use`). So a client that waits as long as the denial says is
admitted (`check_after_wait`).
-/

namespace Resilience.TypeScript

open Json SlidingWindow Runs

/-- What a guard hands to the limiters. -/
structure Limiting (K Ref : Type) where
  key : K
  limiter : Option Ref
  rateLimit : Option RateLimitOptions
  client : Units
  deriving DecidableEq

/-- A limiter of the registry, or one that callers pass. -/
inductive LimiterSlot (K Ref : Type)
  | registered (key : K)
  | passed (ref : Ref)

/-- The limiter that `resolveLimiter` looks for, if any. -/
def Limiting.slot {K Ref : Type} (x : Limiting K Ref) : Option (LimiterSlot K Ref) :=
  match x.limiter, x.rateLimit with
  | some ref, _ => some (.passed ref)
  | none, some _ => some (.registered x.key)
  | none, none => none

/-- A use of the limiters: a guard checks one, or a caller uses one that it passes. -/
inductive LimiterUse (K Ref : Type)
  | guard (x : Limiting K Ref) (now later : ℚ)
  | direct (ref : Ref) (call : SlidingWindowRateLimiter.Call)

namespace Limiters

variable {K Ref : Type}

def limiterAt (s : Limiters K Ref) : LimiterSlot K Ref → Option SlidingWindowRateLimiter
  | .registered key => s.registry key
  | .passed ref => some (s.passed ref)

/-- No limiter is registered, and those that callers pass come from the constructor. -/
structure New (s : Limiters K Ref) : Prop where
  registry : ∀ key, s.registry key = none
  passed : ∀ ref, ∃ options, SlidingWindowRateLimiter.create options = .ok (s.passed ref)

def Bounded (s : Limiters K Ref) : Prop := ∀ σ l, s.limiterAt σ = some l → l.Bounded

theorem bounded_new {s : Limiters K Ref} (h : s.New) : s.Bounded := by
  rintro (key | ref) l hl
  · rw [limiterAt, h.registry] at hl
    cases hl
  · obtain ⟨options, hcreate⟩ := h.passed ref
    obtain rfl : s.passed ref = l := Option.some.inj hl
    exact SlidingWindowRateLimiter.bounded_create hcreate

theorem limiterAt_passed [DecidableEq Ref] (s : Limiters K Ref) (ref : Ref)
    (l : SlidingWindowRateLimiter) :
    let s' : Limiters K Ref := { s with passed := Function.update s.passed ref l }
    s'.limiterAt (.passed ref) = some l ∧
      ∀ τ, τ ≠ .passed ref → s'.limiterAt τ = s.limiterAt τ := by
  refine ⟨congrArg some (Function.update_self ..), fun τ hτ => ?_⟩
  cases τ with
  | registered key => rfl
  | passed ref' =>
    have hne : ref' ≠ ref := fun heq => hτ (heq ▸ rfl)
    exact congrArg some (Function.update_of_ne hne _ _)

theorem limiterAt_registered [DecidableEq K] (s : Limiters K Ref) (key : K)
    (l : SlidingWindowRateLimiter) :
    let s' : Limiters K Ref := { s with registry := Function.update s.registry key (some l) }
    s'.limiterAt (.registered key) = some l ∧
      ∀ τ, τ ≠ .registered key → s'.limiterAt τ = s.limiterAt τ := by
  refine ⟨Function.update_self .., fun τ hτ => ?_⟩
  cases τ with
  | registered key' =>
    have hne : key' ≠ key := fun heq => hτ (heq ▸ rfl)
    exact Function.update_of_ne hne _ _
  | passed ref => rfl

variable [DecidableEq K] [DecidableEq Ref]

def checkIn (fl : ℚ → ℚ) (s : Limiters K Ref) (x : Limiting K Ref) (now later : ℚ) :
    Except String (Option ℚ × Limiters K Ref) :=
  s.checkLimitIn fl x.key x.limiter x.rateLimit x.client now later

def check (s : Limiters K Ref) (x : Limiting K Ref) (now later : ℚ) :
    Except String (Option ℚ × Limiters K Ref) :=
  s.checkIn id x now later

/-- The limiters after a use. -/
def useIn (fl : ℚ → ℚ) (s : Limiters K Ref) : LimiterUse K Ref → Limiters K Ref
  | .guard x now later => match s.checkIn fl x now later with
    | .ok (_, s') => s'
    | .error _ => s
  | .direct ref call =>
    { s with passed := Function.update s.passed ref ((s.passed ref).performIn fl call).2 }

def use (s : Limiters K Ref) (u : LimiterUse K Ref) : Limiters K Ref := s.useIn id u

/-- The client is not admitted by the limiter of the slot, and its times are not reset. -/
def SparesIn (fl : ℚ → ℚ) (σ : LimiterSlot K Ref) (client : Units) (s : Limiters K Ref) :
    LimiterUse K Ref → Prop
  | .guard x now later =>
    x.slot = some σ → x.client = client → ∀ s', s.checkIn fl x now later ≠ .ok (none, s')
  | .direct ref call =>
    σ = .passed ref → SlidingWindowRateLimiter.SparesIn fl client (s.passed ref) call

def Spares (σ : LimiterSlot K Ref) (client : Units) (s : Limiters K Ref) (u : LimiterUse K Ref) :
    Prop :=
  SparesIn id σ client s u

variable {s s' : Limiters K Ref} {x : Limiting K Ref} {σ : LimiterSlot K Ref} {client : Units}
  {now later : ℚ} {refusal : Option ℚ} {l : SlidingWindowRateLimiter}

theorem use_guard (s : Limiters K Ref) (x : Limiting K Ref) (now later : ℚ) :
    s.use (.guard x now later) = match s.check x now later with
      | .ok (_, s') => s'
      | .error _ => s := rfl

/-! ## One use -/

/-- The ways a check goes: there is no limiter, or the one of the slot answers. -/
theorem check_eq_ok (h : s.check x now later = .ok (refusal, s')) :
    (x.slot = none ∧ refusal = none ∧ s' = s) ∨
      ∃ σ l, x.slot = some σ ∧
        (s.limiterAt σ = some l ∨
          s.limiterAt σ = none ∧
            ∃ config ∈ x.rateLimit, SlidingWindowRateLimiter.create config = .ok l) ∧
        s'.limiterAt σ = some (l.check x.client now).2 ∧
        (∀ τ, τ ≠ σ → s'.limiterAt τ = s.limiterAt τ) ∧
        refusal = if (l.check x.client now).1.allowed then none
          else some (max 0 ((l.check x.client now).1.resetAt - later)) := by
  obtain ⟨key, limiter, rateLimit, client⟩ := x
  unfold check checkIn checkLimitIn at h
  dsimp only at h ⊢
  cases hr : s.resolve key limiter rateLimit with
  | error e =>
    rw [hr] at h
    cases h
  | ok r =>
    rw [hr] at h
    rcases resolve_eq_ok hr with ⟨ref, rfl, rfl⟩ | ⟨rfl, rfl, rfl⟩ | ⟨c, l, rfl, rfl, hl, rfl⟩
    · obtain ⟨hself, hother⟩ := limiterAt_passed s ref ((s.passed ref).check client now).2
      refine .inr ⟨.passed ref, s.passed ref, rfl, .inl rfl, ?_⟩
      dsimp only [bind, Except.bind, pure, Except.pure] at h
      split_ifs at h with hallowed <;> cases h
      · exact ⟨hself, hother, (if_pos hallowed).symm⟩
      · exact ⟨hself, hother, (if_neg hallowed).symm⟩
    · cases h
      exact .inl ⟨rfl, rfl, rfl⟩
    · obtain ⟨hself, hother⟩ := limiterAt_registered s key (l.check client now).2
      refine .inr ⟨.registered key, l, rfl, hl.imp_right fun hl => ⟨hl.1, c, rfl, hl.2⟩, ?_⟩
      dsimp only [bind, Except.bind, pure, Except.pure] at h
      split_ifs at h with hallowed <;> cases h
      · exact ⟨hself, hother, (if_pos hallowed).symm⟩
      · exact ⟨hself, hother, (if_neg hallowed).symm⟩

/-- A limiter that is there answers. -/
theorem exists_check_eq (hslot : x.slot = some σ) (hl : s.limiterAt σ = some l) (now later : ℚ) :
    ∃ refusal s', s.check x now later = .ok (refusal, s') := by
  obtain ⟨key, limiter, rateLimit, client⟩ := x
  unfold check checkIn checkLimitIn resolve
  cases limiter with
  | some ref =>
    dsimp only [bind, Except.bind, pure, Except.pure]
    split_ifs
    · exact ⟨_, _, rfl⟩
    · exact ⟨_, _, rfl⟩
  | none =>
    cases rateLimit with
    | none => cases hslot
    | some config =>
      cases hslot
      change s.registry key = some l at hl
      dsimp only [bind, Except.bind, pure, Except.pure]
      rw [hl]
      dsimp only
      split_ifs
      · exact ⟨_, _, rfl⟩
      · exact ⟨_, _, rfl⟩

theorem bounded_check (h : s.Bounded) (hcheck : s.check x now later = .ok (refusal, s')) :
    s'.Bounded := by
  rcases check_eq_ok hcheck with ⟨-, -, rfl⟩ | ⟨σ, l, -, hl, hself, hother, -⟩
  · exact h
  intro τ l' hl'
  rcases eq_or_ne τ σ with rfl | hne
  · obtain rfl : (l.check x.client now).2 = l' := Option.some.inj (hself.symm.trans hl')
    have hbounded : l.Bounded := by
      rcases hl with hl | ⟨-, config, -, hcreate⟩
      · exact h τ l hl
      · exact SlidingWindowRateLimiter.bounded_create hcreate
    exact SlidingWindowRateLimiter.bounded_perform hbounded (.check x.client now)
  · exact h τ l' (hother τ hne ▸ hl')

theorem bounded_use (h : s.Bounded) (u : LimiterUse K Ref) : (s.use u).Bounded := by
  cases u with
  | guard x now later =>
    rw [use_guard]
    split
    · exact bounded_check h ‹_›
    · exact h
  | direct ref call =>
    intro τ l hl
    obtain ⟨hself, hother⟩ := limiterAt_passed s ref ((s.passed ref).perform call).2
    rcases eq_or_ne τ (.passed ref) with rfl | hne
    · obtain rfl := Option.some.inj (hself.symm.trans hl)
      exact SlidingWindowRateLimiter.bounded_perform (h (.passed ref) _ rfl) call
    · exact h τ l (hother τ hne ▸ hl)

/-- The limiter of the slot, of which the client's times are among `times`. -/
def Waits (σ : LimiterSlot K Ref) (client : Units) (limit windowMs : ℚ) (times : List ℚ)
    (s : Limiters K Ref) : Prop :=
  ∃ l, s.limiterAt σ = some l ∧ l.limit = limit ∧ l.windowMs = windowMs ∧
    (l.hits client).Sublist times

/-- Until the client is admitted, its times are only pruned. -/
theorem waits_use {limit windowMs : ℚ} {times : List ℚ}
    (h : Waits σ client limit windowMs times s) {u : LimiterUse K Ref}
    (hspares : Spares σ client s u) :
    Waits σ client limit windowMs times (s.use u) := by
  obtain ⟨l, hl, hlimit, hwindow, hsub⟩ := h
  have hperform (call : SlidingWindowRateLimiter.Call)
      (hcall : SlidingWindowRateLimiter.Spares client l call)
      (hat : (s.use u).limiterAt σ = some (l.perform call).2) :
      Waits σ client limit windowMs times (s.use u) :=
    ⟨_, hat, by simpa, by simpa,
      (SlidingWindowRateLimiter.perform_hits_of_spares hcall).trans hsub⟩
  cases u with
  | guard x now later =>
    cases hcheck : s.check x now later with
    | error e =>
      have hsame : s.use (.guard x now later) = s := by rw [use_guard, hcheck]
      exact hsame.symm ▸ ⟨l, hl, hlimit, hwindow, hsub⟩
    | ok r =>
      obtain ⟨refusal, s'⟩ := r
      have huse : s.use (.guard x now later) = s' := by rw [use_guard, hcheck]
      rw [huse] at hperform ⊢
      rcases check_eq_ok hcheck with ⟨-, -, rfl⟩ | ⟨τ, l', hslot, hl', hself, hother, hrefusal⟩
      · exact ⟨l, hl, hlimit, hwindow, hsub⟩
      rcases eq_or_ne σ τ with rfl | hne
      · have hsame : l' = l := by
          rcases hl' with hl' | ⟨hnone, -⟩
          · exact Option.some.inj (hl'.symm.trans hl)
          · rw [hnone] at hl
            cases hl
        subst hsame
        refine hperform (.check x.client now) ⟨by simp, ?_⟩ hself
        rintro ts ⟨⟩
        have hnot : refusal ≠ none := fun hnone => hspares hslot rfl s' (hnone ▸ hcheck)
        rw [hrefusal] at hnot
        have hdenied : (l'.check x.client now).1.allowed = false := by simpa using hnot
        exact hdenied
      · exact ⟨l, (hother σ hne).trans hl, hlimit, hwindow, hsub⟩
  | direct ref call =>
    obtain ⟨hself, hother⟩ := limiterAt_passed s ref ((s.passed ref).perform call).2
    rcases eq_or_ne σ (.passed ref) with rfl | hne
    · obtain rfl : s.passed ref = l := Option.some.inj hl
      exact hperform call (hspares rfl) hself
    · exact ⟨l, (hother σ hne).trans hl, hlimit, hwindow, hsub⟩

/-! ## Waiting -/

/-- **A wait as long as the denial says**, with no admission of the client meanwhile. -/
theorem check_after_wait (hbounded : s.Bounded) {ms : ℚ}
    (h : s.check x now later = .ok (some ms, s')) {between : List (LimiterUse K Ref)}
    (hspared : ∀ σ ∈ x.slot, EachStep use (Spares σ x.client) s' between) {now' : ℚ}
    (hwait : later + ms ≤ now') (later' : ℚ) :
    ∃ s'', (run use s' between).check x now' later' = .ok (none, s'') := by
  obtain ⟨-, hnone, -⟩ | ⟨σ, l, hslot, hl, hself, -, hrefusal⟩ := check_eq_ok h
  · cases hnone
  have hl' : l.Bounded := by
    rcases hl with hl | ⟨-, config, -, hcreate⟩
    · exact hbounded σ l hl
    · exact SlidingWindowRateLimiter.bounded_create hcreate
  cases hallowed : (l.check x.client now).1.allowed with
  | true => simp [hallowed] at hrefusal
  | false =>
    simp only [hallowed, Bool.false_eq_true, if_false, Option.some.injEq] at hrefusal
    have hreset : (l.check x.client now).1.resetAt ≤ now' := by
      have hmax := le_max_right 0 ((l.check x.client now).1.resetAt - later)
      linarith
    obtain ⟨l₂, hl₂, hlimit, hwindow, hsub⟩ :
        Waits σ x.client l.limit l.windowMs ((l.check x.client now).2.hits x.client)
          (run use s' between) := by
      refine (always_of_eachStep (fun _ h => h) (fun _ _ h hu => waits_use h hu) ?_
        (hspared σ hslot)).last
      exact ⟨_, hself, by simp, by simp, List.Sublist.refl _⟩
    obtain ⟨refusal', s'', hcheck⟩ := exists_check_eq hslot hl₂ now' later'
    refine ⟨s'', ?_⟩
    obtain ⟨hnone, -⟩ | ⟨τ, l₃, hslot', hl₃, -, -, hrefusal'⟩ := check_eq_ok hcheck
    · rw [hslot] at hnone
      cases hnone
    obtain rfl : σ = τ := Option.some.inj (hslot.symm.trans hslot')
    obtain rfl : l₂ = l₃ := by
      rcases hl₃ with hl₃ | ⟨hnone, -⟩
      · exact Option.some.inj (hl₂.symm.trans hl₃)
      · rw [hnone] at hl₂
        cases hl₂
    have hroom := SlidingWindowRateLimiter.length_recent_lt_limit hl' hallowed hreset hsub
    obtain ⟨hfull, -, -⟩ | ⟨-, hadmitted, -⟩ :=
      SlidingWindowRateLimiter.check_hits_cases l₂ x.client now'
    · rw [hlimit, hwindow] at hfull
      exact absurd hfull (not_le.2 hroom)
    · rw [hcheck, hrefusal', hadmitted, if_pos rfl]

end Limiters

end Resilience.TypeScript
