import Resilience.Foundations.Doubles
import Resilience.TypeScript.LimiterUses

/-!
# Limiters in double precision

The clock readings and windows of a program may be multiples of one power of two, as whole
milliseconds are. The differences and sums that a limiter forms are doubles then, so that it answers
as it does on exact numbers: in one check (`checkIn_double`), in a run of calls (`afterIn_double`),
and in a run of uses of all the limiters of the guards (`run_useIn_double`).
-/

namespace Resilience.TypeScript

open Json SlidingWindow Runs

variable {k : ℤ}

namespace SlidingWindowRateLimiter

structure OnGrid (k : ℤ) (l : SlidingWindowRateLimiter) : Prop where
  windowMs : Measured k l.windowMs
  hits : ∀ key, ∀ t ∈ l.hits key, Measured k t

/-- The call reads the clock on the grid. -/
def Call.OnGrid (k : ℤ) (call : Call) : Prop := ∀ ts ∈ call.reading, Measured k ts

variable {l : SlidingWindowRateLimiter} {key : Units} {ts : ℚ} {calls : List Call}

theorem onGrid_create {options : RateLimitOptions} (h : create options = .ok l)
    (hwindow : Measured k options.windowMs) : l.OnGrid k := by
  obtain ⟨-, heq, hhits⟩ := create_eq_ok h
  exact ⟨heq ▸ hwindow, fun key => by simp [hhits]⟩

/-! ## One call -/

/-- The oldest of the times that count is on the grid, or the reading is the oldest. -/
theorem measured_oldest (h : l.OnGrid k) (hts : Measured k ts) (key : Units) {times : List ℚ}
    (htimes : ∀ t ∈ times, t ∈ l.hits key ∨ t = ts) :
    Measured k (times.head?.getD ts) := by
  cases times with
  | nil => exact hts
  | cons t times =>
    rcases htimes t (List.mem_cons_self ..) with ht | rfl
    · exact h.hits key t ht
    · exact hts

theorem grid_resetAt (h : l.OnGrid k) (hts : Measured k ts) (key : Units) :
    Grid k (2 ^ 51 + 2 ^ 51) (l.check key ts).1.resetAt := by
  unfold check checkIn
  dsimp only [id]
  split_ifs
  · refine Grid.add (measured_oldest h hts key fun t ht => ?_) h.windowMs
    exact .inl (List.mem_of_mem_filter ht)
  · refine Grid.add (measured_oldest h hts key fun t ht => ?_) h.windowMs
    rcases List.mem_append.1 ht with ht | ht
    · exact .inl (List.mem_of_mem_filter ht)
    · exact .inr (List.mem_singleton.1 ht)

/-- A check in doubles admits as the exact one does, gives the same `resetAt`, and leaves the same
limiter. -/
theorem checkIn_double (h : l.OnGrid k) (hts : Measured k ts) (key : Units) :
    (l.checkIn double key ts).1.allowed = (l.check key ts).1.allowed ∧
      (l.checkIn double key ts).1.resetAt = (l.check key ts).1.resetAt ∧
      (l.checkIn double key ts).2 = (l.check key ts).2 := by
  have hreset := (grid_resetAt h hts key).double_eq (by norm_num)
  unfold check checkIn at hreset ⊢
  dsimp only [id] at hreset ⊢
  rw [hts.double_sub h.windowMs]
  split_ifs at hreset ⊢
  · exact ⟨rfl, hreset, rfl⟩
  · exact ⟨rfl, hreset, rfl⟩

theorem onGrid_check (h : l.OnGrid k) (hts : Measured k ts) (key : Units) :
    (l.check key ts).2.OnGrid k := by
  refine ⟨?_, fun key' t ht => ?_⟩
  · rw [check_windowMs]
    exact h.windowMs
  rcases eq_or_ne key' key with rfl | hne
  · rcases check_hits_cases l key' ts with ⟨-, -, heq⟩ | ⟨-, -, heq⟩
    · rw [heq] at ht
      exact h.hits key' t (List.mem_of_mem_filter ht)
    · rw [heq] at ht
      rcases List.mem_append.1 ht with ht | ht
      · exact h.hits key' t (List.mem_of_mem_filter ht)
      · exact List.mem_singleton.1 ht ▸ hts
  · rw [check_hits_of_ne hne] at ht
    exact h.hits key' t ht

theorem performIn_double (h : l.OnGrid k) {call : Call} (hcall : call.OnGrid k) :
    (l.performIn double call).2 = (l.perform call).2 := by
  cases call with
  | check key ts => exact (checkIn_double h (hcall ts rfl) key).2.2
  | reset key => rfl
  | sweep now =>
    unfold perform performIn sweepIn
    dsimp only [id]
    rw [(hcall now rfl).double_sub h.windowMs]

theorem onGrid_perform (h : l.OnGrid k) {call : Call} (hcall : call.OnGrid k) :
    (l.perform call).2.OnGrid k := by
  refine ⟨perform_windowMs l call ▸ h.windowMs, fun key t ht => ?_⟩
  obtain hsub | ⟨ts, rfl, -, -, -⟩ := perform_hits_cases l call key
  · exact h.hits key t (hsub.subset ht)
  · exact (onGrid_check h (hcall ts rfl) key).hits key t ht

/-! ## Runs -/

/-- **A run of calls** in doubles is the exact one. -/
theorem afterIn_double (h : l.OnGrid k) (hcalls : ∀ call ∈ calls, call.OnGrid k) :
    l.afterIn double calls = l.after calls ∧ (l.after calls).OnGrid k := by
  unfold after afterIn
  exact run_of_agree (I := OnGrid k) (A := Call.OnGrid k)
    (fun _ _ h hcall => onGrid_perform h hcall)
    (fun _ _ h hcall => performIn_double h hcall) h hcalls

theorem sparesIn_double (h : l.OnGrid k) {call : Call} (hcall : call.OnGrid k)
    (hspares : SparesIn double key l call) : Spares key l call := by
  refine ⟨hspares.1, fun ts heq => ?_⟩
  subst heq
  exact (checkIn_double h (hcall ts rfl) key).1.symm.trans (hspares.2 ts rfl)

end SlidingWindowRateLimiter

/-! ## The limiters of the guards -/

/-- The window that a guard would make a limiter with is on the grid. -/
def Limiting.OnGrid {K Ref : Type} (k : ℤ) (x : Limiting K Ref) : Prop :=
  ∀ config ∈ x.rateLimit, Measured k config.windowMs

def LimiterUse.OnGrid {K Ref : Type} (k : ℤ) : LimiterUse K Ref → Prop
  | .guard x now later => x.OnGrid k ∧ Measured k now ∧ Measured k later
  | .direct _ call => call.OnGrid k

namespace Limiters

variable {K Ref : Type}

def OnGrid (k : ℤ) (s : Limiters K Ref) : Prop := ∀ σ l, s.limiterAt σ = some l → l.OnGrid k

theorem onGrid_new {s : Limiters K Ref} (h : s.New)
    (hwindow : ∀ ref, Measured k (s.passed ref).windowMs) : s.OnGrid k := by
  rintro (key | ref) l hl
  · rw [limiterAt, h.registry] at hl
    cases hl
  · obtain ⟨options, hcreate⟩ := h.passed ref
    obtain rfl : s.passed ref = l := Option.some.inj hl
    refine SlidingWindowRateLimiter.onGrid_create hcreate ?_
    exact (SlidingWindowRateLimiter.create_eq_ok hcreate).2.1 ▸ hwindow ref

variable [DecidableEq K] [DecidableEq Ref] {s s' : Limiters K Ref} {x : Limiting K Ref}
  {now later : ℚ} {refusal : Option ℚ}

/-- The limiter that a guard finds or makes is on the grid. -/
theorem onGrid_resolve (h : s.OnGrid k) (hx : x.OnGrid k) {l : SlidingWindowRateLimiter}
    {put : SlidingWindowRateLimiter → Limiters K Ref}
    (hresolve : s.resolve x.key x.limiter x.rateLimit = .ok (some (l, put))) : l.OnGrid k := by
  rcases resolve_eq_ok hresolve with
    ⟨ref, -, heq⟩ | ⟨-, -, hnone⟩ | ⟨config, l', -, hconfig, hfound, heq⟩
  · cases heq
    exact h (.passed ref) _ rfl
  · cases hnone
  · cases heq
    rcases hfound with hl | ⟨-, hcreate⟩
    · exact h (.registered x.key) l hl
    · exact SlidingWindowRateLimiter.onGrid_create hcreate (hx config hconfig)

/-- **A check by a guard** in doubles is the exact one. -/
theorem checkIn_double (h : s.OnGrid k) (hx : x.OnGrid k) (hnow : Measured k now)
    (hlater : Measured k later) :
    s.checkIn double x now later = s.check x now later := by
  unfold check checkIn checkLimitIn
  cases hresolve : s.resolve x.key x.limiter x.rateLimit with
  | error e => rfl
  | ok r =>
    obtain _ | ⟨l, put⟩ := r
    · rfl
    have hl : l.OnGrid k := onGrid_resolve h hx hresolve
    obtain ⟨hallowed, hreset, hstate⟩ :=
      SlidingWindowRateLimiter.checkIn_double hl hnow x.client
    have hwait := (Grid.sub (SlidingWindowRateLimiter.grid_resetAt hl hnow x.client)
      hlater).double_eq (by norm_num)
    change (if (l.checkIn double x.client now).1.allowed then
        Except.ok (none, put (l.checkIn double x.client now).2)
      else .ok (some (max 0 (double ((l.checkIn double x.client now).1.resetAt - later))),
        put (l.checkIn double x.client now).2)) = _
    rw [hallowed, hreset, hstate, hwait]
    rfl

theorem onGrid_check (h : s.OnGrid k) (hx : x.OnGrid k) (hnow : Measured k now)
    (hcheck : s.check x now later = .ok (refusal, s')) : s'.OnGrid k := by
  rcases check_eq_ok hcheck with ⟨-, -, rfl⟩ | ⟨σ, l, hslot, hl, hself, hother, -⟩
  · exact h
  intro τ l' hl'
  rcases eq_or_ne τ σ with rfl | hne
  · obtain rfl : (l.check x.client now).2 = l' := Option.some.inj (hself.symm.trans hl')
    have hgrid : l.OnGrid k := by
      rcases hl with hl | ⟨-, config, hconfig, hcreate⟩
      · exact h τ l hl
      · exact SlidingWindowRateLimiter.onGrid_create hcreate (hx config hconfig)
    exact SlidingWindowRateLimiter.onGrid_check hgrid hnow x.client
  · exact h τ l' (hother τ hne ▸ hl')

theorem useIn_double (h : s.OnGrid k) {u : LimiterUse K Ref} (hu : u.OnGrid k) :
    s.useIn double u = s.use u := by
  cases u with
  | guard x now later =>
    rw [use_guard, useIn, checkIn_double h hu.1 hu.2.1 hu.2.2]
  | direct ref call =>
    rw [useIn, SlidingWindowRateLimiter.performIn_double (h (.passed ref) _ rfl) hu]
    rfl

theorem onGrid_use (h : s.OnGrid k) {u : LimiterUse K Ref} (hu : u.OnGrid k) :
    (s.use u).OnGrid k := by
  cases u with
  | guard x now later =>
    rw [use_guard]
    split
    · exact onGrid_check h hu.1 hu.2.1 ‹_›
    · exact h
  | direct ref call =>
    intro τ l hl
    obtain ⟨hself, hother⟩ := limiterAt_passed s ref ((s.passed ref).perform call).2
    rcases eq_or_ne τ (.passed ref) with rfl | hne
    · obtain rfl := Option.some.inj (hself.symm.trans hl)
      exact SlidingWindowRateLimiter.onGrid_perform (h (.passed ref) _ rfl) hu
    · exact h τ l (hother τ hne ▸ hl)

/-- **A run of uses** in doubles is the exact one. -/
theorem run_useIn_double (h : s.OnGrid k) {uses : List (LimiterUse K Ref)}
    (huses : ∀ u ∈ uses, u.OnGrid k) :
    run (useIn double) s uses = run use s uses ∧ (run use s uses).OnGrid k :=
  run_of_agree (I := OnGrid k) (A := LimiterUse.OnGrid k) (fun _ _ h hu => onGrid_use h hu)
    (fun _ _ h hu => useIn_double h hu) h huses

theorem sparesIn_double (h : s.OnGrid k) {u : LimiterUse K Ref} (hu : u.OnGrid k)
    {σ : LimiterSlot K Ref} {client : Units} (hspares : SparesIn double σ client s u) :
    Spares σ client s u := by
  cases u with
  | guard x now later =>
    intro hslot hclient s' hcheck
    refine hspares hslot hclient s' ?_
    rw [checkIn_double h hu.1 hu.2.1 hu.2.2]
    exact hcheck
  | direct ref call =>
    exact fun hσ => SlidingWindowRateLimiter.sparesIn_double (h (.passed ref) _ rfl) hu (hspares hσ)

end Limiters

end Resilience.TypeScript
