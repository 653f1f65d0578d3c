import Mathlib.Data.List.Flatten
import Resilience.Foundations.Interaction
import Resilience.Tiered.Resolvers

/-!
# Tiered resolvers that report failures

`resolveTiered` and `resolve_tiered` with the calls that they make: of the tiers, and of the
callback for failures, which may throw. What the tiers do is given, as in
`Tiered.TypeScript.resolveTiered` and `Tiered.Python.resolveTiered`, and those are refined: as long
as the callback returns, the result is theirs, and every failure is reported before the next tier is
called (`follows_python`, `follows_typescript`).

Where the callback throws, the two differ. In Python that ends the call. In TypeScript the `try`
around the cache is still open when a miss or an age over the hard limit is reported, so what the
callback throws there is one more failure of the cache, and is reported in turn.
-/

namespace Resilience.Tiered.Reporting

variable {ε V α : Type}

inductive Request (ε α : Type)
  | tier (tier : SourceTier)
  | onFailure (failure : TierFailure ε α)

abbrev Answer {ε α : Type} : Request ε α → Type
  | .tier _ => Unit
  | .onFailure _ => Except ε Unit

inductive Thrown (ε α : Type)
  | raised (e : ε)
  | allTiersFailed (failures : List (TierFailure ε α))

abbrev Resolver (ε α β : Type) := ExceptT (Thrown ε α) (Prog (Request ε α) Answer) β

abbrev Trace (ε α : Type) := List (Prog.Event (Request ε α) Answer)

def call (tier : SourceTier) : Resolver ε α Unit := perform (.tier tier) .ok

/-- The callback, if there is one, is told of a failure. -/
def report (onFailure : Bool) (failure : TierFailure ε α) : Resolver ε α (Except ε Unit) :=
  if onFailure then perform (.onFailure failure) .ok else pure (.ok ())

/-- `fail`, where nothing catches what the callback throws. -/
def fail (onFailure : Bool) (failures : List (TierFailure ε α)) (failure : TierFailure ε α) :
    Resolver ε α (List (TierFailure ε α)) := do
  match ← report onFailure failure with
  | .ok _ => return failures ++ [failure]
  | .error e => throw (.raised e)

/-! ## TypeScript -/

namespace TypeScript

open Tiered.TypeScript

variable (onFailure : Bool) (options : TieredSourceOptions ε V) (now : ℤ)

def afterCache (failures : List (TierFailure ε ℕ)) : Resolver ε ℕ (TieredResult ε V ℕ) :=
  match options.mock with
  | none => throw (.allTiersFailed failures)
  | some mock => do
    call .mock
    match mock with
    | .ok value => return {
        value, tier := .mock, degraded := true, stale := false, age := none, failures
        badge := makeBadge .mock false none }
    | .error e => throw (.allTiersFailed (← fail onFailure failures ⟨.mock, .thrown e⟩))

def afterLive (failures : List (TierFailure ε ℕ)) : Resolver ε ℕ (TieredResult ε V ℕ) :=
  match options.cache with
  | none => afterCache onFailure options failures
  | some cache => do
    call .cache
    match cache with
    | .error e => afterCache onFailure options (← fail onFailure failures ⟨.cache, .thrown e⟩)
    | .ok hit =>
      match ofHit options now hit with
      | .ok (value, ageMs) =>
        let stale := ageMs.any fun age : ℕ => options.maxCacheAge.lt (.finite age)
        return {
          value, tier := .cache, degraded := true, stale, age := ageMs, failures
          badge := makeBadge .cache stale ageMs }
      | .error error =>
        match ← report onFailure ⟨.cache, error⟩ with
        | .ok _ => afterCache onFailure options (failures ++ [⟨.cache, error⟩])
        | .error e =>
          -- The callback has thrown inside the `try` of the cache.
          afterCache onFailure options
            (← fail onFailure (failures ++ [⟨.cache, error⟩]) ⟨.cache, .thrown e⟩)

/-- `resolveTiered`; `now` is what `Date.now()` says. -/
def resolveTiered : Resolver ε ℕ (TieredResult ε V ℕ) := do
  call .live
  match options.live with
  | .ok value => return {
      value, tier := .live, degraded := false, stale := false, age := none, failures := []
      badge := makeBadge .live false none }
  | .error e => afterLive onFailure options now (← fail onFailure [] ⟨.live, .thrown e⟩)

end TypeScript

/-! ## Python -/

namespace Python

open Tiered.Python

variable (onFailure : Bool) (args : Arguments ε V) (now : ℚ)

def fromMock (failures : List (TierFailure ε ℚ)) : Resolver ε ℚ (TieredResult ε V ℚ) :=
  match args.mock with
  | none => throw (.allTiersFailed failures)
  | some mock => do
    call .mock
    match mock with
    | .error e => throw (.allTiersFailed (← fail onFailure failures ⟨.mock, .thrown e⟩))
    | .ok value => return {
        value, tier := .mock, degraded := true, stale := false, age := none, failures
        badge := badge .mock false none }

/-- `resolve_tiered`; `now` is what `time.time()` says. -/
def resolveTiered : Resolver ε ℚ (TieredResult ε V ℚ) := do
  call .live
  match args.live with
  | .ok value => return {
      value, tier := .live, degraded := false, stale := false, age := none, failures := []
      badge := badge .live false none }
  | .error e =>
    let failures ← fail onFailure [] ⟨.live, .thrown e⟩
    match args.cache with
    | none => fromMock onFailure args failures
    | some cache =>
      call .cache
      match fromCache args now cache with
      | .error error => fromMock onFailure args (← fail onFailure failures ⟨.cache, error⟩)
      | .ok (value, age) =>
        let stale := age.any fun age => args.maxCacheAge.lt (.finite age)
        return {
          value, tier := .cache, degraded := true, stale, age, failures
          badge := badge .cache stale age }

end Python

/-! ## The calls that a result stands for -/

section Course

variable (onFailure : Bool) (inTry : TierFailure ε α → Bool) (thrown : Option ε)

/-- The failures that reporting a failure adds, where `inTry` says whether the report is inside the
`try` of the cache, and `thrown` is what the callback throws there. -/
def again (f : TierFailure ε α) : List (TierFailure ε α) :=
  if inTry f then (thrown.map fun e => ⟨.cache, .thrown e⟩).toList else []

/-- The failures with those that reporting them adds. -/
def expand (failures : List (TierFailure ε α)) : List (TierFailure ε α) :=
  failures.flatMap fun f => f :: again inTry thrown f

/-- The calls for a failure: of the tier, and of the callback for it and what that adds. -/
def callsFor (f : TierFailure ε α) : List (Request ε α) :=
  .tier f.tier :: if onFailure then (f :: again inTry thrown f).map .onFailure else []

def calls (failures : List (TierFailure ε α)) : List (Request ε α) :=
  failures.flatMap (callsFor onFailure inTry thrown)

/-- The calls for a result: those for its failures, and then of the tier that it is from. -/
def course : Except (List (TierFailure ε α)) (TieredResult ε V α) → List (Request ε α)
  | .ok result => calls onFailure inTry thrown result.failures ++ [.tier result.tier]
  | .error failures => calls onFailure inTry thrown failures

/-- A result with the failures that reporting adds. -/
def outcome : Except (List (TierFailure ε α)) (TieredResult ε V α) →
    Except (Thrown ε α) (TieredResult ε V α)
  | .ok result => .ok { result with failures := expand inTry thrown result.failures }
  | .error failures => .error (.allTiersFailed (expand inTry thrown failures))

/-- If the callback throws, it is `thrown` and inside the `try`. -/
def Caught (ev : Prog.Event (Request ε α) Answer) : Prop :=
  ∀ f e, ev = ⟨.onFailure f, .error e⟩ → inTry f ∧ thrown = some e

/-- After the calls for the failures `before`, the trace goes on as the result `plain` says; or up
to a callback that throws outside the `try`, and then that is thrown. -/
def Follows (before : List (TierFailure ε α))
    (plain : Except (List (TierFailure ε α)) (TieredResult ε V α)) (t : Trace ε α)
    (r : Except (Thrown ε α) (TieredResult ε V α)) : Prop :=
  (calls onFailure inTry thrown before ++ t.map Sigma.fst = course onFailure inTry thrown plain ∧
      r = outcome inTry thrown plain ∧ ∀ ev ∈ t, Caught inTry thrown ev) ∨
    ∃ t' f e, t = t' ++ [⟨.onFailure f, .error e⟩] ∧
      calls onFailure inTry thrown before ++ t.map Sigma.fst <+:
        course onFailure inTry thrown plain ∧
      r = .error (.raised e) ∧ (∀ ev ∈ t', Caught inTry thrown ev) ∧ inTry f = false

end Course

section Follows

variable {onFailure : Bool} {inTry : TierFailure ε α → Bool} {thrown : Option ε}
  {before : List (TierFailure ε α)} {f : TierFailure ε α}
  {plain : Except (List (TierFailure ε α)) (TieredResult ε V α)} {t : Trace ε α}
  {r : Except (Thrown ε α) (TieredResult ε V α)}

@[simp] theorem calls_nil : calls onFailure inTry thrown [] = [] := rfl

@[simp] theorem calls_append (fs fs' : List (TierFailure ε α)) :
    calls onFailure inTry thrown (fs ++ fs') =
      calls onFailure inTry thrown fs ++ calls onFailure inTry thrown fs' := List.flatMap_append

theorem calls_prefix_of_append {fs fs' : List (TierFailure ε α)} {l : List (Request ε α)}
    (h : calls onFailure inTry thrown (fs ++ fs') <+: l) :
    calls onFailure inTry thrown fs <+: l := by
  rw [calls_append] at h
  exact (List.prefix_append ..).trans h

@[simp] theorem calls_singleton : calls onFailure inTry thrown [f] =
    callsFor onFailure inTry thrown f := List.flatMap_singleton ..

@[simp] theorem expand_append (fs fs' : List (TierFailure ε α)) :
    expand inTry thrown (fs ++ fs') = expand inTry thrown fs ++ expand inTry thrown fs' :=
  List.flatMap_append

@[simp] theorem expand_singleton : expand inTry thrown [f] = f :: again inTry thrown f :=
  List.flatMap_singleton ..

theorem again_of_not (h : inTry f = false) : again inTry thrown f = [] := by
  rw [again, h]
  rfl

theorem again_of (h : inTry f = true) (e : ε) : again inTry (some e) f = [⟨.cache, .thrown e⟩] := by
  rw [again, h]
  rfl

theorem caught_tier (tier : SourceTier) (r : Answer (.tier tier : Request ε α)) :
    Caught inTry thrown ⟨.tier tier, r⟩ := by
  intro f e h
  cases h

theorem caught_ok (f : TierFailure ε α) : Caught inTry thrown ⟨.onFailure f, .ok ()⟩ := by
  intro f e h
  cases h

theorem caught_error (f : TierFailure ε α) (e : ε) :
    Caught inTry thrown ⟨.onFailure f, .error e⟩ ↔ inTry f ∧ thrown = some e := by
  constructor
  · exact fun h => h f e rfl
  · rintro h f e ⟨⟩
    exact h

/-- All tiers have failed. -/
theorem follows_failed
    (hr : r = outcome inTry thrown (.error before : Except _ (TieredResult ε V α))) :
    Follows onFailure inTry thrown before (.error before) [] r :=
  .inl ⟨List.append_nil _, hr, by simp⟩

/-- The result is from the tier that is called. -/
theorem follows_resolved {result : TieredResult ε V α} {tier : SourceTier}
    (htier : result.tier = tier) (hfailures : result.failures = before)
    (hr : r = outcome inTry thrown (.ok result)) :
    Follows onFailure inTry thrown before (.ok result) [⟨.tier tier, ()⟩] r := by
  refine .inl ⟨?_, hr, by simpa using caught_tier tier ()⟩
  rw [course, hfailures, htier]
  rfl

/-- The calls for one more failure are made. -/
theorem Follows.step {t₁ : Trace ε α} (h : Follows onFailure inTry thrown (before ++ [f]) plain t r)
    (hcalls : t₁.map Sigma.fst = callsFor onFailure inTry thrown f)
    (hcaught : ∀ ev ∈ t₁, Caught inTry thrown ev) :
    Follows onFailure inTry thrown before plain (t₁ ++ t) r := by
  have heq : calls onFailure inTry thrown before ++ (t₁ ++ t).map Sigma.fst =
      calls onFailure inTry thrown (before ++ [f]) ++ t.map Sigma.fst := by
    rw [List.map_append, hcalls, calls_append, calls_singleton, List.append_assoc]
  rcases h with ⟨ht, hr, hall⟩ | ⟨t', g, e, rfl, ht, hr, hall, hout⟩
  · exact .inl ⟨heq.trans ht, hr, List.forall_mem_append.2 ⟨hcaught, hall⟩⟩
  · refine .inr ⟨t₁ ++ t', g, e, (List.append_assoc ..).symm, ?_, hr,
      List.forall_mem_append.2 ⟨hcaught, hall⟩, hout⟩
    rwa [heq]

/-- What the callback throws inside the `try` is `thrown`. -/
theorem Follows.thrown_eq {e : ε} (h : Follows onFailure inTry thrown before plain t r)
    (hin : inTry f = true) (hmem : ⟨.onFailure f, .error e⟩ ∈ t) : thrown = some e := by
  rcases h with ⟨-, -, hall⟩ | ⟨t', g, e', rfl, -, -, hall, hout⟩
  · exact (hall _ hmem f e rfl).2
  · rcases List.mem_append.1 hmem with hmem | hmem
    · exact (hall _ hmem f e rfl).2
    · cases List.mem_singleton.1 hmem
      exact absurd (hin.symm.trans hout) (Bool.noConfusion)

/-- The callback throws, at the last of the calls for a failure. -/
theorem Follows.stop {t₁ : Trace ε α} {g : TierFailure ε α} {e : ε}
    (hcalls : t₁.map Sigma.fst ++ [.onFailure g] <+: callsFor onFailure inTry thrown f)
    (hcaught : ∀ ev ∈ t₁, Caught inTry thrown ev)
    (hout : inTry g = false)
    (hplain :
      calls onFailure inTry thrown (before ++ [f]) <+: course onFailure inTry thrown plain) :
    Follows onFailure inTry thrown before plain (t₁ ++ [⟨.onFailure g, .error e⟩])
      (.error (.raised e)) := by
  refine .inr ⟨t₁, g, e, rfl, ?_, rfl, hcaught, hout⟩
  refine List.IsPrefix.trans ?_ hplain
  rw [List.map_append, calls_append, calls_singleton]
  exact (List.prefix_append_right_inj _).2 hcalls

/-! ## Calls in a run -/

theorem runs_call_bind {tier : SourceTier} {g : Unit → Resolver ε α (TieredResult ε V α)} :
    (call tier >>= g).run.Runs t r ↔
      ∃ t', t = ⟨.tier tier, ()⟩ :: t' ∧ (g ()).run.Runs t' r := by
  rw [call, runs_perform_bind]
  exact ⟨fun ⟨(), t', ht, h⟩ => ⟨t', ht, h⟩, fun ⟨t', ht, h⟩ => ⟨(), t', ht, h⟩⟩

theorem runs_report_bind {g : Except ε Unit → Resolver ε α (TieredResult ε V α)} :
    (report onFailure f >>= g).run.Runs t r ↔
      if onFailure then ∃ x t', t = ⟨.onFailure f, x⟩ :: t' ∧ (g x).run.Runs t' r
      else (g (.ok ())).run.Runs t r := by
  cases onFailure with
  | false => rfl
  | true => exact runs_perform_bind

/-- What is told of a failure that is reported outside the `try`. -/
def told (onFailure : Bool) (f : TierFailure ε α) : Trace ε α :=
  if onFailure then [⟨.onFailure f, .ok ()⟩] else []

theorem runs_fail_bind {fs : List (TierFailure ε α)}
    {g : List (TierFailure ε α) → Resolver ε α (TieredResult ε V α)} :
    (fail onFailure fs f >>= g).run.Runs t r ↔
      (∃ t', t = told onFailure f ++ t' ∧ (g (fs ++ [f])).run.Runs t' r) ∨
        onFailure = true ∧ ∃ e, t = [⟨.onFailure f, .error e⟩] ∧ r = .error (.raised e) := by
  rw [fail, bind_assoc, runs_report_bind]
  cases onFailure with
  | false =>
    simp only [told, Bool.false_eq_true, if_false, false_and, or_false, List.nil_append]
    exact ⟨fun h => ⟨t, rfl, h⟩, fun ⟨t', ht, h⟩ => ht ▸ h⟩
  | true =>
    simp only [told, if_true, true_and]
    constructor
    · rintro ⟨x, t', rfl, h⟩
      cases x with
      | ok _ => exact .inl ⟨t', rfl, h⟩
      | error e =>
        obtain ⟨rfl, rfl⟩ := h
        exact .inr ⟨e, rfl, rfl⟩
    · rintro (⟨t', rfl, h⟩ | ⟨e, rfl, rfl⟩)
      · exact ⟨.ok (), t', rfl, h⟩
      · exact ⟨.error e, [], rfl, rfl, rfl⟩

/-- A tier is called and fails, and what the callback throws is not caught. -/
theorem runs_fail_inv (f : TierFailure ε α) {fs : List (TierFailure ε α)}
    {g : List (TierFailure ε α) → Resolver ε α (TieredResult ε V α)} (hin : inTry f = false)
    (h : (call f.tier >>= fun _ => fail onFailure fs f >>= g).run.Runs t r) :
    (∃ t₁ t₂, t = t₁ ++ t₂ ∧ (g (fs ++ [f])).run.Runs t₂ r ∧ ∀ thrown before plain,
      Follows onFailure inTry thrown (before ++ [f]) plain t₂ r →
        Follows onFailure inTry thrown before plain t r) ∨
    ∀ thrown before plain, calls onFailure inTry thrown (before ++ [f]) <+:
      course onFailure inTry thrown plain → Follows onFailure inTry thrown before plain t r := by
  obtain ⟨t₁, rfl, hfail⟩ := runs_call_bind.1 h
  rcases runs_fail_bind.1 hfail with ⟨t₂, rfl, hrun⟩ | ⟨hreports, e, rfl, rfl⟩
  · refine .inl ⟨⟨.tier f.tier, ()⟩ :: told onFailure f, t₂, rfl, hrun, fun thrown _ _ hg => ?_⟩
    have hcalls : (⟨.tier f.tier, ()⟩ :: told onFailure f : Trace ε α).map Sigma.fst =
        callsFor onFailure inTry thrown f := by
      cases onFailure <;> simp [told, callsFor, again_of_not hin]
    have hcaught : ∀ ev ∈ (⟨.tier f.tier, ()⟩ :: told onFailure f : Trace ε α),
        Caught inTry thrown ev := by
      cases onFailure <;> simp [told, caught_tier, caught_ok]
    exact hg.step hcalls hcaught
  · refine .inr fun thrown _ _ hplain => ?_
    have hcalls : ([⟨.tier f.tier, ()⟩] : Trace ε α).map Sigma.fst ++ [.onFailure f] <+:
        callsFor onFailure inTry thrown f := by
      simp [callsFor, hreports, again_of_not hin]
    have hcaught : ∀ ev ∈ ([⟨.tier f.tier, ()⟩] : Trace ε α), Caught inTry thrown ev := by
      simp [caught_tier]
    exact Follows.stop hcalls hcaught hin hplain

theorem follows_fail (f : TierFailure ε α) {fs : List (TierFailure ε α)}
    {g : List (TierFailure ε α) → Resolver ε α (TieredResult ε V α)} (hin : inTry f = false)
    (hplain : calls onFailure inTry thrown (before ++ [f]) <+: course onFailure inTry thrown plain)
    (hg : ∀ t r, (g (fs ++ [f])).run.Runs t r →
      Follows onFailure inTry thrown (before ++ [f]) plain t r)
    (h : (call f.tier >>= fun _ => fail onFailure fs f >>= g).run.Runs t r) :
    Follows onFailure inTry thrown before plain t r := by
  rcases runs_fail_inv f hin h with ⟨_, t₂, -, hrun, hfollows⟩ | hfollows
  · exact hfollows thrown before plain (hg t₂ r hrun)
  · exact hfollows thrown before plain hplain

/-- A tier is called and fails, and what the callback throws is one more failure. -/
theorem follows_again {fs : List (TierFailure ε α)} {e : ε}
    {g : List (TierFailure ε α) → Resolver ε α (TieredResult ε V α)} (hreports : onFailure = true)
    (hin : inTry f = true) (hout : inTry ⟨.cache, .thrown e⟩ = false)
    (hplain : calls onFailure inTry (some e) (before ++ [f]) <+:
      course onFailure inTry (some e) plain)
    (hg : ∀ t r, (g (fs ++ [f] ++ [⟨.cache, .thrown e⟩])).run.Runs t r →
      Follows onFailure inTry (some e) (before ++ [f]) plain t r)
    (h : (fail onFailure (fs ++ [f]) ⟨.cache, .thrown e⟩ >>= g).run.Runs t r) :
    Follows onFailure inTry (some e) before plain
      (⟨.tier f.tier, ()⟩ :: ⟨.onFailure f, .error e⟩ :: t) r := by
  have hcaught : ∀ ev ∈ ([⟨.tier f.tier, ()⟩, ⟨.onFailure f, .error e⟩] : Trace ε α),
      Caught inTry (some e) ev := by
    simp [caught_tier, caught_error, hin]
  rcases runs_fail_bind.1 h with ⟨t₂, rfl, hrun⟩ | ⟨-, e', rfl, rfl⟩
  · have hcalls : (⟨.tier f.tier, ()⟩ :: ⟨.onFailure f, .error e⟩ ::
        told onFailure ⟨.cache, .thrown e⟩ : Trace ε α).map Sigma.fst =
          callsFor onFailure inTry (some e) f := by
      simp [told, callsFor, again_of hin, hreports]
    refine (hg t₂ r hrun).step hcalls ?_
    simpa [told, hreports, caught_ok] using hcaught
  · refine Follows.stop (f := f) ?_ hcaught hout hplain
    simp [callsFor, again_of hin, hreports]

/-- Where the callback throws nothing inside the `try`, nothing is added. -/
theorem expand_none (fs : List (TierFailure ε α)) : expand inTry none fs = fs := by
  have hagain : ∀ f : TierFailure ε α, again inTry none f = [] := by
    intro f
    unfold again
    split_ifs <;> rfl
  simp [expand, hagain]

theorem outcome_ok (result : TieredResult ε V α) :
    outcome inTry none (.ok result) = .ok result := by
  rw [outcome, expand_none]

theorem outcome_error (fs : List (TierFailure ε α)) :
    outcome inTry none (.error fs : Except _ (TieredResult ε V α)) =
      .error (.allTiersFailed fs) := by
  rw [outcome, expand_none]

end Follows

/-! ## The resolvers -/

namespace TypeScript

open Tiered.TypeScript

variable {onFailure : Bool} {options : TieredSourceOptions ε V} {now : ℤ} {t : Trace ε ℕ}
  {r : Except (Thrown ε ℕ) (TieredResult ε V ℕ)} {thrown : Option ε}

/-- A miss and an age over the hard limit are reported inside the `try` of the cache. -/
def inTry : TierFailure ε ℕ → Bool
  | ⟨.cache, .cacheMiss⟩ | ⟨.cache, .exceedsHardLimit _ _⟩ => true
  | _ => false

variable (onFailure options thrown) in
theorem calls_prefix_afterCache (failures : List (TierFailure ε ℕ)) :
    calls onFailure inTry thrown failures <+:
      course onFailure inTry thrown (resolveTiered.afterCache options failures) := by
  unfold resolveTiered.afterCache
  rcases options.mock with _ | e | value
  · exact List.prefix_rfl
  · rw [course, calls_append]
    exact List.prefix_append ..
  · exact List.prefix_append ..

theorem follows_afterCache {failures : List (TierFailure ε ℕ)}
    (h : (afterCache onFailure options (expand inTry thrown failures)).run.Runs t r) :
    Follows onFailure inTry thrown failures (resolveTiered.afterCache options failures) t r := by
  unfold afterCache at h
  unfold resolveTiered.afterCache
  rcases hmock : options.mock with _ | e | value <;> simp only [hmock] at h ⊢
  · obtain ⟨rfl, rfl⟩ := h
    exact follows_failed rfl
  · refine follows_fail ⟨.mock, .thrown e⟩ rfl List.prefix_rfl (fun t r h => ?_) h
    obtain ⟨rfl, rfl⟩ := h
    refine follows_failed ?_
    rw [outcome, expand_append, expand_singleton, again_of_not rfl]
  · obtain ⟨t', rfl, rfl, rfl⟩ := runs_call_bind.1 h
    exact follows_resolved rfl rfl rfl

/-- What a hit fails with is reported inside the `try`. -/
theorem inTry_of_ofHit {hit : Hit V} {error : TierError ε ℕ}
    (h : ofHit options now hit = .error error) : inTry ⟨.cache, error⟩ = true := by
  have hcheck : ∀ value age, checkHard options value age = .error error →
      inTry ⟨.cache, error⟩ = true := by
    intro value age h
    unfold checkHard at h
    split at h
    · split_ifs at h
      cases h
      rfl
    · cases h
  cases hit with
  | null | undefined =>
    cases h
    rfl
  | bare value => exact hcheck _ _ h
  | cached value cachedAt => exact hcheck _ _ h

variable (onFailure options now thrown) in
theorem calls_prefix_afterLive (failures : List (TierFailure ε ℕ)) :
    calls onFailure inTry thrown failures <+:
      course onFailure inTry thrown (resolveTiered.afterLive options now failures) := by
  unfold resolveTiered.afterLive
  rcases options.cache with _ | cache
  · exact calls_prefix_afterCache ..
  · rcases hcache : fromCache options now cache with error | ⟨value, age⟩ <;> simp only [hcache]
    · exact calls_prefix_of_append (calls_prefix_afterCache ..)
    · exact List.prefix_append ..

/-- What the callback throws inside the `try` is thrown there. -/
def ThrownIn (t : Trace ε ℕ) (e : ε) : Prop :=
  ∃ f, inTry f = true ∧ ⟨.onFailure f, .error e⟩ ∈ t

theorem follows_afterLive {failures : List (TierFailure ε ℕ)}
    (hfailures : ∀ thrown, expand inTry thrown failures = failures)
    (h : (afterLive onFailure options now failures).run.Runs t r) :
    ∃ thrown, (∀ e, thrown = some e → ThrownIn t e) ∧
      Follows onFailure inTry thrown failures (resolveTiered.afterLive options now failures)
        t r := by
  unfold afterLive at h
  unfold resolveTiered.afterLive
  have hafter : ∀ {fs t r}, (afterCache onFailure options fs).run.Runs t r →
      Follows onFailure inTry none fs (resolveTiered.afterCache options fs) t r :=
    fun h => follows_afterCache (by rwa [expand_none])
  rcases hcache : options.cache with _ | e | hit <;> simp only [hcache] at h ⊢
  · exact ⟨none, by simp, hafter h⟩
  · exact ⟨none, by simp, follows_fail ⟨.cache, .thrown e⟩ rfl (calls_prefix_afterCache ..)
      (fun t r h => hafter h) h⟩
  · rcases hhit : ofHit options now hit with error | ⟨value, age⟩ <;>
      simp only [fromCache, hhit] at h ⊢
    · have hin := inTry_of_ofHit hhit
      obtain ⟨t, rfl, hreport⟩ := runs_call_bind.1 h
      have hagain : again inTry none ⟨.cache, error⟩ = [] := by simp [again, hin]
      rw [runs_report_bind] at hreport
      split_ifs at hreport with hreports
      · obtain ⟨x, t, rfl, hrun⟩ := hreport
        cases x with
        | ok _ =>
          have hcalls : ([⟨.tier .cache, ()⟩, ⟨.onFailure ⟨.cache, error⟩, .ok ()⟩] : Trace ε ℕ).map
              Sigma.fst = callsFor onFailure inTry none ⟨.cache, error⟩ := by
            simp [callsFor, hreports, hagain]
          refine ⟨none, by simp, (hafter hrun).step hcalls ?_⟩
          simp [caught_tier, caught_ok]
        | error e =>
          refine ⟨some e, ?_, follows_again hreports hin rfl (calls_prefix_afterCache ..) ?_ hrun⟩
          · rintro e ⟨⟩
            exact ⟨_, hin, by simp⟩
          · intro t r h
            refine follows_afterCache ?_
            rw [expand_append, hfailures, expand_singleton, again_of hin]
            simpa using h
      · have hcalls : ([⟨.tier .cache, ()⟩] : Trace ε ℕ).map Sigma.fst =
            callsFor onFailure inTry none ⟨.cache, error⟩ := by
          simp [callsFor, hreports]
        exact ⟨none, by simp, (hafter hreport).step hcalls (by simp [caught_tier])⟩
    · obtain ⟨t', rfl, rfl, rfl⟩ := runs_call_bind.1 h
      exact ⟨none, by simp, follows_resolved rfl rfl (outcome_ok _).symm⟩

/-- **A resolver in TypeScript that reports failures**: its calls are those for the result that
`resolveTiered` has without a callback, where what the callback throws inside the `try` of the cache
is one more failure, which is reported; or they end where the callback throws elsewhere. -/
theorem follows_typescript (h : (resolveTiered onFailure options now).run.Runs t r) :
    ∃ thrown, (∀ e, thrown = some e ↔ ThrownIn t e) ∧
      Follows onFailure inTry thrown [] (Tiered.TypeScript.resolveTiered options now) t r := by
  suffices ∃ thrown, (∀ e, thrown = some e → ThrownIn t e) ∧
      Follows onFailure inTry thrown [] (Tiered.TypeScript.resolveTiered options now) t r by
    obtain ⟨thrown, hthrown, hfollows⟩ := this
    refine ⟨thrown, fun e => ⟨hthrown e, ?_⟩, hfollows⟩
    rintro ⟨f, hin, hmem⟩
    exact hfollows.thrown_eq hin hmem
  unfold resolveTiered at h
  unfold Tiered.TypeScript.resolveTiered
  rcases hlive : options.live with e | value <;> simp only [hlive] at h ⊢
  · have hin : inTry (⟨.live, .thrown e⟩ : TierFailure ε ℕ) = false := rfl
    rcases runs_fail_inv ⟨.live, .thrown e⟩ hin h with ⟨t₁, t₂, rfl, hrun, hfollows⟩ | hfollows
    · obtain ⟨thrown, hthrown, hrest⟩ := follows_afterLive
        (fun thrown => by rw [List.nil_append, expand_singleton, again_of_not hin]) hrun
      refine ⟨thrown, fun e he => ?_, hfollows thrown [] _ hrest⟩
      obtain ⟨f, hf, hmem⟩ := hthrown e he
      exact ⟨f, hf, List.mem_append_right _ hmem⟩
    · exact ⟨none, by simp, hfollows none [] _ (calls_prefix_afterLive ..)⟩
  · obtain ⟨t', rfl, rfl, rfl⟩ := runs_call_bind.1 h
    exact ⟨none, by simp, follows_resolved rfl rfl (outcome_ok _).symm⟩

/-- The live tier fails and the cache has no entry. -/
def missing : TieredSourceOptions ℕ String where
  live := .error 1
  cache := some (.ok .null)
  mock := some (.ok "sample")

/-- The callback throws when it is told of the miss. -/
def missingTrace : Trace ℕ ℕ := [
  ⟨.tier .live, ()⟩, ⟨.onFailure ⟨.live, .thrown 1⟩, .ok ()⟩,
  ⟨.tier .cache, ()⟩, ⟨.onFailure ⟨.cache, .cacheMiss⟩, .error 2⟩,
  ⟨.onFailure ⟨.cache, .thrown 2⟩, .ok ()⟩, ⟨.tier .mock, ()⟩]

theorem runs_missing : ∃ r, (resolveTiered true missing 0).run.Runs missingTrace r :=
  ⟨_, .ask (.ask (.ask (.ask (.ask (.ask ⟨rfl, rfl⟩)))))⟩

theorem follows_typescript_missing : ∃ r thrown,
    (∀ e, thrown = some e ↔ ThrownIn missingTrace e) ∧
      Follows true inTry thrown [] (Tiered.TypeScript.resolveTiered missing 0) missingTrace r := by
  obtain ⟨r, h⟩ := runs_missing
  exact ⟨r, follows_typescript h⟩

end TypeScript

namespace Python

open Tiered.Python

variable {onFailure : Bool} {args : Arguments ε V} {now : ℚ} {t : Trace ε ℚ}
  {r : Except (Thrown ε ℚ) (TieredResult ε V ℚ)}

/-- In Python no report is inside a `try`. -/
def inTry (_ : TierFailure ε ℚ) : Bool := false

variable (onFailure args) in
theorem calls_prefix_fromMock (failures : List (TierFailure ε ℚ)) :
    calls onFailure inTry none failures <+:
      course onFailure inTry none (resolveTiered.fromMock args failures) := by
  unfold resolveTiered.fromMock
  rcases args.mock with _ | e | value
  · exact List.prefix_rfl
  · rw [course, calls_append]
    exact List.prefix_append ..
  · exact List.prefix_append ..

theorem follows_fromMock {failures : List (TierFailure ε ℚ)}
    (h : (fromMock onFailure args failures).run.Runs t r) :
    Follows onFailure inTry none failures (resolveTiered.fromMock args failures) t r := by
  unfold fromMock at h
  unfold resolveTiered.fromMock
  rcases hmock : args.mock with _ | e | value <;> simp only [hmock] at h ⊢
  · obtain ⟨rfl, rfl⟩ := h
    exact follows_failed (outcome_error failures).symm
  · refine follows_fail ⟨.mock, .thrown e⟩ rfl List.prefix_rfl (fun t r h => ?_) h
    obtain ⟨rfl, rfl⟩ := h
    exact follows_failed (outcome_error _).symm
  · obtain ⟨t', rfl, rfl, rfl⟩ := runs_call_bind.1 h
    exact follows_resolved rfl rfl (outcome_ok _).symm

/-- **A resolver in Python that reports failures**: its calls are those for the result that
`resolve_tiered` has without a callback, which it returns or raises; or they end where the callback
raises. -/
theorem follows_python (h : (resolveTiered onFailure args now).run.Runs t r) :
    Follows onFailure inTry none [] (Tiered.Python.resolveTiered args now) t r := by
  unfold resolveTiered at h
  unfold Tiered.Python.resolveTiered
  rcases hlive : args.live with e | value <;> simp only [hlive] at h ⊢
  · rcases hcache : args.cache with _ | cache <;> simp only [hcache] at h ⊢
    · exact follows_fail ⟨.live, .thrown e⟩ rfl (calls_prefix_fromMock ..)
        (fun t r h => follows_fromMock h) h
    · rcases hhit : fromCache args now cache with error | ⟨value, age⟩ <;> simp only [hhit] at h ⊢
      · have hplain := calls_prefix_fromMock onFailure args
          ([⟨.live, .thrown e⟩] ++ [⟨.cache, error⟩])
        refine follows_fail ⟨.live, .thrown e⟩ rfl (calls_prefix_of_append hplain)
          (fun t r h => ?_) h
        exact follows_fail ⟨.cache, error⟩ rfl hplain (fun t r h => follows_fromMock h) h
      · refine follows_fail ⟨.live, .thrown e⟩ rfl ?_ (fun t r h => ?_) h
        · exact List.prefix_append ..
        · obtain ⟨t', rfl, rfl, rfl⟩ := runs_call_bind.1 h
          exact follows_resolved rfl rfl (outcome_ok _).symm
  · obtain ⟨t', rfl, rfl, rfl⟩ := runs_call_bind.1 h
    exact follows_resolved rfl rfl (outcome_ok _).symm

/-- The live tier fails and the cache has no entry. -/
def missing : Arguments ℕ String where
  live := .error 1
  cache := some (.ok .miss)
  mock := some (.ok "sample")

/-- The callback raises when it is told of the miss. -/
def missingTrace : Trace ℕ ℚ := [
  ⟨.tier .live, ()⟩, ⟨.onFailure ⟨.live, .thrown 1⟩, .ok ()⟩,
  ⟨.tier .cache, ()⟩, ⟨.onFailure ⟨.cache, .cacheMiss⟩, .error 2⟩]

theorem runs_missing : (resolveTiered true missing 0).run.Runs missingTrace (.error (.raised 2)) :=
  .ask (.ask (.ask (.ask ⟨rfl, rfl⟩)))

theorem follows_python_missing :
    Follows true inTry none [] (Tiered.Python.resolveTiered missing 0) missingTrace
      (.error (.raised 2)) := follows_python runs_missing

end Python

end Resilience.Tiered.Reporting
