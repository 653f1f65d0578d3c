import Resilience.Forge.Resolver

/-!
# The tiers of a resolver

`createResolver` with hooks that do anything: they are absent, return any value, or throw.

The first tier that gives data is `firstTier`. The handler answers with it, unless the data are
falsy, and unless `fromCache` or `persist` throws, which it does not catch (`resolvesFirst_iff`).
-/

namespace Resilience.Forge

variable {S ρ δ β : Type}

/-! ## What the hooks give -/

/-- The call of a hook, if there is one. -/
def called (hook : Option (ρ → Async S (Option δ))) (request : ρ) : Async S (Option δ) :=
  match hook with
  | some f => f request
  | none => pure none

/-- What a hook gives: nothing where it throws. -/
def given (hook : Option (ρ → Async S (Option δ))) (request : ρ) (s : S) : Option δ × S :=
  match (called hook request).run.run s with
  | (.ok data, s') => (data, s')
  | (.error _, s') => (none, s')

def Mock.hook : Mock S ρ δ → ρ → Async S (Option δ)
  | .value data => fun _ => pure data
  | .factory f => f

/-- The first of proxy, cache and mock that gives data, and the store then. -/
def firstTier (cfg : ResolverConfig S ρ δ β) (mock : Mock S ρ δ) (request : ρ) (s : S) :
    Response δ × S :=
  match given cfg.fromProxy request s with
  | (some data, s₁) => (⟨some data, .proxy⟩, s₁)
  | (none, s₁) =>
    match given cfg.fromCache request s₁ with
    | (some data, s₂) => (⟨some data, .cache⟩, s₂)
    | (none, s₂) =>
      match given (some mock.hook) request s₂ with
      | (data, s₃) => (⟨data, .mock⟩, s₃)

/-- The write-back, if there is one. -/
def writeBack (cfg : ResolverConfig S ρ δ β) (data : Option δ) (request : ρ) : Async S Unit :=
  match cfg.persist with
  | some persist => persist data request
  | none => pure ()

/-- The same hooks, with another `decorate`. -/
def ResolverConfig.decorated {γ : Type} (cfg : ResolverConfig S ρ δ β)
    (decorate : Option δ → Source → ρ → γ) : ResolverConfig S ρ δ γ where
  fromProxy := cfg.fromProxy
  fromCache := cfg.fromCache
  mock := cfg.mock
  persist := cfg.persist
  decorate := decorate

/-- With a `decorate` that returns what it is given. -/
def ResolverConfig.observed (cfg : ResolverConfig S ρ δ β) : ResolverConfig S ρ δ (Response δ) :=
  cfg.decorated fun data source _ => ⟨data, source⟩

section Tiers

variable (truthy : δ → Bool) (cfg : ResolverConfig S ρ δ β) (mock : Mock S ρ δ) (request : ρ)
  (s : S)

/-- Whatever `decorate` is, the handler does not reject, and `decorate` is given the data of the
first tier under its name. -/
def ResolvesFirst : Prop :=
  ∀ {γ : Type} (decorate : Option δ → Source → ρ → γ), ∃ handler s',
    createResolver truthy (cfg.decorated decorate) = .ok handler ∧
      (handler request).run.run s = (.ok (decorate (firstTier cfg mock request s).1.data
        (firstTier cfg mock request s).1.source request), s')

/-- Neither proxy nor cache gives falsy data, the cache does not throw where it is asked, and the
write-back of what the first tier gives does not throw. -/
structure Undisturbed : Prop where
  proxy : ∀ data, (given cfg.fromProxy request s).1 = some data → truthy data = true
  cache : (given cfg.fromProxy request s).1 = none →
    ∃ data s', (called cfg.fromCache request).run.run (given cfg.fromProxy request s).2 =
      (.ok data, s') ∧ ∀ value, data = some value → truthy value = true
  persist : ∃ s', (writeBack cfg (firstTier cfg mock request s).1.data request).run.run
    (firstTier cfg mock request s).2 = (.ok (), s')

/-! ## The handler -/

variable {truthy cfg mock request s}

theorem run_bind_eq_ok {α γ : Type} {x : Async S α} {f : α → Async S γ} {s s' : S} {c : γ} :
    (x >>= f).run.run s = (.ok c, s') ↔
      ∃ a s₁, x.run.run s = (.ok a, s₁) ∧ (f a).run.run s₁ = (.ok c, s') := by
  show (x.run.run s >>= fun p => ExceptT.bindCont f p.1 p.2) = _ ↔ _
  obtain ⟨outcome, s₁⟩ := x.run.run s
  cases outcome with
  | error e =>
    constructor
    · intro h
      cases h
    · rintro ⟨a, s₂, h, -⟩
      cases h
  | ok a =>
    constructor
    · exact fun h => ⟨a, s₁, rfl, h⟩
    · rintro ⟨a', s₂, h, h'⟩
      cases h
      exact h'

theorem run_tryCatch (hook : Option (ρ → Async S (Option δ))) :
    (tryCatch (called hook request) fun _ => return none : Async S _).run.run s =
      (.ok (given hook request s).1, (given hook request s).2) := by
  unfold given
  rw [ExceptT.run_tryCatch, StateT.run_bind]
  obtain ⟨outcome, s₁⟩ := (called hook request).run.run s
  cases outcome <;> rfl

/-- The end of the handler. -/
def finish (cfg : ResolverConfig S ρ δ β) (data : Option δ) (source : Source) (request : ρ) :
    Async S β := do
  writeBack cfg data request
  return cfg.decorate data source request

/-- The handler, with every hook called in one way. -/
def fallThrough (truthy : δ → Bool) (cfg : ResolverConfig S ρ δ β) (mock : Mock S ρ δ)
    (request : ρ) : Async S β := do
  let data ← tryCatch (called cfg.fromProxy request) fun _ => return none
  if isTruthy truthy data then finish cfg data .proxy request
  else
    let data ← called cfg.fromCache request
    if isTruthy truthy data then finish cfg data .cache request
    else
      let data ← mock.hook request
      finish cfg data .mock request

theorem handler_eq : handler truthy cfg mock request = fallThrough truthy cfg mock request := by
  obtain ⟨fromProxy, fromCache, _, persist, decorate⟩ := cfg
  unfold handler fallThrough
  cases fromProxy
  all_goals
    refine bind_congr fun data => ?_
    cases hdata : isTruthy truthy data with
    | true =>
      simp only [hdata, if_true, pure_bind, finish, writeBack]
      cases fromCache <;> cases persist <;> rfl
    | false =>
      simp only [hdata, Bool.false_eq_true, if_false, pure_bind]
      cases fromCache with
      | none =>
        simp only [called, pure_bind, Bool.false_eq_true, if_false, isTruthy, Option.any_none]
        cases mock <;> cases persist <;> rfl
      | some f =>
        refine bind_congr fun data' => ?_
        cases hdata' : isTruthy truthy data' with
        | true =>
          simp only [if_true, finish, writeBack]
          cases persist <;> rfl
        | false =>
          simp only [Bool.false_eq_true, if_false]
          cases mock <;> cases persist <;> rfl

theorem run_finish_eq_ok {data : Option δ} {source : Source} {s' : S} {b : β} :
    (finish cfg data source request).run.run s = (.ok b, s') ↔
      (writeBack cfg data request).run.run s = (.ok (), s') ∧
        b = cfg.decorate data source request := by
  unfold finish
  rw [run_bind_eq_ok]
  constructor
  · rintro ⟨u, s₁, hwrite, hreturn⟩
    cases hreturn
    exact ⟨hwrite, rfl⟩
  · rintro ⟨hwrite, rfl⟩
    exact ⟨(), s', hwrite, rfl⟩

/-- How the handler ends without an error. -/
theorem run_fallThrough_eq_ok {data : Option δ} {s₁ s' : S} {b : β}
    (hproxy : given cfg.fromProxy request s = (data, s₁)) :
    (fallThrough truthy cfg mock request).run.run s = (.ok b, s') ↔
      if isTruthy truthy data then (finish cfg data .proxy request).run.run s₁ = (.ok b, s')
      else ∃ data s₂, (called cfg.fromCache request).run.run s₁ = (.ok data, s₂) ∧
        if isTruthy truthy data then (finish cfg data .cache request).run.run s₂ = (.ok b, s')
        else ∃ data s₃, (mock.hook request).run.run s₂ = (.ok data, s₃) ∧
          (finish cfg data .mock request).run.run s₃ = (.ok b, s') := by
  have htry : (tryCatch (called cfg.fromProxy request) fun _ => return none : Async S _).run.run s =
      (.ok data, s₁) := by rw [run_tryCatch, hproxy]
  rw [fallThrough, run_bind_ok htry]
  split_ifs with hdata
  · exact Iff.rfl
  · rw [run_bind_eq_ok]
    refine exists_congr fun data' => exists_congr fun s₂ => and_congr_right fun _ => ?_
    split_ifs with hdata'
    · exact Iff.rfl
    · exact run_bind_eq_ok

theorem given_eq {hook : Option (ρ → Async S (Option δ))} {data : Option δ} {s' : S}
    (h : (called hook request).run.run s = (.ok data, s')) : given hook request s = (data, s') := by
  rw [given, h]

/-! ## The first tier -/

theorem firstTier_proxy {data : δ} {s₁ : S}
    (hproxy : given cfg.fromProxy request s = (some data, s₁)) :
    firstTier cfg mock request s = (⟨some data, .proxy⟩, s₁) := by
  rw [firstTier, hproxy]

theorem firstTier_cache {data : δ} {s₁ s₂ : S}
    (hproxy : given cfg.fromProxy request s = (none, s₁))
    (hcache : (called cfg.fromCache request).run.run s₁ = (.ok (some data), s₂)) :
    firstTier cfg mock request s = (⟨some data, .cache⟩, s₂) := by
  simp only [firstTier, hproxy, given_eq hcache]

theorem firstTier_mock {data : Option δ} {s₁ s₂ s₃ : S}
    (hproxy : given cfg.fromProxy request s = (none, s₁))
    (hcache : (called cfg.fromCache request).run.run s₁ = (.ok none, s₂))
    (hmock : (mock.hook request).run.run s₂ = (.ok data, s₃)) :
    firstTier cfg mock request s = (⟨data, .mock⟩, s₃) := by
  have hgiven : given (some mock.hook) request s₂ = (data, s₃) := given_eq hmock
  simp only [firstTier, hproxy, given_eq hcache, hgiven]

theorem run_finish_observed {data : Option δ} {source : Source} {s' : S} {response : Response δ}
    (h : (finish cfg.observed data source request).run.run s = (.ok response, s')) :
    (writeBack cfg data request).run.run s = (.ok (), s') ∧ response = ⟨data, source⟩ :=
  run_finish_eq_ok.1 h

/-- A handler that answers with the first tier. -/
theorem undisturbed_of_run {s' : S}
    (h : (fallThrough truthy cfg.observed mock request).run.run s =
      (.ok (firstTier cfg mock request s).1, s')) : Undisturbed truthy cfg mock request s := by
  cases hproxy : given cfg.fromProxy request s with
  | mk data s₁ =>
  have hobserved : given cfg.observed.fromProxy request s = (data, s₁) := hproxy
  rw [run_fallThrough_eq_ok hobserved] at h
  cases data with
  | some data =>
    have hfirst : firstTier cfg mock request s = _ := firstTier_proxy hproxy
    rw [hfirst] at h
    split_ifs at h with hdata
    · obtain ⟨hwrite, -⟩ := run_finish_observed h
      refine ⟨?_, ?_, s', by rwa [hfirst]⟩
      · simpa [hproxy, isTruthy] using hdata
      · simp [hproxy]
    · -- What is answered instead has another name.
      obtain ⟨data', s₂, -, h⟩ := h
      split_ifs at h
      · cases (run_finish_observed h).2
      · obtain ⟨data'', s₃, -, h⟩ := h
        cases (run_finish_observed h).2
  | none =>
    obtain ⟨data, s₂, hcache, h⟩ := h
    replace hcache : (called cfg.fromCache request).run.run s₁ = (.ok data, s₂) := hcache
    cases data with
    | some data =>
      have hfirst : firstTier cfg mock request s = _ := firstTier_cache hproxy hcache
      rw [hfirst] at h
      split_ifs at h with hdata
      · obtain ⟨hwrite, -⟩ := run_finish_observed h
        refine ⟨by simp [hproxy], fun _ => ⟨some data, s₂, by rwa [hproxy], ?_⟩,
            s', by rwa [hfirst]⟩
        simpa [isTruthy] using hdata
      · obtain ⟨data', s₃, -, h⟩ := h
        cases (run_finish_observed h).2
    | none =>
      obtain ⟨data, s₃, hmock, h⟩ := h
      have hfirst : firstTier cfg mock request s = _ := firstTier_mock hproxy hcache hmock
      rw [hfirst] at h
      obtain ⟨hwrite, -⟩ := run_finish_observed h
      exact ⟨by simp [hproxy], fun _ => ⟨none, s₂, by rwa [hproxy], by simp⟩, s', by rwa [hfirst]⟩

/-- Undisturbed, the handler answers with the first tier, if the mock does not throw. -/
theorem run_of_undisturbed (h : Undisturbed truthy cfg mock request s)
    (hmock : ∀ s, ∃ data s', (mock.hook request).run.run s = (.ok data, s')) :
    ∃ s', (fallThrough truthy cfg mock request).run.run s =
      (.ok (cfg.decorate (firstTier cfg mock request s).1.data
        (firstTier cfg mock request s).1.source request), s') := by
  obtain ⟨hproxyData, hcacheData, s', hwrite⟩ := h
  refine ⟨s', ?_⟩
  cases hproxy : given cfg.fromProxy request s with
  | mk data s₁ =>
  rw [hproxy] at hproxyData hcacheData
  rw [run_fallThrough_eq_ok hproxy]
  cases data with
  | some data =>
    rw [firstTier_proxy hproxy] at hwrite ⊢
    rw [if_pos (by simpa [isTruthy] using hproxyData)]
    exact run_finish_eq_ok.2 ⟨hwrite, rfl⟩
  | none =>
    obtain ⟨data, s₂, hcache, hdata⟩ := hcacheData rfl
    rw [if_neg (by simp [isTruthy])]
    refine ⟨data, s₂, hcache, ?_⟩
    cases data with
    | some data =>
      rw [firstTier_cache hproxy hcache] at hwrite ⊢
      rw [if_pos (by simpa [isTruthy] using hdata)]
      exact run_finish_eq_ok.2 ⟨hwrite, rfl⟩
    | none =>
      obtain ⟨data, s₃, hdata⟩ := hmock s₂
      rw [firstTier_mock hproxy hcache hdata] at hwrite ⊢
      rw [if_neg (by simp [isTruthy])]
      exact ⟨data, s₃, hdata, run_finish_eq_ok.2 ⟨hwrite, rfl⟩⟩

/-- **When the first tier is taken.** -/
theorem resolvesFirst_iff (hmock : cfg.mock = some mock)
    (hthrows : ∀ f, mock = .factory f → ∀ s, ∃ data s', (f request).run.run s = (.ok data, s')) :
    ResolvesFirst truthy cfg mock request s ↔ Undisturbed truthy cfg mock request s := by
  have hmocked (s : S) : ∃ data s', (mock.hook request).run.run s = (.ok data, s') := by
    cases mock with
    | value data => exact ⟨data, s, rfl⟩
    | factory f => exact hthrows f rfl s
  have hcreate {γ : Type} (decorate : Option δ → Source → ρ → γ) :
      createResolver truthy (cfg.decorated decorate) =
        .ok (handler truthy (cfg.decorated decorate) mock) := by
    simp [createResolver, ResolverConfig.decorated, hmock]
  constructor
  · intro h
    obtain ⟨resolver, s', hresolver, hrun⟩ := h fun data source _ => (⟨data, source⟩ : Response δ)
    obtain rfl := Except.ok.inj ((hcreate _).symm.trans hresolver)
    rw [handler_eq] at hrun
    exact undisturbed_of_run hrun
  · intro h γ decorate
    have h' : Undisturbed truthy (cfg.decorated decorate) mock request s :=
      ⟨h.proxy, h.cache, h.persist⟩
    obtain ⟨s', hrun⟩ := run_of_undisturbed h' hmocked
    rw [← handler_eq] at hrun
    exact ⟨_, s', hcreate decorate, hrun⟩

end Tiers

/-- A proxy that throws, and a cache. -/
def offline (fromCache : Async Unit (Option ℕ)) : ResolverConfig Unit Unit ℕ ℕ where
  fromProxy := some fun _ => throw ()
  fromCache := some fun _ => fromCache
  mock := some (.value (some 7))
  decorate data _ _ := data.getD 0

theorem resolvesFirst_iff_cached :
    ResolvesFirst (· != 0) (offline (pure (some 5))) (.value (some 7)) () () := by
  refine (resolvesFirst_iff rfl (fun f h => by cases h)).2 ⟨?_, ?_, (), rfl⟩
  · intro data h
    cases h
  · refine fun _ => ⟨some 5, (), rfl, ?_⟩
    rintro value ⟨⟩
    rfl

/-- The handler rejects where the cache throws, and it passes over a zero in the cache. -/
theorem exists_not_resolvesFirst :
    ¬ ResolvesFirst (· != 0) (offline (throw ())) (.value (some 7)) () () ∧
      ¬ ResolvesFirst (· != 0) (offline (pure (some 0))) (.value (some 7)) () () := by
  constructor
  · intro h
    obtain ⟨resolver, s', hresolver, hrun⟩ := h fun data source _ => (data, source)
    cases hresolver
    cases hrun
  · intro h
    obtain ⟨resolver, s', hresolver, hrun⟩ := h fun data source _ => (data, source)
    cases hresolver
    cases hrun

end Resilience.Forge
