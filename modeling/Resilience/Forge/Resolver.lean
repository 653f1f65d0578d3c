import Mathlib.Algebra.Order.Group.Defs
import Mathlib.Algebra.Order.Group.Int
import Mathlib.Data.List.Basic

/-!
# The resolver of a Forge app

`forge-core/src/resolver.js`. The functions of a configuration are asynchronous: they may throw, and
they may change a store, here of any type. Values are those of a type `δ`, with what JavaScript
takes for true; `none` is `null` or `undefined`.

`readmeHandler` is the handler of the README, with `readCache` and `writeCache` on one entry of the
key-value store. A request comes with all that happens while it is handled (`Request`), and
`readmeHandler_run` says what its handler answers and what it leaves in the entry.
-/

namespace Resilience.Forge

/-- A function that may throw, and that may change a store. -/
abbrev Async (S : Type) := ExceptT Unit (StateM S)

inductive Source
  | proxy
  | cache
  | mock
  deriving DecidableEq, Repr

variable {S T δ ρ β : Type}

/-- `if (data)`. -/
def isTruthy (truthy : δ → Bool) (data : Option δ) : Bool := data.any truthy

/-! ## The cache entry -/

/-- A cache record; `timestamp` is `none` when it is not a number. -/
structure Record (T δ : Type) where
  data : Option δ
  timestamp : Option T
  deriving DecidableEq

/-- The data of a record that is not older than `ttlMs`. -/
def unexpired [Sub T] [LT T] [DecidableLT T] (ttlMs now : T) : Option (Record T δ) → Option δ
  | some ⟨data, some timestamp⟩ => if ttlMs < now - timestamp then none else data
  | _ => none

/-- `readCache`; `now` is what its clock says. -/
def readCache [Sub T] [LT T] [DecidableLT T] (read : Async S (Option (Record T δ)))
    (ttlMs now : T) :
    Async S (Option δ) :=
  tryCatch (do return unexpired ttlMs now (← read)) fun _ => return none

/-- `writeCache`; `now` is what its clock says. -/
def writeCache (write : Record T δ → Async S Unit) (data : Option δ) (now : T) : Async S Unit :=
  tryCatch (write ⟨data, some now⟩) fun _ => return ()

/-! ## The resolver -/

/-- `mock`: a value or a function. -/
inductive Mock (S ρ δ : Type)
  | value (data : Option δ)
  | factory (f : ρ → Async S (Option δ))

/-- The `cfg` of `createResolver`; without `mock` it is `undefined`. -/
structure ResolverConfig (S ρ δ β : Type) where
  fromProxy : Option (ρ → Async S (Option δ)) := none
  fromCache : Option (ρ → Async S (Option δ)) := none
  mock : Option (Mock S ρ δ) := none
  persist : Option (Option δ → ρ → Async S Unit) := none
  decorate : Option δ → Source → ρ → β

variable (truthy : δ → Bool)

/-- The handler that `createResolver` returns. -/
def handler (cfg : ResolverConfig S ρ δ β) (mock : Mock S ρ δ) (request : ρ) : Async S β := do
  let data ← match cfg.fromProxy with
    | some fromProxy => tryCatch (fromProxy request) fun _ => return none
    | none => pure none
  let source := if isTruthy truthy data then Source.proxy else .mock
  let (data, source) ← match cfg.fromCache, isTruthy truthy data with
    | some fromCache, false => do
      let data ← fromCache request
      pure (data, if isTruthy truthy data then Source.cache else source)
    | _, _ => pure (data, source)
  let (data, source) ← if isTruthy truthy data then pure (data, source) else
    match mock with
    | .value data => pure (data, Source.mock)
    | .factory f => do pure (← f request, Source.mock)
  match cfg.persist with
  | some persist => persist data request
  | none => pure ()
  return cfg.decorate data source request

/-- `createResolver`. -/
def createResolver (cfg : ResolverConfig S ρ δ β) : Except String (ρ → Async S β) :=
  match cfg.mock with
  | none => .error "createResolver: a `mock` fallback is required"
  | some mock => .ok (handler truthy cfg mock)

/-! ## The wiring of the README -/

/-- What a call returns, or that it throws. -/
inductive Outcome (δ : Type)
  | value (data : Option δ)
  | threw
  deriving DecidableEq

def Outcome.call : Outcome δ → Async S (Option δ)
  | .value data => pure data
  | .threw => throw ()

/-- A request, with what happens while it is handled: what the proxy answers, what the mock function
returns, if it is one, whether the storage fails, and what the clock says when the proxy is called,
when the age of the entry is checked, when a record is stamped, and when the handler answers. -/
structure Request (T δ : Type) where
  proxy : Outcome δ
  mock : Outcome δ
  readFails : Bool := false
  writeFails : Bool := false
  called : T
  checked : T
  stamped : T
  answered : T

/-- What `decorate` is given. -/
structure Response (δ : Type) where
  data : Option δ
  source : Source
  deriving DecidableEq

/-- The store: the record under the key, if there is one. -/
abbrev Entry (T δ : Type) := Option (Record T δ)

/-- `getAll(CACHE_KEY)`. -/
def Request.getAll (r : Request T δ) : Async (Entry T δ) (Option (Record T δ)) :=
  if r.readFails then throw () else get

/-- `set(CACHE_KEY, rec)`. -/
def Request.set (r : Request T δ) (rec : Record T δ) : Async (Entry T δ) Unit :=
  if r.writeFails then throw () else MonadStateOf.set (some rec)

variable [Sub T] [LT T] [DecidableLT T]

/-- The configuration of the README; a `mock` that is a value returns it for every request. -/
def readme (ttlMs : T) : ResolverConfig (Entry T δ) (Request T δ) δ (Response δ) where
  fromProxy := some fun r => r.proxy.call
  fromCache := some fun r => readCache r.getAll ttlMs r.checked
  mock := some (.factory fun r => r.mock.call)
  persist := some fun data r => writeCache r.set data r.stamped
  decorate data source _ := ⟨data, source⟩

/-- What the cache gives for a request. -/
def cached (ttlMs : T) (r : Request T δ) (entry : Entry T δ) : Option δ :=
  if r.readFails then none else unexpired ttlMs r.checked entry

/-- What the proxy gives for a request. -/
def proxied (r : Request T δ) : Option δ :=
  match r.proxy with
  | .value data => data
  | .threw => none

/-- What a request is answered; `none` when the handler throws. -/
def answer (ttlMs : T) (r : Request T δ) (entry : Entry T δ) : Option (Response δ) :=
  if isTruthy truthy (proxied r) then some ⟨proxied r, .proxy⟩
  else if isTruthy truthy (cached ttlMs r entry) then some ⟨cached ttlMs r entry, .cache⟩
  else match r.mock with
    | .value data => some ⟨data, .mock⟩
    | .threw => none

/-- The entry afterwards. -/
def written (r : Request T δ) (response : Option (Response δ)) (entry : Entry T δ) : Entry T δ :=
  match response with
  | some response => if r.writeFails then entry else some ⟨response.data, some r.stamped⟩
  | none => entry

theorem createResolver_readme (ttlMs : T) :
    createResolver truthy (readme ttlMs) =
      .ok (handler truthy (readme ttlMs) (.factory fun r => r.mock.call)) := rfl

section Runs

omit [Sub T] [LT T] [DecidableLT T]

theorem run_bind_ok {α γ : Type} {x : Async S α} {f : α → Async S γ} {s s' : S} {a : α}
    (h : x.run.run s = (.ok a, s')) : (x >>= f).run.run s = (f a).run.run s' := by
  show (x.run.run s >>= fun p => ExceptT.bindCont f p.1 p.2) = _
  rw [h]
  rfl

theorem run_fromProxy (r : Request T δ) (entry : Entry T δ) :
    (tryCatch r.proxy.call fun _ => return none : Async _ _).run.run entry =
      (.ok (proxied r), entry) := by
  unfold proxied
  cases r.proxy <;> rfl

theorem run_writeCache (r : Request T δ) (data : Option δ) (entry : Entry T δ) :
    (writeCache r.set data r.stamped).run.run entry =
      (.ok (), if r.writeFails then entry else some ⟨data, some r.stamped⟩) := by
  unfold writeCache Request.set
  cases r.writeFails <;> rfl

end Runs

theorem run_readCache (ttlMs : T) (r : Request T δ) (entry : Entry T δ) :
    (readCache r.getAll ttlMs r.checked).run.run entry = (.ok (cached ttlMs r entry), entry) := by
  unfold readCache Request.getAll cached
  cases r.readFails <;> rfl

/-- What is answered from the cache is what the entry holds, and the record is not expired. -/
theorem answer_cache {ttlMs : T} {r : Request T δ} {entry : Entry T δ} {data : Option δ}
    (h : answer truthy ttlMs r entry = some ⟨data, .cache⟩) :
    ∃ timestamp, entry = some ⟨data, some timestamp⟩ ∧ ¬ ttlMs < r.checked - timestamp := by
  unfold answer at h
  split_ifs at h with hproxy hcache
  · simp at h
  · simp only [Option.some.injEq, Response.mk.injEq, and_true] at h
    subst h
    unfold cached at hcache ⊢
    cases hread : r.readFails with
    | true => simp [hread, isTruthy] at hcache
    | false =>
      simp only [hread, Bool.false_eq_true, if_false] at hcache ⊢
      unfold unexpired at hcache ⊢
      split at hcache
      · split_ifs at hcache with hexpired
        · simp [isTruthy] at hcache
        · exact ⟨_, by simp [hexpired], hexpired⟩
      · simp [isTruthy] at hcache
  · cases hmock : r.mock <;> simp [hmock] at h

theorem answer_proxy {ttlMs : T} {r : Request T δ} {entry : Entry T δ} {data : Option δ}
    (h : answer truthy ttlMs r entry = some ⟨data, .proxy⟩) : r.proxy = .value data := by
  unfold answer at h
  split_ifs at h with hproxy hcache
  · simp only [Option.some.injEq, Response.mk.injEq, and_true] at h
    subst h
    unfold proxied at hproxy ⊢
    cases hr : r.proxy with
    | value data => rfl
    | threw => simp [hr, isTruthy] at hproxy
  · simp at h
  · cases hmock : r.mock <;> simp [hmock] at h

/-- **What the handler of the README answers, and what it leaves in the entry.** -/
theorem run_handler_readme (ttlMs : T) (r : Request T δ) (entry : Entry T δ) :
    (handler truthy (readme ttlMs) (.factory fun r => r.mock.call) r).run.run entry =
      (match answer truthy ttlMs r entry with
        | some response => .ok response
        | none => .error (), written r (answer truthy ttlMs r entry) entry) := by
  have hpersist : ∀ (data : Option δ) (source : Source),
      (writeCache r.set data r.stamped >>= fun _ => pure ⟨data, source⟩ :
          Async (Entry T δ) (Response δ)).run.run entry =
        (.ok ⟨data, source⟩, written r (some ⟨data, source⟩) entry) := by
    intro data source
    rw [run_bind_ok (run_writeCache r data entry)]
    rfl
  unfold handler answer
  simp only [readme]
  rw [run_bind_ok (run_fromProxy r entry)]
  cases hproxy : isTruthy truthy (proxied r) with
  | true =>
    simp only [pure_bind, hproxy, if_true]
    exact hpersist _ _
  | false =>
    simp only [Bool.false_eq_true, if_false]
    rw [run_bind_ok (run_readCache ttlMs r entry)]
    cases hcache : isTruthy truthy (cached ttlMs r entry) with
    | true =>
      simp only [pure_bind, hcache, if_true]
      exact hpersist _ _
    | false =>
      simp only [pure_bind, hcache, Bool.false_eq_true, if_false]
      cases hmock : r.mock with
      | value data => exact hpersist _ _
      | threw => rfl

end Resilience.Forge
