import Resilience.Foundations.Numbers
import Mathlib.Data.Nat.Digits.Defs

/-!
# The tiered resolvers

`resolveTiered` of `typescript/src/tieredSource.ts`, in milliseconds, and `resolve_tiered` of
`python/src/cubiczan_resilience/tiered.py`, in seconds. What the tiers do is given: a value, or the
error that they throw. Arithmetic is exact, times are whole milliseconds in TypeScript, and of a
callback for failures, which does not throw, nothing is seen.
-/

namespace Resilience.Tiered

inductive SourceTier
  | live
  | cache
  | mock
  deriving DecidableEq, Repr

/-- Why a tier failed: it threw, the cache had no entry, or the entry is older than the hard
limit. -/
inductive TierError (ε α : Type)
  | thrown (e : ε)
  | cacheMiss
  | exceedsHardLimit (age : α) (limit : Number)

structure TierFailure (ε α : Type) where
  tier : SourceTier
  error : TierError ε α

/-- A result; ages are of the type `α`. -/
structure TieredResult (ε V α : Type) where
  value : V
  tier : SourceTier
  degraded : Bool
  stale : Bool
  age : Option α
  failures : List (TierFailure ε α)
  badge : String

variable {ε V : Type}

/-! ## TypeScript -/

namespace TypeScript

/-- A whole number that is not negative, as text: from 10 ^ 21 on with an exponent. -/
def numberText (n : ℕ) : String :=
  let digits := Nat.toDigits 10 n
  if n < 10 ^ 21 then String.ofList digits
  else
    let exponent := String.ofList ('e' :: '+' :: Nat.toDigits 10 (digits.length - 1))
    match (digits.reverse.dropWhile (· == '0')).reverse with
    | d :: e :: ds => String.ofList (d :: '.' :: e :: ds) ++ exponent
    | ds => String.ofList ds ++ exponent

def humanAge (ms : ℕ) : String :=
  if ms < 1000 then numberText ms ++ "ms"
  else
    let s := ms / 1000
    if s < 60 then numberText s ++ "s"
    else
      let m := s / 60
      if m < 60 then numberText m ++ "m"
      else
        let h := m / 60
        if h < 24 then numberText h ++ "h" else numberText (h / 24) ++ "d"

def makeBadge (tier : SourceTier) (stale : Bool) (ageMs : Option ℕ) : String :=
  match tier with
  | .live => "live"
  | .mock => "mock data — not real"
  | .cache =>
    let parts := (if stale then ["stale"] else []) ++ (match ageMs with
      | some ageMs => [humanAge ageMs]
      | none => [])
    if parts.isEmpty then "cache" else "cache (" ++ ", ".intercalate parts ++ ")"

/-- What `cache` returns; `bare` is for what is not shaped like a `CachedValue`. The time of one
that is, is `none` when it is not finite. -/
inductive Hit (V : Type)
  | null
  | undefined
  | bare (value : V)
  | cached (value : V) (cachedAt : Option ℤ)

structure TieredSourceOptions (ε V : Type) where
  live : Except ε V
  cache : Option (Except ε (Hit V)) := none
  mock : Option (Except ε V) := none
  maxCacheAge : Number := .finite 300000
  maxCacheAgeHard : Option Number := none

section Resolve

variable (options : TieredSourceOptions ε V) (now : ℤ)

/-- The check of the hard limit. -/
def checkHard (value : V) (ageMs : Option ℕ) : Except (TierError ε ℕ) (V × Option ℕ) :=
  match options.maxCacheAgeHard, ageMs with
  | some hard, some age =>
    if hard.lt (.finite age) then .error (.exceedsHardLimit age hard) else .ok (value, ageMs)
  | _, _ => .ok (value, ageMs)

/-- The value of a hit and its age, or why it is none. -/
def ofHit : Hit V → Except (TierError ε ℕ) (V × Option ℕ)
  | .null | .undefined => .error .cacheMiss
  | .bare value => checkHard options value none
  | .cached value cachedAt =>
    checkHard options value (cachedAt.map fun cachedAt => (now - cachedAt).toNat)

/-- The cache tier. -/
def fromCache : Except ε (Hit V) → Except (TierError ε ℕ) (V × Option ℕ)
  | .error e => .error (.thrown e)
  | .ok hit => ofHit options now hit

/-- `resolveTiered`; `now` is what `Date.now()` says. -/
def resolveTiered : Except (List (TierFailure ε ℕ)) (TieredResult ε V ℕ) :=
  match options.live with
  | .ok value => .ok {
      value, tier := .live, degraded := false, stale := false, age := none, failures := []
      badge := makeBadge .live false none }
  | .error e => afterLive [⟨.live, .thrown e⟩]
where
  afterLive (failures : List (TierFailure ε ℕ)) :=
    match options.cache with
    | none => afterCache failures
    | some cache =>
      match fromCache options now cache with
      | .ok (value, ageMs) =>
        let stale := ageMs.any fun age : ℕ => options.maxCacheAge.lt (.finite age)
        .ok {
          value, tier := .cache, degraded := true, stale, age := ageMs, failures
          badge := makeBadge .cache stale ageMs }
      | .error error => afterCache (failures ++ [⟨.cache, error⟩])
  afterCache (failures : List (TierFailure ε ℕ)) :=
    match options.mock with
    | none => .error failures
    | some (.ok value) => .ok {
        value, tier := .mock, degraded := true, stale := false, age := none, failures
        badge := makeBadge .mock false none }
    | some (.error e) => .error (failures ++ [⟨.mock, .thrown e⟩])

end Resolve

end TypeScript

/-! ## Python -/

namespace Python

/-- `int(q)`. -/
def int (q : ℚ) : ℤ := if q < 0 then ⌈q⌉ else ⌊q⌋

/-- `_human_age`. -/
def humanAge (seconds : ℚ) : String :=
  if seconds < 1 then toString (int (seconds * 1000)) ++ "ms"
  else if seconds < 60 then toString (int seconds) ++ "s"
  else if seconds < 3600 then toString (int ⌊seconds / 60⌋) ++ "m"
  else if seconds < 86400 then toString (int ⌊seconds / 3600⌋) ++ "h"
  else toString (int ⌊seconds / 86400⌋) ++ "d"

/-- `_badge`. -/
def badge (tier : SourceTier) (stale : Bool) (age : Option ℚ) : String :=
  if tier = .live then "live"
  else if tier = .mock then "mock data — not real"
  else
    let parts := (if stale then ["stale"] else []) ++ (match age with
      | some age => [humanAge age]
      | none => [])
    if parts.isEmpty then "cache" else "cache (" ++ ", ".intercalate parts ++ ")"

/-- What `cache` returns: `miss_sentinel`, a value, or one that is `Cached`. -/
inductive Hit (V : Type)
  | miss
  | bare (value : V)
  | cached (value : V) (cachedAt : ℚ)

/-- The arguments of `resolve_tiered`. -/
structure Arguments (ε V : Type) where
  live : Except ε V
  cache : Option (Except ε (Hit V)) := none
  mock : Option (Except ε V) := none
  maxCacheAge : Number := .finite 300
  maxCacheAgeHard : Option Number := none

section Resolve

variable (args : Arguments ε V) (now : ℚ)

/-- A hit: its value, its age, and whether it is stale; or the failure. -/
def ofHit : Hit V → Except (TierError ε ℚ) (V × Option ℚ)
  | .miss => .error .cacheMiss
  | .bare value => .ok (value, none)
  | .cached value cachedAt =>
    let age := max 0 (now - cachedAt)
    match args.maxCacheAgeHard with
    | none => .ok (value, some age)
    | some hard =>
      if hard.lt (.finite age) then .error (.exceedsHardLimit age hard) else .ok (value, some age)

/-- The cache tier. -/
def fromCache : Except ε (Hit V) → Except (TierError ε ℚ) (V × Option ℚ)
  | .error e => .error (.thrown e)
  | .ok hit => ofHit args now hit

/-- `resolve_tiered`; `now` is what `time.time()` says. -/
def resolveTiered : Except (List (TierFailure ε ℚ)) (TieredResult ε V ℚ) :=
  match args.live with
  | .ok value => .ok {
      value, tier := .live, degraded := false, stale := false, age := none, failures := []
      badge := badge .live false none }
  | .error e =>
    let failures := [⟨.live, .thrown e⟩]
    match args.cache with
    | none => fromMock failures
    | some cache =>
      match fromCache args now cache with
      | .error error => fromMock (failures ++ [⟨.cache, error⟩])
      | .ok (value, age) =>
        let stale := age.any fun age => args.maxCacheAge.lt (.finite age)
        .ok {
          value, tier := .cache, degraded := true, stale, age, failures
          badge := badge .cache stale age }
where
  fromMock (failures : List (TierFailure ε ℚ)) :=
    match args.mock with
    | none => .error failures
    | some (.error e) => .error (failures ++ [⟨.mock, .thrown e⟩])
    | some (.ok value) => .ok {
        value, tier := .mock, degraded := true, stale := false, age := none, failures
        badge := badge .mock false none }

end Resolve

end Python

end Resilience.Tiered
