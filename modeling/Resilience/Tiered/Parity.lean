import Resilience.Foundations.Ladder
import Resilience.Tiered.Resolvers
import Mathlib.Algebra.Order.Field.Basic
import Mathlib.Data.List.Nodup
import Mathlib.Data.Rat.Cast.Order
import Mathlib.Tactic.NormNum

/-!
# The tiered resolvers agree

Both resolvers climb the ladder of the tiers that they are given (`TypeScript.resolveTiered_eq`,
`Python.resolveTiered_eq`), and their rungs are alike, in milliseconds and in seconds. So they fail
alike, or return the same (`resolvers_agree`); only an age of 10 ^ 21 days or more is written in
another way.
-/

namespace Resilience.Tiered

/-! ## Ages as text -/

/-- An age, with numbers written as `text` says. -/
def ageText (text : ℕ → String) (ms : ℕ) : String :=
  if ms < 1000 then text ms ++ "ms"
  else if ms < 60000 then text (ms / 1000) ++ "s"
  else if ms < 3600000 then text (ms / 60000) ++ "m"
  else if ms < 86400000 then text (ms / 3600000) ++ "h"
  else text (ms / 86400000) ++ "d"

theorem TypeScript.humanAge_eq (ms : ℕ) : humanAge ms = ageText numberText ms := by
  have hs : ms / 1000 < 60 ↔ ms < 60000 := by omega
  have hm : ms / 1000 / 60 < 60 ↔ ms < 3600000 := by omega
  have hh : ms / 1000 / 60 / 60 < 24 ↔ ms < 86400000 := by omega
  simp only [humanAge, ageText, hs, hm, hh]
  simp only [Nat.div_div_eq_div_mul, Nat.reduceMul]

namespace Python

theorem int_of_nonneg {q : ℚ} (h : 0 ≤ q) : int q = ⌊q⌋ := if_neg (not_lt.2 h)

theorem int_floor_div (ms d : ℕ) : int ⌊(ms / 1000 : ℚ) / d⌋ = (ms / (1000 * d) : ℕ) := by
  have hfloor : ⌊(ms / 1000 : ℚ) / d⌋ = (ms / (1000 * d) : ℕ) := by
    have h := Rat.floor_natCast_div_natCast ms (1000 * d)
    push_cast at h ⊢
    rw [div_div]
    exact h
  rw [hfloor, int_of_nonneg (by positivity)]
  exact Int.floor_natCast _

theorem seconds_lt_iff (ms c : ℕ) : (ms / 1000 : ℚ) < c ↔ ms < c * 1000 := by
  rw [div_lt_iff₀ (by norm_num)]
  norm_cast

theorem toString_int (n : ℕ) : toString (n : ℤ) = toString n := rfl

theorem humanAge_eq (ms : ℕ) : humanAge (ms / 1000) = ageText toString ms := by
  have h1 : (ms / 1000 : ℚ) < 1 ↔ ms < 1000 := by simpa using seconds_lt_iff ms 1
  have h60 : (ms / 1000 : ℚ) < 60 ↔ ms < 60000 := seconds_lt_iff ms 60
  have h3600 : (ms / 1000 : ℚ) < 3600 ↔ ms < 3600000 := seconds_lt_iff ms 3600
  have h86400 : (ms / 1000 : ℚ) < 86400 ↔ ms < 86400000 := seconds_lt_iff ms 86400
  have hms : int (ms / 1000 * 1000 : ℚ) = (ms : ℕ) := by
    rw [div_mul_cancel₀ _ (by norm_num), int_of_nonneg (by positivity)]
    exact Int.floor_natCast _
  have hs : int (ms / 1000 : ℚ) = (ms / 1000 : ℕ) := by
    rw [int_of_nonneg (by positivity)]
    exact Rat.floor_natCast_div_natCast ms 1000
  have hm : int ⌊(ms / 1000 : ℚ) / 60⌋ = (ms / 60000 : ℕ) := int_floor_div ms 60
  have hh : int ⌊(ms / 1000 : ℚ) / 3600⌋ = (ms / 3600000 : ℕ) := int_floor_div ms 3600
  have hd : int ⌊(ms / 1000 : ℚ) / 86400⌋ = (ms / 86400000 : ℕ) := int_floor_div ms 86400
  simp only [humanAge, ageText, h1, h60, h3600, h86400, hms, hs, hm, hh, hd, toString_int]

end Python

/-! ## Numbers as text -/

theorem TypeScript.numberText_eq_iff (n : ℕ) : numberText n = toString n ↔ n < 10 ^ 21 := by
  have hrepr : toString n = String.ofList (Nat.toDigits 10 n) := rfl
  constructor
  · intro h
    by_contra hle
    have he : 'e' ∈ (numberText n).toList := by
      rw [numberText]
      dsimp only
      rw [if_neg hle]
      split <;> simp
    rw [h, hrepr, String.toList_ofList] at he
    exact absurd (Nat.isDigit_of_mem_toDigits (by decide) (by decide) he) (by decide)
  · intro h
    rw [numberText]
    dsimp only
    rw [if_pos h, hrepr]

theorem ageText_eq_iff (ms : ℕ) : ageText TypeScript.numberText ms = ageText toString ms ↔
    ms < 10 ^ 21 * 86400000 := by
  have happend : ∀ {s t u : String}, s ++ u = t ++ u ↔ s = t := by
    intro s t u
    rw [← String.toList_inj, ← String.toList_inj, String.toList_append, String.toList_append,
      List.append_cancel_right_eq]
  unfold ageText
  split_ifs <;> rw [happend, TypeScript.numberText_eq_iff] <;> omega

/-- The badges of a cache hit. -/
theorem badge_eq_iff (stale : Bool) (ms : Option ℕ) :
    TypeScript.makeBadge .cache stale ms =
        Python.badge .cache stale (ms.map fun ms : ℕ => (ms / 1000 : ℚ)) ↔
      ∀ age, ms = some age → age < 10 ^ 21 * 86400000 := by
  cases ms with
  | none => cases stale <;> simp [TypeScript.makeBadge, Python.badge]
  | some ms =>
    have hage : TypeScript.humanAge ms = Python.humanAge (ms / 1000) ↔
        ms < 10 ^ 21 * 86400000 := by
      rw [TypeScript.humanAge_eq, Python.humanAge_eq, ageText_eq_iff]
    rw [show (∀ age, some ms = some age → age < 10 ^ 21 * 86400000) ↔
      ms < 10 ^ 21 * 86400000 by simp, ← hage]
    have hone : ∀ a, ", ".intercalate [a] = a := fun _ => rfl
    have htwo : ∀ a b, ", ".intercalate [a, b] = a ++ ", " ++ b := fun _ _ => rfl
    cases stale <;>
      simp [TypeScript.makeBadge, Python.badge, hone, htwo, ← String.toList_inj]

/-! ## The ladders -/

section Ladders

variable {ε V : Type}

/-- The tiers that are there. -/
def rungs {α : Type} (live : Except ε (V × Option α))
    (cache mock : Option (Except ε (V × Option α))) :
    List (SourceTier × Except ε (V × Option α)) :=
  (.live, live) :: (cache.map fun r => (SourceTier.cache, r)).toList ++
    (mock.map fun r => (SourceTier.mock, r)).toList

/-- A tier without an age. -/
def ageless {α : Type} : Except ε V → Except (TierError ε α) (V × Option α)
  | .ok value => .ok (value, none)
  | .error e => .error (.thrown e)

/-- What a climb leaves, as a result. -/
def label {α : Type} (limit : Number) (number : α → ℚ)
    (badge : SourceTier → Bool → Option α → String) :
    Except (List (SourceTier × TierError ε α)) (Climbed SourceTier (TierError ε α) (V × Option α)) →
      Except (List (TierFailure ε α)) (TieredResult ε V α)
  | .error failures => .error (failures.map fun f => ⟨f.1, f.2⟩)
  | .ok c =>
    let stale := c.value.2.any fun age => limit.lt (.finite (number age))
    .ok {
      value := c.value.1
      tier := c.rung
      degraded := c.rung ≠ .live
      stale
      age := c.value.2
      failures := c.failures.map fun f => ⟨f.1, f.2⟩
      badge := badge c.rung stale c.value.2 }

theorem TypeScript.resolveTiered_eq (options : TypeScript.TieredSourceOptions ε V) (now : ℤ) :
    TypeScript.resolveTiered options now =
      label options.maxCacheAge (↑) TypeScript.makeBadge (climb [] (rungs (ageless options.live)
        (options.cache.map (TypeScript.fromCache options now)) (options.mock.map ageless))) := by
  unfold TypeScript.resolveTiered
  cases options.live with
  | ok value => rfl
  | error e =>
    have hmock : ∀ failures : List (SourceTier × TierError ε ℕ),
        TypeScript.resolveTiered.afterCache options (failures.map fun f => ⟨f.1, f.2⟩) =
          label options.maxCacheAge (↑) TypeScript.makeBadge (climb failures
            ((options.mock.map ageless).map fun r => (SourceTier.mock, r)).toList) := by
      intro failures
      unfold TypeScript.resolveTiered.afterCache
      rcases options.mock with _ | e | value
      · rfl
      · simp [climb, label, ageless]
      · rfl
    show TypeScript.resolveTiered.afterLive options now [⟨.live, .thrown e⟩] = _
    unfold TypeScript.resolveTiered.afterLive
    cases options.cache with
    | none => exact hmock [(.live, .thrown e)]
    | some cache =>
      cases hcache : TypeScript.fromCache options now cache with
      | error error =>
        simp only [hcache]
        refine (hmock [(.live, .thrown e), (.cache, error)]).trans ?_
        simp [rungs, ageless, climb, hcache]
      | ok r => simp [rungs, ageless, climb, label, hcache]

theorem Python.resolveTiered_eq (args : Python.Arguments ε V) (now : ℚ) :
    Python.resolveTiered args now =
      label args.maxCacheAge id Python.badge (climb [] (rungs (ageless args.live)
        (args.cache.map (Python.fromCache args now)) (args.mock.map ageless))) := by
  unfold Python.resolveTiered
  cases args.live with
  | ok value => rfl
  | error e =>
    have hmock : ∀ failures : List (SourceTier × TierError ε ℚ),
        Python.resolveTiered.fromMock args (failures.map fun f => ⟨f.1, f.2⟩) =
          label args.maxCacheAge id Python.badge (climb failures
            ((args.mock.map ageless).map fun r => (SourceTier.mock, r)).toList) := by
      intro failures
      unfold Python.resolveTiered.fromMock
      rcases args.mock with _ | e | value
      · rfl
      · simp [climb, label, ageless]
      · rfl
    dsimp only
    cases args.cache with
    | none => exact hmock [(.live, .thrown e)]
    | some cache =>
      cases hcache : Python.fromCache args now cache with
      | error error =>
        simp only [hcache]
        refine (hmock [(.live, .thrown e), (.cache, error)]).trans ?_
        simp [rungs, ageless, climb, hcache]
      | ok r => simp [rungs, ageless, climb, label, hcache]

end Ladders

/-! ## Agreement -/

/-- What a cache returns: a miss, a value that is not shaped like a timestamped record, or one with
a timestamp in milliseconds. -/
inductive CacheHit (V : Type)
  | null
  | undefined
  | bare (value : V)
  | cached (value : V) (cachedAt : ℤ)

namespace CacheHit

variable {V : Type}

def typescript : CacheHit V → TypeScript.Hit V
  | .null => .null
  | .undefined => .undefined
  | .bare value => .bare value
  | .cached value cachedAt => .cached value (some cachedAt)

def python : CacheHit V → Python.Hit V
  | .null | .undefined => .miss
  | .bare value => .bare value
  | .cached value cachedAt => .cached value (cachedAt / 1000)

end CacheHit

/-- A limit in milliseconds, in seconds. -/
def toSeconds : Number → Number
  | .finite q => .finite (q / 1000)
  | limit => limit

/-- What the tiers do, and the limits and the time, in milliseconds. -/
structure Scenario (ε V : Type) where
  live : Except ε V
  cache : Option (Except ε (CacheHit V))
  mock : Option (Except ε V)
  maxCacheAge : Number
  maxCacheAgeHard : Option Number
  now : ℤ

namespace Scenario

variable {ε V : Type} (s : Scenario ε V)

def options : TypeScript.TieredSourceOptions ε V where
  live := s.live
  cache := s.cache.map (·.map CacheHit.typescript)
  mock := s.mock
  maxCacheAge := s.maxCacheAge
  maxCacheAgeHard := s.maxCacheAgeHard

def arguments : Python.Arguments ε V where
  live := s.live
  cache := s.cache.map (·.map CacheHit.python)
  mock := s.mock
  maxCacheAge := toSeconds s.maxCacheAge
  maxCacheAgeHard := s.maxCacheAgeHard.map toSeconds

def typescript : Except (List (TierFailure ε ℕ)) (TieredResult ε V ℕ) :=
  TypeScript.resolveTiered s.options s.now

def python : Except (List (TierFailure ε ℚ)) (TieredResult ε V ℚ) :=
  Python.resolveTiered s.arguments (s.now / 1000)

/-- The tiers that are there, in the order of the ladder. -/
def tiers : List SourceTier :=
  .live :: (if s.cache.isSome then [.cache] else []) ++ (if s.mock.isSome then [.mock] else [])

/-- The resolvers agree: both fail, or return the same. The tiers that failed are those before the
one that is returned, and the badges are the same for ages below 10 ^ 21 days. -/
def Agree (tiers : List SourceTier) : Except (List (TierFailure ε ℕ)) (TieredResult ε V ℕ) →
    Except (List (TierFailure ε ℚ)) (TieredResult ε V ℚ) → Prop
  | .error failures, .error failures' =>
    failures.map TierFailure.tier = tiers ∧ failures'.map TierFailure.tier = tiers
  | .ok r, .ok r' =>
    r.value = r'.value ∧ r.tier = r'.tier ∧ r.degraded = r'.degraded ∧ r.stale = r'.stale ∧
      r'.age = r.age.map (fun ms : ℕ => (ms / 1000 : ℚ)) ∧
      (r.badge = r'.badge ↔ ∀ ms, r.age = some ms → ms < 10 ^ 21 * 86400000) ∧
      r.failures.map TierFailure.tier = tiers.takeWhile (· ≠ r.tier) ∧
      r'.failures.map TierFailure.tier = tiers.takeWhile (· ≠ r.tier)
  | _, _ => False

theorem lt_seconds (limit : Number) (ms : ℕ) :
    (toSeconds limit).lt (.finite (ms / 1000)) = limit.lt (.finite ms) := by
  cases limit with
  | finite q => simp [toSeconds, Number.lt, div_lt_div_iff_of_pos_right]
  | _ => rfl

theorem age_seconds (now cachedAt : ℤ) :
    max 0 ((now / 1000 : ℚ) - cachedAt / 1000) = ((now - cachedAt).toNat / 1000 : ℚ) := by
  have hcast : (((now - cachedAt).toNat : ℤ) : ℚ) = max 0 ((now : ℚ) - cachedAt) := by
    rw [Int.ofNat_toNat, max_comm]
    push_cast
    rfl
  rw [← Int.cast_natCast, hcast, ← sub_div,
    ← max_div_div_right (by norm_num : (0 : ℚ) ≤ 1000), zero_div]

/-- The same value, with the same age. -/
def SameValue (a : V × Option ℕ) (a' : V × Option ℚ) : Prop :=
  a.1 = a'.1 ∧ a'.2 = a.2.map fun ms : ℕ => (ms / 1000 : ℚ)

theorem fromCache_alike (hit : Except ε (CacheHit V)) :
    RungsAlike SameValue
      (SourceTier.cache, TypeScript.fromCache s.options s.now (hit.map CacheHit.typescript))
      (SourceTier.cache,
        Python.fromCache s.arguments (s.now / 1000) (hit.map CacheHit.python)) := by
  refine ⟨rfl, ?_⟩
  rcases hit with e | _ | _ | value | ⟨value, cachedAt⟩
  · trivial
  · trivial
  · trivial
  · cases hhard : s.maxCacheAgeHard <;>
      simp [Except.map, CacheHit.typescript, CacheHit.python, TypeScript.fromCache,
        TypeScript.ofHit, TypeScript.checkHard, Python.fromCache, Python.ofHit, options, hhard,
        SameValue]
  · have hage := age_seconds s.now cachedAt
    cases hhard : s.maxCacheAgeHard with
    | none =>
      simp [Except.map, CacheHit.typescript, CacheHit.python, TypeScript.fromCache,
        TypeScript.ofHit, TypeScript.checkHard, Python.fromCache, Python.ofHit, options, arguments,
        hhard, SameValue, hage]
    | some hard =>
      have hexceeded := lt_seconds hard (s.now - cachedAt).toNat
      simp only [Except.map, CacheHit.typescript, CacheHit.python, TypeScript.fromCache,
        TypeScript.ofHit, TypeScript.checkHard, Python.fromCache, Python.ofHit, options, arguments,
        hhard, Option.map_some, hage, hexceeded]
      cases hard.lt (.finite (s.now - cachedAt).toNat) <;> simp [SameValue]

/-- The ladder of `resolveTiered`. -/
def typescriptRungs : List (SourceTier × Except (TierError ε ℕ) (V × Option ℕ)) :=
  rungs (ageless s.live) (s.options.cache.map (TypeScript.fromCache s.options s.now))
    (s.mock.map ageless)

/-- The ladder of `resolve_tiered`. -/
def pythonRungs : List (SourceTier × Except (TierError ε ℚ) (V × Option ℚ)) :=
  rungs (ageless s.live) (s.arguments.cache.map (Python.fromCache s.arguments (s.now / 1000)))
    (s.mock.map ageless)

theorem typescript_eq : s.typescript =
    label s.maxCacheAge (↑) TypeScript.makeBadge (climb [] s.typescriptRungs) :=
  TypeScript.resolveTiered_eq s.options s.now

theorem python_eq : s.python =
    label (toSeconds s.maxCacheAge) id Python.badge (climb [] s.pythonRungs) :=
  Python.resolveTiered_eq s.arguments (s.now / 1000)

theorem rungs_alike : List.Forall₂ (RungsAlike SameValue) s.typescriptRungs s.pythonRungs := by
  have hageless : ∀ (tier : SourceTier) (r : Except ε V),
      RungsAlike SameValue (tier, ageless r) (tier, ageless r) := by
    intro tier r
    cases r with
    | error e => exact ⟨rfl, trivial⟩
    | ok value => exact ⟨rfl, rfl, rfl⟩
  refine .cons (hageless _ _) (List.rel_append ?_ ?_)
  · cases hcache : s.cache with
    | none => simp [options, arguments, hcache]
    | some hit =>
      simpa [options, arguments, hcache] using fromCache_alike s hit
  · cases s.mock with
    | none => exact .nil
    | some r => exact .cons (hageless _ _) .nil

theorem map_fst_rungs {α : Type} {cache : Option (Except (TierError ε α) (V × Option α))}
    (hcache : cache.isSome = s.cache.isSome) :
    (rungs (ageless s.live) cache (s.mock.map ageless)).map Prod.fst = s.tiers := by
  unfold rungs tiers
  rw [← hcache]
  cases cache <;> cases s.mock <;> rfl

theorem nodup_tiers : s.tiers.Nodup := by
  unfold tiers
  split_ifs <;> simp

/-- Only the cache gives an age. -/
theorem age_eq_none {α : Type} {cache : Option (Except (TierError ε α) (V × Option α))}
    {tier : SourceTier} {value : V × Option α}
    (h : (tier, .ok value) ∈ rungs (ageless s.live) cache (s.mock.map ageless))
    (htier : tier ≠ .cache) : value.2 = none := by
  have hageless : ∀ r : Except ε V, .ok value = ageless r → value.2 = none := by
    rintro (e | v) h
    · cases h
    · cases h
      rfl
  simp only [rungs, List.cons_append, List.mem_cons, List.mem_append, Option.mem_toList,
    Option.map_eq_some_iff, Prod.mk.injEq] at h
  obtain ⟨_, hlive⟩ | ⟨_, _, hcache, _⟩ | ⟨_, ⟨r, _, rfl⟩, _, hmock⟩ := h
  · exact hageless _ hlive
  · exact absurd hcache.symm htier
  · exact hageless _ hmock.symm

/-- The tiers that failed, before the one that is taken. -/
theorem map_tier_failures {α : Type} {cache : Option (Except (TierError ε α) (V × Option α))}
    (hcache : cache.isSome = s.cache.isSome)
    {c : Climbed SourceTier (TierError ε α) (V × Option α)}
    (h : climb [] (rungs (ageless s.live) cache (s.mock.map ageless)) = .ok c) :
    c.failures.map Prod.fst = s.tiers.takeWhile (· ≠ c.rung) := by
  obtain ⟨before, after, hrungs, hfailures⟩ := climb_eq_ok h
  have htiers : s.tiers = before.map Prod.fst ++ c.rung :: after.map Prod.fst := by
    rw [← map_fst_rungs s hcache, hrungs, List.map_append, List.map_cons]
  have hnodup := nodup_tiers s
  rw [htiers, List.nodup_middle, List.nodup_cons] at hnodup
  rw [hfailures, htiers, List.map_nil, List.nil_append, List.takeWhile_append_of_pos,
    List.takeWhile_cons_of_neg (by simp), List.append_nil]
  intro tier htier
  simp only [decide_eq_true_eq]
  rintro rfl
  exact hnodup.1 (List.mem_append_left _ htier)

/-- What is taken from a rung, with the same value, is returned alike. -/
theorem label_alike {c : Climbed SourceTier (TierError ε ℕ) (V × Option ℕ)}
    {c' : Climbed SourceTier (TierError ε ℚ) (V × Option ℚ)} {tiers : List SourceTier}
    (hrung : c.rung = c'.rung) (hvalue : SameValue c.value c'.value)
    (hage : c.rung ≠ .cache → c.value.2 = none)
    (hfailures : c.failures.map Prod.fst = tiers.takeWhile (· ≠ c.rung))
    (hfailures' : c'.failures.map Prod.fst = c.failures.map Prod.fst) :
    Agree tiers (label s.maxCacheAge (↑) TypeScript.makeBadge (.ok c))
      (label (toSeconds s.maxCacheAge) id Python.badge (.ok c')) := by
  have hstale : (c'.value.2.any fun age => (toSeconds s.maxCacheAge).lt (.finite (id age))) =
      c.value.2.any fun age : ℕ => s.maxCacheAge.lt (.finite age) := by
    rw [hvalue.2]
    cases c.value.2 with
    | none => rfl
    | some ms => exact lt_seconds s.maxCacheAge ms
  refine ⟨hvalue.1, hrung, by simp only [hrung], hstale.symm, hvalue.2, ?_, ?_, ?_⟩
  · dsimp only [label]
    rw [hstale, hvalue.2, ← hrung]
    cases htier : c.rung with
    | cache => exact badge_eq_iff _ _
    | live => simp [TypeScript.makeBadge, Python.badge, hage (by simp [htier])]
    | mock => simp [TypeScript.makeBadge, Python.badge, hage (by simp [htier])]
  · simpa [Function.comp_def] using hfailures
  · simpa [Function.comp_def] using hfailures'.trans hfailures

/-- **The tiered resolvers agree.** -/
theorem resolvers_agree : Agree s.tiers s.typescript s.python := by
  have hcache : (s.options.cache.map (TypeScript.fromCache s.options s.now)).isSome =
      s.cache.isSome := by
    simp [options]
  have halike : ClimbedAlike SameValue (climb [] s.typescriptRungs) (climb [] s.pythonRungs) :=
    climb_related s.rungs_alike rfl
  rw [typescript_eq, python_eq]
  cases hclimb : climb [] s.typescriptRungs with
  | error failures =>
    cases hclimb' : climb [] s.pythonRungs with
    | error failures' =>
      rw [hclimb, hclimb'] at halike
      have hfailures : failures.map Prod.fst = s.tiers :=
        (climb_eq_error hclimb).trans (map_fst_rungs s hcache)
      constructor
      · simpa [Function.comp_def] using hfailures
      · simpa [Function.comp_def] using halike.symm.trans hfailures
    | ok c' =>
      rw [hclimb, hclimb'] at halike
      exact halike.elim
  | ok c =>
    cases hclimb' : climb [] s.pythonRungs with
    | error failures' =>
      rw [hclimb, hclimb'] at halike
      exact halike.elim
    | ok c' =>
      rw [hclimb, hclimb'] at halike
      obtain ⟨hrung, hvalue, hfailures⟩ := halike
      obtain ⟨before, after, hrungs, _⟩ := climb_eq_ok hclimb
      have hmem : (c.rung, .ok c.value) ∈ s.typescriptRungs := by simp [hrungs]
      exact label_alike s hrung hvalue (age_eq_none s hmem)
        (map_tier_failures s hcache hclimb) hfailures.symm

/-- The live tier fails, and the value of the cache is `age` milliseconds old. -/
def aged (age : ℕ) : Scenario Unit Unit where
  live := .error ()
  cache := some (.ok (.cached () (-age)))
  mock := none
  maxCacheAge := .finite 300000
  maxCacheAgeHard := none
  now := 0

theorem aged_badge_eq_iff (age : ℕ) : ∃ r r', (aged age).typescript = .ok r ∧
    (aged age).python = .ok r' ∧ (r.badge = r'.badge ↔ age < 10 ^ 21 * 86400000) := by
  have hnat : ((0 : ℤ) - -age).toNat = age := by omega
  have hage := age_seconds 0 (-age)
  rw [hnat] at hage
  refine ⟨_, _, rfl, rfl, ?_⟩
  show TypeScript.makeBadge .cache ((Number.finite 300000).lt (.finite (0 - -age : ℤ).toNat))
      (some (0 - -age : ℤ).toNat) =
    Python.badge .cache ((toSeconds (.finite 300000)).lt
      (.finite (max 0 (((0 : ℤ) : ℚ) / 1000 - ((-age : ℤ) : ℚ) / 1000))))
      (some (max 0 (((0 : ℤ) : ℚ) / 1000 - ((-age : ℤ) : ℚ) / 1000))) ↔ _
  rw [hnat, hage, lt_seconds]
  simpa using badge_eq_iff ((Number.finite 300000).lt (.finite age)) (some age)

/-- An age of 10 ^ 22 days is written in two ways. -/
theorem exists_badge_ne : ∃ (s : Scenario Unit Unit) (r : TieredResult Unit Unit ℕ)
    (r' : TieredResult Unit Unit ℚ),
    s.typescript = .ok r ∧ s.python = .ok r' ∧ r.badge ≠ r'.badge := by
  obtain ⟨r, r', htypescript, hpython, hbadge⟩ := aged_badge_eq_iff (10 ^ 22 * 86400000)
  exact ⟨_, r, r', htypescript, hpython, fun h => absurd (hbadge.1 h) (by norm_num)⟩

end Scenario

end Resilience.Tiered
