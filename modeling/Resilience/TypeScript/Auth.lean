import Resilience.Foundations.Runs
import Resilience.TypeScript.Guards
import Mathlib.Data.Nat.Cast.Order.Ring

/-!
# The bearer-token guard

`typescript/src/auth.ts`. Objects are compared by identity: the registry of limiters is a `WeakMap`
under the options objects.

So the limit holds for the calls with one options object. Calls with options of their own have
limiters of their own, and a limit that is not whole admits one call more (`authorized_le_iff`).
-/

namespace Resilience.TypeScript

open Json SlidingWindow

/-- A letter in lower case. -/
def lowerUnit (c : Fin 0x10000) : ℕ :=
  if 0x41 ≤ c.val ∧ c.val ≤ 0x5A then c.val + 0x20 else c.val

/-- `extractBearer`: what `(.+)` matches in `/^Bearer\s+(.+)$/i`, trimmed. `captured` is the match
less the white space before it. -/
def extractBearer (header : Option Units) : Option Units :=
  let s := header.getD []
  if (s.take 6).map lowerUnit = ascii "bearer" then
    let rest := s.drop 6
    let captured := rest.dropWhile isSpaceUnit
    if captured.length < rest.length ∧ captured.all (!isLineTerminator ·) then
      let token := trimmed captured
      if token.isEmpty then none else some token
    else none
  else none

inductive AuthResult
  | ok (token : Units)
  | denied (d : Denial)
  deriving DecidableEq

/-- `RequireAuthOptions`, with the identity of the object. -/
structure RequireAuthOptions (Ref : Type) where
  ref : Ref
  token : Option Units
  rateLimit : Option RateLimitOptions := none
  keyFor : Option (HttpRequest → Units → Units) := none
  limiter : Option Ref := none

section Guard

variable {Ref : Type} [DecidableEq Ref] (fl : ℚ → ℚ) (s : Limiters Ref Ref) (req : HttpRequest)
  (options : RequireAuthOptions Ref) (now later : ℚ)

/-- Numbers are rounded by `fl`. -/
def requireAuthIn : Except String (AuthResult × Limiters Ref Ref) :=
  let expected := options.token.getD []
  if expected.isEmpty then
    .ok (.denied ⟨503, "Server misconfigured: auth token is not set", none⟩, s)
  else
    match extractBearer (req.header "authorization") with
    | none => .ok (.denied ⟨401, "Unauthorized", none⟩, s)
    | some provided =>
      if provided ≠ expected then .ok (.denied ⟨401, "Unauthorized", none⟩, s)
      else do
        let key := match options.keyFor with
          | some keyFor => keyFor req provided
          | none => provided
        match ← s.checkLimitIn fl options.ref options.limiter options.rateLimit key now later with
        | (some retryAfterMs, s) =>
          return (.denied ⟨429, "Too Many Requests", some retryAfterMs⟩, s)
        | (none, s) => return (.ok provided, s)

def requireAuthResponseIn : Except String (Option HttpResponse × Limiters Ref Ref) := do
  match ← requireAuthIn fl s req options now later with
  | (.ok _, s) => return (none, s)
  | (.denied d, s) => return (some (d.responseIn fl), s)

/-- `requireAuthIn` on exact numbers. -/
def requireAuth : Except String (AuthResult × Limiters Ref Ref) :=
  requireAuthIn id s req options now later

/-- `requireAuthResponseIn` on exact numbers. -/
def requireAuthResponse : Except String (Option HttpResponse × Limiters Ref Ref) :=
  requireAuthResponseIn id s req options now later

end Guard

/-! ## Sequences of calls -/

/-- A call of `requireAuth`, or of `requireAuthResponse`, with its readings of the clock. -/
structure AuthCall (Ref : Type) where
  viaResponse : Bool
  req : HttpRequest
  options : RequireAuthOptions Ref
  now : ℚ
  later : ℚ

namespace AuthCall

variable {Ref : Type} [DecidableEq Ref]

/-- Whether the call authorizes the request. -/
def authorize (c : AuthCall Ref) (s : Limiters Ref Ref) : Bool × Limiters Ref Ref :=
  if c.viaResponse then
    match requireAuthResponse s c.req c.options c.now c.later with
    | .ok (response, s) => (response.isNone, s)
    | .error _ => (false, s)
  else
    match requireAuth s c.req c.options c.now c.later with
    | .ok (.ok _, s) => (true, s)
    | .ok (.denied _, s) => (false, s)
    | .error _ => (false, s)

/-- The times of the calls that are authorized. -/
def authorized : Limiters Ref Ref → List (AuthCall Ref) → List ℚ
  | _, [] => []
  | s, c :: calls =>
    let (ok, s) := c.authorize s
    if ok then c.now :: authorized s calls else authorized s calls

/-- The call carries the correct token, is limited by `config`, without a limiter of its own, and
has this rate-limit key. -/
structure Limited (config : RateLimitOptions) (key : Units) (c : AuthCall Ref) : Prop where
  token : ∃ token ≠ [], c.options.token = some token ∧
    extractBearer (c.req.header "authorization") = some token ∧
    (c.options.keyFor.map fun keyFor => keyFor c.req token).getD token = key
  rateLimit : c.options.rateLimit = some config
  limiter : c.options.limiter = none

variable {config : RateLimitOptions} {key : Units} {c : AuthCall Ref} {s : Limiters Ref Ref}

/-- The call is authorized when its limiter admits it. -/
theorem authorize_eq (h : c.Limited config key) :
    c.authorize s = match s.checkLimit c.options.ref none (some config) key c.now c.later with
      | .ok (refusal, s') => (refusal.isNone, s')
      | .error _ => (false, s) := by
  obtain ⟨⟨token, hne, htoken, hbearer, hkey⟩, hconfig, hlimiter⟩ := h
  have hauth : requireAuth s c.req c.options c.now c.later =
      match s.checkLimit c.options.ref none (some config) key c.now c.later with
      | .ok (some retryAfterMs, s') =>
        .ok (.denied ⟨429, "Too Many Requests", some retryAfterMs⟩, s')
      | .ok (none, s') => .ok (.ok token, s')
      | .error e => .error e := by
    have hkey' : (match c.options.keyFor with
        | some keyFor => keyFor c.req token
        | none => token) = key := by
      rw [← hkey]
      cases c.options.keyFor <;> rfl
    simp only [requireAuth, requireAuthIn, Limiters.checkLimitIn_id, htoken, Option.getD_some,
      List.isEmpty_iff, hne, if_false, hbearer, ne_eq, not_true_eq_false, hlimiter, hconfig, hkey']
    rcases s.checkLimit c.options.ref none (some config) key c.now c.later with e | ⟨_ | ms, s'⟩
    all_goals rfl
  have hauthIn : requireAuthIn id s c.req c.options c.now c.later = _ := hauth
  simp only [authorize, requireAuthResponse, requireAuthResponseIn, hauth, hauthIn]
  rcases s.checkLimit c.options.ref none (some config) key c.now c.later with e | ⟨_ | ms, s'⟩ <;>
    cases c.viaResponse <;> rfl

/-- The calls with the same options object. -/
theorem tracks_authorize {times : List ℚ} {before : ℚ} (h : c.Limited config key)
    (hlimit : 1 ≤ config.limit) (hwindow : 0 < config.windowMs) (hle : before ≤ c.now)
    (htracks : s.Tracks c.options.ref config key times before) :
    ((c.authorize s).1 = true ↔ (recent config.windowMs c.now times).length < config.limit) ∧
      (c.authorize s).2.Tracks c.options.ref config key
        (if (c.authorize s).1 then times ++ [c.now] else times) c.now := by
  obtain ⟨refusal, s', hcheck⟩ :=
    Limiters.exists_checkLimit_eq s c.options.ref key c.now c.later hlimit hwindow
  have hafter := htracks.checkLimit hle hcheck
  rw [authorize_eq h, hcheck]
  simpa using hafter

/-- The calls with another one. -/
theorem tracks_authorize_of_ne {ref : Ref} {times : List ℚ} {now : ℚ} (h : c.Limited config key)
    (hne : c.options.ref ≠ ref) (htracks : s.Tracks ref config key times now) :
    (c.authorize s).2.Tracks ref config key times now := by
  rw [authorize_eq h]
  cases hcheck : s.checkLimit c.options.ref none (some config) key c.now c.later with
  | error e => exact htracks
  | ok r => exact htracks.checkLimit_other hcheck fun _ _ _ heq => absurd heq hne

theorem authorized_cons (c : AuthCall Ref) (calls : List (AuthCall Ref)) (s : Limiters Ref Ref) :
    authorized s (c :: calls) =
      (if (c.authorize s).1 then [c.now] else []) ++ authorized (c.authorize s).2 calls := by
  rw [authorized]
  rcases c.authorize s with ⟨_ | _, s'⟩ <;> rfl

theorem length_authorized_le (calls : List (AuthCall Ref)) (s : Limiters Ref Ref) :
    (authorized s calls).length ≤ calls.length := by
  induction calls generalizing s with
  | nil => exact le_rfl
  | cons c calls ih =>
    have hrest := ih (c.authorize s).2
    rw [authorized_cons, List.length_append, List.length_cons]
    split_ifs <;> simp only [List.length_singleton, List.length_nil] <;> omega

/-- One options object and a whole limit: the limit holds. -/
theorem atMost_authorized {n : ℕ} (hn : config.limit = n) (hlimit : 1 ≤ config.limit)
    (hwindow : 0 < config.windowMs) {ref : Ref} {calls : List (AuthCall Ref)}
    (hcalls : ∀ c ∈ calls, c.Limited config key ∧ c.options.ref = ref) {times : List ℚ} {before : ℚ}
    (hclock : (before :: calls.map (·.now)).Pairwise (· ≤ ·))
    (htracks : s.Tracks ref config key times before) (h : AtMost config.windowMs n times) :
    AtMost config.windowMs n (times ++ authorized s calls) := by
  induction calls generalizing s times before with
  | nil => rwa [authorized, List.append_nil]
  | cons c calls ih =>
    obtain ⟨⟨hc, rfl⟩, hrest⟩ := List.forall_mem_cons.1 hcalls
    rw [List.map_cons] at hclock
    obtain ⟨hbefore, hclock⟩ := List.pairwise_cons.1 hclock
    have hle := hbefore c.now (List.mem_cons_self ..)
    obtain ⟨hroom, htracks⟩ := tracks_authorize hc hlimit hwindow hle htracks
    rw [authorized_cons, ← List.append_assoc]
    cases hok : (c.authorize s).1 with
    | true =>
      rw [hok, if_pos rfl] at htracks
      rw [hn, Nat.cast_lt] at hroom
      exact ih hrest hclock htracks (atMost_append h (hroom.1 hok))
    | false =>
      rw [hok, if_neg Bool.false_ne_true] at htracks
      rw [if_neg Bool.false_ne_true, List.append_nil]
      exact ih hrest hclock htracks h

theorem exists_of_mem_authorized {calls : List (AuthCall Ref)} {t : ℚ}
    (h : t ∈ authorized s calls) : ∃ c ∈ calls, c.now = t := by
  induction calls generalizing s with
  | nil => cases h
  | cons c calls ih =>
    rw [authorized_cons, List.mem_append] at h
    rcases h with h | h
    · split_ifs at h
      · exact ⟨c, List.mem_cons_self .., (List.mem_singleton.1 h).symm⟩
      · cases h
    · obtain ⟨c', hc', ht⟩ := ih h
      exact ⟨c', List.mem_cons_of_mem c hc', ht⟩

/-! ## Calls at once -/

/-- The options objects of the calls that are authorized when all calls come at once, the latest
first, after those of `granted`. -/
def grants (limit : ℚ) : List Ref → List Ref → List Ref
  | granted, [] => granted
  | granted, ref :: refs =>
    if (granted.count ref : ℚ) < limit then grants limit (ref :: granted) refs
    else grants limit granted refs

section Grants

variable {limit : ℚ} {granted refs : List Ref}

theorem suffix_grants : granted <:+ grants limit granted refs := by
  induction refs generalizing granted with
  | nil => exact List.suffix_rfl
  | cons ref refs ih =>
    rw [grants]
    split_ifs
    · exact (List.suffix_cons ref granted).trans ih
    · exact ih

theorem mem_grants (hlimit : 1 ≤ limit) {ref : Ref} (h : ref ∈ refs) :
    ref ∈ grants limit granted refs := by
  induction refs generalizing granted with
  | nil => cases h
  | cons ref' refs ih =>
    rw [grants]
    rcases List.mem_cons.1 h with rfl | h
    · split_ifs with hroom
      · exact suffix_grants.subset (List.mem_cons_self ..)
      · refine suffix_grants.subset (List.count_pos_iff.1 ?_)
        have hpos : (0 : ℚ) < granted.count ref :=
            zero_lt_one.trans_le (hlimit.trans (not_lt.1 hroom))
        exact Nat.cast_pos.1 hpos
    · split_ifs
      · exact ih h
      · exact ih h

/-- All are granted, or an options object has used its limit. -/
theorem length_grants (limit : ℚ) (granted refs : List Ref) :
    (grants limit granted refs).length = granted.length + refs.length ∨
      ∃ ref, limit ≤ (grants limit granted refs).count ref := by
  induction refs generalizing granted with
  | nil => exact .inl rfl
  | cons ref refs ih =>
    rw [grants]
    split_ifs with hroom
    · refine (ih (ref :: granted)).imp_left fun hlength => ?_
      rw [hlength, List.length_cons, List.length_cons]
      omega
    · refine .inr ⟨ref, (not_lt.1 hroom).trans ?_⟩
      exact Nat.cast_le.2 (suffix_grants.sublist.count_le ref)

/-- More calls are granted than the limit, unless one object is used and the limit is whole. -/
theorem limit_lt_length_grants (hlimit : 1 ≤ limit) (hlength : limit < refs.length)
    (hcases : (∃ n : ℕ, limit = n) → ∃ ref ∈ refs, ∃ ref' ∈ refs, ref ≠ ref') :
    limit < (grants limit [] refs).length := by
  rcases length_grants limit [] refs with hall | ⟨ref, hfull⟩
  · rwa [hall, List.length_nil, Nat.zero_add]
  have hcount := List.count_le_length (a := ref) (l := grants limit [] refs)
  by_cases hwhole : ∃ n : ℕ, limit = n
  · -- Another object has been granted a call too.
    obtain ⟨ref₁, h₁, ref₂, h₂, hne⟩ := hcases hwhole
    obtain ⟨other, hother, hother'⟩ : ∃ other ∈ refs, ref ≠ other := by
      rcases eq_or_ne ref ref₁ with rfl | hne₁
      · exact ⟨ref₂, h₂, hne⟩
      · exact ⟨ref₁, h₁, hne₁⟩
    refine hfull.trans_lt (Nat.cast_lt.2 (lt_of_le_of_ne hcount fun heq => ?_))
    exact hother' (List.count_eq_length.1 heq other (mem_grants hlimit hother))
  · exact (lt_of_le_of_ne hfull fun heq => hwhole ⟨_, heq⟩).trans_le (Nat.cast_le.2 hcount)

end Grants

/-- A call at time zero, with an options object of this identity. -/
def atOnce (config : RateLimitOptions) (key : Units) (ref : Ref) : AuthCall Ref where
  viaResponse := false
  req := ⟨fun _ => some (utf16 "Bearer t")⟩
  options := ⟨ref, some (utf16 "t"), some config, some fun _ _ => key, none⟩
  now := 0
  later := 0

theorem extractBearer_atOnce : extractBearer (some (utf16 "Bearer t")) = some (utf16 "t") := by
  decide +kernel

theorem limited_atOnce {R : Type} (config : RateLimitOptions) (key : Units) (ref : R) :
    (atOnce config key ref).Limited config key where
  token := ⟨utf16 "t", by decide, rfl, extractBearer_atOnce, rfl⟩
  rateLimit := rfl
  limiter := rfl

theorem length_authorized_atOnce (hlimit : 1 ≤ config.limit) (hwindow : 0 < config.windowMs)
    (granted refs : List Ref)
    (htracks : ∀ ref, s.Tracks ref config key (List.replicate (granted.count ref) 0) 0) :
    granted.length + (authorized s (refs.map (atOnce config key))).length =
      (grants config.limit granted refs).length := by
  induction refs generalizing s granted with
  | nil => rfl
  | cons ref refs ih =>
    have hlimited := limited_atOnce config key ref
    obtain ⟨hroom, hafter⟩ := tracks_authorize hlimited hlimit hwindow le_rfl (htracks ref)
    have hother (ref' : Ref) (hne : ref ≠ ref') :=
        tracks_authorize_of_ne hlimited hne (htracks ref')
    rw [show (atOnce config key ref).now = 0 from rfl, recent_replicate_self hwindow,
      List.length_replicate] at hroom
    rw [List.map_cons, authorized_cons, grants]
    cases hok : ((atOnce config key ref).authorize s).1 with
    | true =>
      have hnext (ref' : Ref) : ((atOnce config key ref).authorize s).2.Tracks ref' config key
          (List.replicate ((ref :: granted).count ref') 0) 0 := by
        rcases eq_or_ne ref ref' with rfl | hne
        · rw [hok, if_pos rfl] at hafter
          rwa [List.count_cons_self, List.replicate_succ']
        · rw [List.count_cons_of_ne hne]
          exact hother ref' hne
      rw [if_pos (hroom.1 hok), if_pos rfl, ← ih _ hnext, List.length_append, List.length_cons,
        List.length_cons, List.length_nil]
      omega
    | false =>
      have hnext (ref' : Ref) : ((atOnce config key ref).authorize s).2.Tracks ref' config key
          (List.replicate (granted.count ref') 0) 0 := by
        rcases eq_or_ne ref ref' with rfl | hne
        · rwa [hok, if_neg Bool.false_ne_true] at hafter
        · exact hother ref' hne
      rw [if_neg fun h => Bool.false_ne_true (hok.symm.trans (hroom.2 h)),
        if_neg Bool.false_ne_true, ← ih _ hnext, List.nil_append]

/-- All calls at once are in one window. -/
theorem countFrom_authorized_atOnce (hlimit : 1 ≤ config.limit) (hwindow : 0 < config.windowMs)
    (refs : List Ref) (hempty : ∀ ref, s.Tracks ref config key [] 0) :
    countFrom config.windowMs 0 (authorized s (refs.map (atOnce config key))) =
      (grants config.limit [] refs).length := by
  have hzero (t : ℚ) (ht : t ∈ authorized s (refs.map (atOnce config key))) : t = 0 := by
    obtain ⟨c, hc, rfl⟩ := exists_of_mem_authorized ht
    obtain ⟨ref, -, rfl⟩ := List.mem_map.1 hc
    rfl
  have htotal := length_authorized_atOnce hlimit hwindow [] refs hempty
  rw [List.length_nil, Nat.zero_add] at htotal
  rw [List.eq_replicate_of_mem hzero, countFrom_replicate_self hwindow, htotal]

/-- **When the limit holds for a configuration.** Calls with the correct token, one rate-limit key
and the same `limit` and `windowMs`, from an empty registry: on every clock that does not go back,
at most `limit` of them are authorized in each window exactly when they are no more than `limit`, or
all pass one options object and `limit` is whole. -/
theorem authorized_le_iff (config : RateLimitOptions) (key : Units) (hlimit : 1 ≤ config.limit)
    (hwindow : 0 < config.windowMs) (passed : Ref → SlidingWindowRateLimiter) (refs : List Ref) :
    (∀ calls : List (AuthCall Ref), calls.map (·.options.ref) = refs →
        (∀ c ∈ calls, c.Limited config key) → (calls.map (·.now)).Pairwise (· ≤ ·) →
        ∀ a, (countFrom config.windowMs a (authorized ⟨fun _ => none, passed⟩ calls) : ℚ) ≤
          config.limit) ↔
      (refs.length : ℚ) ≤ config.limit ∨
        (∃ n : ℕ, config.limit = n) ∧ ∀ ref ∈ refs, ∀ ref' ∈ refs, ref = ref' := by
  have hempty (ref : Ref) (now : ℚ) :
      Limiters.Tracks ⟨fun _ => none, passed⟩ ref config key [] now := Limiters.tracks_of_none rfl
  constructor
  · intro hall
    by_contra hnot
    obtain ⟨hlength, hcases⟩ := not_or.1 hnot
    push Not at hcases
    have hgrants := limit_lt_length_grants hlimit (not_le.1 hlength) hcases
    have hrefs : (refs.map (atOnce config key)).map (·.options.ref) = refs := by
      rw [List.map_map]
      exact List.map_id refs
    have hlimited : ∀ c ∈ refs.map (atOnce config key), c.Limited config key := by
      intro c hc
      obtain ⟨ref, -, rfl⟩ := List.mem_map.1 hc
      exact limited_atOnce config key ref
    have hclock : ((refs.map (atOnce config key)).map (·.now)).Pairwise (· ≤ ·) := by
      rw [List.map_map]
      exact List.pairwise_map.2 (List.pairwise_of_forall fun _ _ => le_rfl)
    have hcount := hall _ hrefs hlimited hclock 0
    rw [countFrom_authorized_atOnce hlimit hwindow refs fun ref => hempty ref 0] at hcount
    exact absurd hcount (not_le.2 hgrants)
  · rintro (hfew | ⟨⟨n, hn⟩, hone⟩) calls rfl hcalls hclock a
    · rw [List.length_map] at hfew
      have hle : countFrom config.windowMs a (authorized ⟨fun _ => none, passed⟩ calls) ≤
          calls.length :=
        (countFrom_le_length a _).trans (length_authorized_le calls _)
      exact (Nat.cast_le.2 hle).trans hfew
    · obtain ⟨before, hbefore⟩ := Runs.exists_pairwise_cons hclock
      rw [hn, Nat.cast_le]
      cases calls with
      | nil => exact Nat.zero_le n
      | cons c calls =>
        have hsame : ∀ c' ∈ c :: calls, c'.Limited config key ∧ c'.options.ref = c.options.ref :=
          fun c' hc' => ⟨hcalls c' hc', hone _ (List.mem_map_of_mem hc') _
            (List.mem_map_of_mem (List.mem_cons_self ..))⟩
        exact atMost_authorized hn hlimit hwindow hsame hbefore (hempty c.options.ref before)
          (atMost_nil n) a

/-- Three calls with one options object, and a limit of two. -/
theorem authorized_le_iff_shared :
    let config : RateLimitOptions := ⟨2, 60000⟩
    ∃ l, SlidingWindowRateLimiter.create config = .ok l ∧
      ((∀ calls : List (AuthCall ℕ), calls.map (·.options.ref) = [7, 7, 7] →
          (∀ c ∈ calls, c.Limited config (utf16 "t")) → (calls.map (·.now)).Pairwise (· ≤ ·) →
          ∀ a, (countFrom config.windowMs a
            (authorized ⟨fun _ => none, fun _ : ℕ => l⟩ calls) : ℚ) ≤ config.limit) ↔
        ((3 : ℕ) : ℚ) ≤ config.limit ∨
          (∃ n : ℕ, config.limit = n) ∧ ∀ ref ∈ [7, 7, 7], ∀ ref' ∈ [7, 7, 7], ref = ref') := by
  intro config
  refine ⟨⟨2, 60000, fun _ => [], by decide, by decide⟩, rfl, ?_⟩
  exact authorized_le_iff config (utf16 "t") (by decide) (by decide) _ [7, 7, 7]

/-- A handler that builds its options for each request: with a limit of one, two requests at once
are both authorized. -/
theorem exists_not_authorized_le : ¬ ∀ (config : RateLimitOptions) (key : Units)
    (passed : ℕ → SlidingWindowRateLimiter) (calls : List (AuthCall ℕ)), 1 ≤ config.limit →
      0 < config.windowMs → (∀ c ∈ calls, c.Limited config key) →
      (calls.map (·.now)).Pairwise (· ≤ ·) →
      ∀ a, (countFrom config.windowMs a (authorized ⟨fun _ => none, passed⟩ calls) : ℚ) ≤
        config.limit := by
  intro hall
  let passed : ℕ → SlidingWindowRateLimiter := fun _ => ⟨1, 1, fun _ => [], le_rfl, zero_lt_one⟩
  let config : RateLimitOptions := ⟨1, 60000⟩
  let calls : List (AuthCall ℕ) := [atOnce config (utf16 "t") 0, atOnce config (utf16 "t") 1]
  have hlimited : ∀ c ∈ calls, c.Limited config (utf16 "t") := by
    intro c hc
    simp only [calls, List.mem_cons, List.not_mem_nil, or_false] at hc
    rcases hc with rfl | rfl
    · exact limited_atOnce ..
    · exact limited_atOnce ..
  have hcount := hall config (utf16 "t") passed calls le_rfl (by decide) hlimited (by decide) 0
  have hboth : authorized ⟨fun _ => none, passed⟩ calls = [0, 0] := by decide +kernel
  rw [hboth] at hcount
  revert hcount
  decide +kernel

end AuthCall

end Resilience.TypeScript
