import Resilience.Foundations.Runs
import Resilience.TypeScript.RateLimit

/-!
# Runs of the rate limiter

A limiter between checks, resets and sweeps of any keys. For one key it answers like a limiter that
remembers the admitted times since the last reset and forgets none of them (`fullPerform`): a step
for the key is a step of that limiter (`perform_concerns`), and the other steps, sweeps among them,
are none (`perform_other`).
-/

namespace Resilience.TypeScript

open Json SlidingWindow Runs

namespace SlidingWindowRateLimiter

/-- A call, with the time that the clock shows. -/
inductive Call
  | check (key : Units) (ts : ℚ)
  | reset (key : Units)
  | sweep (now : ℚ)
  deriving DecidableEq, Repr

/-- The reading of the clock. -/
def Call.reading : Call → Option ℚ
  | .check _ ts => some ts
  | .reset _ => none
  | .sweep now => some now

/-- Checks and resets of `key`. -/
def Call.concerns (key : Units) : Call → Bool
  | .check k _ => k = key
  | .reset k => k = key
  | .sweep _ => false

/-- The calls read a clock that does not go back. -/
def Clocked (calls : List Call) : Prop := (calls.filterMap Call.reading).Pairwise (· ≤ ·)

/-- A call: the answer, if it is a check, and the limiter after it. -/
def performIn (fl : ℚ → ℚ) (l : SlidingWindowRateLimiter) :
    Call → Option RateLimitResult × SlidingWindowRateLimiter
  | .check key ts => (some (l.checkIn fl key ts).1, (l.checkIn fl key ts).2)
  | .reset key => (none, l.reset key)
  | .sweep now => (none, l.sweepIn fl now)

/-- A call on exact numbers. -/
def perform (l : SlidingWindowRateLimiter) (call : Call) :
    Option RateLimitResult × SlidingWindowRateLimiter :=
  l.performIn id call

/-- The limiter after the calls. -/
def afterIn (fl : ℚ → ℚ) : SlidingWindowRateLimiter → List Call → SlidingWindowRateLimiter :=
  run fun l call => (l.performIn fl call).2

/-- The limiter after the calls, on exact numbers. -/
def after : SlidingWindowRateLimiter → List Call → SlidingWindowRateLimiter := afterIn id

@[simp] theorem perform_check (l : SlidingWindowRateLimiter) (key : Units) (ts : ℚ) :
    l.perform (.check key ts) = (some (l.check key ts).1, (l.check key ts).2) := rfl

@[simp] theorem perform_reset (l : SlidingWindowRateLimiter) (key : Units) :
    l.perform (.reset key) = (none, l.reset key) := rfl

@[simp] theorem perform_sweep (l : SlidingWindowRateLimiter) (now : ℚ) :
    l.perform (.sweep now) = (none, l.sweep now) := rfl

theorem after_cons (l : SlidingWindowRateLimiter) (call : Call) (calls : List Call) :
    l.after (call :: calls) = (l.perform call).2.after calls := rfl

/-- The calls with their answers. -/
def trace (l : SlidingWindowRateLimiter) : List Call → List (Call × Option RateLimitResult)
  | [] => []
  | call :: calls => (call, (l.perform call).1) :: trace (l.perform call).2 calls

/-- The times of the checks of `key` that were allowed since its last reset. -/
def allowedSince (key : Units) (times : List ℚ) : List (Call × Option RateLimitResult) → List ℚ
  | [] => times
  | (.check k ts, some result) :: events =>
    allowedSince key (if k = key ∧ result.allowed then times ++ [ts] else times) events
  | (.reset k, _) :: events => allowedSince key (if k = key then [] else times) events
  | _ :: events => allowedSince key times events

/-! ## A limiter that forgets nothing -/

/-- The check of one key, when all of its admitted times are kept. -/
def fullCheck (limit windowMs : ℚ) (times : List ℚ) (ts : ℚ) : RateLimitResult :=
  let counted := recent windowMs ts times
  if limit ≤ counted.length then ⟨false, 0, counted.head?.getD ts + windowMs⟩
  else ⟨true, limit - (counted.length + 1), counted.head?.getD ts + windowMs⟩

/-- A call for one key. -/
def fullPerform (limit windowMs : ℚ) (times : List ℚ) : Call → Option RateLimitResult × List ℚ
  | .check _ ts =>
    (some (fullCheck limit windowMs times ts),
      if (fullCheck limit windowMs times ts).allowed then times ++ [ts] else times)
  | .reset _ => (none, [])
  | .sweep _ => (none, times)

/-- The calls for one key, with their answers. -/
def fullTrace (limit windowMs : ℚ) :
    List ℚ → List Call → List (Call × Option RateLimitResult)
  | _, [] => []
  | times, call :: calls =>
    (call, (fullPerform limit windowMs times call).1) ::
      fullTrace limit windowMs (fullPerform limit windowMs times call).2 calls

variable {l : SlidingWindowRateLimiter} {key : Units} {times : List ℚ} {now : ℚ} {call : Call}
  {calls : List Call}

theorem check_answer (h : l.Tracks key times now) {ts : ℚ} (hle : now ≤ ts) :
    (l.check key ts).1 = fullCheck l.limit l.windowMs times ts := by
  have hrecent : (l.hits key).filter (ts - l.windowMs < ·) = recent l.windowMs ts times :=
    (h.mono hle).recent_hits
  unfold check checkIn fullCheck
  dsimp only [id]
  rw [hrecent]
  split_ifs with hfull
  · rfl
  · cases recent l.windowMs ts times <;> simp

/-! ## One step -/

@[simp] theorem perform_limit (l : SlidingWindowRateLimiter) (call : Call) :
    (l.perform call).2.limit = l.limit := by
  cases call <;> simp [reset, sweep, sweepIn]

@[simp] theorem perform_windowMs (l : SlidingWindowRateLimiter) (call : Call) :
    (l.perform call).2.windowMs = l.windowMs := by
  cases call <;> simp [reset, sweep, sweepIn]

/-- The time after a call. -/
def Call.until (now : ℚ) (call : Call) : ℚ := call.reading.getD now

theorem tracks_sweep (h : l.Tracks key times now) {ts : ℚ} (hle : now ≤ ts) :
    (l.sweep ts).Tracks key times ts :=
  ⟨ts, le_rfl, (h.mono hle).recent_hits⟩

/-- A step for the key is one of the limiter that forgets nothing. -/
theorem perform_concerns (h : l.Tracks key times now) (hkey : call.concerns key = true)
    (hnow : ∀ ts ∈ call.reading, now ≤ ts) :
    (l.perform call).1 = (fullPerform l.limit l.windowMs times call).1 ∧
      (l.perform call).2.Tracks key (fullPerform l.limit l.windowMs times call).2
        (call.until now) := by
  cases call with
  | check k ts =>
    obtain rfl : k = key := by simpa [Call.concerns] using hkey
    have hle : now ≤ ts := hnow ts rfl
    have htracks := tracks_check (h.mono hle)
    rw [check_answer h hle] at htracks
    exact ⟨congrArg some (check_answer h hle), htracks⟩
  | reset k =>
    obtain rfl : k = key := by simpa [Call.concerns] using hkey
    exact ⟨rfl, tracks_nil (Function.update_self _ _ _)⟩
  | sweep ts => simp [Call.concerns] at hkey

/-- The other steps leave what is known of the key as it is. -/
theorem perform_other (h : l.Tracks key times now) (hkey : call.concerns key = false)
    (hnow : ∀ ts ∈ call.reading, now ≤ ts) :
    (l.perform call).2.Tracks key times (call.until now) := by
  cases call with
  | check k ts =>
    have hne : key ≠ k := fun heq => by simp [Call.concerns, heq] at hkey
    exact tracks_check_of_ne (h.mono (hnow ts rfl)) hne
  | reset k =>
    have hne : key ≠ k := fun heq => by simp [Call.concerns, heq] at hkey
    obtain ⟨last, hlast, hhits⟩ := h
    exact ⟨last, hlast, (Function.update_of_ne hne _ _).trans hhits⟩
  | sweep ts => exact tracks_sweep h (hnow ts rfl)

/-! ## Runs -/

/-- The calls read the time `now` or later times. -/
def ClockedFrom (now : ℚ) (calls : List Call) : Prop :=
  (now :: calls.filterMap Call.reading).Pairwise (· ≤ ·)

theorem clockedFrom_cons :
    ClockedFrom now (call :: calls) ↔
      (∀ ts ∈ call.reading, now ≤ ts) ∧ ClockedFrom (call.until now) calls := by
  unfold ClockedFrom Call.until
  cases hread : call.reading with
  | none => simp [hread]
  | some ts =>
    simp only [List.filterMap_cons, hread, List.pairwise_cons, List.mem_cons, Option.mem_def,
      Option.some.injEq, forall_eq', forall_eq_or_imp, Option.getD_some]
    constructor
    · rintro ⟨⟨hle, -⟩, hlater, hpairs⟩
      exact ⟨hle, hlater, hpairs⟩
    · rintro ⟨hle, hlater, hpairs⟩
      exact ⟨⟨hle, fun t ht => hle.trans (hlater t ht)⟩, hlater, hpairs⟩

theorem Clocked.exists_from (h : Clocked calls) : ∃ now, ClockedFrom now calls :=
  exists_pairwise_cons h

/-- What was admitted, after one more call for the key. -/
theorem allowedSince_concerns {limit windowMs : ℚ} (hkey : call.concerns key = true)
    (events : List (Call × Option RateLimitResult)) :
    allowedSince key times ((call, (fullPerform limit windowMs times call).1) :: events) =
      allowedSince key (fullPerform limit windowMs times call).2 events := by
  cases call with
  | check k ts =>
    obtain rfl : k = key := by simpa [Call.concerns] using hkey
    simp [allowedSince, fullPerform]
  | reset k =>
    obtain rfl : k = key := by simpa [Call.concerns] using hkey
    simp [allowedSince, fullPerform]
  | sweep ts => simp [Call.concerns] at hkey

theorem allowedSince_other (hkey : call.concerns key = false)
    (events : List (Call × Option RateLimitResult)) :
    allowedSince key times ((call, (l.perform call).1) :: events) =
      allowedSince key times events := by
  cases call with
  | check k ts => simp_all [allowedSince, Call.concerns]
  | reset k => simp_all [allowedSince, Call.concerns]
  | sweep ts => rfl

/-- **The answers for a key** are those of the limiter that forgets nothing, given the calls for
that key alone. -/
theorem trace_concerns (h : l.Tracks key times now) (hclock : ClockedFrom now calls) :
    (l.trace calls).filter (·.1.concerns key) =
      fullTrace l.limit l.windowMs times (calls.filter (Call.concerns key)) := by
  induction calls generalizing l times now with
  | nil => rfl
  | cons call calls ih =>
    obtain ⟨hnow, hrest⟩ := clockedFrom_cons.1 hclock
    rw [trace]
    cases hkey : call.concerns key with
    | true =>
      obtain ⟨hanswer, htracks⟩ := perform_concerns h hkey hnow
      rw [List.filter_cons_of_pos (by exact hkey), List.filter_cons_of_pos hkey, fullTrace,
        hanswer, ih htracks hrest, perform_limit, perform_windowMs]
    | false =>
      rw [List.filter_cons_of_neg (by simp [hkey]), List.filter_cons_of_neg (by simp [hkey]),
        ih (perform_other h hkey hnow) hrest, perform_limit, perform_windowMs]

/-- **The check after a run** is that of the limiter that forgets nothing. -/
theorem check_after (h : l.Tracks key times now) {ts : ℚ}
    (hclock : ClockedFrom now (calls ++ [.check key ts])) :
    ((l.after calls).check key ts).1 =
      fullCheck l.limit l.windowMs (allowedSince key times (l.trace calls)) ts := by
  induction calls generalizing l times now with
  | nil => exact check_answer h ((clockedFrom_cons.1 hclock).1 ts rfl)
  | cons call calls ih =>
    obtain ⟨hnow, hrest⟩ := clockedFrom_cons.1 hclock
    rw [trace, after_cons]
    cases hkey : call.concerns key with
    | true =>
      obtain ⟨hanswer, htracks⟩ := perform_concerns h hkey hnow
      rw [hanswer, allowedSince_concerns hkey]
      simpa only [perform_limit, perform_windowMs] using ih htracks hrest
    | false =>
      rw [allowedSince_other hkey]
      simpa only [perform_limit, perform_windowMs] using ih (perform_other h hkey hnow) hrest

theorem allowed_fullCheck (limit windowMs : ℚ) (times : List ℚ) (ts : ℚ) :
    (fullCheck limit windowMs times ts).allowed = true ↔
      (recent windowMs ts times).length < limit := by
  unfold fullCheck
  dsimp only
  split_ifs with hfull
  · exact iff_of_false (by simp) (not_lt.2 hfull)
  · exact iff_of_true rfl (not_le.1 hfull)

theorem remaining_fullCheck {limit windowMs : ℚ} {times : List ℚ} {ts : ℚ}
    (h : (fullCheck limit windowMs times ts).allowed = true) :
    (fullCheck limit windowMs times ts).remaining =
      limit - 1 - (recent windowMs ts times).length := by
  rw [allowed_fullCheck] at h
  unfold fullCheck
  dsimp only
  rw [if_neg (not_le.2 h)]
  exact sub_add_eq_sub_sub_swap _ _ _

/-- **The pruned limiter is the one that forgets nothing.** On a clock that does not go back, a
check is allowed exactly when fewer than `limit` of the checks that were allowed since the last
reset of its key are later than `ts - windowMs`, an allowed check reports the rest, and the calls
for a key are answered alike in all sequences that hold the same calls for that key. -/
theorem answers_full_history {options : RateLimitOptions} (hl : create options = .ok l)
    (key : Units) :
    (∀ (calls : List Call) (ts : ℚ), Clocked (calls ++ [.check key ts]) →
      let allowed := allowedSince key [] (l.trace calls)
      let counted := (allowed.filter (ts - options.windowMs < ·)).length
      let result := ((l.after calls).check key ts).1
      (result.allowed = true ↔ counted < options.limit) ∧
        (result.allowed = true → result.remaining = options.limit - 1 - counted)) ∧
    ∀ calls calls' : List Call, Clocked calls → Clocked calls' →
      calls.filter (Call.concerns key) = calls'.filter (Call.concerns key) →
      (l.trace calls).filter (·.1.concerns key) = (l.trace calls').filter (·.1.concerns key) := by
  obtain ⟨hlimit, hwindow, hhits⟩ := create_eq_ok hl
  have hstart (now : ℚ) : l.Tracks key [] now := tracks_nil (hhits key)
  rw [← hlimit, ← hwindow]
  constructor
  · intro calls ts hclock
    obtain ⟨now, hnow⟩ := hclock.exists_from
    have hcheck := check_after (hstart now) hnow
    dsimp only
    rw [hcheck]
    exact ⟨allowed_fullCheck _ _ _ _, remaining_fullCheck⟩
  · intro calls calls' hclock hclock' hsame
    obtain ⟨now, hnow⟩ := hclock.exists_from
    obtain ⟨now', hnow'⟩ := hclock'.exists_from
    rw [trace_concerns (hstart now) hnow, trace_concerns (hstart now') hnow', hsame]

/-- Two per second: a third check is refused until the first one is a second old. -/
theorem answers_full_history_two_per_second :
    ∃ l, create ⟨2, 1000⟩ = .ok l ∧
      ((l.after [.check [] 0, .check [] 400, .sweep 900, .check [] 900]).check [] 1000).1.allowed =
        true ∧
      (l.trace [.check [] 0, .sweep 5, .check [] 7]).filter (·.1.concerns []) =
        (l.trace [.check [] 0, .check [] 7]).filter (·.1.concerns []) := by
  have hl : create ⟨2, 1000⟩ =
      .ok ⟨2, 1000, fun _ => [], by decide +kernel, by decide +kernel⟩ := rfl
  refine ⟨_, hl, ?_, ?_⟩
  · have hclock : Clocked ([.check [] 0, .check [] 400, .sweep 900, .check [] 900] ++
        [.check [] 1000]) := by unfold Clocked; decide +kernel
    exact ((answers_full_history hl []).1 _ 1000 hclock).1.2 (by decide +kernel)
  · have hclock : Clocked [.check [] 0, .sweep 5, .check [] 7] := by
      unfold Clocked; decide +kernel
    have hclock' : Clocked [.check [] 0, .check [] 7] := by unfold Clocked; decide +kernel
    exact (answers_full_history hl []).2 _ _ hclock hclock' rfl

end SlidingWindowRateLimiter

end Resilience.TypeScript
