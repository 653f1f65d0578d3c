import Resilience.Foundations.SlidingWindow
import Resilience.TypeScript.Strings
import Mathlib.Algebra.Order.Ring.Rat
import Mathlib.Logic.Function.Basic

/-!
# The sliding-window rate limiter

`typescript/src/rateLimit.ts`. The clock is an argument of the methods that read it. Differences and
sums are rounded by `fl`, which is `double` in JavaScript; `check` and `sweep` are the methods on
exact numbers, which they are on whole milliseconds.

A limiter keeps, for each key, the admitted times that still counted at the last check (`Tracks`),
so its answers depend on the times that it has admitted (`allowed_check`).
-/

namespace Resilience.TypeScript

open Json SlidingWindow

/-- `RateLimitOptions`, without the clock. -/
structure RateLimitOptions where
  limit : ℚ
  windowMs : ℚ
  deriving DecidableEq, Repr

structure RateLimitResult where
  allowed : Bool
  remaining : ℚ
  resetAt : ℚ
  deriving DecidableEq, Repr

/-- `SlidingWindowRateLimiter`; a key without an entry has no hits. -/
structure SlidingWindowRateLimiter where
  limit : ℚ
  windowMs : ℚ
  hits : Units → List ℚ
  limit_ge : 1 ≤ limit
  windowMs_pos : 0 < windowMs

namespace SlidingWindowRateLimiter

/-- The constructor. -/
def create (options : RateLimitOptions) : Except String SlidingWindowRateLimiter :=
  if hl : options.limit < 1 then .error "rate limit must be >= 1"
  else if hw : options.windowMs ≤ 0 then .error "windowMs must be > 0"
  else .ok ⟨options.limit, options.windowMs, fun _ => [], not_lt.1 hl, not_le.1 hw⟩

variable (l : SlidingWindowRateLimiter)

def checkIn (fl : ℚ → ℚ) (key : Units) (ts : ℚ) : RateLimitResult × SlidingWindowRateLimiter :=
  let cutoff := fl (ts - l.windowMs)
  let recent := (l.hits key).filter (cutoff < ·)
  if l.limit ≤ recent.length then
    let oldest := recent.head?.getD ts
    (⟨false, 0, fl (oldest + l.windowMs)⟩, { l with hits := Function.update l.hits key recent })
  else
    let recent := recent ++ [ts]
    (⟨true, fl (l.limit - recent.length), fl (recent.head?.getD ts + l.windowMs)⟩,
      { l with hits := Function.update l.hits key recent })

def check (key : Units) (ts : ℚ) : RateLimitResult × SlidingWindowRateLimiter :=
  l.checkIn id key ts

def reset (key : Units) : SlidingWindowRateLimiter :=
  { l with hits := Function.update l.hits key [] }

def sweepIn (fl : ℚ → ℚ) (now : ℚ) : SlidingWindowRateLimiter :=
  let cutoff := fl (now - l.windowMs)
  { l with hits := fun key => (l.hits key).filter (cutoff < ·) }

def sweep (now : ℚ) : SlidingWindowRateLimiter := l.sweepIn id now

/-- The hits of `key` are those of the times that counted at some time up to `now`. -/
def Tracks (key : Units) (times : List ℚ) (now : ℚ) : Prop :=
  ∃ last ≤ now, l.hits key = recent l.windowMs last times

variable {l} {key : Units} {times : List ℚ} {now later : ℚ}

theorem create_eq_ok {options : RateLimitOptions} (h : create options = .ok l) :
    l.limit = options.limit ∧ l.windowMs = options.windowMs ∧ ∀ key, l.hits key = [] := by
  unfold create at h
  split_ifs at h
  cases h
  exact ⟨rfl, rfl, fun _ => rfl⟩

theorem Tracks.mono (h : l.Tracks key times now) (hle : now ≤ later) : l.Tracks key times later :=
  h.imp fun _ h => ⟨h.1.trans hle, h.2⟩

theorem Tracks.recent_hits (h : l.Tracks key times now) :
    recent l.windowMs now (l.hits key) = recent l.windowMs now times := by
  obtain ⟨last, hlast, hhits⟩ := h
  rw [hhits, recent_recent hlast]

theorem tracks_nil (h : l.hits key = []) : l.Tracks key [] now := ⟨now, le_rfl, h⟩

/-- The two ways a check goes. -/
theorem check_cases (l : SlidingWindowRateLimiter) (key : Units) (now : ℚ) :
    (l.limit ≤ (recent l.windowMs now (l.hits key)).length ∧ (l.check key now).1.allowed = false ∧
        (l.check key now).2 =
          { l with hits := Function.update l.hits key (recent l.windowMs now (l.hits key)) }) ∨
      ((recent l.windowMs now (l.hits key)).length < l.limit ∧ (l.check key now).1.allowed = true ∧
        (l.check key now).2 =
          { l with
            hits := Function.update l.hits key (recent l.windowMs now (l.hits key) ++ [now]) })
              := by
  unfold check checkIn recent
  dsimp only [id]
  split_ifs with hfull
  · exact .inl ⟨hfull, rfl, rfl⟩
  · exact .inr ⟨not_le.1 hfull, rfl, rfl⟩

/-- A check admits while fewer than `limit` of the admitted times count. -/
theorem allowed_check (h : l.Tracks key times now) :
    (l.check key now).1.allowed = true ↔ (recent l.windowMs now times).length < l.limit := by
  rw [← h.recent_hits]
  rcases check_cases l key now with ⟨hfull, hallowed, -⟩ | ⟨hroom, hallowed, -⟩
  · exact iff_of_false (by simp [hallowed]) (not_lt.2 hfull)
  · exact iff_of_true hallowed hroom

@[simp] theorem check_limit : (l.check key now).2.limit = l.limit := by
  rcases check_cases l key now with ⟨-, -, heq⟩ | ⟨-, -, heq⟩ <;> rw [heq]

@[simp] theorem check_windowMs : (l.check key now).2.windowMs = l.windowMs := by
  rcases check_cases l key now with ⟨-, -, heq⟩ | ⟨-, -, heq⟩ <;> rw [heq]

theorem check_hits_of_ne {key' : Units} (h : key' ≠ key) :
    (l.check key now).2.hits key' = l.hits key' := by
  rcases check_cases l key now with ⟨-, -, heq⟩ | ⟨-, -, heq⟩ <;>
    rw [heq] <;> exact Function.update_of_ne h _ _

theorem tracks_check (h : l.Tracks key times now) :
    (l.check key now).2.Tracks key
      (if (l.check key now).1.allowed then times ++ [now] else times) now := by
  refine ⟨now, le_rfl, ?_⟩
  rw [check_windowMs]
  rcases check_cases l key now with ⟨-, hallowed, heq⟩ | ⟨-, hallowed, heq⟩
  · simp only [heq, hallowed, Function.update_self, Bool.false_eq_true, if_false]
    exact h.recent_hits
  · simp only [heq, hallowed, Function.update_self, if_true]
    rw [recent_append_self l.windowMs_pos, h.recent_hits]

theorem tracks_check_of_ne {key' : Units} (h : l.Tracks key times later) (hne : key ≠ key') :
    (l.check key' now).2.Tracks key times later := by
  obtain ⟨last, hlast, hhits⟩ := h
  refine ⟨last, hlast, ?_⟩
  rw [check_hits_of_ne hne, check_windowMs, hhits]

end SlidingWindowRateLimiter

end Resilience.TypeScript
