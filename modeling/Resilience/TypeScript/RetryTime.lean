import Resilience.TypeScript.RateLimitRuns
import Mathlib.Data.Nat.Cast.Order.Ring

/-!
# The advertised retry time

A check that is denied says when the oldest of the times that count will stop to (`resetAt`). Until
then every check of its key is denied, and from then on one is allowed, unless another one was
allowed before it (`check_before_resetAt`, `check_from_resetAt`).
-/

namespace Resilience.TypeScript

open Json SlidingWindow Runs

namespace SlidingWindowRateLimiter

/-- No more than one admission past the limit is kept, for any key. -/
def Bounded (l : SlidingWindowRateLimiter) : Prop :=
  ∀ key, ((l.hits key).length : ℚ) < l.limit + 1

/-- The times of a key are in order, and not after `now`. -/
structure Ordered (l : SlidingWindowRateLimiter) (key : Units) (now : ℚ) : Prop where
  sorted : (l.hits key).Pairwise (· ≤ ·)
  le_now : ∀ t ∈ l.hits key, t ≤ now

/-- No check of `key` is allowed by the call, and `key` is not reset. -/
def SparesIn (fl : ℚ → ℚ) (key : Units) (l : SlidingWindowRateLimiter) (call : Call) : Prop :=
  call ≠ .reset key ∧ ∀ ts, call = .check key ts → (l.checkIn fl key ts).1.allowed = false

def Spares (key : Units) (l : SlidingWindowRateLimiter) (call : Call) : Prop :=
  SparesIn id key l call

variable {l : SlidingWindowRateLimiter} {key : Units} {now : ℚ} {call : Call} {calls : List Call}

/-! ## One step -/

/-- The times of the key that is checked. -/
theorem check_hits_cases (l : SlidingWindowRateLimiter) (key : Units) (ts : ℚ) :
    (l.limit ≤ (recent l.windowMs ts (l.hits key)).length ∧ (l.check key ts).1.allowed = false ∧
        (l.check key ts).2.hits key = recent l.windowMs ts (l.hits key)) ∨
      ((recent l.windowMs ts (l.hits key)).length < l.limit ∧ (l.check key ts).1.allowed = true ∧
        (l.check key ts).2.hits key = recent l.windowMs ts (l.hits key) ++ [ts]) := by
  rcases check_cases l key ts with ⟨hfull, hallowed, heq⟩ | ⟨hroom, hallowed, heq⟩
  · exact .inl ⟨hfull, hallowed, by simp [heq]⟩
  · exact .inr ⟨hroom, hallowed, by simp [heq]⟩

/-- What a call does to the times of a key: it removes some, or adds its own. -/
theorem perform_hits_cases (l : SlidingWindowRateLimiter) (call : Call) (key : Units) :
    ((l.perform call).2.hits key).Sublist (l.hits key) ∨
      ∃ ts, call = .check key ts ∧ (l.check key ts).1.allowed = true ∧
        (recent l.windowMs ts (l.hits key)).length < l.limit ∧
        (l.perform call).2.hits key = recent l.windowMs ts (l.hits key) ++ [ts] := by
  cases call with
  | check k ts =>
    rcases eq_or_ne key k with rfl | hne
    · rcases check_hits_cases l key ts with ⟨-, -, heq⟩ | ⟨hroom, hallowed, heq⟩
      · left
        rw [perform_check, heq]
        exact List.filter_sublist
      · exact .inr ⟨ts, rfl, hallowed, hroom, heq⟩
    · left
      rw [perform_check, check_hits_of_ne hne]
  | reset k =>
    left
    rcases eq_or_ne key k with rfl | hne
    · simp [reset]
    · simp [reset, Function.update_of_ne hne]
  | sweep ts => exact .inl List.filter_sublist

theorem bounded_perform (h : l.Bounded) (call : Call) : (l.perform call).2.Bounded := by
  intro key
  rw [perform_limit]
  obtain hsub | ⟨ts, -, -, hroom, heq⟩ := perform_hits_cases l call key
  · exact (Nat.cast_le.2 hsub.length_le).trans_lt (h key)
  · rw [heq, List.length_append, Nat.cast_add, List.length_singleton, Nat.cast_one]
    exact add_lt_add_left hroom 1

theorem ordered_perform (h : l.Ordered key now) (hnow : ∀ ts ∈ call.reading, now ≤ ts) :
    (l.perform call).2.Ordered key (call.until now) := by
  have hle : now ≤ call.until now := by
    unfold Call.until
    cases hread : call.reading with
    | none => exact le_rfl
    | some ts => exact hnow ts hread
  obtain hsub | ⟨ts, rfl, -, -, heq⟩ := perform_hits_cases l call key
  · exact ⟨h.sorted.sublist hsub, fun t ht => (h.le_now t (hsub.subset ht)).trans hle⟩
  · have hbefore : ∀ t ∈ recent l.windowMs ts (l.hits key), t ≤ ts := fun t ht =>
      (h.le_now t (List.mem_of_mem_filter ht)).trans hle
    refine ⟨?_, ?_⟩ <;> rw [heq]
    · refine List.pairwise_append.2 ⟨h.sorted.filter _, List.pairwise_singleton _ _, ?_⟩
      simpa using hbefore
    · simpa [or_imp, forall_and, Call.until, Call.reading] using hbefore

/-- While all times of the key count, a limiter that is full stays as it is. -/
theorem perform_hits_of_full (hfull : l.limit ≤ (l.hits key).length) (hreset : call ≠ .reset key)
    (hcount : ∀ ts ∈ call.reading, recent l.windowMs ts (l.hits key) = l.hits key) :
    (l.perform call).2.hits key = l.hits key := by
  cases call with
  | check k ts =>
    have hrecent := hcount ts rfl
    rcases eq_or_ne key k with rfl | hne
    · rcases check_hits_cases l key ts with ⟨-, -, heq⟩ | ⟨hroom, -, -⟩
      · rw [perform_check, heq, hrecent]
      · rw [hrecent] at hroom
        exact absurd hfull (not_le.2 hroom)
    · rw [perform_check, check_hits_of_ne hne]
  | reset k =>
    have hne : key ≠ k := fun heq => hreset (heq ▸ rfl)
    exact Function.update_of_ne hne _ _
  | sweep ts => exact hcount ts rfl

theorem perform_hits_of_spares (h : Spares key l call) :
    ((l.perform call).2.hits key).Sublist (l.hits key) := by
  obtain hsub | ⟨ts, rfl, hallowed, -⟩ := perform_hits_cases l call key
  · exact hsub
  · exact absurd ((h.2 ts rfl).symm.trans hallowed) Bool.false_ne_true

/-! ## Runs -/

@[simp] theorem after_limit (l : SlidingWindowRateLimiter) (calls : List Call) :
    (l.after calls).limit = l.limit := by
  induction calls generalizing l with
  | nil => rfl
  | cons call calls ih => rw [after_cons, ih, perform_limit]

@[simp] theorem after_windowMs (l : SlidingWindowRateLimiter) (calls : List Call) :
    (l.after calls).windowMs = l.windowMs := by
  induction calls generalizing l with
  | nil => rfl
  | cons call calls ih => rw [after_cons, ih, perform_windowMs]

theorem bounded_after (h : l.Bounded) (calls : List Call) : (l.after calls).Bounded := by
  induction calls generalizing l with
  | nil => exact h
  | cons call calls ih => exact ih (bounded_perform h call)

/-- The order holds at the end of a run, and what comes next is later. -/
theorem ordered_after (h : l.Ordered key now) {later : List Call}
    (hclock : ClockedFrom now (calls ++ later)) :
    ∃ now', (l.after calls).Ordered key now' ∧ ClockedFrom now' later := by
  induction calls generalizing l now with
  | nil => exact ⟨now, h, hclock⟩
  | cons call calls ih =>
    obtain ⟨hnow, hrest⟩ := clockedFrom_cons.1 hclock
    exact ih (ordered_perform h hnow) hrest

theorem hits_after_of_full (hfull : l.limit ≤ (l.hits key).length)
    (hreset : .reset key ∉ calls)
    (hcount : ∀ ts ∈ calls.filterMap Call.reading, recent l.windowMs ts (l.hits key) = l.hits key) :
    (l.after calls).hits key = l.hits key := by
  induction calls generalizing l with
  | nil => rfl
  | cons call calls ih =>
    obtain ⟨hne, hrest⟩ := not_or.1 (List.mem_cons.not.1 hreset)
    have hhead : (l.perform call).2.hits key = l.hits key := by
      refine perform_hits_of_full hfull (Ne.symm hne) fun ts hts => hcount ts ?_
      simp [Option.mem_def.1 hts]
    rw [after_cons, ih, hhead]
    · rwa [perform_limit, hhead]
    · exact hrest
    · rw [perform_windowMs, hhead]
      refine fun ts hts => hcount ts ?_
      rw [List.filterMap_cons]
      split
      · exact hts
      · exact List.mem_cons_of_mem _ hts

theorem hits_after_of_spares
    (h : EachStep (fun l call => (l.perform call).2) (Spares key) l calls) :
    ((l.after calls).hits key).Sublist (l.hits key) := by
  induction calls generalizing l with
  | nil => exact List.Sublist.refl _
  | cons call calls ih => exact (ih h.2).trans (perform_hits_of_spares h.1)

/-! ## A check that is denied -/

theorem bounded_create {options : RateLimitOptions} (h : create options = .ok l) : l.Bounded := by
  intro key
  obtain ⟨-, -, hhits⟩ := create_eq_ok h
  rw [hhits, List.length_nil, Nat.cast_zero]
  exact lt_add_of_nonneg_of_lt (zero_le_one.trans l.limit_ge) zero_lt_one

theorem ordered_create {options : RateLimitOptions} (h : create options = .ok l) (key : Units)
    (now : ℚ) : l.Ordered key now := by
  obtain ⟨-, -, hhits⟩ := create_eq_ok h
  constructor <;> simp [hhits]

/-- What a denial says: the times that count, of which the oldest one sets `resetAt`. -/
theorem check_denied {ts : ℚ} (h : (l.check key ts).1.allowed = false) :
    ∃ oldest rest, (l.check key ts).2.hits key = oldest :: rest ∧
      recent l.windowMs ts (l.hits key) = oldest :: rest ∧
      l.limit ≤ (oldest :: rest).length ∧ (l.check key ts).1.resetAt = oldest + l.windowMs := by
  obtain ⟨hfull, -, hhits⟩ | ⟨-, hallowed, -⟩ := check_hits_cases l key ts
  · have hreset : (l.check key ts).1.resetAt =
        (recent l.windowMs ts (l.hits key)).head?.getD ts + l.windowMs := by
      unfold recent at hfull ⊢
      unfold check checkIn
      dsimp only [id]
      rw [if_pos hfull]
    cases hrecent : recent l.windowMs ts (l.hits key) with
    | nil =>
      rw [hrecent, List.length_nil, Nat.cast_zero] at hfull
      exact absurd (zero_lt_one.trans_le (l.limit_ge.trans hfull)) (lt_irrefl 0)
    | cons oldest rest =>
      rw [hrecent] at hfull hhits hreset
      exact ⟨oldest, rest, hhits, rfl, hfull, hreset⟩
  · rw [h] at hallowed
    cases hallowed

/-- **Before `resetAt`** every check of the key is denied. -/
theorem check_before_resetAt {t t' : ℚ} (hordered : l.Ordered key now)
    (hdenied : (l.check key t).1.allowed = false) (hreset : .reset key ∉ calls)
    (hclock : ∀ ts ∈ calls.filterMap Call.reading, ts ≤ t')
    (hbefore : t' < (l.check key t).1.resetAt) :
    (((l.check key t).2.after calls).check key t').1.allowed = false := by
  obtain ⟨oldest, rest, hhits, hrecent, hfull, hresetAt⟩ := check_denied hdenied
  have hsorted : (oldest :: rest).Pairwise (· ≤ ·) := hrecent ▸ hordered.sorted.filter _
  -- All the times count as long as the oldest one does.
  have hcount (ts : ℚ) (hts : ts ≤ t') :
      recent l.windowMs ts (oldest :: rest) = oldest :: rest := by
    refine recent_eq_self_iff.2 fun time htime => ?_
    have holdest : oldest ≤ time := by
      rcases List.mem_cons.1 htime with rfl | hmem
      · exact le_rfl
      · exact (List.pairwise_cons.1 hsorted).1 time hmem
    rw [hresetAt] at hbefore
    exact (sub_lt_iff_lt_add.2 (hts.trans_lt hbefore)).trans_le holdest
  have hafter : ((l.check key t).2.after calls).hits key = oldest :: rest := by
    rw [hits_after_of_full _ hreset _, hhits]
    · rwa [check_limit, hhits]
    · rw [check_windowMs, hhits]
      exact fun ts hts => hcount ts (hclock ts hts)
  obtain ⟨-, hallowed, -⟩ | ⟨hroom, -, -⟩ :=
    check_hits_cases ((l.check key t).2.after calls) key t'
  · exact hallowed
  · rw [hafter, after_limit, after_windowMs, check_limit, check_windowMs, hcount t' le_rfl] at hroom
    exact absurd hfull (not_le.2 hroom)

/-- What is left of the times that counted at a denial, after `resetAt`. -/
theorem length_recent_lt_limit {t t' : ℚ} (hbounded : l.Bounded)
    (hdenied : (l.check key t).1.allowed = false) (hle : (l.check key t).1.resetAt ≤ t')
    {times : List ℚ} (hsub : times.Sublist ((l.check key t).2.hits key)) :
    ((recent l.windowMs t' times).length : ℚ) < l.limit := by
  obtain ⟨oldest, rest, hhits, hrecent, -, hresetAt⟩ := check_denied hdenied
  rw [hhits] at hsub
  rw [hresetAt] at hle
  have hlt : (recent l.windowMs t' times).length < (oldest :: rest).length :=
    (hsub.filter _).length_le.trans_lt (length_recent_lt (List.mem_cons_self ..) hle)
  have hlength : (oldest :: rest).length ≤ (l.hits key).length :=
    hrecent ▸ List.length_filter_le _ _
  have hsucc : (recent l.windowMs t' times).length + 1 ≤ (l.hits key).length := by omega
  have hcast : ((recent l.windowMs t' times).length : ℚ) + 1 ≤ (l.hits key).length := by
    exact_mod_cast hsucc
  exact lt_of_add_lt_add_right (hcast.trans_lt (hbounded key))

/-- **From `resetAt` on** a check of the key is allowed, if none was since the denial. -/
theorem check_from_resetAt {t t' : ℚ} (hbounded : l.Bounded)
    (hdenied : (l.check key t).1.allowed = false)
    (hspared : EachStep (fun l call => (l.perform call).2) (Spares key) (l.check key t).2 calls)
    (hfrom : (l.check key t).1.resetAt ≤ t') :
    (((l.check key t).2.after calls).check key t').1.allowed = true := by
  have hroom := length_recent_lt_limit hbounded hdenied hfrom (hits_after_of_spares hspared)
  obtain ⟨hfull, -, -⟩ | ⟨-, hallowed, -⟩ :=
    check_hits_cases ((l.check key t).2.after calls) key t'
  · rw [after_limit, after_windowMs, check_limit, check_windowMs] at hfull
    exact absurd hfull (not_le.2 hroom)
  · exact hallowed

end SlidingWindowRateLimiter

end Resilience.TypeScript
