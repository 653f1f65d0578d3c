import Resilience.Python.Retry
import Mathlib.Tactic.NormNum

/-!
# The attempts of `_run_sync`

With a breaker, a run of `_run_sync` is a sequence of attempts: the breaker admits the call, the
function is called, and one outcome is recorded. Only a refusal of the breaker may come after them
(`runs_runSync`).

* `Attempt` is what the function did in an attempt, and `Attempt.events` what the driver asked for
  it. `runs_attemptSync` takes one run of the loop body to its attempt.
* `Bookkeeping` is the account of a run, by induction on the attempts left.
-/

namespace Resilience.Python

/-! ## What is kept of a run -/

/-- The log, the random number and the sleep between two attempts. -/
def Request.isPause : Request → Bool
  | .debug _ _ | .uniform _ _ | .sleep _ => true
  | _ => false

/-- The events of a run, without the pauses. -/
def withoutPauses {V : Type} (t : List (Prog.Event Request (Reply V))) :
    List (Prog.Event Request (Reply V)) :=
  t.filter fun ev => !ev.1.isPause

/-- What only the lines after the loop raise. -/
def Raised.AfterLoop : Raised → Prop
  | .assertionError | .retriesExhausted _ _ => True
  | _ => False

/-- What the function did in an attempt that the breaker admitted, with the readings of the
clock. -/
inductive Attempt (V : Type)
  | raised (start : ℚ) (exc : PyException)
  | returned (start stop : ℚ) (result : V)

namespace Attempt

variable {V : Type} (policy : RetryPolicy)

/-- A late value, or an exception that is retried. -/
def Retried : Attempt V → Prop
  | .raised _ exc => policy.isRetryable exc = true
  | .returned start stop _ => policy.timeout < stop - start

/-- What the driver asks after `guard` has admitted the call, up to the outcome that it records. -/
def body : Attempt V → List (Prog.Event Request (Reply V))
  | .raised start exc => [⟨.monotonic, start⟩, ⟨.call, .error exc⟩, ⟨.recordFailure, ()⟩]
  | .returned start stop result =>
    [⟨.monotonic, start⟩, ⟨.call, .ok result⟩, ⟨.monotonic, stop⟩,
      if policy.timeout < stop - start then ⟨.recordFailure, ()⟩ else ⟨.recordSuccess, ()⟩]

/-- The attempt with its admission. -/
def events (a : Attempt V) : List (Prog.Event Request (Reply V)) := ⟨.allow, true⟩ :: a.body policy

end Attempt

/-- The end of a run that the breaker refuses to go on with. -/
def refusalEvents {V : Type} : Option ℚ → List (Prog.Event Request (Reply V))
  | none => []
  | some retryAfter => [⟨.allow, false⟩, ⟨.retryAfter, retryAfter⟩]

/-- The account of a run: its attempts, and what `retry_after` said if the breaker refused. -/
structure Bookkeeping {V : Type} (policy : RetryPolicy) (p : BreakerParams) (limit : ℤ)
    (t : List (Prog.Event Request (Reply V))) (r : Except Raised V) (attempts : List (Attempt V))
    (refusal : Option ℚ) : Prop where
  events_eq : withoutPauses t = attempts.flatMap (Attempt.events policy) ++ refusalEvents refusal
  length_le : (attempts.length : ℤ) ≤ limit
  retried : ∀ a ∈ attempts.dropLast, a.Retried policy
  refused : ∀ retryAfter, refusal = some retryAfter →
    (∀ a ∈ attempts, a.Retried policy) ∧ r = .error (.circuitOpenError p.name retryAfter)
  returned_iff : ∀ result, r = .ok result ↔ ∃ earlier start stop,
    attempts = earlier ++ [.returned start stop result] ∧ stop - start ≤ policy.timeout
  raised : ∀ err, r = .error err → ¬ err.AfterLoop

section Runs

variable {V : Type} {policy : RetryPolicy} {p : BreakerParams} {attempt : ℕ}
  {t : List (Prog.Event Request (Reply V))}

@[simp] theorem withoutPauses_nil : withoutPauses ([] : List (Prog.Event Request (Reply V))) = [] :=
  rfl

@[simp] theorem withoutPauses_append (t t' : List (Prog.Event Request (Reply V))) :
    withoutPauses (t ++ t') = withoutPauses t ++ withoutPauses t' := List.filter_append ..

theorem withoutPauses_cons (ev : Prog.Event Request (Reply V)) (h : ev.1.isPause = false) :
    withoutPauses (ev :: t) = ev :: withoutPauses t := by
  simp [withoutPauses, h]

/-! ## The pauses -/

/-- A program of pauses, where an exception of a callback goes through. -/
def Pausing {α : Type} (x : Driver V α) : Prop :=
  ∀ t r, x.run.Runs t r → withoutPauses t = [] ∧ ∀ err, r = .error err → ¬ err.AfterLoop

theorem pausing_bind {α β : Type} {x : Driver V α} {f : α → Driver V β} (hx : Pausing x)
    (hf : ∀ a, Pausing (f a)) : Pausing (x >>= f) := by
  intro t r h
  obtain ⟨t₁, a, t₂, rfl, h₁, h₂⟩ | ⟨err, rfl, hrun⟩ := runs_except_bind.1 h
  · obtain ⟨hnil, hraised⟩ := hf a _ _ h₂
    exact ⟨by simp [(hx _ _ h₁).1, hnil], hraised⟩
  · obtain ⟨hnil, hraised⟩ := hx _ _ hrun
    refine ⟨hnil, ?_⟩
    rintro _ ⟨⟩
    exact hraised err rfl

theorem not_afterLoop_of_raised {α : Type} {x : Except PyException α} {err : Raised}
    (h : raised x = .error err) : ¬ err.AfterLoop := by
  cases x with
  | ok a => cases h
  | error exc =>
    cases h
    exact id

theorem pausing_perform {α : Type} {e : Request} (he : e.isPause = true)
    {f : Reply V e → Except Raised α} (hf : ∀ answer err, f answer = .error err → ¬ err.AfterLoop) :
    Pausing (perform e f) := by
  intro t r h
  obtain ⟨answer, rfl, rfl⟩ := runs_perform.1 h
  exact ⟨by simp [withoutPauses, he], hf answer⟩

theorem pausing_pure {α : Type} (a : α) : Pausing (V := V) (fromExcept (.ok a)) := by
  rintro t r ⟨rfl, rfl⟩
  exact ⟨rfl, fun err herr => by cases herr⟩

theorem pausing_sleepSync (policy : RetryPolicy) (attempt : ℕ) :
    Pausing (V := V) (sleepSync policy attempt) := by
  refine pausing_bind (pausing_perform rfl fun _ _ => not_afterLoop_of_raised) fun delay => ?_
  split
  · exact pausing_perform rfl fun _ _ => not_afterLoop_of_raised
  · exact pausing_pure ()

/-! ## One attempt -/

/-- How the loop body leaves an attempt. -/
inductive Ends (policy : RetryPolicy) (attempt : ℕ) :
    Attempt V → Except Raised (Except Raised V) → Prop
  | returns {start stop result} (hle : stop - start ≤ policy.timeout) :
    Ends policy attempt (.returned start stop result) (.ok (.ok result))
  | goesOn {a err} (hretried : a.Retried policy) (hlast : policy.isLast attempt = false) :
    Ends policy attempt a (.ok (.error err))
  | raisesExc {start exc err} (herr : ¬ err.AfterLoop) :
    Ends policy attempt (.raised start exc) (.error err)
  | raisesLate {start stop result err} (hlt : policy.timeout < stop - start)
    (herr : ¬ err.AfterLoop) : Ends policy attempt (.returned start stop result) (.error err)

theorem runs_failed (hcb : policy.circuitBreaker = some p) {giveUp : Bool} {err : Raised}
    (herr : ¬ err.AfterLoop) {pause : Driver V Unit} (hpause : Pausing pause)
    {b : Except Raised (Except Raised V)} (h : (failed policy giveUp err pause).run.Runs t b) :
    withoutPauses t = [⟨.recordFailure, ()⟩] ∧
      (giveUp = false ∧ b = .ok (.error err) ∨ ∃ err', b = .error err' ∧ ¬ err'.AfterLoop) := by
  have hrecord : recordFailure policy = (perform .recordFailure .ok : Driver V Unit) := by
    simp [recordFailure, hcb]
  rw [failed, hrecord] at h
  obtain ⟨recorded, t', rfl, hrest⟩ := runs_perform_bind.1 h
  rw [withoutPauses_cons _ rfl]
  cases giveUp with
  | true =>
    obtain ⟨rfl, rfl⟩ := hrest
    exact ⟨rfl, .inr ⟨err, rfl, herr⟩⟩
  | false =>
    obtain ⟨t₁, slept, t₂, rfl, hrun, rfl, rfl⟩ | ⟨err', rfl, hrun⟩ := runs_except_bind.1 hrest
    · exact ⟨by simp [(hpause _ _ hrun).1], .inl ⟨rfl, rfl⟩⟩
    · obtain ⟨hnil, hraised⟩ := hpause _ _ hrun
      exact ⟨by rw [hnil], .inr ⟨err', rfl, hraised err' rfl⟩⟩

/-- **One attempt**: the function is called once, and one outcome is recorded. -/
theorem runs_attemptSync (hcb : policy.circuitBreaker = some p)
    {b : Except Raised (Except Raised V)} (h : (attemptSync policy attempt).run.Runs t b) :
    ∃ a, withoutPauses t = a.body policy ∧ Ends policy attempt a b := by
  obtain ⟨start, t₁, rfl, hstart⟩ := runs_perform_bind.1 h
  obtain ⟨outcome, t₂, rfl, hcall⟩ := runs_perform_bind.1 hstart
  rw [withoutPauses_cons _ rfl, withoutPauses_cons _ rfl]
  cases outcome with
  | error exc =>
    have hpause : Pausing (V := V) (do
        perform (.debug (attempt + 1) exc) raised
        sleepSync policy attempt) :=
      pausing_bind (pausing_perform rfl fun _ _ => not_afterLoop_of_raised) fun _ =>
        pausing_sleepSync policy attempt
    obtain ⟨hevents, hends⟩ := runs_failed hcb id hpause hcall
    refine ⟨.raised start exc, by rw [hevents]; rfl, ?_⟩
    obtain ⟨hgoes, rfl⟩ | ⟨err, rfl, herr⟩ := hends
    · simp only [Bool.or_eq_false_iff, Bool.not_eq_false'] at hgoes
      exact .goesOn hgoes.1 hgoes.2
    · exact .raisesExc herr
  | ok result =>
    obtain ⟨stop, t₃, rfl, hstop⟩ := runs_perform_bind.1 hcall
    rw [withoutPauses_cons _ rfl]
    refine ⟨.returned start stop result, ?_⟩
    dsimp only at hstop
    split at hstop
    · rename_i hlt
      obtain ⟨hevents, hends⟩ := runs_failed hcb id (pausing_sleepSync policy attempt) hstop
      refine ⟨by simp [hevents, Attempt.body, hlt], ?_⟩
      obtain ⟨hlast, rfl⟩ | ⟨err, rfl, herr⟩ := hends
      · exact .goesOn hlt hlast
      · exact .raisesLate hlt herr
    · rename_i hle
      have hrecord : recordSuccess policy = (perform .recordSuccess .ok : Driver V Unit) := by
        simp [recordSuccess, hcb]
      rw [succeeded, hrecord] at hstop
      obtain ⟨-, t₄, rfl, rfl, rfl⟩ := runs_perform_bind.1 hstop
      exact ⟨by simp [Attempt.body, hle, withoutPauses, Request.isPause], .returns (not_lt.1 hle)⟩

/-! ## The loop -/

/-- What `guard` asks, and whether the run goes on. -/
theorem runs_guard (hcb : policy.circuitBreaker = some p) {b : Except Raised Unit}
    (h : (guard policy).run.Runs t b) :
    t = [⟨.allow, true⟩] ∧ b = .ok () ∨
      ∃ retryAfter, t = refusalEvents (some retryAfter) ∧
        b = .error (.circuitOpenError p.name retryAfter) := by
  rw [guard, hcb] at h
  obtain ⟨allowed, t₁, rfl, hallowed⟩ := runs_perform_bind.1 h
  cases allowed with
  | true =>
    obtain ⟨rfl, rfl⟩ := hallowed
    exact .inl ⟨rfl, rfl⟩
  | false =>
    obtain ⟨retryAfter, t₂, rfl, rfl, rfl⟩ := runs_perform_bind.1 hallowed
    exact .inr ⟨retryAfter, rfl, rfl⟩

theorem withoutPauses_admitted {a : Attempt V} (h : withoutPauses t = a.body policy) :
    withoutPauses ([⟨.allow, true⟩] ++ t) = a.events policy := by
  rw [List.singleton_append, withoutPauses_cons _ rfl, h, Attempt.events]

/-- **One iteration**: the breaker refuses, the attempt is the last, or the loop goes on. -/
theorem runs_drive_succ (hcb : policy.circuitBreaker = some p) {left : ℕ}
    {lastExc : Option Raised} {r : Except Raised V}
    (h : (drive policy (attemptSync policy) (left + 1) attempt lastExc).run.Runs t r) :
    (∃ retryAfter, t = refusalEvents (some retryAfter) ∧
        r = .error (.circuitOpenError p.name retryAfter)) ∨
      (∃ a : Attempt V, withoutPauses t = a.events policy ∧ Ends policy attempt a (r.map .ok)) ∨
      ∃ (a : Attempt V) (t₁ t₂ : List (Prog.Event Request (Reply V))) (err : Raised),
        t = t₁ ++ t₂ ∧ withoutPauses t₁ = a.events policy ∧ a.Retried policy ∧
        policy.isLast attempt = false ∧
        (drive policy (attemptSync policy) left (attempt + 1) (some err)).run.Runs t₂ r := by
  obtain ⟨t₁, admitted, t₂, rfl, hguard, hloop⟩ | ⟨err, rfl, hguard⟩ := runs_except_bind.1 h
  · obtain ⟨rfl, -⟩ | ⟨retryAfter, -, herr⟩ := runs_guard hcb hguard
    · obtain ⟨t₃, outcome, t₄, rfl, hattempt, hrest⟩ | ⟨err, rfl, hattempt⟩ :=
        runs_except_bind.1 hloop
      · obtain ⟨a, hevents, hends⟩ := runs_attemptSync hcb hattempt
        have hadmitted := withoutPauses_admitted hevents
        cases outcome with
        | ok result =>
          obtain ⟨rfl, rfl⟩ := hrest
          exact .inr (.inl ⟨a, by rwa [List.append_nil], hends⟩)
        | error err =>
          cases hends with
          | goesOn hretried hlast =>
            exact .inr (.inr
              ⟨a, _, t₄, err, (List.append_assoc ..).symm, hadmitted, hretried, hlast,
              hrest⟩)
      · obtain ⟨a, hevents, hends⟩ := runs_attemptSync hcb hattempt
        exact .inr (.inl ⟨a, withoutPauses_admitted hevents, hends⟩)
    · cases herr
  · obtain ⟨-, herr⟩ | ⟨retryAfter, rfl, herr⟩ := runs_guard hcb hguard
    · cases herr
    · cases herr
      exact .inl ⟨retryAfter, rfl, rfl⟩

theorem bookkeeping_refused {limit : ℤ} (hlimit : 0 ≤ limit) (retryAfter : ℚ) :
    Bookkeeping (V := V) policy p limit (refusalEvents (some retryAfter))
      (.error (.circuitOpenError p.name retryAfter)) [] (some retryAfter) where
  events_eq := rfl
  length_le := hlimit
  retried := by simp
  refused := by simp
  returned_iff := by simp
  raised := by simp [Raised.AfterLoop]

/-- The attempt that ends a run. -/
theorem bookkeeping_last {limit : ℤ} (hlimit : 1 ≤ limit) {a : Attempt V} {r : Except Raised V}
    (hevents : withoutPauses t = a.events policy) (hends : Ends policy attempt a (r.map .ok)) :
    Bookkeeping policy p limit t r [a] none where
  events_eq := by simp [hevents, refusalEvents]
  length_le := by simpa using hlimit
  retried := by simp
  refused := by simp
  returned_iff result := by
    constructor
    · rintro rfl
      cases hends with
      | @returns start stop _ hle => exact ⟨[], start, stop, rfl, hle⟩
    · rintro ⟨earlier, start, stop, heq, hle⟩
      cases earlier with
      | nil =>
        obtain ⟨rfl, -⟩ := List.cons.inj heq
        cases r with
        | ok result' =>
          cases hends
          rfl
        | error err =>
          cases hends with
          | raisesLate hlt => exact absurd hle (not_le.2 hlt)
      | cons _ earlier => simp at heq
  raised := by
    rintro err rfl
    cases hends <;> assumption

/-- An attempt that the loop goes on after. -/
theorem Bookkeeping.cons {limit : ℤ} {a : Attempt V} {t' : List (Prog.Event Request (Reply V))}
    {r : Except Raised V} {attempts : List (Attempt V)} {refusal : Option ℚ}
    (hevents : withoutPauses t = a.events policy) (hretried : a.Retried policy)
    (h : Bookkeeping policy p limit t' r attempts refusal) :
    Bookkeeping policy p (limit + 1) (t ++ t') r (a :: attempts) refusal where
  events_eq := by simp [hevents, h.events_eq]
  length_le := by
    have hle := h.length_le
    simp only [List.length_cons]
    omega
  retried b hb := by
    cases attempts with
    | nil => simp at hb
    | cons a' attempts =>
      rw [List.dropLast_cons_cons, List.mem_cons] at hb
      rcases hb with rfl | hb
      · exact hretried
      · exact h.retried b hb
  refused retryAfter hrefusal := by
    obtain ⟨hall, hr⟩ := h.refused retryAfter hrefusal
    exact ⟨List.forall_mem_cons.2 ⟨hretried, hall⟩, hr⟩
  returned_iff result := by
    rw [h.returned_iff]
    constructor
    · rintro ⟨earlier, start, stop, rfl, hle⟩
      exact ⟨a :: earlier, start, stop, rfl, hle⟩
    · rintro ⟨earlier, start, stop, heq, hle⟩
      cases earlier with
      | nil =>
        -- The only attempt would be in time, and the loop does not go on after such a one.
        obtain ⟨rfl, -⟩ := List.cons.inj heq
        exact absurd hle (not_le.2 hretried)
      | cons _ earlier => exact ⟨earlier, start, stop, (List.cons.inj heq).2, hle⟩
  raised := h.raised

theorem runs_drive (hcb : policy.circuitBreaker = some p) (left attempt : ℕ)
    (lastExc : Option Raised) (hleft : (attempt : ℤ) + left = policy.maxAttempts) (hpos : 0 < left)
    {r : Except Raised V}
    (h : (drive policy (attemptSync policy) left attempt lastExc).run.Runs t r) :
    ∃ attempts refusal, Bookkeeping policy p left t r attempts refusal := by
  induction left generalizing attempt lastExc t with
  | zero => exact absurd hpos (lt_irrefl 0)
  | succ left ih =>
    obtain ⟨retryAfter, rfl, rfl⟩ | ⟨a, hevents, hends⟩ |
      ⟨a, t₁, t₂, err, rfl, hevents, hretried, hlast, hrest⟩ := runs_drive_succ hcb h
    · exact ⟨[], some retryAfter, bookkeeping_refused (by omega) retryAfter⟩
    · exact ⟨[a], none, bookkeeping_last (by omega) hevents hends⟩
    · -- The attempt is not the last of the loop, so that one more is left.
      simp only [RetryPolicy.isLast, beq_eq_false_iff_ne] at hlast
      obtain ⟨attempts, refusal, hbook⟩ := ih (attempt + 1) (some err) (by omega) (by omega) hrest
      exact ⟨a :: attempts, refusal, by simpa using hbook.cons hevents hretried⟩

/-- **The bookkeeping of `_run_sync`**: whatever the breaker, the function and the other callbacks
do, the calls are those that the breaker admits, each with one outcome recorded; the function is
called again only after a late value or an exception that is retried, and the value returned is
that of the last attempt, which was in time. -/
theorem runs_runSync {V : Type} (policy : RetryPolicy) (p : BreakerParams)
    (hcb : policy.circuitBreaker = some p) (t : List (Prog.Event Request (Reply V)))
    (r : Except Raised V) (h : (runSync policy).run.Runs t r) :
    ∃ attempts refusal, Bookkeeping policy p policy.maxAttempts t r attempts refusal := by
  have hpos := policy.maxAttempts_pos
  have hnat : (policy.maxAttempts.toNat : ℤ) = policy.maxAttempts := Int.toNat_of_nonneg (by omega)
  obtain ⟨attempts, refusal, hbook⟩ := runs_drive hcb _ 0 none (by omega) (by omega) h
  exact ⟨attempts, refusal, by rwa [hnat] at hbook⟩

end Runs

/-- The first call raises, the second one returns in time. -/
theorem runs_runSync_retried :
    ∃ policy p, policy.circuitBreaker = some p ∧ ∃ (t : List (Prog.Event Request (Reply ℕ)))
      (attempts : List (Attempt ℕ)) (refusal : Option ℚ),
      (runSync policy).run.Runs t (.ok 7) ∧
        Bookkeeping policy p policy.maxAttempts t (.ok 7) attempts refusal := by
  let p : BreakerParams := ⟨"api", 5, 30, 1, by norm_num, by norm_num, le_rfl⟩
  let policy : RetryPolicy := ⟨1, 2, 0, 0, 1, [.exception], defaultRetryableStatus, some p,
    by norm_num, by norm_num, le_rfl, le_rfl, le_rfl⟩
  let err : PyException := ⟨"ValueError()", [.exception], none, none⟩
  let ceiling : ℚ := min (policy.baseDelay * policy.multiplier ^ 0) policy.maxDelay
  have hrun : (runSync (V := ℕ) policy).run.Runs [⟨.allow, true⟩, ⟨.monotonic, (0 : ℚ)⟩,
      ⟨.call, .error err⟩, ⟨.recordFailure, ()⟩, ⟨.debug 1 err, .ok ()⟩,
      ⟨.uniform 0 ceiling, .ok 0⟩, ⟨.allow, true⟩, ⟨.monotonic, (2 : ℚ)⟩, ⟨.call, .ok 7⟩,
      ⟨.monotonic, (3 : ℚ)⟩, ⟨.recordSuccess, ()⟩] (.ok 7) := by
    refine ⟨true, _, rfl, (0 : ℚ), _, rfl, .error err, _, rfl, (), _, rfl, .ok (), _, rfl, .ok 0, _,
      rfl, true, _, rfl, (2 : ℚ), _, rfl, .ok 7, _, rfl, (3 : ℚ), _, rfl, ?_⟩
    have hinTime : ¬ policy.timeout < (3 : ℚ) - 2 := by norm_num [policy]
    simp only [Prog.bind, ExceptT.bindCont]
    rw [if_neg hinTime]
    exact ⟨(), _, rfl, rfl, rfl⟩
  obtain ⟨attempts, refusal, hbook⟩ := runs_runSync policy p rfl _ _ hrun
  exact ⟨policy, p, rfl, _, attempts, refusal, hrun, hbook⟩

end Resilience.Python
