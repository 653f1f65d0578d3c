import Resilience.TypeScript.Retry
import Mathlib.Tactic.NormNum

/-!
# Runs of `retry`

A run of `retry` with a whole number of attempts is a sequence of iterations (`Course`): each one
looks at the signal, calls the function, and after an error asks whether to go on and backs off
(`course_of_runs_retry`).

From it, when the error that `retry` throws counts the calls of the function: an error of the class
`ResilienceError` that the function throws goes through with the count that it has, and for another
one `maxAttempts` is reported also when `shouldRetry` ends the loop early (`attempts_eq_iff`).
-/

namespace Resilience.TypeScript

open Json

/-! ## Iterations -/

section Course

variable {E : Type} {R : E → Type} {X T : Type} (runtime : Runtime E R X)
  (options : RetryOptions E R X) (fn : ℕ → Async E R X T)

/-- What is thrown after the loop. -/
def afterLoop (lastError : Thrown X) : ResilienceError (Thrown X) :=
  match lastError with
  | .resilienceError err => err
  | _ => {
      kind := .exhausted
      message := utf16 "operation failed after " ++ runtime.numberText options.attemptLimit ++
        utf16 " attempt(s)"
      attempts := options.attemptLimit
      cause := lastError }

/-- A run of the loop from `attempt` on. -/
inductive Course : ℕ → List (Prog.Event E R) → Except (Thrown X) T → Prop
  | stopped {attempt t error} (hcheck : (checkSignal options attempt).run.Runs t (.error error)) :
    Course attempt t (.error error)
  | returned {attempt t₁ t₂ value} (hcheck : (checkSignal options attempt).run.Runs t₁ (.ok ()))
    (hfn : (fn attempt).run.Runs t₂ (.ok value)) : Course attempt (t₁ ++ t₂) (.ok value)
  | gaveUp {attempt t₁ t₂ t₃ error} (hcheck : (checkSignal options attempt).run.Runs t₁ (.ok ()))
    (hfn : (fn attempt).run.Runs t₂ (.error error))
    (hends : (goesOn options error attempt).run.Runs t₃ (.ok false)) :
    Course attempt (t₁ ++ (t₂ ++ t₃)) (.error (.resilienceError (afterLoop runtime options error)))
  | threw {attempt t₁ t₂ t₃ error error'}
    (hcheck : (checkSignal options attempt).run.Runs t₁ (.ok ()))
    (hfn : (fn attempt).run.Runs t₂ (.error error))
    (hgoes : (goesOn options error attempt).run.Runs t₃ (.error error')) :
    Course attempt (t₁ ++ (t₂ ++ t₃)) (.error error')
  | pauseThrew {attempt t₁ t₂ t₃ t₄ error error'}
    (hcheck : (checkSignal options attempt).run.Runs t₁ (.ok ()))
    (hfn : (fn attempt).run.Runs t₂ (.error error))
    (hgoes : (goesOn options error attempt).run.Runs t₃ (.ok true))
    (hpause : (backOff runtime options error attempt).run.Runs t₄ (.error error')) :
    Course attempt (t₁ ++ (t₂ ++ (t₃ ++ t₄))) (.error error')
  | again {attempt t₁ t₂ t₃ t₄ t₅ error r}
    (hcheck : (checkSignal options attempt).run.Runs t₁ (.ok ()))
    (hfn : (fn attempt).run.Runs t₂ (.error error))
    (hgoes : (goesOn options error attempt).run.Runs t₃ (.ok true))
    (hpause : (backOff runtime options error attempt).run.Runs t₄ (.ok ()))
    (hrest : Course (attempt + 1) t₅ r) : Course attempt (t₁ ++ (t₂ ++ (t₃ ++ (t₄ ++ t₅)))) r

variable {runtime options fn}

theorem runs_giveUp_eq {lastError : Thrown X} {t : List (Prog.Event E R)}
    {r : Except (Thrown X) (Option T)} (h : (giveUp runtime options lastError).run.Runs t r) :
    t = [] ∧ r = .error (.resilienceError (afterLoop runtime options lastError)) := by
  cases lastError <;> exact ⟨h.1, h.2.symm⟩

/-- The loop goes on only where an attempt is left. -/
theorem lt_of_goesOn {n : ℕ} (hlimit : options.attemptLimit = .finite n) {error : Thrown X}
    {attempt : ℕ} {t : List (Prog.Event E R)}
    (h : (goesOn options error attempt).run.Runs t (.ok true)) : attempt < n := by
  unfold goesOn at h
  split at h
  · cases h.2
  · rename_i hle
    simpa [hlimit, Number.le] using hle

theorem course_of_runs_attempts {n : ℕ} (hlimit : options.attemptLimit = .finite n)
    {fuel attempt : ℕ} {lastError : Thrown X} {t : List (Prog.Event E R)}
    {r : Except (Thrown X) (Option T)} (hattempt : attempt ≤ n) (hfuel : n < attempt + fuel)
    (h : (attempts runtime options fn fuel attempt lastError).run.Runs t r) :
    ∃ r', r = r'.map some ∧ Course runtime options fn attempt t r' := by
  induction fuel generalizing attempt lastError t with
  | zero => omega
  | succ fuel ih =>
    have hle : (Number.finite attempt).le options.attemptLimit = true := by
      simpa [hlimit, Number.le] using hattempt
    rw [attempts, if_pos hle] at h
    obtain ⟨t₁, checked, t₂, rfl, hcheck, hbody⟩ | ⟨error, rfl, hcheck⟩ := runs_except_bind.1 h
    · obtain ⟨t₃, outcome, t₄, rfl, hfn, hrest⟩ := runs_observe_bind.1 hbody
      cases outcome with
      | ok value =>
        obtain ⟨rfl, rfl⟩ := hrest
        exact ⟨.ok value, rfl, by simpa using Course.returned hcheck hfn⟩
      | error error =>
        obtain ⟨t₅, again, t₆, rfl, hgoes, hgoing⟩ | ⟨error', rfl, hgoes⟩ :=
          runs_except_bind.1 hrest
        · cases again with
          | false =>
            obtain ⟨rfl, rfl⟩ := runs_giveUp_eq hgoing
            exact ⟨_, rfl, by simpa using Course.gaveUp hcheck hfn hgoes⟩
          | true =>
            obtain ⟨t₇, paused, t₈, rfl, hpause, hloop⟩ | ⟨error', rfl, hpause⟩ :=
              runs_except_bind.1 hgoing
            · have hlt := lt_of_goesOn hlimit hgoes
              obtain ⟨r', rfl, hcourse⟩ := ih (by omega) (by omega) hloop
              exact ⟨r', rfl, .again hcheck hfn hgoes hpause hcourse⟩
            · exact ⟨.error error', rfl, .pauseThrew hcheck hfn hgoes hpause⟩
        · exact ⟨.error error', rfl, .threw hcheck hfn hgoes⟩
    · exact ⟨.error error, rfl, .stopped hcheck⟩

/-- A run of `retry`, with a whole limit and enough fuel. -/
theorem course_of_runs_retry {n : ℕ} (hlimit : options.attemptLimit = .finite n) (hn : 1 ≤ n)
    {fuel : ℕ} (hfuel : n ≤ fuel) {t : List (Prog.Event E R)} {r : Except (Thrown X) (Option T)}
    (h : (retry runtime options fn fuel).run.Runs t r) :
    ∃ r', r = r'.map some ∧ Course runtime options fn 1 t r' := by
  have hnot : ¬ options.attemptLimit.lt (.finite 1) = true := by
    simp [hlimit, Number.lt]
    omega
  rw [retry, if_neg hnot] at h
  exact course_of_runs_attempts hlimit hn (by omega) h

end Course

/-! ## Counting the calls -/

/-- What `retry` asks of the function, the callbacks and the signal. -/
inductive RetryRequest (X : Type)
  | call (attempt : ℕ)
  | shouldRetry (error : Thrown X) (attempt : ℕ)
  | onRetry (info : RetryInfo X)
  | sleep (ms : Number)
  | random
  | aborted
  | reason

abbrev RetryReply (X T : Type) : RetryRequest X → Type
  | .call _ => Except (Thrown X) T
  | .shouldRetry _ _ => Except (Thrown X) Bool
  | .onRetry _ | .sleep _ => Except (Thrown X) Unit
  | .random => Except (Thrown X) Number
  | .aborted => Bool
  | .reason => Thrown X

/-- The numbers among the options of a call of `retry`, and which callbacks are given. -/
structure RetryCall where
  maxAttempts : Option Number := none
  baseDelayMs : Option Number := none
  maxDelayMs : Option Number := none
  shouldRetry : Bool := false
  onRetry : Bool := false
  sleep : Bool := false
  random : Bool := false
  signal : Bool := false

abbrev RetryEvent (X T : Type) := Prog.Event (RetryRequest X) (RetryReply X T)

section Counting

variable {X T : Type} (call : RetryCall) (numberText : Number → Units)

def RetryCall.options : RetryOptions (RetryRequest X) (RetryReply X T) X where
  maxAttempts := call.maxAttempts
  baseDelayMs := call.baseDelayMs
  maxDelayMs := call.maxDelayMs
  shouldRetry :=
    if call.shouldRetry then some fun error attempt => perform (.shouldRetry error attempt) id
    else none
  onRetry := if call.onRetry then some fun info => perform (.onRetry info) id else none
  sleep := if call.sleep then some fun ms => perform (.sleep ms) id else none
  random := if call.random then some (perform .random id) else none
  signal := if call.signal then some ⟨perform .aborted .ok, perform .reason .ok⟩ else none

/-- The platform answers where no callback is given. -/
def callbackRuntime : Runtime (RetryRequest X) (RetryReply X T) X where
  random := perform .random id
  defaultSleep ms := perform (.sleep ms) id
  numberText := numberText

/-- The function that is retried. -/
def callFunction (attempt : ℕ) : Async (RetryRequest X) (RetryReply X T) X T :=
  perform (.call attempt) id

def RetryRequest.isCall : RetryRequest X → Bool
  | .call _ => true
  | _ => false

/-- The number of times that the function was invoked. -/
def invocations (t : List (RetryEvent X T)) : ℕ := t.countP fun ev => ev.1.isCall

/-- The error that the loop ends on, where this is the last event. -/
def gaveUpOn : RetryEvent X T → Option (Thrown X)
  | ⟨.call _, .error error⟩ => some error
  | ⟨.shouldRetry error _, .ok false⟩ => some error
  | _ => none

/-- What a callback throws. -/
def callbackThrew : RetryEvent X T → Option (Thrown X)
  | ⟨.shouldRetry _ _, .error error⟩ => some error
  | ⟨.onRetry _, .error error⟩ => some error
  | ⟨.sleep _, .error error⟩ => some error
  | ⟨.random, .error error⟩ => some error
  | _ => none

/-- An error of the class `ResilienceError` has this count, another one comes after all attempts. -/
def Counts (limit count : ℕ) : Thrown X → Prop
  | .resilienceError err => err.attempts = .finite count
  | _ => count = limit

/-- How a run ends, after `earlier` invocations: what the loop gives up on counts, and so does an
error of the class `ResilienceError` that a callback throws. -/
structure EndsCounted (limit earlier : ℕ) (t : List (RetryEvent X T)) : Prop where
  gaveUp : ∀ error, t.getLast?.bind gaveUpOn = some error →
    Counts limit (earlier + invocations t) error
  callback : ∀ err, t.getLast?.bind callbackThrew = some (.resilienceError err) →
    err.attempts = .finite (earlier + invocations t : ℕ)

variable {call numberText} {limit earlier : ℕ} {t t' : List (RetryEvent X T)}

@[simp] theorem invocations_append : invocations (t ++ t') = invocations t + invocations t' :=
  List.countP_append

theorem runs_callFunction {attempt : ℕ} {r : Except (Thrown X) T}
    (h : (callFunction attempt).run.Runs t r) : t = [⟨.call attempt, r⟩] := by
  obtain ⟨answer, rfl, rfl⟩ := runs_perform.1 h
  rfl

theorem runs_checkSignal {attempt : ℕ} {r : Except (Thrown X) Unit}
    (h : (checkSignal (call.options (T := T)) attempt).run.Runs t r) :
    r = .ok () ∧ invocations t = 0 ∨
      ∃ err reason, r = .error (.resilienceError err) ∧ err.attempts = .finite (attempt - 1) ∧
        t = [⟨.aborted, true⟩, ⟨.reason, reason⟩] := by
  unfold checkSignal RetryCall.options at h
  cases hsignal : call.signal with
  | false =>
    simp only [hsignal, Bool.false_eq_true, if_false] at h
    obtain ⟨rfl, rfl⟩ := h
    exact .inl ⟨rfl, rfl⟩
  | true =>
    simp only [hsignal, if_true] at h
    obtain ⟨aborted, t₁, rfl, h₁⟩ := runs_perform_bind.1 h
    cases aborted with
    | false =>
      obtain ⟨rfl, rfl⟩ := h₁
      exact .inl ⟨rfl, rfl⟩
    | true =>
      obtain ⟨reason, t₂, rfl, rfl, rfl⟩ := runs_perform_bind.1 h₁
      exact .inr ⟨_, reason, rfl, rfl, rfl⟩

theorem runs_goesOn {error : Thrown X} {attempt : ℕ} {r : Except (Thrown X) Bool}
    (h : (goesOn (call.options (T := T)) error attempt).run.Runs t r) :
    t = [] ∧ (∃ again, r = .ok again) ∨ t = [⟨.shouldRetry error attempt, r⟩] := by
  unfold goesOn at h
  split at h
  · obtain ⟨rfl, rfl⟩ := h
    exact .inl ⟨rfl, _, rfl⟩
  · cases hretry : call.shouldRetry with
    | false =>
      have hnone : (call.options (X := X) (T := T)).shouldRetry = none := by
        simp [RetryCall.options, hretry]
      rw [hnone] at h
      obtain ⟨rfl, rfl⟩ := h
      exact .inl ⟨rfl, _, rfl⟩
    | true =>
      have hsome : (call.options (X := X) (T := T)).shouldRetry =
          some fun error attempt =>
            (perform (.shouldRetry error attempt) id : Async _ (RetryReply X T) X Bool) := by
        simp [RetryCall.options, hretry]
      rw [hsome] at h
      obtain ⟨answer, rfl, rfl⟩ := runs_perform.1 h
      exact .inr rfl

/-- A program that asks callbacks only, and throws what the last one throws. -/
def Calling {α : Type} (x : Async (RetryRequest X) (RetryReply X T) X α) : Prop :=
  ∀ t r, x.run.Runs t r → invocations t = 0 ∧
    ∀ error, r = .error error → t.getLast?.bind callbackThrew = some error

theorem calling_bind {α β : Type} {x : Async (RetryRequest X) (RetryReply X T) X α}
    {f : α → Async (RetryRequest X) (RetryReply X T) X β} (hx : Calling x)
    (hf : ∀ a, Calling (f a)) : Calling (x >>= f) := by
  intro t r h
  obtain ⟨t₁, a, t₂, rfl, h₁, h₂⟩ | ⟨error, rfl, hrun⟩ := runs_except_bind.1 h
  · obtain ⟨hnone, hthrew⟩ := hf a _ _ h₂
    refine ⟨by simp [(hx _ _ h₁).1, hnone], fun error herror => ?_⟩
    have hlast := hthrew error herror
    cases ht : t₂.getLast? with
    | none => simp [ht] at hlast
    | some ev => simpa [List.getLast?_append, ht] using hlast
  · obtain ⟨hnone, hthrew⟩ := hx _ _ hrun
    refine ⟨hnone, ?_⟩
    rintro _ ⟨⟩
    exact hthrew error rfl

theorem calling_pure {α : Type} (a : α) :
    Calling (fromExcept (.ok a) : Async (RetryRequest X) (RetryReply X T) X α) := by
  rintro t r ⟨rfl, rfl⟩
  exact ⟨rfl, fun error herror => by cases herror⟩

theorem calling_random :
    Calling (perform .random id : Async (RetryRequest X) (RetryReply X T) X _) := by
  intro t r h
  obtain ⟨answer, rfl, rfl⟩ := runs_perform.1 h
  refine ⟨rfl, ?_⟩
  rintro error rfl
  rfl

theorem calling_onRetry (info : RetryInfo X) :
    Calling (perform (.onRetry info) id : Async (RetryRequest X) (RetryReply X T) X _) := by
  intro t r h
  obtain ⟨answer, rfl, rfl⟩ := runs_perform.1 h
  refine ⟨rfl, ?_⟩
  rintro error rfl
  rfl

theorem calling_sleep (ms : Number) :
    Calling (perform (.sleep ms) id : Async (RetryRequest X) (RetryReply X T) X _) := by
  intro t r h
  obtain ⟨answer, rfl, rfl⟩ := runs_perform.1 h
  refine ⟨rfl, ?_⟩
  rintro error rfl
  rfl

theorem calling_backOff (error : Thrown X) (attempt : ℕ) :
    Calling (backOff (callbackRuntime numberText) (call.options (T := T)) error attempt) := by
  have hrandom : Calling (X := X) (T := T)
      ((call.options (T := T)).random.getD (callbackRuntime numberText).random) := by
    cases h : call.random <;> simpa [RetryCall.options, callbackRuntime, h] using calling_random
  have hsleep (ms : Number) : Calling (X := X) (T := T)
      (((call.options (T := T)).sleep.getD (callbackRuntime numberText).defaultSleep) ms) := by
    cases h : call.sleep <;> simpa [RetryCall.options, callbackRuntime, h] using calling_sleep ms
  unfold backOff computeBackoff
  refine calling_bind (calling_bind hrandom fun _ => calling_pure _) fun delayMs => ?_
  cases h : call.onRetry with
  | false =>
    have hnone : (call.options (X := X) (T := T)).onRetry = none := by simp [RetryCall.options, h]
    rw [hnone]
    exact calling_bind (calling_pure ()) fun _ => hsleep delayMs
  | true =>
    have hsome : (call.options (X := X) (T := T)).onRetry =
        some fun info => (perform (.onRetry info) id : Async _ (RetryReply X T) X Unit) := by
      simp [RetryCall.options, h]
    rw [hsome]
    exact calling_bind (calling_onRetry _) fun _ => hsleep delayMs

/-! ## The count of the error that is thrown -/

theorem getLast?_bind_append {α β : Type} {l l' : List α} {f : α → Option β} (h : l' ≠ []) :
    (l ++ l').getLast?.bind f = l'.getLast?.bind f := by
  rw [List.getLast?_append_of_ne_nil _ h]

/-- What comes before the end of a run only adds to the count. -/
theorem endsCounted_append (h : t' ≠ []) :
    EndsCounted limit earlier (t ++ t') ↔ EndsCounted limit (earlier + invocations t) t' := by
  constructor
  · rintro ⟨hgaveUp, hcallback⟩
    simp only [getLast?_bind_append h, invocations_append, ← Nat.add_assoc] at hgaveUp hcallback
    exact ⟨hgaveUp, hcallback⟩
  · rintro ⟨hgaveUp, hcallback⟩
    constructor
    · simpa only [getLast?_bind_append h, invocations_append, ← Nat.add_assoc] using hgaveUp
    · simpa only [getLast?_bind_append h, invocations_append, ← Nat.add_assoc] using hcallback

theorem gaveUpOn_of_callbackThrew {error : Thrown X}
    (h : t.getLast?.bind callbackThrew = some error) : t.getLast?.bind gaveUpOn = none := by
  cases hlast : t.getLast? with
  | none => rfl
  | some ev =>
    rw [hlast] at h
    obtain ⟨e, answer⟩ := ev
    cases e with
    | call attempt => cases h
    | shouldRetry error' attempt =>
      change Except (Thrown X) Bool at answer
      cases answer with
      | ok again => cases h
      | error e => rfl
    | _ => rfl

theorem endsCounted_of_callbackThrew {error : Thrown X}
    (h : t.getLast?.bind callbackThrew = some error) :
    EndsCounted limit earlier t ↔ ∀ err, error = .resilienceError err →
      err.attempts = .finite (earlier + invocations t : ℕ) := by
  constructor
  · rintro ⟨-, hcallback⟩ err rfl
    exact hcallback err h
  · intro hcount
    constructor
    · simp [gaveUpOn_of_callbackThrew h]
    · intro err herr
      rw [h, Option.some.injEq] at herr
      exact hcount err herr

theorem endsCounted_of_gaveUpOn {error : Thrown X} (h : t.getLast?.bind gaveUpOn = some error) :
    EndsCounted limit earlier t ↔ Counts limit (earlier + invocations t) error := by
  constructor
  · exact fun hends => hends.gaveUp error h
  · intro hcount
    constructor
    · intro error' herror'
      rw [h, Option.some.injEq] at herror'
      exact herror' ▸ hcount
    · intro err herr
      rw [gaveUpOn_of_callbackThrew herr] at h
      cases h

/-- What the loop gives up on is thrown with the right count, if it counts. -/
theorem attempts_afterLoop (numberText : Number → Units) {n : ℕ}
    {options : RetryOptions (RetryRequest X) (RetryReply X T) X}
    (hlimit : options.attemptLimit = .finite n) (count : ℕ) (error : Thrown X) :
    (afterLoop (callbackRuntime numberText) options error).attempts = .finite count ↔
      Counts n count error := by
  cases error with
  | resilienceError err => exact Iff.rfl
  | _ =>
    change options.attemptLimit = .finite count ↔ count = n
    rw [hlimit, Number.finite.injEq, Nat.cast_inj]
    exact eq_comm

theorem course_ne_nil {attempt : ℕ} {r : Except (Thrown X) T}
    (h : Course (callbackRuntime numberText) call.options callFunction attempt t r) : t ≠ [] := by
  cases h with
  | stopped hcheck =>
    obtain ⟨hok, -⟩ | ⟨err, reason, -, -, rfl⟩ := runs_checkSignal hcheck
    · cases hok
    · simp
  | _ hcheck hfn => simp [runs_callFunction hfn]

/-- The check of the signal and the call before an error. -/
theorem invocations_called {attempt : ℕ} {t₁ t₂ : List (RetryEvent X T)} {r : Except (Thrown X) T}
    (hcheck : (checkSignal (call.options (T := T)) attempt).run.Runs t₁ (.ok ()))
    (hfn : (callFunction attempt).run.Runs t₂ r) : invocations (t₁ ++ t₂) = 1 := by
  obtain ⟨-, hnone⟩ | ⟨err, reason, hok, -⟩ := runs_checkSignal hcheck
  · rw [invocations_append, hnone, runs_callFunction hfn]
    rfl
  · cases hok

/-- **The count, from any iteration on.** -/
theorem Course.counted_iff {n attempt : ℕ}
    (hlimit : (call.options (X := X) (T := T)).attemptLimit = .finite n) {r : Except (Thrown X) T}
    (h : Course (callbackRuntime numberText) call.options callFunction attempt t r)
    (hattempt : attempt = earlier + 1) :
    (∀ err, r = .error (.resilienceError err) →
        err.attempts = .finite (earlier + invocations t : ℕ)) ↔ EndsCounted n earlier t := by
  induction h generalizing earlier with
  | stopped hcheck =>
    obtain ⟨hok, -⟩ | ⟨err, reason, herr, hattempts, rfl⟩ := runs_checkSignal hcheck
    · cases hok
    · cases herr
      refine iff_of_true ?_ ⟨(fun error herror => by cases herror), (fun err herr => by cases herr)⟩
      rintro _ ⟨⟩
      simp [hattempts, hattempt, invocations, RetryRequest.isCall]
  | @returned attempt t₁ t₂ value hcheck hfn =>
    refine iff_of_true (fun err herr => by cases herr) ?_
    rw [runs_callFunction hfn, endsCounted_append (by simp)]
    exact ⟨(fun error herror => by cases herror), (fun err herr => by cases herr)⟩
  | @gaveUp attempt t₁ t₂ t₃ error hcheck hfn hends =>
    have hlast : (t₁ ++ (t₂ ++ t₃)).getLast?.bind gaveUpOn = some error := by
      rw [runs_callFunction hfn, getLast?_bind_append (by simp)]
      obtain ⟨rfl, -⟩ | rfl := runs_goesOn hends <;> rfl
    rw [endsCounted_of_gaveUpOn hlast, ← attempts_afterLoop numberText hlimit]
    simp
  | @threw attempt t₁ t₂ t₃ error error' hcheck hfn hgoes =>
    have hlast : (t₁ ++ (t₂ ++ t₃)).getLast?.bind callbackThrew = some error' := by
      obtain ⟨-, again, hok⟩ | rfl := runs_goesOn hgoes
      · cases hok
      · rw [← List.append_assoc, getLast?_bind_append (by simp)]
        rfl
    rw [endsCounted_of_callbackThrew hlast]
    simp
  | @pauseThrew attempt t₁ t₂ t₃ t₄ error error' hcheck hfn hgoes hpause =>
    have hthrew := (calling_backOff error attempt _ _ hpause).2 error' rfl
    have hne : t₄ ≠ [] := by
      rintro rfl
      cases hthrew
    have hlast : (t₁ ++ (t₂ ++ (t₃ ++ t₄))).getLast?.bind callbackThrew = some error' := by
      rw [← List.append_assoc, ← List.append_assoc, getLast?_bind_append hne, hthrew]
    rw [endsCounted_of_callbackThrew hlast]
    simp
  | @again attempt t₁ t₂ t₃ t₄ t₅ error r hcheck hfn hgoes hpause hrest ih =>
    have hinvocations : invocations (t₁ ++ (t₂ ++ (t₃ ++ t₄))) = 1 := by
      have hcalled := invocations_called hcheck hfn
      have hpaused := (calling_backOff error attempt _ _ hpause).1
      have hasked : invocations t₃ = 0 := by
        obtain ⟨rfl, -⟩ | rfl := runs_goesOn hgoes <;> rfl
      simp only [invocations_append] at hcalled ⊢
      omega
    have hassoc : t₁ ++ (t₂ ++ (t₃ ++ (t₄ ++ t₅))) = t₁ ++ (t₂ ++ (t₃ ++ t₄)) ++ t₅ := by
      simp only [List.append_assoc]
    rw [hassoc, endsCounted_append (course_ne_nil hrest), invocations_append, hinvocations,
      ← ih (by omega), ← Nat.add_assoc]

/-- **When the count is right**: the `attempts` of a `ResilienceError` that `retry` rejects with is
the number of invocations exactly when the run ends so (`EndsCounted`). -/
theorem attempts_eq_iff (call : RetryCall) (numberText : Number → Units) {n fuel : ℕ}
    (hlimit : call.maxAttempts.getD (.finite 3) = .finite n) (hn : 1 ≤ n) (hfuel : n ≤ fuel)
    {t : List (RetryEvent X T)} {r : Except (Thrown X) (Option T)}
    (h : (retry (callbackRuntime numberText) call.options callFunction fuel).run.Runs t r) :
    (∀ err, r = .error (.resilienceError err) → err.attempts = .finite (invocations t)) ↔
      EndsCounted n 0 t := by
  have hlimit' : (call.options (X := X) (T := T)).attemptLimit = .finite n := hlimit
  obtain ⟨r', rfl, hcourse⟩ := course_of_runs_retry hlimit' hn hfuel h
  rw [← hcourse.counted_iff hlimit' rfl]
  cases r' <;> simp [Except.map]

/-- Two attempts, and errors of another class. -/
theorem attempts_eq_iff_exhausted :
    ∃ (t : List (RetryEvent ℕ ℕ)) (err : ResilienceError (Thrown ℕ)),
      (retry (callbackRuntime fun _ => []) (RetryCall.options { maxAttempts := some (.finite 2) })
        callFunction 2).run.Runs t (.error (.resilienceError err)) ∧
      invocations t = 2 ∧ err.attempts = .finite 2 := by
  let capped := (Number.finite 30000).min ((Number.finite 250).mul (.finite (2 ^ (1 - 1))))
  let t : List (RetryEvent ℕ ℕ) := [⟨.call 1, .error (.other 4)⟩, ⟨.random, .ok (.finite 0)⟩,
    ⟨.sleep ((Number.finite 0).mul capped).floor, .ok ()⟩, ⟨.call 2, .error (.other 5)⟩]
  obtain ⟨err, hrun⟩ : ∃ err, (retry (callbackRuntime fun _ => [])
      (RetryCall.options { maxAttempts := some (.finite 2) }) callFunction 2).run.Runs t
        (.error (.resilienceError err)) :=
    ⟨_, .error (.other 4), _, rfl, .ok (.finite 0), _, rfl, .ok (), _, rfl, .error (.other 5), _,
      rfl, rfl, rfl⟩
  have hcounted : EndsCounted 2 0 t := by
    constructor
    · rintro error ⟨⟩
      rfl
    · rintro err ⟨⟩
  have hiff := attempts_eq_iff { maxAttempts := some (.finite 2) } (fun _ => []) (n := 2) (by simp)
    one_le_two le_rfl hrun
  exact ⟨t, err, hrun, rfl, hiff.2 hcounted err rfl⟩

/-- What `safeFetch` throws for a response with status 503. -/
def unavailable : ResilienceError (Thrown Unit) where
  kind := .http
  message := utf16 "request failed with retryable status 503"
  status := some (.finite 503)
  cause := .undefined

/-- Two calls throw an error of the class `ResilienceError`; its count is one. -/
theorem attempts_ne_of_unavailable :
    ∃ t : List (RetryEvent Unit ℕ),
      (retry (callbackRuntime fun _ => []) (RetryCall.options { maxAttempts := some (.finite 2) })
        callFunction 2).run.Runs t (.error (.resilienceError unavailable)) ∧
      invocations t = 2 ∧ unavailable.attempts = .finite 1 := by
  let thrown : Except (Thrown Unit) ℕ := .error (.resilienceError unavailable)
  let capped := (Number.finite 30000).min ((Number.finite 250).mul (.finite (2 ^ (1 - 1))))
  refine ⟨[⟨.call 1, thrown⟩, ⟨.random, .ok (.finite 0)⟩,
    ⟨.sleep ((Number.finite 0).mul capped).floor, .ok ()⟩, ⟨.call 2, thrown⟩], ?_, rfl, rfl⟩
  exact ⟨thrown, _, rfl, .ok (.finite 0), _, rfl, .ok (), _, rfl, thrown, _, rfl, rfl, rfl⟩

end Counting

end Resilience.TypeScript
