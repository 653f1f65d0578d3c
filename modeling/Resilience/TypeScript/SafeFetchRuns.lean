import Resilience.TypeScript.Redirects
import Resilience.TypeScript.RetryRuns

/-!
# What `safeFetch` makes of the outcomes

`safeFetch` over a `fetch` that is asked once in an attempt, with any outcome (`fetchOnce`), and a
signal that the caller may abort at any moment (`AbortsBetween`).

A run is a sequence of attempts (`Fetches`): all outcomes but the last are failures, and after the
caller has aborted nothing is fetched (`Fetches.aborted`). What it rejects with is of kind `aborted`
then, and else of the kind of the last failure (`Fetches.rejected_of_last`).
-/

namespace Resilience.TypeScript

open Json

section Outcomes

variable {U X : Type}

/-- A `fetch`, by its outcome. -/
def fetchOnce : FetchImpl U X := fun target _ signal =>
  perform (.send target) (·.mapError (WebPlatform.stopError signal))

/-- The failures of an attempt, with the kind and the status of the error. -/
inductive Fails : Except (Stop X) Response → ResilienceErrorKind → Option Number → Prop
  | http {response : Response} (hok : response.ok = false)
    (hstatus : isRetryableStatus (.finite response.status) = true) :
    Fails (.ok response) .http (some (.finite response.status))
  | timeout : Fails (.error .timeout) .timeout none
  | network {error : X} : Fails (.error (.failed error)) .network none
  | resilienceError {err : ResilienceError (Thrown X)} :
    Fails (.error (.aborted (.resilienceError err))) err.kind err.status
  | reason {reason : Thrown X} (hreason : ∀ err, reason ≠ .resilienceError err) :
    Fails (.error (.aborted reason)) .network none

/-- The outcomes of the fetches of a run. -/
def outcomes (t : Trace U X) : List (Except (Stop X) Response) :=
  t.filterMap fun
    | ⟨.send _, outcome⟩ => some outcome
    | _ => none

/-- What is asked to find the caller's signal aborted, with its reason, or not. -/
def signalReads (signal : Bool) : Option (Thrown X) → Trace U X
  | none => if signal then [⟨.aborted, false⟩] else []
  | some reason => [⟨.aborted, true⟩, ⟨.reason, reason⟩]

/-- The random number and the hook between two attempts. -/
def Request.isCallback : Request U X → Bool
  | .mathRandom | .random | .onRetry _ => true
  | _ => false

/-- What a callback throws. -/
def thrownBy : Prog.Event (Request U X) (Answer U X) → Option (Thrown X)
  | ⟨.random, .error error⟩ => some error
  | ⟨.onRetry _, .error error⟩ => some error
  | _ => none

/-- A run from an attempt on. -/
inductive Fetches (signal : Bool) (limit : ℕ) :
    ℕ → Trace U X → Except (Thrown X) Response → Prop
  | stopped {attempt reason err} (hsignal : signal = true) (hkind : err.kind = .aborted) :
    Fetches signal limit attempt (signalReads signal (some reason)) (.error (.resilienceError err))
  | resolved {attempt already url response}
    (hgood : response.ok = true ∨ isRetryableStatus (.finite response.status) = false) :
    Fetches signal limit attempt
      (signalReads signal none ++ (signalReads signal already ++ [⟨.send url, .ok response⟩]))
      (.ok response)
  | aborted {attempt already url outcome kind status reason err} (hsignal : signal = true)
    (hfails : Fails outcome kind status) (hkind : err.kind = .aborted) :
    Fetches signal limit attempt
      (signalReads signal none ++
        (signalReads signal already ++ ⟨.send url, outcome⟩ :: signalReads signal (some reason)))
      (.error (.resilienceError err))
  | rejected {attempt already url outcome kind status err} (hfails : Fails outcome kind status)
    (hkind : err.kind = kind) (hstatus : err.status = status) :
    Fetches signal limit attempt
      (signalReads signal none ++
        (signalReads signal already ++ ⟨.send url, outcome⟩ :: signalReads signal none))
      (.error (.resilienceError err))
  | threw {attempt already url outcome kind status callbacks error}
    (hfails : Fails outcome kind status) (hcallbacks : ∀ ev ∈ callbacks, ev.1.isCallback = true)
    (hthrew : ∃ ev ∈ callbacks, thrownBy ev = some error) :
    Fetches signal limit attempt
      (signalReads signal none ++
        (signalReads signal already ++ ⟨.send url, outcome⟩ ::
          (signalReads signal none ++ callbacks)))
      (.error error)
  | again {attempt already url outcome kind status callbacks ms t r}
    (hfails : Fails outcome kind status) (hcallbacks : ∀ ev ∈ callbacks, ev.1.isCallback = true)
    (hlimit : attempt < limit) (hrest : Fetches signal limit (attempt + 1) t r) :
    Fetches signal limit attempt
      (signalReads signal none ++
        (signalReads signal already ++ ⟨.send url, outcome⟩ ::
          (signalReads signal none ++ (callbacks ++ ⟨.sleep ms, ()⟩ :: t)))) r

end Outcomes

/-! ## One attempt -/

section Attempt

variable {U X : Type} {platform : Platform U X} {options : SafeFetchOptions U X} {target : U}
  {t : Trace U X}

theorem runs_callerAborted {r : Except (Thrown X) (Option (Thrown X))}
    (h : (callerAborted options).run.Runs t r) :
    ∃ found, r = .ok found ∧ t = signalReads options.signal found ∧
      (found ≠ none → options.signal = true) := by
  unfold callerAborted at h
  split at h
  · rename_i hsignal
    obtain ⟨aborted, t₁, rfl, h₁⟩ := runs_perform_bind.1 h
    cases aborted with
    | true =>
      obtain ⟨reason, rfl, rfl⟩ := runs_perform.1 h₁
      exact ⟨some reason, rfl, rfl, fun _ => hsignal⟩
    | false =>
      obtain ⟨rfl, rfl⟩ := h₁
      exact ⟨none, rfl, by simp [signalReads, hsignal], fun hne => absurd rfl hne⟩
  · rename_i hsignal
    obtain ⟨rfl, rfl⟩ := h
    exact ⟨none, rfl, by simp [signalReads, hsignal], fun hne => absurd rfl hne⟩

/-- The error of the signal comes from `retry`, before an attempt. -/
theorem runs_checkSignal_fetch {attempt : ℕ} {r : Except (Thrown X) Unit}
    (h : (checkSignal options.retryOptions attempt).run.Runs t r) :
    (r = .ok () ∧ t = signalReads options.signal none) ∨
      ∃ err reason, r = .error (.resilienceError err) ∧ err.kind = .aborted ∧
        options.signal = true ∧ t = signalReads options.signal (some reason) := by
  unfold checkSignal at h
  cases hsignal : options.signal with
  | false =>
    have hnone : options.retryOptions.signal = none := by
      simp [SafeFetchOptions.retryOptions, hsignal]
    rw [hnone] at h
    obtain ⟨rfl, rfl⟩ := h
    exact .inl ⟨rfl, rfl⟩
  | true =>
    have hsome : options.retryOptions.signal =
        some ⟨perform .aborted .ok, perform .reason .ok⟩ := by
      simp [SafeFetchOptions.retryOptions, hsignal]
    rw [hsome] at h
    obtain ⟨aborted, t₁, rfl, h₁⟩ := runs_perform_bind.1 h
    cases aborted with
    | false =>
      obtain ⟨rfl, rfl⟩ := h₁
      exact .inl ⟨rfl, rfl⟩
    | true =>
      obtain ⟨reason, t₂, rfl, rfl, rfl⟩ := runs_perform_bind.1 h₁
      exact .inr ⟨_, reason, rfl, rfl, rfl, rfl⟩

/-- The `try` block. -/
theorem runs_tried {redirect : Option RedirectMode} {already : Option (Thrown X)}
    {r : Except (Thrown X) Response}
    (h : (do
      let response ← fetchOnce target redirect ⟨already, timeoutError platform options⟩
      checkStatus platform response).run.Runs t r) :
    ∃ outcome, t = [⟨.send target, outcome⟩] ∧
      ((∃ response, outcome = .ok response ∧ r = .ok response ∧
          (response.ok = true ∨ isRetryableStatus (.finite response.status) = false)) ∨
        ∃ kind status error, Fails outcome kind status ∧ r = .error error ∧
          ((∃ err, error = .resilienceError err ∧ err.kind = kind ∧ err.status = status) ∨
            (∀ err, error ≠ .resilienceError err) ∧ kind = .network ∧ status = none)) := by
  obtain ⟨outcome, t₁, rfl, h₁⟩ := runs_perform_bind.1 h
  cases outcome with
  | error stop =>
    obtain ⟨rfl, rfl⟩ := h₁
    refine ⟨_, rfl, .inr ?_⟩
    cases stop with
    | timeout => exact ⟨_, _, _, .timeout, rfl, .inl ⟨_, rfl, rfl, rfl⟩⟩
    | failed error => exact
        ⟨_, _, _, .network, rfl, .inr ⟨(by simp [WebPlatform.stopError]), rfl, rfl⟩⟩
    | aborted reason =>
      cases reason with
      | resilienceError err => exact ⟨_, _, _, .resilienceError, rfl, .inl ⟨err, rfl, rfl, rfl⟩⟩
      | undefined => exact
          ⟨_, _, _, .reason (by simp), rfl, .inr ⟨(by simp [WebPlatform.stopError]), rfl, rfl⟩⟩
      | other value => exact
          ⟨_, _, _, .reason (by simp), rfl, .inr ⟨(by simp [WebPlatform.stopError]), rfl, rfl⟩⟩
  | ok response =>
    change (checkStatus platform response).run.Runs t₁ r at h₁
    unfold checkStatus at h₁
    split at h₁
    · rename_i hretry
      obtain ⟨rfl, rfl⟩ := h₁
      simp only [Bool.and_eq_true, Bool.not_eq_true'] at hretry
      exact ⟨_, rfl, .inr ⟨_, _, _, .http hretry.1 hretry.2, rfl, .inl ⟨_, rfl, rfl, rfl⟩⟩⟩
    · rename_i hgood
      obtain ⟨rfl, rfl⟩ := h₁
      refine ⟨_, rfl, .inl ⟨response, rfl, rfl, ?_⟩⟩
      simpa [or_iff_not_imp_left] using hgood

/-- What an attempt makes of an outcome. -/
theorem runs_attemptFetch {r : Except (Thrown X) Response}
    (h : (attemptFetch platform options fetchOnce target).run.Runs t r) :
    ∃ already outcome t', t = signalReads options.signal already ++ ⟨.send target, outcome⟩ :: t' ∧
      ((∃ response, outcome = .ok response ∧ r = .ok response ∧ t' = [] ∧
          (response.ok = true ∨ isRetryableStatus (.finite response.status) = false)) ∨
        ∃ kind status err, Fails outcome kind status ∧ r = .error (.resilienceError err) ∧
          ((∃ reason, t' = signalReads options.signal (some reason) ∧ options.signal = true ∧
              err.kind = .aborted) ∨
            t' = signalReads options.signal none ∧ err.kind = kind ∧ err.status = status)) := by
  unfold attemptFetch at h
  obtain ⟨t₁, already, t₂, rfl, hstart, htry⟩ | ⟨error, -, hstart⟩ := runs_except_bind.1 h
  · obtain ⟨found, hfound, rfl, -⟩ := runs_callerAborted hstart
    obtain rfl : already = found := Except.ok.inj hfound
    obtain ⟨t₃, tried, t₄, rfl, htried, hcatch⟩ := runs_observe_bind.1 htry
    obtain ⟨outcome, rfl, houtcome⟩ := runs_tried htried
    refine ⟨already, outcome, t₄, rfl, ?_⟩
    obtain ⟨response, rfl, rfl, hgood⟩ | ⟨kind, status, error, hfails, rfl, herror⟩ := houtcome
    · obtain ⟨rfl, rfl⟩ := hcatch
      exact .inl ⟨response, rfl, rfl, rfl, hgood⟩
    · right
      obtain ⟨t₅, aborted, t₆, rfl, hread, hthrow⟩ | ⟨error', -, hread⟩ :=
        runs_except_bind.1 hcatch
      · obtain ⟨found', hfound', rfl, hsignal⟩ := runs_callerAborted hread
        obtain rfl : aborted = found' := Except.ok.inj hfound'
        cases aborted with
        | some reason =>
          obtain ⟨rfl, rfl⟩ := hthrow
          exact ⟨kind, status, _, hfails, rfl, .inl ⟨reason, by simp, hsignal (by simp), rfl⟩⟩
        | none =>
          obtain ⟨err, rfl, hkind, hstatus⟩ | ⟨hother, rfl, rfl⟩ := herror
          · obtain ⟨rfl, rfl⟩ := hthrow
            exact ⟨kind, status, err, hfails, rfl, .inr ⟨by simp, hkind, hstatus⟩⟩
          · cases error with
            | resilienceError err => exact absurd rfl (hother err)
            | _ =>
              obtain ⟨rfl, rfl⟩ := hthrow
              exact ⟨_, _, _, hfails, rfl, .inr ⟨by simp, rfl, rfl⟩⟩
      · obtain ⟨found', hfound', -⟩ := runs_callerAborted hread
        cases hfound'
  · obtain ⟨found, hfound, -⟩ := runs_callerAborted hstart
    cases hfound

/-! ## Between two attempts -/

theorem runs_goesOn_fetch {n attempt : ℕ}
    (hlimit : options.retryOptions.attemptLimit = .finite n) {error : Thrown X}
    {r : Except (Thrown X) Bool}
    (h : (goesOn options.retryOptions error attempt).run.Runs t r) :
    t = [] ∧ ∃ again, r = .ok again ∧ (again = true → shouldRetry error = true ∧ attempt < n) := by
  unfold goesOn at h
  split at h
  · obtain ⟨rfl, rfl⟩ := h
    exact ⟨rfl, false, rfl, fun hfalse => by cases hfalse⟩
  · rename_i hle
    obtain ⟨rfl, rfl⟩ := h
    refine ⟨rfl, _, rfl, fun hretry => ⟨hretry, ?_⟩⟩
    simpa [hlimit, Number.le] using hle

/-- A program that asks callbacks only. -/
def OnlyCallbacks {α : Type} (x : Fetching U X α) : Prop :=
  ∀ t r, x.run.Runs t r → (∀ ev ∈ t, ev.1.isCallback = true) ∧
    ∀ error, r = .error error → ∃ ev ∈ t, thrownBy ev = some error

theorem onlyCallbacks_bind {α β : Type} {x : Fetching U X α} {f : α → Fetching U X β}
    (hx : OnlyCallbacks x) (hf : ∀ a, OnlyCallbacks (f a)) : OnlyCallbacks (x >>= f) := by
  intro t r h
  obtain ⟨t₁, a, t₂, rfl, h₁, h₂⟩ | ⟨error, rfl, hrun⟩ := runs_except_bind.1 h
  · obtain ⟨hcallbacks, hthrew⟩ := hf a _ _ h₂
    refine ⟨?_, fun error herror => ?_⟩
    · intro ev hev
      rcases List.mem_append.1 hev with hev | hev
      · exact (hx _ _ h₁).1 ev hev
      · exact hcallbacks ev hev
    · obtain ⟨ev, hev, hthrow⟩ := hthrew error herror
      exact ⟨ev, List.mem_append_right _ hev, hthrow⟩
  · obtain ⟨hcallbacks, hthrew⟩ := hx _ _ hrun
    refine ⟨hcallbacks, ?_⟩
    rintro _ ⟨⟩
    exact hthrew error rfl

theorem onlyCallbacks_pure {α : Type} (a : α) :
    OnlyCallbacks (fromExcept (.ok a) : Fetching U X α) := by
  rintro t r ⟨rfl, rfl⟩
  exact ⟨by simp, fun error herror => by cases herror⟩

theorem onlyCallbacks_random :
    OnlyCallbacks (options.retryOptions.random.getD platform.runtime.random) := by
  unfold SafeFetchOptions.retryOptions
  cases options.random with
  | true =>
    intro t r h
    obtain ⟨answer, rfl, rfl⟩ := runs_perform.1 h
    refine ⟨by simp [Request.isCallback], ?_⟩
    rintro error rfl
    exact ⟨_, List.mem_singleton_self _, rfl⟩
  | false =>
    intro t r h
    obtain ⟨answer, rfl, rfl⟩ := runs_perform.1 h
    exact ⟨by simp [Request.isCallback], fun error herror => by cases herror⟩

theorem onlyCallbacks_onRetry (info : RetryInfo X) :
    OnlyCallbacks (perform (.onRetry info) id : Fetching U X Unit) := by
  intro t r h
  obtain ⟨answer, rfl, rfl⟩ := runs_perform.1 h
  refine ⟨by simp [Request.isCallback], ?_⟩
  rintro error rfl
  exact ⟨_, List.mem_singleton_self _, rfl⟩

/-- The delay, the hook and the sleep one after the other. -/
theorem exists_backOff (platform : Platform U X) (options : SafeFetchOptions U X) (error : Thrown X)
    (attempt : ℕ) :
    ∃ (delay : Fetching U X Number) (hook : Number → Fetching U X Unit), OnlyCallbacks delay ∧
      (∀ ms, OnlyCallbacks (hook ms)) ∧
      backOff platform.runtime options.retryOptions error attempt =
        (delay >>= fun ms => hook ms >>= fun _ => perform (.sleep ms) .ok) := by
  refine ⟨computeBackoff attempt (options.retryOptions.baseDelayMs.getD (.finite 250))
      (options.retryOptions.maxDelayMs.getD (.finite 30000))
      (options.retryOptions.random.getD platform.runtime.random),
    fun ms => if options.onRetry then perform (.onRetry ⟨error, attempt, ms⟩) id
      else fromExcept (.ok ()), ?_, fun ms => ?_, ?_⟩
  · exact onlyCallbacks_bind onlyCallbacks_random fun _ => onlyCallbacks_pure _
  · split
    · exact onlyCallbacks_onRetry _
    · exact onlyCallbacks_pure ()
  · unfold backOff SafeFetchOptions.retryOptions
    cases options.onRetry <;> rfl

/-- The callbacks, then the sleep, unless one of them throws. -/
theorem runs_backOff_fetch {error : Thrown X} {attempt : ℕ} {r : Except (Thrown X) Unit}
    (h : (backOff platform.runtime options.retryOptions error attempt).run.Runs t r) :
    (r = .ok () ∧ ∃ callbacks ms, (∀ ev ∈ callbacks, ev.1.isCallback = true) ∧
        t = callbacks ++ [⟨.sleep ms, ()⟩]) ∨
      ∃ error', r = .error error' ∧ (∀ ev ∈ t, ev.1.isCallback = true) ∧
        ∃ ev ∈ t, thrownBy ev = some error' := by
  obtain ⟨delay, hook, hdelay, hhook, heq⟩ := exists_backOff platform options error attempt
  rw [heq] at h
  obtain ⟨t₁, ms, t₂, rfl, h₁, h₂⟩ | ⟨error', rfl, hrun⟩ := runs_except_bind.1 h
  · obtain ⟨t₃, asked, t₄, rfl, h₃, hsleep⟩ | ⟨error', rfl, hrun⟩ := runs_except_bind.1 h₂
    · obtain ⟨answer, rfl, rfl⟩ := runs_perform.1 hsleep
      refine .inl ⟨rfl, t₁ ++ t₃, ms, fun ev hev => ?_, by simp⟩
      rcases List.mem_append.1 hev with hev | hev
      · exact (hdelay _ _ h₁).1 ev hev
      · exact (hhook ms _ _ h₃).1 ev hev
    · obtain ⟨hcallbacks, hthrew⟩ := hhook ms _ _ hrun
      obtain ⟨ev, hev, hthrow⟩ := hthrew error' rfl
      refine .inr ⟨error', rfl, fun ev hev => ?_, ev, List.mem_append_right _ hev, hthrow⟩
      rcases List.mem_append.1 hev with hev | hev
      · exact (hdelay _ _ h₁).1 ev hev
      · exact hcallbacks ev hev
  · obtain ⟨hcallbacks, hthrew⟩ := hdelay _ _ hrun
    exact .inr ⟨error', rfl, hcallbacks, hthrew error' rfl⟩

/-- A failed attempt after which the loop goes on. -/
theorem runs_attemptFetch_again {n attempt : ℕ}
    (hlimit : options.retryOptions.attemptLimit = .finite n) {error : Thrown X} {t' : Trace U X}
    (h : (attemptFetch platform options fetchOnce target).run.Runs t (.error error))
    (hgoes : (goesOn options.retryOptions error attempt).run.Runs t' (.ok true)) :
    t' = [] ∧ attempt < n ∧ ∃ already outcome kind status, Fails outcome kind status ∧
      t = signalReads options.signal already ++
        ⟨.send target, outcome⟩ :: signalReads options.signal none := by
  obtain ⟨rfl, again, hagain, htrue⟩ := runs_goesOn_fetch hlimit hgoes
  obtain rfl : true = again := Except.ok.inj hagain
  obtain ⟨hretry, hlt⟩ := htrue rfl
  obtain ⟨already, outcome, t₁, rfl, houtcome⟩ := runs_attemptFetch h
  obtain ⟨response, rfl, hr, -⟩ | ⟨kind, status, err, hfails, hr, hread⟩ := houtcome
  · cases hr
  · obtain rfl : error = .resilienceError err := Except.error.inj hr
    obtain ⟨reason, -, -, hkind⟩ | ⟨rfl, -⟩ := hread
    · simp [shouldRetry, hkind] at hretry
    · exact ⟨rfl, hlt, already, outcome, kind, status, hfails, rfl⟩

/-- The iterations of `retry`, with what each attempt made of its outcome. -/
theorem fetches_of_course {n attempt : ℕ}
    (hlimit : options.retryOptions.attemptLimit = .finite n) {r : Except (Thrown X) Response}
    (h : Course platform.runtime options.retryOptions
      (fun _ => attemptFetch platform options fetchOnce target) attempt t r) :
    Fetches options.signal n attempt t r := by
  induction h with
  | stopped hcheck =>
    obtain ⟨hok, -⟩ | ⟨err, reason, herr, hkind, hsignal, rfl⟩ := runs_checkSignal_fetch hcheck
    · cases hok
    · cases herr
      exact .stopped hsignal hkind
  | returned hcheck hfn =>
    obtain ⟨-, rfl⟩ | ⟨err, reason, hok, -⟩ := runs_checkSignal_fetch hcheck
    · obtain ⟨already, outcome, t', rfl, houtcome⟩ := runs_attemptFetch hfn
      obtain ⟨response, rfl, hr, rfl, hgood⟩ | ⟨kind, status, err, -, hr, -⟩ := houtcome
      · cases hr
        exact .resolved hgood
      · cases hr
    · cases hok
  | gaveUp hcheck hfn hends =>
    obtain ⟨-, rfl⟩ | ⟨err, reason, hok, -⟩ := runs_checkSignal_fetch hcheck
    · obtain ⟨rfl, -⟩ := runs_goesOn_fetch hlimit hends
      obtain ⟨already, outcome, t', rfl, houtcome⟩ := runs_attemptFetch hfn
      rw [List.append_nil]
      obtain ⟨response, rfl, hr, -⟩ | ⟨kind, status, err, hfails, hr, hread⟩ := houtcome
      · cases hr
      · cases hr
        obtain ⟨reason, rfl, hsignal, hkind⟩ | ⟨rfl, hkind, hstatus⟩ := hread
        · exact .aborted hsignal hfails hkind
        · exact .rejected hfails hkind hstatus
    · cases hok
  | threw hcheck hfn hgoes =>
    obtain ⟨-, again, hok, -⟩ := runs_goesOn_fetch hlimit hgoes
    cases hok
  | pauseThrew hcheck hfn hgoes hpause =>
    obtain ⟨-, rfl⟩ | ⟨err, reason, hok, -⟩ := runs_checkSignal_fetch hcheck
    · obtain ⟨rfl, -, already, outcome, kind, status, hfails, rfl⟩ :=
        runs_attemptFetch_again hlimit hfn hgoes
      obtain ⟨hok, -⟩ | ⟨error, herror, hcallbacks, hthrew⟩ := runs_backOff_fetch hpause
      · cases hok
      · cases herror
        simpa using Fetches.threw hfails hcallbacks hthrew
    · cases hok
  | again hcheck hfn hgoes hpause hrest ih =>
    obtain ⟨-, rfl⟩ | ⟨err, reason, hok, -⟩ := runs_checkSignal_fetch hcheck
    · obtain ⟨rfl, hlt, already, outcome, kind, status, hfails, rfl⟩ :=
        runs_attemptFetch_again hlimit hfn hgoes
      obtain ⟨-, callbacks, ms, hcallbacks, rfl⟩ | ⟨error, herror, -⟩ := runs_backOff_fetch hpause
      · simpa using Fetches.again hfails hcallbacks hlt ih
      · cases herror
    · cases hok

end Attempt

/-! ## What a run has -/

section Properties

variable {U X : Type} {signal : Bool} {limit attempt : ℕ} {t t' before after : Trace U X}
  {r : Except (Thrown X) Response} {kind kind' : ResilienceErrorKind}
    {status status' : Option Number}
  {outcome : Except (Stop X) Response}

/-- A rejection of this kind. -/
def RejectsWith (kind : ResilienceErrorKind) (r : Except (Thrown X) Response) : Prop :=
  ∃ err, r = .error (.resilienceError err) ∧ err.kind = kind

/-- A look at the caller's signal. -/
def Request.isRead : Request U X → Bool
  | .aborted | .reason => true
  | _ => false

/-- The start of a fetch, or a look at the signal. -/
def Request.isSend : Request U X → Bool
  | .send _ => true
  | _ => false

/-- The caller aborts between the two parts of a run. The signal is looked at and the fetch started
without anything else coming between. -/
structure AbortsBetween (before after : Trace U X) : Prop where
  not_yet : ∀ ev ∈ before, ev ≠ ⟨.aborted, true⟩
  from_then : ∀ ev ∈ after, ev ≠ ⟨.aborted, false⟩
  between : ∀ ev, before.getLast? = some ev → ev.1.isRead = true →
    ∀ ev', after.head? = some ev' → ev'.1.isRead = false ∧ ev'.1.isSend = false

/-- When the caller has aborted, an attempt fails or the next one is due. -/
inductive Due (before after : Trace U X) : Prop
  | first (hbefore : before = [])
  | failed {url outcome kind status} (hlast : before.getLast? = some ⟨.send url, outcome⟩)
    (hfails : Fails outcome kind status)
  | slept {ms} (hlast : before.getLast? = some ⟨.sleep ms, ()⟩)
  | sleeps {ms} (hmem : ⟨.sleep ms, ()⟩ ∈ after)

theorem Fails.eq (h : Fails outcome kind status) (h' : Fails outcome kind' status') :
    kind = kind' ∧ status = status' := by
  cases h with
  | reason hreason =>
    cases h' with
    | resilienceError => exact absurd rfl (hreason _)
    | reason => exact ⟨rfl, rfl⟩
  | resilienceError =>
    cases h' with
    | resilienceError => exact ⟨rfl, rfl⟩
    | reason hreason => exact absurd rfl (hreason _)
  | _ =>
    cases h'
    exact ⟨rfl, rfl⟩

/-- A good response is no failure. -/
theorem Fails.not_good {response : Response} (h : Fails (X := X) (.ok response) kind status) :
    ¬ (response.ok = true ∨ isRetryableStatus (.finite response.status) = false) := by
  cases h with
  | http hok hstatus => simp [hok, hstatus]

@[simp] theorem outcomes_append : outcomes (t ++ t') = outcomes t ++ outcomes t' :=
  List.filterMap_append

@[simp] theorem outcomes_nil : outcomes ([] : Trace U X) = [] := rfl

@[simp] theorem outcomes_send {url : U} {outcome : Except (Stop X) Response} :
    outcomes (⟨.send url, outcome⟩ :: t) = outcome :: outcomes t := rfl

@[simp] theorem outcomes_sleep {ms : Number} {answer : Answer U X (.sleep ms)} :
    outcomes (⟨.sleep ms, answer⟩ :: t) = outcomes t := rfl

@[simp] theorem outcomes_signalReads (found : Option (Thrown X)) :
    outcomes (signalReads signal found : Trace U X) = [] := by
  cases found <;> cases signal <;> rfl

theorem outcomes_callbacks (h : ∀ ev ∈ t, ev.1.isCallback = true) : outcomes t = [] := by
  refine List.filterMap_eq_nil_iff.2 fun ev hev => ?_
  obtain ⟨request, answer⟩ := ev
  have hcallback := h _ hev
  cases request <;> first | rfl | cases hcallback

theorem isRead_signalReads {found : Option (Thrown X)} :
    ∀ ev ∈ (signalReads signal found : Trace U X), ev.1.isRead = true := by
  cases found <;> cases signal <;> simp [signalReads, Request.isRead]

/-- At most the attempts that are left fetch, each once. -/
theorem Fetches.length_outcomes_le (h : Fetches signal limit attempt t r) (hle : attempt ≤ limit) :
    (outcomes t).length + attempt ≤ limit + 1 := by
  induction h with
  | again hfails hcallbacks hlimit hrest ih =>
    have hrest' := ih hlimit
    simp [outcomes_callbacks hcallbacks]
    omega
  | threw hfails hcallbacks hthrew =>
    simp [outcomes_callbacks hcallbacks]
    omega
  | _ =>
    simp
    omega

/-- All outcomes but the last are failures. -/
theorem Fetches.fails_of_mem_dropLast (h : Fetches signal limit attempt t r) :
    ∀ outcome ∈ (outcomes t).dropLast, ∃ kind status, Fails outcome kind status := by
  induction h with
  | @again attempt already url outcome kind status callbacks ms t r hfails hcallbacks hlimit hrest
      ih =>
    intro outcome' hmem
    simp only [outcomes_append, outcomes_signalReads, outcomes_send, outcomes_callbacks hcallbacks,
      outcomes_sleep, List.nil_append] at hmem
    cases ht : outcomes t with
    | nil => simp [ht] at hmem
    | cons next rest =>
      rw [ht, List.dropLast_cons_cons, List.mem_cons, ← ht] at hmem
      obtain rfl | hmem := hmem
      · exact ⟨kind, status, hfails⟩
      · exact ih outcome' hmem
  | threw hfails hcallbacks => simp [outcomes_callbacks hcallbacks]
  | _ => simp

/-- No bad response is resolved with. -/
theorem Fetches.good (h : Fetches signal limit attempt t r) {response : Response}
    (hr : r = .ok response) :
    response.ok = true ∨ isRetryableStatus (.finite response.status) = false := by
  induction h with
  | resolved hgood =>
    cases hr
    exact hgood
  | again hfails hcallbacks hlimit hrest ih => exact ih hr
  | _ => cases hr

/-- Where the signal is found aborted from the start on, nothing is fetched. -/
theorem Fetches.stopped_of_reads (h : Fetches true limit attempt t r)
    (hreads : ∀ ev ∈ t, ev ≠ ⟨.aborted, false⟩) : outcomes t = [] ∧ RejectsWith .aborted r := by
  cases h with
  | stopped hsignal hkind => exact ⟨by simp, _, rfl, hkind⟩
  | _ => exact absurd rfl (hreads ⟨.aborted, false⟩ (by simp [signalReads]))

/-- The caller does not abort between a look at the signal and the fetch after it. -/
theorem AbortsBetween.exists_send {reads rest : Trace U X} {url : U}
    (h : AbortsBetween before after) (hreads : ∀ ev ∈ reads, ev.1.isRead = true)
    (hfalse : ⟨.aborted, false⟩ ∈ reads)
    (ht : reads ++ ⟨.send url, outcome⟩ :: rest = before ++ after) :
    ∃ before', before = reads ++ ⟨.send url, outcome⟩ :: before' ∧ rest = before' ++ after := by
  obtain ⟨between, rfl, hrest⟩ | ⟨between, rfl, rfl⟩ := List.append_eq_append_iff.1 ht
  · cases between with
    | nil =>
      obtain rfl : after = ⟨.send url, outcome⟩ :: rest := hrest.symm
      rw [List.append_nil] at h
      have hlast := List.getLast?_eq_some_getLast (List.ne_nil_of_mem hfalse)
      have hsend := h.between _ hlast (hreads _ (List.getLast_mem _)) _ rfl
      cases hsend.2
    | cons ev before' =>
      obtain ⟨rfl, rfl⟩ := List.cons.inj hrest
      exact ⟨before', rfl, rfl⟩
  · have hne : before ≠ [] := by
      rintro rfl
      exact h.from_then _ (List.mem_append_left _ hfalse) rfl
    have hlast := List.getLast?_eq_some_getLast hne
    have hread := hreads _ (List.mem_append_left _ (List.getLast_mem hne))
    cases between with
    | nil => cases (h.between _ hlast hread _ rfl).2
    | cons ev between =>
      have hev := (h.between _ hlast hread ev rfl).1
      rw [hreads ev (by simp)] at hev
      cases hev

theorem AbortsBetween.of_append {earlier : Trace U X}
    (h : AbortsBetween (earlier ++ before) after) :
    AbortsBetween before after where
  not_yet ev hev := h.not_yet ev (List.mem_append_right _ hev)
  from_then := h.from_then
  between ev hlast := h.between ev (by simp [List.getLast?_append, hlast])

theorem AbortsBetween.of_cons {ev : Prog.Event (Request U X) (Answer U X)}
    (h : AbortsBetween (ev :: before) after) : AbortsBetween before after :=
  have happend : AbortsBetween ([ev] ++ before) after := h
  happend.of_append

/-- What follows the look at the signal after a failure. -/
theorem AbortsBetween.exists_read {t before after : Trace U X}
    (h : AbortsBetween before after) (ht : ⟨.aborted, false⟩ :: t = before ++ after) :
    ∃ before', before = ⟨.aborted, false⟩ :: before' ∧ t = before' ++ after ∧
      AbortsBetween before' after := by
  cases before with
  | nil =>
    obtain rfl : after = ⟨.aborted, false⟩ :: t := ht.symm
    exact absurd rfl (h.from_then _ List.mem_cons_self)
  | cons ev before' =>
    obtain ⟨rfl, rfl⟩ := List.cons.inj ht
    exact ⟨before', rfl, rfl, h.of_cons⟩

/-- The fetch of an attempt is started before the abort. -/
theorem AbortsBetween.exists_attempt {already : Option (Thrown X)} {rest : Trace U X} {url : U}
    (h : AbortsBetween before after)
    (ht : signalReads true none ++ (signalReads true already ++ ⟨.send url, outcome⟩ :: rest) =
      before ++ after) :
    ∃ before', before =
        signalReads true none ++ signalReads true already ++ ⟨.send url, outcome⟩ :: before' ∧
      rest = before' ++ after ∧ AbortsBetween before' after := by
  have hreads : ∀ ev ∈ (signalReads true none ++ signalReads true already : Trace U X),
      ev.1.isRead = true := by
    intro ev hev
    rcases List.mem_append.1 hev with hev | hev <;> exact isRead_signalReads _ hev
  obtain ⟨before', rfl, hrest⟩ := h.exists_send hreads (by simp [signalReads]) (by simpa using ht)
  exact ⟨before', rfl, hrest, h.of_append.of_cons⟩

/-- After a look at the signal and callbacks nothing is due. -/
theorem not_due_callbacks {earlier callbacks : Trace U X} {aborted : Bool}
    (hcallbacks : ∀ ev ∈ callbacks ++ after, ev.1.isCallback = true) :
    ¬ Due (earlier ++ ⟨.aborted, aborted⟩ :: callbacks) after := by
  have hlast {ev} (h : (earlier ++ ⟨.aborted, aborted⟩ :: callbacks).getLast? = some ev) :
      ev = ⟨.aborted, aborted⟩ ∨ ev.1.isCallback = true := by
    rw [List.getLast?_append_of_ne_nil _ (by simp)] at h
    obtain rfl | hmem := List.mem_cons.1 (List.mem_of_getLast? h)
    · exact .inl rfl
    · exact .inr (hcallbacks ev (List.mem_append_left _ hmem))
  rintro (hbefore | ⟨hsend, -⟩ | hsleep | hmem)
  · simp at hbefore
  · obtain hev | hev := hlast hsend <;> cases hev
  · obtain hev | hev := hlast hsleep <;> cases hev
  · cases hcallbacks _ (List.mem_append_right _ hmem)

/-- What is due after a sleep does not depend on what was before it. -/
theorem due_sleep {earlier : Trace U X} {ms : Number} :
    Due (earlier ++ ⟨.sleep ms, ()⟩ :: before) after ↔ Due before after := by
  cases before with
  | nil =>
    have hlast : (earlier ++ [⟨.sleep ms, ()⟩] : Trace U X).getLast? = some ⟨.sleep ms, ()⟩ := by
      simp
    exact iff_of_true (.slept hlast) (.first rfl)
  | cons ev before =>
    have hlast : (earlier ++ ⟨.sleep ms, ()⟩ :: ev :: before).getLast? =
        (ev :: before).getLast? := by
      rw [List.getLast?_append_of_ne_nil _ (by simp), List.getLast?_cons_cons]
    constructor
    · rintro (hbefore | ⟨hsend, hfails⟩ | hsleep | hmem)
      · simp at hbefore
      · exact .failed (hlast ▸ hsend) hfails
      · exact .slept (hlast ▸ hsleep)
      · exact .sleeps hmem
    · rintro (hbefore | ⟨hsend, hfails⟩ | hsleep | hmem)
      · cases hbefore
      · exact .failed (hlast ▸ hsend) hfails
      · exact .slept (hlast ▸ hsleep)
      · exact .sleeps hmem

/-- A signal that is found aborted was aborted before. -/
theorem AbortsBetween.eq_nil {rest : Trace U X} (h : AbortsBetween before after)
    (ht : ⟨.aborted, true⟩ :: rest = before ++ after) : before = [] := by
  cases before with
  | nil => rfl
  | cons ev before' =>
    obtain ⟨rfl, -⟩ := List.cons.inj ht
    exact absurd rfl (h.not_yet _ List.mem_cons_self)

/-- After an abort before the end of a sleep nothing is fetched. -/
theorem Fetches.of_sleep {callbacks rest : Trace U X} {ms : Number}
    (h : Fetches true limit attempt rest r) (habort : AbortsBetween before after)
    (hcallbacks : ∀ ev ∈ callbacks, ev.1.isCallback = true)
    (hafter : after = callbacks ++ ⟨.sleep ms, ()⟩ :: rest) :
    Due before after ∧ outcomes after = [] ∧ RejectsWith .aborted r := by
  subst hafter
  obtain ⟨hnone, hkind⟩ := h.stopped_of_reads fun ev hev =>
    habort.from_then ev (List.mem_append_right _ (List.mem_cons_of_mem _ hev))
  have hmem : ⟨.sleep ms, ()⟩ ∈ callbacks ++ ⟨.sleep ms, ()⟩ :: rest := by simp
  exact ⟨.sleeps hmem, by simp [outcomes_callbacks hcallbacks, hnone], hkind⟩

/-- **The moment of the abort**: where an attempt fails then or the next one is due, nothing is
fetched any more and the rejection is of kind `aborted`; else only callbacks follow. -/
theorem Fetches.of_abortsBetween (h : Fetches true limit attempt t r)
    (habort : AbortsBetween before after) (ht : t = before ++ after) :
    (Due before after ∧ outcomes after = [] ∧ RejectsWith .aborted r) ∨
      ¬ Due before after ∧ ∀ ev ∈ after, ev.1.isCallback = true := by
  induction h generalizing before with
  | @stopped attempt reason err hsignal hkind =>
    obtain rfl := habort.eq_nil ht
    refine .inl ⟨.first rfl, ?_, err, rfl, hkind⟩
    rw [List.nil_append] at ht
    rw [← ht, outcomes_signalReads]
  | resolved hgood =>
    obtain ⟨before', rfl, hrest, -⟩ := habort.exists_attempt ht
    obtain ⟨rfl, rfl⟩ := List.append_eq_nil_iff.1 hrest.symm
    refine .inr ⟨?_, by simp⟩
    rintro (hbefore | ⟨hsend, hfails⟩ | hsleep | hmem)
    · simp at hbefore
    · simp at hsend
      obtain ⟨rfl, rfl⟩ := hsend
      exact hfails.not_good hgood
    · simp at hsleep
    · cases hmem
  | @aborted attempt already url outcome kind status reason err hsignal hfails hkind =>
    obtain ⟨before', rfl, hrest, hlater⟩ := habort.exists_attempt ht
    obtain rfl := hlater.eq_nil hrest
    have hlast : (signalReads true none ++ signalReads true already ++
        [⟨.send url, outcome⟩] : Trace U X).getLast? = some ⟨.send url, outcome⟩ := by simp
    refine .inl ⟨.failed hlast hfails, ?_, err, rfl, hkind⟩
    rw [List.nil_append] at hrest
    rw [← hrest, outcomes_signalReads]
  | rejected hfails hkind hstatus =>
    obtain ⟨before', rfl, hrest, hlater⟩ := habort.exists_attempt ht
    obtain ⟨before'', rfl, hnil, -⟩ := hlater.exists_read hrest
    obtain ⟨rfl, rfl⟩ := List.append_eq_nil_iff.1 hnil.symm
    refine .inr ⟨?_, by simp⟩
    rw [List.append_cons]
    exact not_due_callbacks (by simp)
  | threw hfails hcallbacks hthrew =>
    obtain ⟨before', rfl, hrest, hlater⟩ := habort.exists_attempt ht
    obtain ⟨before'', rfl, rfl, -⟩ := hlater.exists_read hrest
    refine .inr ⟨?_, fun ev hev => hcallbacks ev (List.mem_append_right _ hev)⟩
    rw [List.append_cons]
    exact not_due_callbacks hcallbacks
  | @again attempt already url outcome kind status callbacks ms t r hfails hcallbacks hlimit hrest
      ih =>
    obtain ⟨before', rfl, hread, hlater⟩ := habort.exists_attempt ht
    obtain ⟨before'', rfl, hsleep, hlater'⟩ := hlater.exists_read hread
    replace hsleep : callbacks ++ ⟨.sleep ms, ()⟩ :: t = before'' ++ after := hsleep
    -- The abort comes before the end of the sleep, or in the attempts that follow.
    obtain ⟨between, rfl, hsplit⟩ | ⟨between, rfl, hafter⟩ := List.append_eq_append_iff.1 hsleep
    · cases between with
      | nil =>
        have hafter : after = [] ++ ⟨.sleep ms, ()⟩ :: t := hsplit.symm
        exact .inl (hrest.of_sleep habort (by simp) hafter)
      | cons ev before =>
        obtain ⟨rfl, rfl⟩ := List.cons.inj hsplit
        have hdue : Due (signalReads true none ++ signalReads true already ++
            ⟨.send url, outcome⟩ :: ⟨.aborted, false⟩ ::
              (callbacks ++ ⟨.sleep ms, ()⟩ :: before)) after ↔ Due before after := by
          have hsleep : Due (signalReads true none ++ signalReads true already ++
              ⟨.send url, outcome⟩ :: ⟨.aborted, false⟩ :: callbacks ++
                ⟨.sleep ms, ()⟩ :: before) after ↔ Due before after := due_sleep
          simpa using hsleep
        rw [hdue]
        exact ih hlater'.of_append.of_cons rfl
    · have hcallbacks' := fun ev hev => hcallbacks ev (List.mem_append_right _ hev)
      exact .inl (hrest.of_sleep habort hcallbacks' hafter)

/-- A run that never finds the signal aborted fetches. -/
theorem Fetches.outcomes_ne_nil (h : Fetches signal limit attempt t r)
    (hreads : ∀ ev ∈ t, ev ≠ ⟨.aborted, true⟩) : outcomes t ≠ [] := by
  cases h with
  | stopped hsignal hkind =>
    subst hsignal
    exact absurd rfl (hreads ⟨.aborted, true⟩ (by simp [signalReads]))
  | _ => simp

/-- The last failure is what a run that never finds the signal aborted rejects with. -/
theorem Fetches.rejects_of_last (h : Fetches signal limit attempt t r)
    (hreads : ∀ ev ∈ t, ev ≠ ⟨.aborted, true⟩) (hthrew : ∀ ev ∈ t, thrownBy ev = none)
    (hlast : (outcomes t).getLast? = some outcome) (hfails : Fails outcome kind status) :
    ∃ err, r = .error (.resilienceError err) ∧ err.kind = kind ∧ err.status = status := by
  induction h with
  | stopped hsignal hkind => simp at hlast
  | resolved hgood =>
    simp at hlast
    subst hlast
    exact absurd hgood hfails.not_good
  | @aborted attempt already url outcome' kind' status' reason err hsignal =>
    subst hsignal
    exact absurd rfl (hreads ⟨.aborted, true⟩ (by simp [signalReads]))
  | @rejected attempt already url outcome' kind' status' err hfails' hkind hstatus =>
    simp at hlast
    subst hlast
    obtain ⟨rfl, rfl⟩ := hfails.eq hfails'
    exact ⟨err, rfl, hkind, hstatus⟩
  | threw hfails' hcallbacks hthrown =>
    obtain ⟨ev, hev, hsome⟩ := hthrown
    have hnone := hthrew ev (by simp [hev])
    rw [hnone] at hsome
    cases hsome
  | @again attempt already url outcome' kind' status' callbacks ms t' r hfails' hcallbacks hlimit
      hrest ih =>
    have hreads' : ∀ ev ∈ t', ev ≠ ⟨.aborted, true⟩ := fun ev hev => hreads ev (by simp [hev])
    refine ih hreads' (fun ev hev => hthrew ev (by simp [hev])) ?_
    have hne := hrest.outcomes_ne_nil hreads'
    simpa [outcomes_callbacks hcallbacks, List.getLast?_cons, List.getLast?_eq_some_getLast hne]
      using hlast

/-- Where nothing is due at the abort, the signal is never found aborted. -/
theorem Fetches.never_aborted (h : Fetches true limit attempt t r)
    (habort : AbortsBetween before after) (ht : t = before ++ after) (hdue : ¬ Due before after) :
    ∀ ev ∈ t, ev ≠ ⟨.aborted, true⟩ := by
  obtain ⟨hdue', -⟩ | ⟨-, hcallbacks⟩ := h.of_abortsBetween habort ht
  · exact absurd hdue' hdue
  · rintro ev hev rfl
    rw [ht] at hev
    obtain hev | hev := List.mem_append.1 hev
    · exact habort.not_yet _ hev rfl
    · cases hcallbacks _ hev

end Properties

/-! ## Calls -/

section Calls

variable {U X : Type} {platform : Platform U X} {options : SafeFetchOptions U X} {url : Url U}
  {t : Trace U X}

/-- The URL of a call, parsed. -/
def targetOf (platform : Platform U X) : Url U → Except (Thrown X) U
  | .url url => .ok url
  | .text text => (platform.parse text).mapError .other

/-- There is a URL, and the allowlist lets it through. -/
def LetsThrough (platform : Platform U X) (options : SafeFetchOptions U X) (url : Url U) : Prop :=
  ∃ target, targetOf platform url = .ok target ∧
    ∀ allowHook, buildAllowlistHook platform options.allowlist = some allowHook →
      allowHook target = .ok true

theorem runs_checkHost_fetch {target : U} {r : Except (Thrown X) Unit}
    (h : (checkHost platform options target).run.Runs t r) :
    t = [] ∧ ((∀ allowHook, buildAllowlistHook platform options.allowlist = some allowHook →
      allowHook target = .ok true) → r = .ok ()) := by
  unfold checkHost at h
  cases hhook : buildAllowlistHook platform options.allowlist with
  | none =>
    rw [hhook] at h
    obtain ⟨rfl, rfl⟩ := h
    exact ⟨rfl, fun _ => rfl⟩
  | some allowHook =>
    rw [hhook] at h
    replace h := runs_fromExcept_bind.1 h
    cases hallow : allowHook target with
    | error error =>
      rw [hallow] at h
      refine ⟨h.1, fun hall => ?_⟩
      cases hallow.symm.trans (hall allowHook rfl)
    | ok allowed =>
      rw [hallow] at h
      cases allowed with
      | false =>
        refine ⟨h.1, fun hall => ?_⟩
        cases hallow.symm.trans (hall allowHook rfl)
      | true => exact ⟨h.1, fun _ => h.2.symm⟩

/-- A call fetches nothing, or it is a sequence of attempts. -/
theorem fetches_of_runs_safeFetch {globalFetch : Option (FetchImpl U X)} {n fuel : ℕ}
    (hfetch : (options.fetchImpl <|> globalFetch) = some fetchOnce)
    (hlimit : options.maxAttempts.getD (.finite 3) = .finite n) (hn : 1 ≤ n) (hfuel : n ≤ fuel)
    {r : Except (Thrown X) (Option Response)}
    (h : (safeFetch platform options globalFetch url fuel).run.Runs t r) :
    (t = [] ∧ (∃ error, r = .error error) ∧ ¬ LetsThrough platform options url) ∨
      ∃ r', r = r'.map some ∧ Fetches options.signal n 1 t r' := by
  unfold safeFetch at h
  rw [hfetch] at h
  change (fromExcept (targetOf platform url) >>= fun target =>
    checkHost platform options target >>= fun _ =>
      retry platform.runtime options.retryOptions
        (fun _ => attemptFetch platform options fetchOnce target) fuel).run.Runs t r at h
  replace h := runs_fromExcept_bind.1 h
  cases htarget : targetOf platform url with
  | error error =>
    rw [htarget] at h
    obtain ⟨rfl, rfl⟩ := h
    refine .inl ⟨rfl, ⟨error, rfl⟩, ?_⟩
    rintro ⟨target, hok, -⟩
    cases htarget.symm.trans hok
  | ok target =>
    rw [htarget] at h
    obtain ⟨t₁, u, t₂, rfl, hhost, hretry⟩ | ⟨error, rfl, hhost⟩ := runs_except_bind.1 h
    · obtain ⟨rfl, -⟩ := runs_checkHost_fetch hhost
      have hlimit' : options.retryOptions.attemptLimit = .finite n := hlimit
      obtain ⟨r', rfl, hcourse⟩ := course_of_runs_retry hlimit' hn hfuel hretry
      exact .inr ⟨r', rfl, fetches_of_course hlimit' hcourse⟩
    · obtain ⟨rfl, hok⟩ := runs_checkHost_fetch hhost
      refine .inl ⟨rfl, ⟨error, rfl⟩, ?_⟩
      rintro ⟨target', hok', hallow⟩
      cases htarget.symm.trans hok'
      cases hok hallow

/-- **What `safeFetch` makes of the outcomes**: at most `n` fetches, all but the last with a failure;
no bad response is resolved with; after the caller's abort nothing is fetched, and where an attempt
fails then or the next one is due, the rejection is of kind `aborted`; else it is the last
failure's. -/
theorem runs_safeFetch {globalFetch : Option (FetchImpl U X)} {n fuel : ℕ}
    (hfetch : (options.fetchImpl <|> globalFetch) = some fetchOnce)
    (hlimit : options.maxAttempts.getD (.finite 3) = .finite n) (hn : 1 ≤ n) (hfuel : n ≤ fuel)
    {r : Except (Thrown X) (Option Response)}
    (h : (safeFetch platform options globalFetch url fuel).run.Runs t r) :
    (outcomes t).length ≤ n ∧
    (∀ outcome ∈ (outcomes t).dropLast, ∃ kind status, Fails outcome kind status) ∧
    (∀ resolved, r = .ok resolved → ∃ response, resolved = some response ∧
      (response.ok = true ∨ isRetryableStatus (.finite response.status) = false)) ∧
    (options.signal = true → ∀ before after, t = before ++ after → AbortsBetween before after →
      outcomes after = [] ∧ (LetsThrough platform options url → Due before after →
        ∃ err, r = .error (.resilienceError err) ∧ err.kind = .aborted)) ∧
    ((∀ ev ∈ t, thrownBy ev = none) →
      (∀ ev ∈ t, ev ≠ ⟨.aborted, true⟩) ∨ (options.signal = true ∧ ∃ before after,
        t = before ++ after ∧ AbortsBetween before after ∧ ¬ Due before after) →
      ∀ outcome kind status, (outcomes t).getLast? = some outcome → Fails outcome kind status →
        ∃ err, r = .error (.resilienceError err) ∧ err.kind = kind ∧ err.status = status) := by
  obtain ⟨rfl, ⟨error, rfl⟩, hblocked⟩ | ⟨r', rfl, hfetches⟩ :=
    fetches_of_runs_safeFetch hfetch hlimit hn hfuel h
  · refine ⟨by simp, by simp, (fun resolved hok => by cases hok), ?_, by simp⟩
    intro hsignal before after ht habort
    obtain ⟨rfl, rfl⟩ := List.append_eq_nil_iff.1 ht.symm
    exact ⟨rfl, fun hthrough => absurd hthrough hblocked⟩
  · refine ⟨?_, hfetches.fails_of_mem_dropLast, ?_, ?_, ?_⟩
    · have hlength := hfetches.length_outcomes_le hn
      omega
    · intro resolved hr
      cases r' with
      | error error => cases hr
      | ok response =>
        cases hr
        exact ⟨response, rfl, hfetches.good rfl⟩
    · intro hsignal before after ht habort
      rw [hsignal] at hfetches
      obtain ⟨-, hnone, err, rfl, hkind⟩ | ⟨hdue, hcallbacks⟩ := hfetches.of_abortsBetween habort ht
      · exact ⟨hnone, fun _ _ => ⟨err, rfl, hkind⟩⟩
      · exact ⟨outcomes_callbacks hcallbacks, fun _ hdue' => absurd hdue' hdue⟩
    · intro hthrew hmoment outcome kind status hlast hfails
      have hreads : ∀ ev ∈ t, ev ≠ ⟨.aborted, true⟩ := by
        obtain hreads | ⟨hsignal, before, after, ht, habort, hdue⟩ := hmoment
        · exact hreads
        · rw [hsignal] at hfetches
          exact hfetches.never_aborted habort ht hdue
      obtain ⟨err, rfl, hkind, hstatus⟩ := hfetches.rejects_of_last hreads hthrew hlast hfails
      exact ⟨err, rfl, hkind, hstatus⟩

/-- Two attempts, with a signal. -/
def abortable : SafeFetchOptions Units Unit where
  maxAttempts := some (.finite 2)
  fetchImpl := some fetchOnce
  signal := true

/-- The caller aborts while `safeFetch` sleeps. -/
theorem runs_safeFetch_aborted : ∃ before after r,
    (safeFetch textWeb.toPlatform abortable none (.url apiUrl) 2).run.Runs (before ++ after) r ∧
    outcomes before = [.ok { status := 503 }] ∧ outcomes after = [] ∧
    ∃ err, r = .error (.resilienceError err) ∧ err.kind = .aborted := by
  let capped := (Number.finite 30000).min ((Number.finite 250).mul (.finite (2 ^ (1 - 1))))
  let before : Trace Units Unit := [⟨.aborted, false⟩, ⟨.aborted, false⟩,
    ⟨.send apiUrl, .ok { status := 503 }⟩, ⟨.aborted, false⟩, ⟨.mathRandom, .finite 0⟩]
  let after : Trace Units Unit := [⟨.sleep ((Number.finite 0).mul capped).floor, ()⟩,
    ⟨.aborted, true⟩, ⟨.reason, .undefined⟩]
  obtain ⟨r, hrun⟩ : ∃ r, (safeFetch textWeb.toPlatform abortable none (.url apiUrl) 2).run.Runs
      (before ++ after) r :=
    ⟨_, false, _, rfl, false, _, rfl, .ok { status := 503 }, _, rfl, false, _, rfl, .finite 0, _,
      rfl, (), _, rfl, true, _, rfl, .undefined, _, rfl, rfl, rfl⟩
  have habort : AbortsBetween before after := by
    constructor
    · simp [before]
    · simp [after]
    · rintro ev ⟨⟩ hread
      cases hread
  have hthrough : LetsThrough textWeb.toPlatform abortable (.url apiUrl) :=
    ⟨apiUrl, rfl, fun allowHook hhook => by cases hhook⟩
  have hruns := runs_safeFetch (n := 2) rfl (by simp [abortable]) (by simp) le_rfl hrun
  obtain ⟨hnone, hkind⟩ := hruns.2.2.2.1 rfl before after rfl habort
  exact ⟨before, after, r, hrun, rfl, hnone, hkind hthrough (.sleeps List.mem_cons_self)⟩

end Calls

end Resilience.TypeScript
