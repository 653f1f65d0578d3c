import Mathlib.Algebra.Order.Floor.Semiring
import Mathlib.Data.List.Forall2
import Resilience.Scope.Athena

/-!
# Polling

`poll_until_terminal` of `scope_core/utils.py`, over a state that is fetched, a clock and a sleep
that are answered from outside.

`SafeAthenaClient.wait` has a loop of its own. It does what `poll_until_terminal` does with Athena's
terminal states, request by request, and makes its own exceptions of the outcome (`runs_wait_iff`).
Where the sleeps take their time, the deadline bounds the number of polls (`polls_le`).
-/

namespace Resilience.Scope

open Json

variable {Exn : Type}

inductive PollRequest
  | fetchState
  | timeFn
  | sleepFn (seconds : Number)

abbrev PollAnswer (Exn : Type) : PollRequest → Type
  | .fetchState => Except Exn Str
  | .timeFn => Except Exn Number
  | .sleepFn _ => Except Exn Unit

inductive PollError (Exn : Type)
  /-- `State did not reach {sorted(terminal_set)} within {timeout}s (last state: {state})`. -/
  | timeoutError (terminal : List Str) (timeout : Number) (lastState : Str)
  | raised (e : Exn)
  /-- Still polling when the fuel is used up. -/
  | polling

abbrev PollProg (Exn α : Type) := ExceptT (PollError Exn) (Prog PollRequest (PollAnswer Exn)) α

abbrev PollEvent (Exn : Type) := Prog.Event PollRequest (PollAnswer Exn)

/-- The loop of `poll_until_terminal`. -/
def pollLoop (terminal : List Str) (timeout interval deadline : Number) : ℕ → PollProg Exn Str
  | 0 => fromExcept (.error .polling)
  | fuel + 1 => do
    let state ← perform .fetchState (·.mapError .raised)
    if state ∈ terminal then fromExcept (.ok state)
    else
      let now ← perform .timeFn (·.mapError .raised)
      if deadline.le now then fromExcept (.error (.timeoutError terminal timeout state))
      else
        perform (.sleepFn interval) (·.mapError .raised)
        pollLoop terminal timeout interval deadline fuel

def pollUntilTerminal (terminal : List Str) (timeout interval : Number) (fuel : ℕ) :
    PollProg Exn Str := do
  let now ← perform .timeFn (·.mapError .raised)
  pollLoop terminal timeout interval (now.add timeout) fuel

/-! ## One turn of the loops -/

section Turns

variable {terminal : List Str} {timeout interval deadline : Number} {fuel : ℕ}

/-- A turn of `poll_until_terminal`, before turns in `rest`. -/
inductive PollTurn (terminal : List Str) (timeout interval deadline : Number)
    (rest : List (PollEvent Exn) → Except (PollError Exn) Str → Prop) :
    List (PollEvent Exn) → Except (PollError Exn) Str → Prop
  | fetchRaised (e : Exn) : PollTurn terminal timeout interval deadline rest
      [⟨.fetchState, .error e⟩] (.error (.raised e))
  | reached {state : Str} (hstate : state ∈ terminal) :
    PollTurn terminal timeout interval deadline rest [⟨.fetchState, .ok state⟩] (.ok state)
  | clockRaised {state : Str} (hstate : state ∉ terminal) (e : Exn) :
    PollTurn terminal timeout interval deadline rest
      [⟨.fetchState, .ok state⟩, ⟨.timeFn, .error e⟩] (.error (.raised e))
  | timedOut {state : Str} (hstate : state ∉ terminal) {now : Number}
    (hnow : deadline.le now = true) : PollTurn terminal timeout interval deadline rest
      [⟨.fetchState, .ok state⟩, ⟨.timeFn, .ok now⟩] (.error (.timeoutError terminal timeout state))
  | sleepRaised {state : Str} (hstate : state ∉ terminal) {now : Number}
    (hnow : deadline.le now = false) (e : Exn) : PollTurn terminal timeout interval deadline rest
      [⟨.fetchState, .ok state⟩, ⟨.timeFn, .ok now⟩, ⟨.sleepFn interval, .error e⟩]
      (.error (.raised e))
  | again {state : Str} (hstate : state ∉ terminal) {now : Number} (hnow : deadline.le now = false)
    {t : List (PollEvent Exn)} {r : Except (PollError Exn) Str} (hrest : rest t r) :
    PollTurn terminal timeout interval deadline rest
      (⟨.fetchState, .ok state⟩ :: ⟨.timeFn, .ok now⟩ :: ⟨.sleepFn interval, .ok ()⟩ :: t) r

theorem runs_pollLoop_succ {t : List (PollEvent Exn)} {r : Except (PollError Exn) Str} :
    (pollLoop terminal timeout interval deadline (fuel + 1)).run.Runs t r ↔
      PollTurn terminal timeout interval deadline
        (pollLoop terminal timeout interval deadline fuel).run.Runs t r := by
  constructor
  · intro h
    obtain ⟨fetched, t₁, rfl, hstate⟩ := runs_perform_bind.1 h
    clear h
    cases fetched with
    | error e =>
      obtain ⟨rfl, rfl⟩ := hstate
      exact .fetchRaised e
    | ok state =>
      dsimp only [Except.mapError] at hstate
      split_ifs at hstate with hterminal
      · obtain ⟨rfl, rfl⟩ := hstate
        exact .reached hterminal
      · obtain ⟨now, t₂, rfl, hnow⟩ := runs_perform_bind.1 hstate
        cases now with
        | error e =>
          obtain ⟨rfl, rfl⟩ := hnow
          exact .clockRaised hterminal e
        | ok now =>
          dsimp only [Except.mapError] at hnow
          split_ifs at hnow with hdeadline
          · obtain ⟨rfl, rfl⟩ := hnow
            exact .timedOut hterminal hdeadline
          · rw [Bool.not_eq_true] at hdeadline
            obtain ⟨slept, t₃, rfl, hrest⟩ := runs_perform_bind.1 hnow
            cases slept with
            | error e =>
              obtain ⟨rfl, rfl⟩ := hrest
              exact .sleepRaised hterminal hdeadline e
            | ok slept => exact .again hterminal hdeadline hrest
  · intro h
    cases h with
    | fetchRaised e => exact runs_perform_bind.2 ⟨.error e, [], rfl, rfl, rfl⟩
    | reached hstate =>
      refine runs_perform_bind.2 ⟨.ok _, [], rfl, ?_⟩
      simp [Except.mapError, hstate, runs_fromExcept]
    | clockRaised hstate e =>
      refine runs_perform_bind.2 ⟨.ok _, _, rfl, ?_⟩
      simp only [Except.mapError, hstate, if_false]
      exact runs_perform_bind.2 ⟨.error e, [], rfl, rfl, rfl⟩
    | timedOut hstate hnow =>
      refine runs_perform_bind.2 ⟨.ok _, _, rfl, ?_⟩
      simp only [Except.mapError, hstate, if_false]
      refine runs_perform_bind.2 ⟨.ok _, _, rfl, ?_⟩
      simp [hnow, runs_fromExcept]
    | sleepRaised hstate hnow e =>
      refine runs_perform_bind.2 ⟨.ok _, _, rfl, ?_⟩
      simp only [Except.mapError, hstate, if_false]
      refine runs_perform_bind.2 ⟨.ok _, _, rfl, ?_⟩
      simp only [hnow]
      exact runs_perform_bind.2 ⟨.error e, [], rfl, rfl, rfl⟩
    | again hstate hnow hrest =>
      refine runs_perform_bind.2 ⟨.ok _, _, rfl, ?_⟩
      simp only [Except.mapError, hstate, if_false]
      refine runs_perform_bind.2 ⟨.ok _, _, rfl, ?_⟩
      simp only [hnow]
      exact runs_perform_bind.2 ⟨.ok (), _, rfl, hrest⟩

end Turns

/-! ## Waiting for a query -/

/-- `_TERMINAL`. -/
def terminalStates : List Str :=
  [codePoints "SUCCEEDED", codePoints "FAILED", codePoints "CANCELLED"]

theorem text_mem_terminalStates {state : QueryState} :
    state.text ∈ terminalStates ↔ state.isTerminal = true := by
  cases state <;> decide

theorem text_not_mem_terminalStates {state : QueryState} :
    state.text ∉ terminalStates ↔ state.isTerminal = false := by
  rw [text_mem_terminalStates, Bool.not_eq_true]

/-- What the client asks of Athena, of the clock and of the sleep, as a generic poller asks it. -/
inductive View (qid : Str) : Prog.Event Request (Answer Exn) → PollEvent Exn → Prop
  | status (r : Except Exn Status) :
    View qid ⟨.getQueryExecution qid, r⟩ ⟨.fetchState, r.map fun status => status.state.text⟩
  | clock (now : Number) : View qid ⟨.monotonic, now⟩ ⟨.timeFn, .ok now⟩
  | sleep (seconds : Number) (r : Except Exn Unit) :
    View qid ⟨.sleep seconds, r⟩ ⟨.sleepFn seconds, r⟩

theorem View.fetch_inv {qid : Str} {ev : Prog.Event Request (Answer Exn)} {fetched : Except Exn Str}
    (h : View qid ev ⟨.fetchState, fetched⟩) : ∃ r, ev = ⟨.getQueryExecution qid, r⟩ ∧
      fetched = r.map fun status => status.state.text := by
  generalize hview : (⟨.fetchState, fetched⟩ : PollEvent Exn) = view at h
  cases h with
  | status r => exact ⟨r, rfl, eq_of_heq (Sigma.mk.inj hview).2⟩
  | clock now => cases hview
  | sleep seconds r => cases hview

theorem View.fetched {qid state : Str} {ev : Prog.Event Request (Answer Exn)}
    (h : View qid ev ⟨.fetchState, .ok state⟩) :
    ∃ status, ev = ⟨.getQueryExecution qid, .ok status⟩ ∧ state = status.state.text := by
  obtain ⟨r, rfl, hr⟩ := h.fetch_inv
  cases r with
  | error e => cases hr
  | ok status => exact ⟨status, rfl, Except.ok.inj hr⟩

theorem View.fetch_error {qid : Str} {ev : Prog.Event Request (Answer Exn)} {e : Exn}
    (h : View qid ev ⟨.fetchState, .error e⟩) : ev = ⟨.getQueryExecution qid, .error e⟩ := by
  obtain ⟨r, rfl, hr⟩ := h.fetch_inv
  cases r with
  | error e' => rw [Except.error.inj hr]
  | ok status => cases hr

theorem View.clock_inv {qid : Str} {ev : Prog.Event Request (Answer Exn)}
    {reading : Except Exn Number} (h : View qid ev ⟨.timeFn, reading⟩) :
    ∃ now, ev = ⟨.monotonic, now⟩ ∧ reading = .ok now := by
  generalize hview : (⟨.timeFn, reading⟩ : PollEvent Exn) = view at h
  cases h with
  | status r => cases hview
  | clock now => exact ⟨now, rfl, eq_of_heq (Sigma.mk.inj hview).2⟩
  | sleep seconds r => cases hview

theorem View.sleep_inv {qid : Str} {ev : Prog.Event Request (Answer Exn)} {seconds : Number}
    {slept : Except Exn Unit} (h : View qid ev ⟨.sleepFn seconds, slept⟩) :
    ev = ⟨.sleep seconds, slept⟩ := by
  cases h
  rfl

/-- The status that Athena reports. -/
def statusOf : Prog.Event Request (Answer Exn) → Option Status
  | ⟨.getQueryExecution _, .ok status⟩ => some status
  | _ => none

/-- What `wait` makes of the last status and of the outcome of the poller. -/
def verdict (qid : Str) (maxWait : Number) (last : Option Status) :
    Except (PollError Exn) Str → Except (AthenaError Exn) QueryState
  | .ok _ =>
    match last with
    | none => .error .polling
    | some status =>
      if status.state ≠ .succeeded then
        .error (.athenaQueryError (codePoints "Athena query " ++ qid ++ codePoints " " ++
          status.state.text ++ codePoints ": " ++
          status.stateChangeReason.getD (codePoints "no reason given")))
      else .ok status.state
  | .error (.timeoutError _ _ _) => .error (.athenaTimeoutError qid maxWait)
  | .error (.raised e) => .error (.raised e)
  | .error .polling => .error .polling

section Wait

variable {qid : Str} {maxWait step deadline : Number} {fuel : ℕ}

/-- A turn of the loop of `wait`, before turns in `rest`. -/
inductive WaitTurn (qid : Str) (maxWait step deadline : Number)
    (rest : AthenaTrace Exn → Except (AthenaError Exn) QueryState → Prop) :
    AthenaTrace Exn → Except (AthenaError Exn) QueryState → Prop
  | statusRaised (e : Exn) : WaitTurn qid maxWait step deadline rest
      [⟨.getQueryExecution qid, .error e⟩] (.error (.raised e))
  | reached {status : Status} (hterminal : status.state.isTerminal = true)
    {r : Except (AthenaError Exn) QueryState}
    (hverdict : verdict qid maxWait (some status) (.ok status.state.text) = r) :
    WaitTurn qid maxWait step deadline rest [⟨.getQueryExecution qid, .ok status⟩] r
  | timedOut {status : Status} (hterminal : status.state.isTerminal = false) {now : Number}
    (hnow : deadline.le now = true) : WaitTurn qid maxWait step deadline rest
      [⟨.getQueryExecution qid, .ok status⟩, ⟨.monotonic, now⟩]
      (.error (.athenaTimeoutError qid maxWait))
  | sleepRaised {status : Status} (hterminal : status.state.isTerminal = false) {now : Number}
    (hnow : deadline.le now = false) (e : Exn) : WaitTurn qid maxWait step deadline rest
      [⟨.getQueryExecution qid, .ok status⟩, ⟨.monotonic, now⟩, ⟨.sleep step, .error e⟩]
      (.error (.raised e))
  | again {status : Status} (hterminal : status.state.isTerminal = false) {now : Number}
    (hnow : deadline.le now = false) {t : AthenaTrace Exn}
    {r : Except (AthenaError Exn) QueryState} (hrest : rest t r) :
    WaitTurn qid maxWait step deadline rest
      (⟨.getQueryExecution qid, .ok status⟩ :: ⟨.monotonic, now⟩ :: ⟨.sleep step, .ok ()⟩ :: t) r

theorem runs_poll_succ {t : AthenaTrace Exn} {r : Except (AthenaError Exn) QueryState} :
    (SafeAthenaClient.poll qid maxWait step deadline (fuel + 1)).run.Runs t r ↔
      WaitTurn qid maxWait step deadline
        (SafeAthenaClient.poll qid maxWait step deadline fuel).run.Runs t r := by
  constructor
  · intro h
    obtain ⟨answer, t₁, rfl, hstatus⟩ := runs_perform_bind.1 h
    clear h
    cases answer with
    | error e =>
      obtain ⟨rfl, rfl⟩ := hstatus
      exact .statusRaised e
    | ok status =>
      dsimp only [rethrow, Except.mapError] at hstatus
      split_ifs at hstatus with hterminal hfailed
      · obtain ⟨rfl, rfl⟩ := hstatus
        exact .reached hterminal (if_pos hfailed)
      · obtain ⟨rfl, rfl⟩ := hstatus
        exact .reached hterminal (if_neg hfailed)
      · rw [Bool.not_eq_true] at hterminal
        obtain ⟨now, t₂, rfl, hnow⟩ := runs_perform_bind.1 hstatus
        dsimp only at hnow
        split_ifs at hnow with hdeadline
        · obtain ⟨rfl, rfl⟩ := hnow
          exact .timedOut hterminal hdeadline
        · rw [Bool.not_eq_true] at hdeadline
          obtain ⟨slept, t₃, rfl, hrest⟩ := runs_perform_bind.1 hnow
          cases slept with
          | error e =>
            obtain ⟨rfl, rfl⟩ := hrest
            exact .sleepRaised hterminal hdeadline e
          | ok slept => exact .again hterminal hdeadline hrest
  · intro h
    cases h with
    | statusRaised e => exact runs_perform_bind.2 ⟨.error e, [], rfl, rfl, rfl⟩
    | reached hterminal hverdict =>
      subst hverdict
      refine runs_perform_bind.2 ⟨.ok _, [], rfl, ?_⟩
      simp only [rethrow, Except.mapError, hterminal, if_true, verdict]
      split_ifs <;> exact ⟨rfl, rfl⟩
    | timedOut hterminal hnow =>
      refine runs_perform_bind.2 ⟨.ok _, _, rfl, ?_⟩
      simp only [rethrow, Except.mapError, hterminal]
      refine runs_perform_bind.2 ⟨_, [], rfl, ?_⟩
      simp [hnow, runs_fromExcept]
    | sleepRaised hterminal hnow e =>
      refine runs_perform_bind.2 ⟨.ok _, _, rfl, ?_⟩
      simp only [rethrow, Except.mapError, hterminal]
      refine runs_perform_bind.2 ⟨_, _, rfl, ?_⟩
      simp only [hnow]
      exact runs_perform_bind.2 ⟨.error e, [], rfl, rfl, rfl⟩
    | again hterminal hnow hrest =>
      refine runs_perform_bind.2 ⟨.ok _, _, rfl, ?_⟩
      simp only [rethrow, Except.mapError, hterminal]
      refine runs_perform_bind.2 ⟨_, _, rfl, ?_⟩
      simp only [hnow]
      exact runs_perform_bind.2 ⟨.ok (), _, rfl, hrest⟩

theorem getLast?_status_or (status : Status) (l : List Status) (last : Option Status) :
    (status :: l).getLast?.or last = l.getLast?.or (some status) := by
  rw [List.getLast?_cons]
  cases l.getLast? <;> rfl

/-- The two loops make the same turns, after the status `last`. -/
theorem runs_poll_iff (last : Option Status) {t : AthenaTrace Exn}
    {r : Except (AthenaError Exn) QueryState} :
    (SafeAthenaClient.poll qid maxWait step deadline fuel).run.Runs t r ↔
      ∃ t' r', List.Forall₂ (View qid) t t' ∧
        (pollLoop terminalStates maxWait step deadline fuel).run.Runs t' r' ∧
          r = verdict qid maxWait ((t.filterMap statusOf).getLast?.or last) r' := by
  induction fuel generalizing last t r with
  | zero =>
    constructor
    · rintro ⟨rfl, rfl⟩
      exact ⟨[], _, .nil, ⟨rfl, rfl⟩, rfl⟩
    · rintro ⟨t', r', hview, ⟨rfl, rfl⟩, rfl⟩
      obtain rfl := List.forall₂_nil_right_iff.1 hview
      exact ⟨rfl, rfl⟩
  | succ fuel ih =>
    simp only [runs_poll_succ, runs_pollLoop_succ]
    constructor
    · intro h
      cases h with
      | statusRaised e =>
        exact ⟨_, _, .cons (.status (.error e)) .nil, .fetchRaised e, rfl⟩
      | reached hterminal hverdict =>
        exact ⟨_, _, .cons (.status (.ok _)) .nil,
          .reached (text_mem_terminalStates.2 hterminal), hverdict.symm⟩
      | timedOut hterminal hnow =>
        exact ⟨_, _, .cons (.status (.ok _)) (.cons (.clock _) .nil),
          .timedOut (text_not_mem_terminalStates.2 hterminal) hnow, rfl⟩
      | sleepRaised hterminal hnow e =>
        exact ⟨_, _, .cons (.status (.ok _)) (.cons (.clock _) (.cons (.sleep _ (.error e)) .nil)),
          .sleepRaised (text_not_mem_terminalStates.2 hterminal) hnow e, rfl⟩
      | @again status hterminal now hnow t r hrest =>
        obtain ⟨t', r', hview, hrun, hverdict⟩ := (ih (some status)).1 hrest
        refine ⟨_, _, .cons (.status (.ok _)) (.cons (.clock _) (.cons (.sleep _ (.ok ())) hview)),
          .again (text_not_mem_terminalStates.2 hterminal) hnow hrun, ?_⟩
        rw [hverdict, ← getLast?_status_or status _ last]
        rfl
    · rintro ⟨t', r', hview, hturn, rfl⟩
      cases hturn with
      | fetchRaised e =>
        obtain ⟨ev, t, hev, hnil, rfl⟩ := List.forall₂_cons_right_iff.1 hview
        obtain rfl := List.forall₂_nil_right_iff.1 hnil
        obtain rfl := hev.fetch_error
        exact .statusRaised e
      | reached hstate =>
        obtain ⟨ev, t, hev, hnil, rfl⟩ := List.forall₂_cons_right_iff.1 hview
        obtain rfl := List.forall₂_nil_right_iff.1 hnil
        obtain ⟨status, rfl, rfl⟩ := hev.fetched
        exact .reached (text_mem_terminalStates.1 hstate) rfl
      | clockRaised hstate e =>
        obtain ⟨ev, t, hev, ht, rfl⟩ := List.forall₂_cons_right_iff.1 hview
        obtain ⟨ev', t', hclock, -, rfl⟩ := List.forall₂_cons_right_iff.1 ht
        obtain ⟨now, -, hnow⟩ := hclock.clock_inv
        cases hnow
      | timedOut hstate hnow =>
        obtain ⟨ev, t, hev, ht, rfl⟩ := List.forall₂_cons_right_iff.1 hview
        obtain ⟨ev', t', hclock, hnil, rfl⟩ := List.forall₂_cons_right_iff.1 ht
        obtain rfl := List.forall₂_nil_right_iff.1 hnil
        obtain ⟨status, rfl, rfl⟩ := hev.fetched
        obtain ⟨now, rfl, hreading⟩ := hclock.clock_inv
        rw [Except.ok.inj hreading] at hnow
        exact .timedOut (text_not_mem_terminalStates.1 hstate) hnow
      | sleepRaised hstate hnow e =>
        obtain ⟨ev, t, hev, ht, rfl⟩ := List.forall₂_cons_right_iff.1 hview
        obtain ⟨ev', t', hclock, hsleep, rfl⟩ := List.forall₂_cons_right_iff.1 ht
        obtain ⟨ev'', t'', hslept, hnil, rfl⟩ := List.forall₂_cons_right_iff.1 hsleep
        obtain rfl := List.forall₂_nil_right_iff.1 hnil
        obtain ⟨status, rfl, rfl⟩ := hev.fetched
        obtain ⟨now, rfl, hreading⟩ := hclock.clock_inv
        obtain rfl := hslept.sleep_inv
        rw [Except.ok.inj hreading] at hnow
        exact .sleepRaised (text_not_mem_terminalStates.1 hstate) hnow e
      | again hstate hnow hrest =>
        obtain ⟨ev, t, hev, ht, rfl⟩ := List.forall₂_cons_right_iff.1 hview
        obtain ⟨ev', t', hclock, hsleep, rfl⟩ := List.forall₂_cons_right_iff.1 ht
        obtain ⟨ev'', t'', hslept, hlater, rfl⟩ := List.forall₂_cons_right_iff.1 hsleep
        obtain ⟨status, rfl, rfl⟩ := hev.fetched
        obtain ⟨now, rfl, hreading⟩ := hclock.clock_inv
        obtain rfl := hslept.sleep_inv
        rw [Except.ok.inj hreading] at hnow
        refine .again (text_not_mem_terminalStates.1 hstate) hnow ?_
        refine (ih (some status)).2 ⟨_, _, hlater, hrest, ?_⟩
        rw [← getLast?_status_or status _ last]
        rfl

/-- **`wait` polls as `poll_until_terminal` does**, with Athena's terminal states: on the same
answers the two make the same requests, and `wait` returns or raises what its last status and the
outcome of the poller say. -/
theorem runs_wait_iff (client : SafeAthenaClient) (qid : Str) (timeout interval : Option Number)
    (fuel : ℕ) (t : AthenaTrace Exn) (r : Except (AthenaError Exn) QueryState) :
    (client.wait qid timeout interval fuel).run.Runs t r ↔
      ∃ t' r', List.Forall₂ (View qid) t t' ∧
        (pollUntilTerminal terminalStates (timeout.getD client.pollTimeout)
          (interval.getD client.pollInterval) fuel).run.Runs t' r' ∧
        r = verdict qid (timeout.getD client.pollTimeout) (t.filterMap statusOf).getLast? r' := by
  constructor
  · intro h
    obtain ⟨now, t₁, rfl, hpoll⟩ := runs_perform_bind.1 h
    obtain ⟨t', r', hview, hrun, hverdict⟩ := (runs_poll_iff none).1 hpoll
    refine ⟨_, r', .cons (.clock now) hview, runs_perform_bind.2 ⟨.ok now, t', rfl, hrun⟩, ?_⟩
    rw [hverdict, Option.or_none]
    rfl
  · rintro ⟨t', r', hview, hrun, rfl⟩
    obtain ⟨reading, t₁, rfl, hloop⟩ := runs_perform_bind.1 hrun
    obtain ⟨ev, t, hclock, hturns, rfl⟩ := List.forall₂_cons_right_iff.1 hview
    obtain ⟨now, rfl, rfl⟩ := hclock.clock_inv
    refine runs_perform_bind.2 ⟨now, t, rfl, (runs_poll_iff none).2 ⟨t₁, r', hturns, hloop, ?_⟩⟩
    rw [Option.or_none]
    rfl

end Wait

/-! ## How often is polled -/

section Bound

variable {terminal : List Str} {fuel : ℕ}

/-- The state that is fetched. -/
def fetched : PollEvent Exn → Option (Except Exn Str)
  | ⟨.fetchState, answer⟩ => some answer
  | _ => none

/-- The reading of the clock. -/
def reading : PollEvent Exn → Option Number
  | ⟨.timeFn, .ok now⟩ => some now
  | _ => none

/-- The readings are finite: the first is not before `low`, and each other one is at least
`interval` after the one before it, as the sleep in between takes its time. -/
inductive Paced (interval : ℚ) : ℚ → List Number → Prop
  | nil (low : ℚ) : Paced interval low []
  | cons {low time : ℚ} {readings : List Number} (hlow : low ≤ time)
    (hlater : Paced interval (time + interval) readings) :
    Paced interval low (.finite time :: readings)

theorem Paced.of_cons {interval low : ℚ} {now : Number} {readings : List Number}
    (h : Paced interval low (now :: readings)) :
    ∃ time, now = .finite time ∧ low ≤ time ∧ Paced interval (time + interval) readings := by
  cases h with
  | cons hlow hlater => exact ⟨_, rfl, hlow, hlater⟩

/-- From `low` on, `k` intervals reach the deadline, and so do `k + 1` polls. -/
theorem polls_le_of_paced {interval deadline low : ℚ} {timeout : Number} {k : ℕ}
    {t : List (PollEvent Exn)} {r : Except (PollError Exn) Str}
    (h : (pollLoop terminal timeout (.finite interval) (.finite deadline) fuel).run.Runs t r)
    (hpaced : Paced interval low (t.filterMap reading))
    (hdeadline : deadline ≤ low + k * interval) :
    (t.filterMap fetched).length ≤ k + 1 ∧ (k + 1 ≤ fuel → r ≠ .error .polling) := by
  induction fuel generalizing low k t with
  | zero =>
    obtain ⟨rfl, rfl⟩ := h
    exact ⟨Nat.zero_le _, fun hfuel => absurd hfuel (Nat.not_succ_le_zero k)⟩
  | succ fuel ih =>
    cases runs_pollLoop_succ.1 h with
    | again hstate hnow hrest =>
      obtain ⟨time, rfl, hlow, hlater⟩ := Paced.of_cons hpaced
      -- the deadline has not been reached, so that there is an interval left
      have htime : time < deadline := by simpa [Number.le] using hnow
      obtain ⟨k, rfl⟩ : ∃ n, k = n + 1 := by
        cases k with
        | zero =>
          have hreached : deadline ≤ low := by simpa using hdeadline
          exact absurd (htime.trans_le (hreached.trans hlow)) (lt_irrefl _)
        | succ n => exact ⟨n, rfl⟩
      have hdeadline' : deadline ≤ time + interval + k * interval := by
        push_cast at hdeadline
        linarith
      obtain ⟨hpolls, hfuel⟩ := ih hrest hlater hdeadline'
      exact ⟨Nat.succ_le_succ hpolls, fun hle => hfuel (Nat.le_of_succ_le_succ hle)⟩
    | _ => exact ⟨Nat.le_add_left 1 k, fun _ => nofun⟩

/-- **The deadline bounds the number of polls**: where every sleep takes at least its interval, the
state is fetched no more often than there are intervals up to the deadline, and once more. With that
much fuel the poller is done. -/
theorem polls_le (terminal : List Str) (timeout interval : ℚ) (hinterval : 0 < interval) (fuel : ℕ)
    (t : List (PollEvent Exn)) (r : Except (PollError Exn) Str)
    (h : (pollUntilTerminal terminal (.finite timeout) (.finite interval) fuel).run.Runs t r)
    (start : ℚ) (readings : List Number)
    (hreadings : t.filterMap reading = .finite start :: readings)
    (hpaced : Paced interval start readings) :
    (t.filterMap fetched).length ≤ ⌈timeout / interval⌉₊ + 1 ∧
      (⌈timeout / interval⌉₊ + 1 ≤ fuel → r ≠ .error .polling) := by
  obtain ⟨answer, t', rfl, hloop⟩ := runs_perform_bind.1 h
  clear h
  cases answer with
  | error e =>
    obtain ⟨rfl, -⟩ := hloop
    cases hreadings
  | ok now =>
    have hcons : now :: t'.filterMap reading = .finite start :: readings := hreadings
    obtain ⟨rfl, rfl⟩ := List.cons.inj hcons
    have hceil : timeout ≤ ⌈timeout / interval⌉₊ * interval := by
      rw [← div_le_iff₀ hinterval]
      exact Nat.le_ceil _
    have hrun : (pollLoop terminal (.finite timeout) (.finite interval) (.finite (start + timeout))
        fuel).run.Runs t' r := hloop
    have hdeadline : start + timeout ≤ start + ⌈timeout / interval⌉₊ * interval := by
      gcongr
    have hbound := polls_le_of_paced hrun hpaced hdeadline
    exact hbound

/-- The state is reached at the second poll. -/
def twoPolls : List (PollEvent String) :=
  [⟨.timeFn, .ok (.finite 0)⟩, ⟨.fetchState, .ok (codePoints "RUNNING")⟩,
    ⟨.timeFn, .ok (.finite 0)⟩, ⟨.sleepFn (.finite 1), .ok ()⟩,
    ⟨.fetchState, .ok (codePoints "SUCCEEDED")⟩]

theorem runs_twoPolls : (pollUntilTerminal terminalStates (.finite 5) (.finite 1) 6).run.Runs
    twoPolls (.ok (codePoints "SUCCEEDED")) := by
  refine runs_perform_bind.2 ⟨.ok (.finite 0), _, rfl, runs_pollLoop_succ.2 ?_⟩
  refine .again (by decide) (by decide +kernel) (runs_pollLoop_succ.2 ?_)
  exact .reached (by decide)

theorem polls_le_twoPolls : (twoPolls.filterMap fetched).length ≤ ⌈(5 : ℚ) / 1⌉₊ + 1 :=
  (polls_le terminalStates 5 1 one_pos 6 twoPolls _ runs_twoPolls 0 [.finite 0] rfl
    (.cons le_rfl (.nil _))).1

end Bound

end Resilience.Scope
