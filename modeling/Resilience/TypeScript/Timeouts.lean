import Resilience.Foundations.Runs
import Resilience.TypeScript.Retry
import Mathlib.Data.List.Nodup

/-!
# Timers and listeners

What `typescript/src/safeFetch.ts` does in each attempt, and `forge-core/src/fetch.js` in each call,
to stop the request: a controller that a timer aborts, and the caller's signal, by a listener. The
event loop runs any number of attempts, with any number of callers' signals, in any order.

An attempt is stopped by its caller or by its timer, whichever comes first, and by nothing after its
end. It leaves no timer and no listener behind (`attempts_of_run`).

`withTimeout` of `typescript/src/timeout.ts` races a promise against a timer (`result_of_run`).
-/

namespace Resilience.TypeScript.Timeouts

inductive Stage
  | idle
  | running
  | settled
  deriving DecidableEq

/-- The callers' signals `S`, the attempts `A`, and reasons `R`. -/
structure World (S A R : Type) where
  /-- `signal.reason` of a caller's signal that is aborted. -/
  aborted : S → Option R
  /-- The attempts whose `onCallerAbort` listens to a signal. -/
  listeners : S → List A
  /-- The reason with which the controller of an attempt is aborted. -/
  controllers : A → Option R
  /-- The timer of an attempt has neither fired nor been cleared. -/
  timers : A → Bool
  stage : A → Stage

inductive Event (S A R : Type)
  /-- An attempt runs up to its call of `fetch`. -/
  | begin (a : A)
  | callerAbort (s : S) (reason : R)
  | timeout (a : A)
  /-- `fetch` returns or throws, and the `finally` is run. -/
  | settle (a : A)

variable {S A R : Type}

def start : World S A R where
  aborted _ := none
  listeners _ := []
  controllers _ := none
  timers _ := false
  stage _ := .idle

variable [DecidableEq S] [DecidableEq A]

namespace World

/-- `controller.abort(reason)`, of which the first one counts. -/
def abort (w : World S A R) (a : A) (reason : R) : World S A R :=
  { w with controllers := Function.update w.controllers a ((w.controllers a).or (some reason)) }

/-- `signal.addEventListener("abort", onCallerAbort, { once: true })`. -/
def addListener (w : World S A R) (s : S) (a : A) : World S A R :=
  { w with listeners := Function.update w.listeners s (w.listeners s ++ [a]) }

/-- `signal.removeEventListener("abort", onCallerAbort)`. -/
def removeListener (w : World S A R) (s : S) (a : A) : World S A R :=
  { w with listeners := Function.update w.listeners s ((w.listeners s).erase a) }

/-- The caller aborts: every listener is called, and is no listener any more. -/
def dispatch (w : World S A R) (s : S) (reason : R) : World S A R :=
  { (w.listeners s).foldl (fun w a => w.abort a reason) w with
    aborted := Function.update w.aborted s (some reason)
    listeners := Function.update w.listeners s [] }

def setTimer (w : World S A R) (a : A) (pending : Bool) : World S A R :=
  { w with timers := Function.update w.timers a pending }

def enter (w : World S A R) (a : A) (stage : Stage) : World S A R :=
  { w with stage := Function.update w.stage a stage }

variable (callerSignal : A → Option S) (timeoutError : A → R)

/-- What an attempt does with the signal that its caller has given, if any. -/
def link (w : World S A R) (a : A) : World S A R :=
  match callerSignal a with
  | none => w
  | some s => match w.aborted s with
    | some reason => w.abort a reason
    | none => w.addListener s a

/-- The `finally` of an attempt. -/
def cleanUp (w : World S A R) (a : A) : World S A R :=
  match callerSignal a with
  | none => w.setTimer a false
  | some s => (w.setTimer a false).removeListener s a

def step (w : World S A R) : Event S A R → World S A R
  | .begin a => match w.stage a with
    | .idle => ((w.link callerSignal a).setTimer a true).enter a .running
    | _ => w
  | .callerAbort s reason => match w.aborted s with
    | none => w.dispatch s reason
    | some _ => w
  | .timeout a => if w.timers a = true then (w.abort a (timeoutError a)).setTimer a false else w
  | .settle a => match w.stage a with
    | .running => (w.cleanUp callerSignal a).enter a .settled
    | _ => w

end World

/-! ## One attempt by itself -/

/-- An attempt without timers and listeners, with what would stop it when it begins, or has. -/
inductive Attempt (R : Type)
  | idle (reason : Option R)
  | running (reason : Option R)
  | settled (reason : Option R)

namespace Attempt

def begin : Attempt R → Attempt R
  | .idle reason => .running reason
  | attempt => attempt

/-- The caller stops it, unless it is stopped or over. -/
def callerAbort (reason : R) : Attempt R → Attempt R
  | .idle none => .idle (some reason)
  | .running none => .running (some reason)
  | attempt => attempt

/-- The timer stops it, unless it is stopped or over. -/
def timeout (reason : R) : Attempt R → Attempt R
  | .running none => .running (some reason)
  | attempt => attempt

def settle : Attempt R → Attempt R
  | .running reason => .settled reason
  | attempt => attempt

/-- What an event is to the attempt `a`. -/
def step (callerSignal : A → Option S) (timeoutError : A → R) (a : A) (attempt : Attempt R) :
    Event S A R → Attempt R
  | .begin a' => if a' = a then attempt.begin else attempt
  | .callerAbort s reason =>
    if callerSignal a = some s then attempt.callerAbort reason else attempt
  | .timeout a' => if a' = a then attempt.timeout (timeoutError a) else attempt
  | .settle a' => if a' = a then attempt.settle else attempt

/-! ### What stops it -/

section Reason

variable (callerSignal : A → Option S) (timeoutError : A → R) (a : A)

/-- The reason with which an event stops an attempt before it begins. -/
def callerReason : Event S A R → Option R
  | .callerAbort s reason => if callerSignal a = some s then some reason else none
  | _ => none

/-- The reason with which an event stops an attempt that runs. -/
def reason : Event S A R → Option R
  | .timeout a' => if a' = a then some (timeoutError a) else none
  | ev => callerReason callerSignal a ev

/-- The first reason for an attempt that begins after the events `before`, and has seen the events
`during`. -/
def firstReason (before during : List (Event S A R)) : Option R :=
  (before.findSome? (callerReason callerSignal a)).or
    (during.findSome? (reason callerSignal timeoutError a))

variable {callerSignal timeoutError a}

theorem run_idle (found : Option R) {evs : List (Event S A R)} (h : .begin a ∉ evs) :
    Runs.run (step callerSignal timeoutError a) (.idle found) evs =
      .idle (found.or (evs.findSome? (callerReason callerSignal a))) := by
  induction evs generalizing found with
  | nil => simp [Runs.run]
  | cons ev evs ih =>
    obtain ⟨hev, hevs⟩ := not_or.1 (mt List.mem_cons.2 h)
    have hstep : (Attempt.idle found).step callerSignal timeoutError a ev =
        .idle (found.or (callerReason callerSignal a ev)) := by
      cases ev with
      | begin a' =>
        have hne : a' ≠ a := fun heq => hev (heq ▸ rfl)
        simp [step, callerReason, hne]
      | callerAbort s reason =>
        rw [step, callerReason]
        split_ifs <;> cases found <;> rfl
      | timeout a' => simp [step, callerReason, timeout]
      | settle a' => simp [step, callerReason, settle]
    rw [Runs.run_cons, hstep, ih _ hevs, List.findSome?_cons]
    cases found <;> cases callerReason callerSignal a ev <;> rfl

theorem run_running (found : Option R) {evs : List (Event S A R)} (h : .settle a ∉ evs) :
    Runs.run (step callerSignal timeoutError a) (.running found) evs =
      .running (found.or (evs.findSome? (reason callerSignal timeoutError a))) := by
  induction evs generalizing found with
  | nil => simp [Runs.run]
  | cons ev evs ih =>
    obtain ⟨hev, hevs⟩ := not_or.1 (mt List.mem_cons.2 h)
    have hstep : (Attempt.running found).step callerSignal timeoutError a ev =
        .running (found.or (reason callerSignal timeoutError a ev)) := by
      cases ev with
      | begin a' => simp [step, reason, callerReason, begin]
      | callerAbort s reason =>
        show _ = Attempt.running (found.or (callerReason callerSignal a (.callerAbort s reason)))
        rw [step, callerReason]
        split_ifs <;> cases found <;> rfl
      | timeout a' =>
        rw [step, reason]
        split_ifs <;> cases found <;> rfl
      | settle a' =>
        have hne : a' ≠ a := fun heq => hev (heq ▸ rfl)
        simp [step, reason, callerReason, hne]
    rw [Runs.run_cons, hstep, ih _ hevs, List.findSome?_cons]
    cases found <;> cases reason callerSignal timeoutError a ev <;> rfl

theorem run_settled (found : Option R) (evs : List (Event S A R)) :
    Runs.run (step callerSignal timeoutError a) (.settled found) evs = .settled found := by
  induction evs with
  | nil => rfl
  | cons ev evs ih =>
    have hstep : (Attempt.settled found).step callerSignal timeoutError a ev = .settled found := by
      cases ev <;> simp only [step, begin, callerAbort, timeout, settle, ite_self]
    rw [Runs.run_cons, hstep, ih]

/-- The first reason counts, and what is after the end does not. -/
theorem run_firstReason {before during : List (Event S A R)} (hbegin : .begin a ∉ before)
    (hsettle : .settle a ∉ during) (after : List (Event S A R)) :
    let found := firstReason callerSignal timeoutError a before during
    Runs.run (step callerSignal timeoutError a) (.idle none) (before ++ .begin a :: during) =
        .running found ∧
      Runs.run (step callerSignal timeoutError a) (.idle none)
        (before ++ .begin a :: (during ++ .settle a :: after)) = .settled found := by
  intro found
  have hrunning : Runs.run (step callerSignal timeoutError a) (.idle none)
      (before ++ .begin a :: during) = .running found := by
    rw [Runs.run_append, run_idle none hbegin, Runs.run_cons, Option.none_or]
    have hstep : (Attempt.idle (before.findSome? (callerReason callerSignal a))).step callerSignal
        timeoutError a (.begin a) = .running (before.findSome? (callerReason callerSignal a)) :=
      if_pos rfl
    rw [hstep, run_running _ hsettle]
    rfl
  refine ⟨hrunning, ?_⟩
  have hsettled : (Attempt.running found).step callerSignal timeoutError a (.settle a) =
      .settled found := if_pos rfl
  rw [← List.cons_append, ← List.append_assoc, Runs.run_append, hrunning, Runs.run_cons, hsettled,
    run_settled]

end Reason

end Attempt

namespace World

variable {callerSignal : A → Option S} {timeoutError : A → R} {w : World S A R}

/-! ## The operations -/

omit [DecidableEq S] in
theorem foldl_abort (l : List A) (w : World S A R) (reason : R) :
    l.foldl (fun w a => w.abort a reason) w = { w with
      controllers := fun a =>
        if a ∈ l then (w.controllers a).or (some reason) else w.controllers a } := by
  induction l generalizing w with
  | nil => simp
  | cons b l ih =>
    rw [List.foldl_cons, ih]
    simp only [abort, mk.injEq, true_and, and_true]
    funext a
    by_cases hab : a = b
    · subst hab
      cases w.controllers a <;> simp
    · simp [hab]

theorem dispatch_eq (w : World S A R) (s : S) (reason : R) :
    w.dispatch s reason = { w with
      controllers := fun a =>
        if a ∈ w.listeners s then (w.controllers a).or (some reason) else w.controllers a
      aborted := Function.update w.aborted s (some reason)
      listeners := Function.update w.listeners s [] } := by
  rw [dispatch, foldl_abort]

/-- An attempt that begins has the reason of its caller, or listens. -/
theorem link_eq (w : World S A R) (a : A) :
    w.link callerSignal a = { w with
      controllers := Function.update w.controllers a
        ((w.controllers a).or ((callerSignal a).bind w.aborted))
      listeners := fun s => if callerSignal a = some s ∧ w.aborted s = none
        then w.listeners s ++ [a] else w.listeners s } := by
  unfold link
  cases hs : callerSignal a with
  | none => simp
  | some s =>
    dsimp only
    cases hreason : w.aborted s with
    | some reason =>
      have hlisteners : ∀ s', ¬ (s = s' ∧ w.aborted s' = none) := by
        rintro s' ⟨rfl, hnone⟩
        cases hreason.symm.trans hnone
      simp [abort, hreason, hlisteners]
    | none =>
      simp only [addListener, Option.bind_some, hreason, Option.or_none, Function.update_eq_self,
        mk.injEq, true_and, and_true]
      funext s'
      by_cases hss : s' = s
      · subst hss
        simp [hreason]
      · simp [hss, Ne.symm hss]

theorem cleanUp_eq (w : World S A R) (a : A) :
    w.cleanUp callerSignal a = { w with
      timers := Function.update w.timers a false
      listeners := fun s =>
        if callerSignal a = some s then (w.listeners s).erase a else w.listeners s } := by
  unfold cleanUp
  cases hs : callerSignal a with
  | none => simp [setTimer]
  | some s =>
    simp only [setTimer, removeListener, mk.injEq, true_and, and_true]
    funext s'
    by_cases hss : s' = s
    · subst hss
      simp
    · simp [hss, Ne.symm hss]

/-! ## The invariant -/

variable (callerSignal w) in
/-- What holds throughout. -/
structure Inv : Prop where
  listening : ∀ s a, a ∈ w.listeners s ↔
    callerSignal a = some s ∧ w.aborted s = none ∧ w.stage a = .running
  once : ∀ s, (w.listeners s).Nodup
  pending : ∀ a, w.timers a = true → w.stage a = .running
  waiting : ∀ a, w.stage a = .running → w.controllers a = none → w.timers a = true
  fresh : ∀ a, w.stage a = .idle → w.controllers a = none
  told : ∀ a s, w.stage a = .running → callerSignal a = some s → w.controllers a = none →
    w.aborted s = none

variable (callerSignal w) in
/-- An attempt as it is by itself. -/
def attempt (a : A) : Attempt R :=
  match w.stage a with
  | .idle => .idle ((callerSignal a).bind w.aborted)
  | .running => .running (w.controllers a)
  | .settled => .settled (w.controllers a)

omit [DecidableEq S] [DecidableEq A] in
theorem inv_start : Inv callerSignal (start : World S A R) where
  listening := by simp [start]
  once := by simp [start]
  pending := by simp [start]
  waiting := by simp [start]
  fresh := by simp [start]
  told := by simp [start]

omit [DecidableEq S] [DecidableEq A] in
theorem Inv.not_mem (h : Inv callerSignal w) {a : A} (ha : w.stage a ≠ .running) (s : S) :
    a ∉ w.listeners s := fun hmem => ha ((h.listening s a).1 hmem).2.2

/-- An attempt begins. -/
theorem Inv.begin (h : Inv callerSignal w) {a : A} (ha : w.stage a = .idle) :
    Inv callerSignal (((w.link callerSignal a).setTimer a true).enter a .running) := by
  have hne : w.stage a ≠ .running := by simp [ha]
  rw [link_eq, setTimer, enter]
  constructor
  case listening =>
    intro s b
    dsimp only
    by_cases hb : b = a
    · subst hb
      have hnot := h.not_mem hne s
      rw [Function.update_self]
      split_ifs with hs
      · simp [hs]
      · simp only [hnot, false_iff]
        exact fun hlinked => hs ⟨hlinked.1, hlinked.2.1⟩
    · rw [Function.update_of_ne hb, ← h.listening]
      split_ifs
      · simp [hb]
      · rfl
  case once =>
    intro s
    dsimp only
    split_ifs
    · exact List.nodup_append.2 ⟨h.once s, List.nodup_singleton a, fun b hb c hc hbc =>
        h.not_mem hne s (List.mem_singleton.1 hc ▸ hbc ▸ hb)⟩
    · exact h.once s
  case pending =>
    intro b hb
    dsimp only at hb ⊢
    by_cases hba : b = a
    · rw [hba, Function.update_self]
    · rw [Function.update_of_ne hba] at hb ⊢
      exact h.pending b hb
  case waiting =>
    intro b hb hnone
    dsimp only at hb hnone ⊢
    by_cases hba : b = a
    · rw [hba, Function.update_self]
    · rw [Function.update_of_ne hba] at hb hnone ⊢
      exact h.waiting b hb hnone
  case fresh =>
    intro b hb
    dsimp only at hb ⊢
    by_cases hba : b = a
    · rw [hba, Function.update_self] at hb
      cases hb
    · rw [Function.update_of_ne hba] at hb ⊢
      exact h.fresh b hb
  case told =>
    intro b s hb hs hnone
    dsimp only at hb hnone ⊢
    by_cases hba : b = a
    · subst hba
      rw [Function.update_self, h.fresh b ha, Option.none_or, hs] at hnone
      exact hnone
    · rw [Function.update_of_ne hba] at hb hnone
      exact h.told b s hb hs hnone

theorem Inv.attempt_begin (h : Inv callerSignal w) {a : A} (ha : w.stage a = .idle) (b : A) :
    (((w.link callerSignal a).setTimer a true).enter a .running).attempt callerSignal b =
      if a = b then (w.attempt callerSignal b).begin else w.attempt callerSignal b := by
  rw [link_eq, setTimer, enter, attempt, attempt]
  by_cases hb : a = b
  · subst hb
    simp [ha, h.fresh a ha, Attempt.begin]
  · simp [hb, Ne.symm hb]

/-- The caller aborts. -/
theorem Inv.callerAbort (h : Inv callerSignal w) {s : S} (hs : w.aborted s = none) (reason : R) :
    Inv callerSignal (w.dispatch s reason) := by
  rw [dispatch_eq]
  have hcontrollers : ∀ b, (if b ∈ w.listeners s then (w.controllers b).or (some reason)
      else w.controllers b) = none → w.controllers b = none ∧ b ∉ w.listeners s := by
    intro b hb
    split_ifs at hb with hmem
    · simp at hb
    · exact ⟨hb, hmem⟩
  constructor
  case listening =>
    intro s' b
    dsimp only
    by_cases hss : s' = s
    · subst hss
      simp
    · rw [Function.update_of_ne hss, Function.update_of_ne hss, h.listening]
  case once =>
    intro s'
    dsimp only
    by_cases hss : s' = s
    · rw [hss, Function.update_self]
      exact List.nodup_nil
    · rw [Function.update_of_ne hss]
      exact h.once s'
  case pending => exact h.pending
  case waiting =>
    intro b hb hnone
    exact h.waiting b hb (hcontrollers b hnone).1
  case fresh =>
    intro b hb
    dsimp only at hb ⊢
    rw [if_neg (h.not_mem (by simp [hb]) s), h.fresh b hb]
  case told =>
    intro b s' hb hs' hnone
    obtain ⟨hnone, hmem⟩ := hcontrollers b hnone
    have hss : s' ≠ s := by
      rintro rfl
      exact hmem ((h.listening s' b).2 ⟨hs', hs, hb⟩)
    dsimp only
    rw [Function.update_of_ne hss]
    exact h.told b s' hb hs' hnone

theorem Inv.attempt_callerAbort (h : Inv callerSignal w) {s : S} (hs : w.aborted s = none)
    (reason : R) (b : A) :
    (w.dispatch s reason).attempt callerSignal b =
      if callerSignal b = some s then (w.attempt callerSignal b).callerAbort reason
      else w.attempt callerSignal b := by
  rw [dispatch_eq, attempt, attempt]
  dsimp only
  cases hstage : w.stage b with
  | idle =>
    by_cases hb : callerSignal b = some s
    · simp [hb, hs, Attempt.callerAbort]
    · rw [if_neg hb]
      cases hsignal : callerSignal b with
      | none => rfl
      | some s' =>
        have hss : s' ≠ s := fun hss => hb (hss ▸ hsignal)
        simp [hss]
  | running =>
    have hlistening := h.listening s b
    simp only [hs, hstage, and_true] at hlistening
    by_cases hb : callerSignal b = some s
    · rw [if_pos (hlistening.2 hb), if_pos hb]
      cases w.controllers b <;> rfl
    · rw [if_neg (mt hlistening.1 hb), if_neg hb]
  | settled =>
    rw [if_neg (h.not_mem (by simp [hstage]) s)]
    split_ifs <;> rfl

omit [DecidableEq S] in
/-- The timer of an attempt fires. -/
theorem Inv.timeout (h : Inv callerSignal w) {a : A} (ha : w.timers a = true) (reason : R) :
    Inv callerSignal ((w.abort a reason).setTimer a false) := by
  have hrunning := h.pending a ha
  rw [abort, setTimer]
  constructor
  case listening => exact h.listening
  case once => exact h.once
  case pending =>
    intro b hb
    dsimp only at hb ⊢
    by_cases hba : b = a
    · rw [hba, hrunning]
    · rw [Function.update_of_ne hba] at hb
      exact h.pending b hb
  case waiting =>
    intro b hb hnone
    dsimp only at hb hnone ⊢
    by_cases hba : b = a
    · subst hba
      rw [Function.update_self] at hnone
      simp at hnone
    · rw [Function.update_of_ne hba] at hnone ⊢
      exact h.waiting b hb hnone
  case fresh =>
    intro b hb
    have hba : b ≠ a := by
      rintro rfl
      cases hrunning.symm.trans hb
    dsimp only
    rw [Function.update_of_ne hba, h.fresh b hb]
  case told =>
    intro b s hb hs hnone
    dsimp only at hnone ⊢
    by_cases hba : b = a
    · subst hba
      rw [Function.update_self] at hnone
      simp at hnone
    · rw [Function.update_of_ne hba] at hnone
      exact h.told b s hb hs hnone

omit [DecidableEq S] in
theorem Inv.attempt_timeout (h : Inv callerSignal w) {a : A} (ha : w.timers a = true) (reason : R)
    (b : A) :
    ((w.abort a reason).setTimer a false).attempt callerSignal b =
      if a = b then (w.attempt callerSignal b).timeout reason else w.attempt callerSignal b := by
  rw [abort, setTimer, attempt, attempt]
  by_cases hb : a = b
  · subst hb
    have hrunning := h.pending a ha
    cases w.controllers a <;> simp [hrunning, Attempt.timeout]
  · simp [hb, Ne.symm hb]

omit [DecidableEq S] [DecidableEq A] in
/-- A timer that is not pending does not matter to its attempt. -/
theorem Inv.timeout_attempt (h : Inv callerSignal w) {a : A} (ha : ¬ w.timers a = true)
    (reason : R) : (w.attempt callerSignal a).timeout reason = w.attempt callerSignal a := by
  rw [attempt]
  cases hstage : w.stage a with
  | idle => rfl
  | running =>
    cases hreason : w.controllers a with
    | none => exact absurd (h.waiting a hstage hreason) ha
    | some reason' => rfl
  | settled => rfl

omit [DecidableEq S] [DecidableEq A] in
/-- A signal that is aborted again does not matter. -/
theorem Inv.callerAbort_attempt (h : Inv callerSignal w) {s : S} {reason' : R}
    (hs : w.aborted s = some reason') {b : A} (hb : callerSignal b = some s) (reason : R) :
    (w.attempt callerSignal b).callerAbort reason = w.attempt callerSignal b := by
  rw [attempt]
  cases hstage : w.stage b with
  | idle => simp [hb, hs, Attempt.callerAbort]
  | running =>
    cases hreason : w.controllers b with
    | none => cases hs.symm.trans (h.told b s hstage hb hreason)
    | some reason' => rfl
  | settled => rfl

/-- An attempt settles. -/
theorem Inv.settle (h : Inv callerSignal w) {a : A} (ha : w.stage a = .running) :
    Inv callerSignal ((w.cleanUp callerSignal a).enter a .settled) := by
  rw [cleanUp_eq, enter]
  have hmem : ∀ s b, b ∈ (if callerSignal a = some s then (w.listeners s).erase a
      else w.listeners s) ↔ b ∈ w.listeners s ∧ b ≠ a := by
    intro s b
    split_ifs with hs
    · rw [(h.once s).mem_erase_iff, and_comm]
    · refine (and_iff_left_of_imp ?_).symm
      rintro hb rfl
      exact hs ((h.listening s b).1 hb).1
  constructor
  case listening =>
    intro s b
    dsimp only
    rw [hmem, h.listening]
    by_cases hba : b = a
    · simp [hba]
    · simp [hba]
  case once =>
    intro s
    dsimp only
    split_ifs
    · exact (h.once s).erase a
    · exact h.once s
  case pending =>
    intro b hb
    dsimp only at hb ⊢
    by_cases hba : b = a
    · rw [hba, Function.update_self] at hb
      cases hb
    · rw [Function.update_of_ne hba] at hb ⊢
      exact h.pending b hb
  case waiting =>
    intro b hb hnone
    dsimp only at hb ⊢
    by_cases hba : b = a
    · rw [hba, Function.update_self] at hb
      cases hb
    · rw [Function.update_of_ne hba] at hb ⊢
      exact h.waiting b hb hnone
  case fresh =>
    intro b hb
    dsimp only at hb ⊢
    by_cases hba : b = a
    · rw [hba, Function.update_self] at hb
      cases hb
    · rw [Function.update_of_ne hba] at hb
      exact h.fresh b hb
  case told =>
    intro b s hb
    dsimp only at hb
    by_cases hba : b = a
    · rw [hba, Function.update_self] at hb
      cases hb
    · rw [Function.update_of_ne hba] at hb
      exact h.told b s hb

theorem attempt_settle {a : A} (ha : w.stage a = .running) (b : A) :
    ((w.cleanUp callerSignal a).enter a .settled).attempt callerSignal b =
      if a = b then (w.attempt callerSignal b).settle else w.attempt callerSignal b := by
  rw [cleanUp_eq, enter, attempt, attempt]
  by_cases hb : a = b
  · subst hb
    simp [ha, Attempt.settle]
  · simp [hb, Ne.symm hb]

/-! ## Runs -/

variable (timeoutError) in
/-- Every event keeps the invariant, and is to each attempt what it is to that attempt alone. -/
theorem Inv.step (h : Inv callerSignal w) (ev : Event S A R) :
    Inv callerSignal (w.step callerSignal timeoutError ev) ∧
      ∀ b, (w.step callerSignal timeoutError ev).attempt callerSignal b =
        (w.attempt callerSignal b).step callerSignal timeoutError b ev := by
  cases ev with
  | begin a =>
    unfold World.step Attempt.step
    dsimp only
    split
    · rename_i ha
      exact ⟨h.begin ha, h.attempt_begin ha⟩
    · rename_i ha
      refine ⟨h, fun b => ?_⟩
      split_ifs with hb
      · subst hb
        cases hstage : w.stage a with
        | idle => exact absurd hstage ha
        | running => simp [attempt, hstage, Attempt.begin]
        | settled => simp [attempt, hstage, Attempt.begin]
      · rfl
  | callerAbort s reason =>
    unfold World.step Attempt.step
    dsimp only
    split
    · rename_i hs
      exact ⟨h.callerAbort hs reason, h.attempt_callerAbort hs reason⟩
    · rename_i hs
      refine ⟨h, fun b => ?_⟩
      split_ifs with hb
      · exact (h.callerAbort_attempt hs hb reason).symm
      · rfl
  | timeout a =>
    unfold World.step Attempt.step
    dsimp only
    split_ifs with ha
    · refine ⟨h.timeout ha _, fun b => ?_⟩
      rw [h.attempt_timeout ha]
      split_ifs with hb
      · rw [hb]
      · rfl
    · refine ⟨h, fun b => ?_⟩
      split_ifs with hb
      · subst hb
        exact (h.timeout_attempt ha _).symm
      · rfl
  | settle a =>
    unfold World.step Attempt.step
    dsimp only
    split
    · rename_i ha
      exact ⟨h.settle ha, attempt_settle ha⟩
    · rename_i ha
      refine ⟨h, fun b => ?_⟩
      split_ifs with hb
      · subst hb
        cases hstage : w.stage a with
        | idle => simp [attempt, hstage, Attempt.settle]
        | running => exact absurd hstage ha
        | settled => simp [attempt, hstage, Attempt.settle]
      · rfl

end World

section Runs

variable (callerSignal : A → Option S) (timeoutError : A → R)

/-- After any events of any number of attempts, each is as if it were alone. -/
theorem attempt_run (evs : List (Event S A R)) (a : A) :
    (Runs.run (World.step callerSignal timeoutError) start evs).attempt callerSignal a =
      Runs.run (Attempt.step callerSignal timeoutError a) (.idle none) evs := by
  have hstart : (start : World S A R).attempt callerSignal a = .idle none := by
    simp [World.attempt, start]
  rw [← hstart]
  exact Runs.run_of_simulation (f := fun w => w.attempt callerSignal a)
    (fun w ev h => (h.step timeoutError ev).1) (fun w ev h => (h.step timeoutError ev).2 a)
    World.inv_start evs

omit [DecidableEq S] [DecidableEq A] in
theorem World.controllers_of_running {w : World S A R} {a : A} {reason : Option R}
    (h : w.attempt callerSignal a = .running reason) : w.controllers a = reason := by
  unfold attempt at h
  cases hstage : w.stage a <;> rw [hstage] at h <;> cases h
  rfl

omit [DecidableEq S] [DecidableEq A] in
theorem World.controllers_of_settled {w : World S A R} {a : A} {reason : Option R}
    (h : w.attempt callerSignal a = .settled reason) : w.controllers a = reason := by
  unfold attempt at h
  cases hstage : w.stage a <;> rw [hstage] at h <;> cases h
  rfl

/-- **The first reason stops an attempt, and nothing is left behind.** After any events of any
number of attempts: the request of an attempt is aborted with the reason that came first, of its
caller, before it or in it, or of its timer, and what happens after its end does not matter; timers
are pending, and listeners are on callers' signals, for attempts that run and for no others, once
for each. -/
theorem attempts_of_run (evs : List (Event S A R)) :
    let w := Runs.run (World.step callerSignal timeoutError) start evs
    (∀ a before during, .begin a ∉ before → .settle a ∉ during →
      (evs = before ++ .begin a :: during ∨
        ∃ after, evs = before ++ .begin a :: (during ++ .settle a :: after)) →
      w.controllers a = Attempt.firstReason callerSignal timeoutError a before during) ∧
    (∀ a, w.timers a = true → w.stage a = .running) ∧
    ∀ s, (w.listeners s).Nodup ∧ ∀ a, a ∈ w.listeners s ↔
      callerSignal a = some s ∧ w.aborted s = none ∧ w.stage a = .running := by
  intro w
  have h : World.Inv callerSignal w :=
    Runs.run_of_step (fun w ev h => (h.step timeoutError ev).1) World.inv_start evs
  refine ⟨fun a before during hbegin hsettle hevs => ?_, h.pending,
    fun s => ⟨h.once s, h.listening s⟩⟩
  have hattempt := attempt_run callerSignal timeoutError evs a
  rcases hevs with rfl | ⟨after, rfl⟩
  · rw [(Attempt.run_firstReason hbegin hsettle []).1] at hattempt
    exact World.controllers_of_running callerSignal hattempt
  · rw [(Attempt.run_firstReason hbegin hsettle after).2] at hattempt
    exact World.controllers_of_settled callerSignal hattempt

/-- Of two attempts of one caller, the first one is stopped by its timer, and the second one by the
caller. -/
theorem attempts_of_run_two :
    let evs : List (Event Unit ℕ ℕ) :=
      [.begin 0, .begin 1, .timeout 0, .callerAbort () 7, .settle 0, .settle 1]
    let w := Runs.run (World.step (fun _ => some ()) fun _ => 5) start evs
    w.controllers 0 = some 5 ∧ w.controllers 1 = some 7 := by
  intro evs w
  have h := (attempts_of_run (fun _ => some ()) (fun _ => 5) evs).1
  constructor
  · exact h 0 [] [.begin 1, .timeout 0, .callerAbort () 7] (by simp) (by simp)
      (.inr ⟨[.settle 1], rfl⟩)
  · exact h 1 [.begin 0] [.timeout 0, .callerAbort () 7, .settle 0] (by simp) (by simp)
      (.inr ⟨[], rfl⟩)

end Runs

/-! ## A promise and a timer -/

section WithTimeout

variable {X T : Type}

/-- A promise that `withTimeout` has returned, and its timer, if it has set one. -/
structure Race (X T : Type) where
  timer : Bool
  result : Option (Except (Thrown X) T) := none

inductive RaceEvent (X T : Type)
  | timeout
  /-- The promise that is waited for settles. -/
  | settle (result : Except (Thrown X) T)

/-- A promise settles once. -/
def Race.settle (race : Race X T) (result : Except (Thrown X) T) : Race X T :=
  ⟨false, race.result.or (some result)⟩

variable (numberText : Number → Json.Units) (ms : Number) (label : Json.Units)

/-- `Number.isFinite(ms) && ms > 0`. -/
def setsTimer : Bool :=
  match ms with
  | .finite q => 0 < q
  | _ => false

def withTimeout : Race X T := ⟨setsTimer ms, none⟩

def withTimeoutError : Thrown X :=
  .resilienceError {
    kind := .timeout
    message := label ++ Json.utf16 " timed out after " ++ numberText ms ++ Json.utf16 "ms"
    attempts := .finite 1
    cause := .undefined }

/-- An event; a timer that is not pending does not fire. -/
def Race.step (race : Race X T) : RaceEvent X T → Race X T
  | .timeout =>
    if race.timer = true then race.settle (.error (withTimeoutError numberText ms label)) else race
  | .settle result => race.settle result

/-- The result that an event gives. -/
def RaceEvent.result : RaceEvent X T → Except (Thrown X) T
  | .timeout => .error (withTimeoutError numberText ms label)
  | .settle result => result

/-- A timeout counts where there is a timer. -/
def RaceEvent.counts : RaceEvent X T → Bool
  | .timeout => setsTimer ms
  | .settle _ => true

variable {numberText ms label}

theorem run_of_result {result : Except (Thrown X) T} (evs : List (RaceEvent X T)) :
    Runs.run (Race.step numberText ms label) ⟨false, some result⟩ evs = ⟨false, some result⟩ := by
  induction evs with
  | nil => rfl
  | cons ev evs ih => cases ev <;> exact ih

variable (numberText ms label)

/-- **The first event that counts is the result**, and a timer is pending until there is one. -/
theorem result_of_run (evs : List (RaceEvent X T)) :
    Runs.run (Race.step numberText ms label) (withTimeout ms) evs =
      match evs.find? (RaceEvent.counts ms) with
      | none => withTimeout ms
      | some ev => ⟨false, some (ev.result numberText ms label)⟩ := by
  induction evs with
  | nil => rfl
  | cons ev evs ih =>
    rw [Runs.run_cons, List.find?_cons]
    cases ev with
    | timeout =>
      cases hms : setsTimer ms with
      | false =>
        have hstep : (withTimeout ms : Race X T).step numberText ms label .timeout =
            withTimeout ms := by simp [Race.step, withTimeout, hms]
        rw [hstep, ih, RaceEvent.counts, hms]
      | true =>
        have hstep : (withTimeout ms : Race X T).step numberText ms label .timeout =
            ⟨false, some (.error (withTimeoutError numberText ms label))⟩ := by
          simp [Race.step, withTimeout, hms, Race.settle]
        rw [hstep, run_of_result, RaceEvent.counts, hms]
        rfl
    | settle result => exact run_of_result evs

end WithTimeout

end Resilience.TypeScript.Timeouts
