import Resilience.Python.Circuit

/-!
# Overlapping calls through one breaker

Callers ask `allow` and, once admitted, report one outcome each, at any later time. The breaker does
not know which call an outcome belongs to. Two of its promises rest on that: its documented state
machine (`documented_iff`) and the bound on concurrent trials (`trials_le_iff`).
-/

namespace Resilience.Python

/-- A change of the stored state. -/
structure Change where
  time : ℚ
  before : CircuitState
  after : CircuitState
  deriving DecidableEq, Repr

/-- When the circuit last opened, with the latest change first. -/
def lastOpening : List Change → Option ℚ
  | [] => none
  | ⟨t, _, .opened⟩ :: _ => some t
  | _ :: changes => lastOpening changes

/-- The state machine at the top of `circuit.py`. -/
inductive Documented (p : BreakerParams) : List Change → Prop
  | nil : Documented p []
  | threshold {changes} (t : ℚ) (h : Documented p changes) :
    Documented p (⟨t, .closed, .opened⟩ :: changes)
  | cooldown {changes t₀} (t : ℚ) (hlast : lastOpening changes = some t₀)
    (hle : p.cooldownSeconds ≤ t - t₀) (h : Documented p changes) :
    Documented p (⟨t, .opened, .halfOpen⟩ :: changes)
  | success {changes} (t : ℚ) (h : Documented p changes) :
    Documented p (⟨t, .halfOpen, .closed⟩ :: changes)
  | failure {changes} (t : ℚ) (h : Documented p changes) :
    Documented p (⟨t, .halfOpen, .opened⟩ :: changes)

/-- What a caller does. A report names the call by its place in `inFlight`. -/
inductive CallEvent
  | allow (now : ℚ)
  | success (k : ℕ) (now : ℚ)
  | failure (k : ℕ) (now : ℚ)

def CallEvent.time : CallEvent → ℚ
  | .allow now | .success _ now | .failure _ now => now

/-- A breaker and the calls that it has admitted. -/
structure Callers where
  breaker : CircuitBreaker := {}
  /-- The last reading of the clock. -/
  now : ℚ
  /-- The calls that have not reported, latest first. A trial, which was admitted while the breaker
  was half open, carries the half-open period that it belongs to. -/
  inFlight : List (Option ℕ) := []
  /-- The changes of the stored state, latest first. -/
  changes : List Change := []

namespace Callers

variable (p : BreakerParams)

/-- The number of the current half-open period, or of the last one. -/
def period (w : Callers) : ℕ :=
  w.changes.countP fun c => c.after = .halfOpen

/-- The breaker moves on. -/
def moved (w : Callers) (b : CircuitBreaker) (now : ℚ) : Callers :=
  { w with
    breaker := b
    now := now
    changes :=
      if b.state = w.breaker.state then w.changes
      else ⟨now, w.breaker.state, b.state⟩ :: w.changes }

def step (w : Callers) : CallEvent → Callers
  | .allow now =>
    let (admitted, b) := w.breaker.allow p now
    let w := w.moved b now
    if admitted then
      { w with inFlight := (if b.state = .halfOpen then some w.period else none) :: w.inFlight }
    else w
  | .success k now =>
    if k < w.inFlight.length then
      { w.moved w.breaker.recordSuccess now with inFlight := w.inFlight.eraseIdx k }
    else w
  | .failure k now =>
    if k < w.inFlight.length then
      { w.moved (w.breaker.recordFailure p now) now with inFlight := w.inFlight.eraseIdx k }
    else w

/-- The event comes no earlier than the last reading of the clock. -/
def ClockMoves (w : Callers) (ev : CallEvent) : Prop := w.now ≤ ev.time

theorem step_now (w : Callers) (ev : CallEvent) :
    (w.step p ev).now = ev.time ∨ (w.step p ev).now = w.now := by
  cases ev with
  | allow now =>
    dsimp only [step]
    split
    · exact .inl rfl
    · exact .inl rfl
  | success k now =>
    dsimp only [step]
    split
    · exact .inl rfl
    · exact .inr rfl
  | failure k now =>
    dsimp only [step]
    split
    · exact .inl rfl
    · exact .inr rfl

theorem eachStep_clockMoves {w : Callers} {evs : List CallEvent}
    (hclock : (w.now :: evs.map CallEvent.time).Pairwise (· ≤ ·)) :
    Runs.EachStep (step p) ClockMoves w evs := by
  induction evs generalizing w with
  | nil => trivial
  | cons ev evs ih =>
    rw [List.map_cons] at hclock
    obtain ⟨hnow, htimes⟩ := List.pairwise_cons.1 hclock
    obtain ⟨hfirst, hrest⟩ := List.forall_mem_cons.1 hnow
    refine ⟨hfirst, ih ?_⟩
    rcases step_now p w ev with hstep | hstep
    · rwa [hstep]
    · rw [hstep]
      exact List.pairwise_cons.2 ⟨hrest, (List.pairwise_cons.1 htimes).2⟩

/-! ## The state machine -/

/-- A success is not reported while the breaker is open. -/
def SuccessNotOpen (w : Callers) : CallEvent → Prop
  | .success k _ => k < w.inFlight.length → w.breaker.state ≠ .opened
  | _ => True

/-- The changes so far are documented, and the breaker did not open after the time that it
remembers. -/
structure Follows (w : Callers) : Prop where
  documented : Documented p w.changes
  opened : w.breaker.state = .opened → ∃ t₀ t, lastOpening w.changes = some t₀ ∧
    w.breaker.openedAt = some t ∧ t₀ ≤ t ∧ t ≤ w.now

variable {p}

theorem follows_moved_same {w : Callers} {b : CircuitBreaker} {now : ℚ} (h : Follows p w)
    (hstate : b.state = w.breaker.state) (hat : b.openedAt = w.breaker.openedAt)
    (hnow : w.now ≤ now) : Follows p (w.moved b now) := by
  constructor
  · rw [moved, if_pos hstate]
    exact h.documented
  · intro hopened
    obtain ⟨t₀, t, hlast, ht, hle, hle'⟩ := h.opened (hstate.symm.trans hopened)
    rw [moved, if_pos hstate]
    exact ⟨t₀, t, hlast, hat.trans ht, hle, hle'.trans hnow⟩

theorem follows_allow {w : Callers} {now : ℚ} (h : Follows p w) (hnow : w.now ≤ now) :
    Follows p (w.moved (w.breaker.allow p now).2 now) := by
  rcases CircuitBreaker.maybeHalfOpen_cases p w.breaker now with
    hsame | ⟨t, hopened, hat, helapsed, hhalf⟩
  · exact follows_moved_same h (by rw [CircuitBreaker.allow_state, hsame])
      (by rw [CircuitBreaker.allow_openedAt, hsame]) hnow
  · have hstate : (w.breaker.allow p now).2.state = .halfOpen := by
      rw [CircuitBreaker.allow_state, hhalf]
    obtain ⟨t₀, t', hlast, ht', hle, -⟩ := h.opened hopened
    rw [hat, Option.some.injEq] at ht'
    constructor
    · rw [moved, hstate, hopened, if_neg (by simp)]
      exact .cooldown now hlast (by linarith) h.documented
    · intro hbad
      exact absurd (hstate.symm.trans hbad) (by simp)

/-- Opening the breaker, from any state. -/
theorem follows_tripOpen {w : Callers} {b : CircuitBreaker} {now : ℚ} (h : Follows p w)
    (hstate : b.state = .opened) (hat : b.openedAt = some now) (hnow : w.now ≤ now) :
    Follows p (w.moved b now) := by
  rw [moved, hstate]
  cases hbefore : w.breaker.state with
  | closed =>
    exact ⟨.threshold now h.documented, fun _ => ⟨now, now, rfl, hat, le_rfl, le_rfl⟩⟩
  | halfOpen =>
    exact ⟨.failure now h.documented, fun _ => ⟨now, now, rfl, hat, le_rfl, le_rfl⟩⟩
  | opened =>
    obtain ⟨t₀, t, hlast, -, hle, hle'⟩ := h.opened hbefore
    exact ⟨h.documented, fun _ => ⟨t₀, now, hlast, hat, (hle.trans hle').trans hnow, le_rfl⟩⟩

theorem follows_recordFailure {w : Callers} {now : ℚ} (h : Follows p w) (hnow : w.now ≤ now) :
    Follows p (w.moved (w.breaker.recordFailure p now) now) := by
  rcases CircuitBreaker.recordFailure_cases p w.breaker now with heq | heq | ⟨-, heq⟩
  · rw [heq]
    exact follows_tripOpen h rfl rfl hnow
  · rw [heq]
    exact follows_tripOpen h rfl rfl hnow
  · rw [heq]
    exact follows_moved_same h rfl rfl hnow

theorem follows_recordSuccess {w : Callers} (now : ℚ) (h : Follows p w)
    (hstate : w.breaker.state ≠ .opened) :
    Follows p (w.moved w.breaker.recordSuccess now) := by
  have hclosed : w.breaker.recordSuccess.state = .closed := rfl
  refine ⟨?_, fun hbad => absurd (hclosed.symm.trans hbad) (by simp)⟩
  rw [moved, hclosed]
  cases hbefore : w.breaker.state with
  | closed => exact h.documented
  | halfOpen => exact .success now h.documented
  | opened => exact absurd hbefore hstate

theorem follows_step (w : Callers) (ev : CallEvent) (hclock : ClockMoves w ev) (h : Follows p w)
    (hev : SuccessNotOpen w ev) : Follows p (w.step p ev) := by
  cases ev with
  | allow now =>
    have hmoved := follows_allow h hclock
    dsimp only [step]
    split
    · exact ⟨hmoved.documented, hmoved.opened⟩
    · exact hmoved
  | success k now =>
    simp only [step]
    split_ifs with hk
    · have hmoved := follows_recordSuccess now h (hev hk)
      exact ⟨hmoved.documented, hmoved.opened⟩
    · exact h
  | failure k now =>
    simp only [step]
    split_ifs with hk
    · have hmoved := follows_recordFailure h hclock
      exact ⟨hmoved.documented, hmoved.opened⟩
    · exact h

/-- A success that is reported while the breaker is open closes it. -/
theorem successNotOpen_of_documented (w : Callers) (ev : CallEvent)
    (h : Documented p (w.step p ev).changes) : SuccessNotOpen w ev := by
  cases ev with
  | allow now => trivial
  | failure k now => trivial
  | success k now =>
    intro hk hopened
    have hclosed : w.breaker.recordSuccess.state = .closed := rfl
    simp only [step, if_pos hk, moved, hclosed, hopened] at h
    cases h

/-- **The documented state machine**: on a clock that does not go back, all changes of the stored
state are documented ones exactly when no success is reported while the breaker is open. -/
theorem documented_iff (p : BreakerParams) (start : ℚ) (evs : List CallEvent)
    (hclock : (start :: evs.map CallEvent.time).Pairwise (· ≤ ·)) :
    Runs.Always (step p) (fun w => Documented p w.changes) { now := start } evs ↔
      Runs.EachStep (step p) SuccessNotOpen { now := start } evs :=
  Runs.always_iff_eachStep (fun _ h => h.documented) follows_step
    (fun w ev _ _ => successNotOpen_of_documented w ev) ⟨.nil, by rintro ⟨⟩⟩
    (eachStep_clockMoves p hclock)

/-- A trial that succeeds. -/
theorem documented_iff_trial :
    let evs := [.allow 0, .failure 0 1, .allow 40, .success 0 41]
    ∃ p, BreakerParams.create "api" 1 30 1 = .ok p ∧
      (Runs.Always (step p) (fun w => Documented p w.changes) { now := 0 } evs ↔
        Runs.EachStep (step p) SuccessNotOpen { now := 0 } evs) := by
  intro evs
  refine ⟨⟨"api", 1, 30, 1, le_rfl, by norm_num, le_rfl⟩, rfl, ?_⟩
  exact documented_iff _ 0 evs (by decide +kernel)

/-- Of two calls that overlap, one fails and opens the breaker, and the other one succeeds. -/
theorem exists_not_documented : ¬ ∀ (p : BreakerParams) (start : ℚ) (evs : List CallEvent),
    (start :: evs.map CallEvent.time).Pairwise (· ≤ ·) →
      Runs.Always (step p) (fun w => Documented p w.changes) { now := start } evs := by
  intro hall
  let p : BreakerParams := ⟨"api", 1, 30, 1, le_rfl, by norm_num, le_rfl⟩
  let evs : List CallEvent := [.allow 0, .allow 0, .failure 0 1, .success 0 2]
  have hlast := (hall p 0 evs (by decide +kernel)).last
  have hchanges : (Runs.run (step p) { now := 0 } evs).changes =
      [⟨2, .opened, .closed⟩, ⟨1, .closed, .opened⟩] := by
    decide +kernel
  rw [hchanges] at hlast
  cases hlast

/-! ## Trials -/

/-- The trials in flight, each by its half-open period. -/
def trials (w : Callers) : List ℕ := w.inFlight.reduceOption

/-- After the step to half open that the clock asks for. -/
def polled (p : BreakerParams) (w : Callers) (now : ℚ) : Callers :=
  w.moved (w.breaker.maybeHalfOpen p now) now

/-- A trial is admitted only while the trials of earlier half-open periods that are in flight and
the trials of its own period leave room for it. -/
def RoomForTrial (p : BreakerParams) (w : Callers) : CallEvent → Prop
  | .allow now =>
    let w := w.polled p now
    w.breaker.state = .halfOpen → w.breaker.halfOpenCalls < p.halfOpenMaxCalls →
      (w.trials.countP (· ≠ w.period) + w.breaker.halfOpenCalls : ℤ) < p.halfOpenMaxCalls
  | _ => True

/-- The count of slots is the count of the trials of the current period, which holds only because
any report ends the period. -/
structure Counts (p : BreakerParams) (w : Callers) : Prop where
  bound : (w.trials.length : ℤ) ≤ p.halfOpenMaxCalls
  past : ∀ i ∈ w.trials, i ≤ w.period
  current : w.breaker.state = .halfOpen → w.trials.count w.period = w.breaker.halfOpenCalls

theorem period_moved_same {w : Callers} {b : CircuitBreaker} {now : ℚ}
    (h : b.state = w.breaker.state) : (w.moved b now).period = w.period := by
  rw [period, moved, if_pos h, period]

theorem period_moved_of_ne (w : Callers) {b : CircuitBreaker} (now : ℚ)
    (h : b.state ≠ .halfOpen) : (w.moved b now).period = w.period := by
  simp only [period, moved]
  split_ifs
  · rfl
  · simp [h]

theorem period_moved_halfOpen {w : Callers} {b : CircuitBreaker} {now : ℚ}
    (hbefore : w.breaker.state = .opened) (h : b.state = .halfOpen) :
    (w.moved b now).period = w.period + 1 := by
  simp [period, moved, hbefore, h]

theorem length_trials (w : Callers) :
    w.trials.length = w.trials.count w.period + w.trials.countP (· ≠ w.period) := by
  rw [List.count, List.length_eq_countP_add_countP (· == w.period)]
  simp

theorem counts_polled {w : Callers} (now : ℚ) (h : Counts p w) : Counts p (w.polled p now) := by
  rw [polled]
  rcases CircuitBreaker.maybeHalfOpen_cases p w.breaker now with
    hsame | ⟨t, hopened, -, -, hhalf⟩
  · rw [hsame]
    have hperiod : (w.moved w.breaker now).period = w.period := period_moved_same rfl
    exact ⟨h.bound, fun i hi => hperiod ▸ h.past i hi, fun hstate => hperiod ▸ h.current hstate⟩
  · rw [hhalf]
    -- A new period, which no call in flight belongs to.
    have hperiod : (w.moved { w.breaker with state := .halfOpen, halfOpenCalls := 0 } now).period =
        w.period + 1 := period_moved_halfOpen hopened rfl
    refine ⟨h.bound, fun i hi => ?_, fun _ => ?_⟩
    · rw [hperiod]
      exact (h.past i hi).trans (Nat.le_succ _)
    · rw [hperiod]
      exact List.count_eq_zero.2 fun hmem => absurd (h.past _ hmem) (Nat.not_succ_le_self _)

/-- A report leaves a state that is not half open. -/
theorem counts_report {w : Callers} {b : CircuitBreaker} (k : ℕ) (now : ℚ) (h : Counts p w)
    (hb : b.state ≠ .halfOpen) :
    Counts p { w.moved b now with inFlight := w.inFlight.eraseIdx k } := by
  have hsub : (w.inFlight.eraseIdx k).reduceOption.Sublist w.trials :=
    (List.eraseIdx_sublist w.inFlight k).filterMap id
  have hperiod := period_moved_of_ne w now hb
  refine ⟨?_, fun i hi => ?_, fun hstate => absurd hstate hb⟩
  · exact (Int.ofNat_le.2 hsub.length_le).trans h.bound
  · exact (h.past i (hsub.subset hi)).trans_eq hperiod.symm

theorem recordFailure_state {b : CircuitBreaker} {now : ℚ} :
    (b.recordFailure p now).state ≠ .halfOpen := by
  rcases CircuitBreaker.recordFailure_cases p b now with heq | heq | ⟨hstate, heq⟩
  · simp [heq, CircuitBreaker.tripOpen]
  · simp [heq, CircuitBreaker.tripOpen]
  · simpa [heq] using hstate

/-- The call takes a slot of the half-open period. -/
def withTrial (w : Callers) : Callers :=
  { w with
    breaker := { w.breaker with halfOpenCalls := w.breaker.halfOpenCalls + 1 }
    inFlight := some w.period :: w.inFlight }

@[simp] theorem trials_withTrial (w : Callers) : w.withTrial.trials = w.period :: w.trials := rfl

@[simp] theorem period_withTrial (w : Callers) : w.withTrial.period = w.period := rfl

/-- What `allow` does to the calls in flight. -/
theorem step_allow (p : BreakerParams) (w : Callers) (now : ℚ) :
    let w' := w.polled p now
    (w'.breaker.state = .halfOpen → p.halfOpenMaxCalls ≤ w'.breaker.halfOpenCalls) ∧
        w.step p (.allow now) = w' ∨
      w'.breaker.state = .closed ∧
        w.step p (.allow now) = { w' with inFlight := none :: w'.inFlight } ∨
      w'.breaker.state = .halfOpen ∧ w'.breaker.halfOpenCalls < p.halfOpenMaxCalls ∧
        w.step p (.allow now) = w'.withTrial := by
  intro w'
  rcases CircuitBreaker.allow_cases p w.breaker now with
    ⟨hfull, h⟩ | ⟨hstate, h⟩ | ⟨hstate, hroom, h⟩
  · refine .inl ⟨hfull, ?_⟩
    simp only [step, h]
    rfl
  · refine .inr (.inl ⟨hstate, ?_⟩)
    simp only [step, h, if_true, hstate]
    rfl
  · refine .inr (.inr ⟨hstate, hroom, ?_⟩)
    simp only [step, h, if_true]
    rw [if_pos hstate]
    rfl

theorem counts_withTrial {w : Callers} (h : Counts p w) (hstate : w.breaker.state = .halfOpen)
    (hroom : (w.trials.countP (· ≠ w.period) + w.breaker.halfOpenCalls : ℤ) < p.halfOpenMaxCalls) :
    Counts p w.withTrial := by
  have hlength := length_trials w
  have hcurrent := h.current hstate
  refine ⟨?_, ?_, fun _ => ?_⟩
  · rw [trials_withTrial, List.length_cons]
    omega
  · rw [trials_withTrial, period_withTrial]
    exact List.forall_mem_cons.2 ⟨le_rfl, h.past⟩
  · rw [trials_withTrial, period_withTrial, List.count_cons_self, hcurrent]
    rfl

theorem counts_step (w : Callers) (ev : CallEvent) (h : Counts p w) (hev : RoomForTrial p w ev) :
    Counts p (w.step p ev) := by
  cases ev with
  | allow now =>
    have hpolled := counts_polled now h
    rcases step_allow p w now with ⟨-, heq⟩ | ⟨-, heq⟩ | ⟨hstate, hroom, heq⟩
    · rw [heq]
      exact hpolled
    · rw [heq]
      exact ⟨hpolled.bound, hpolled.past, hpolled.current⟩
    · rw [heq]
      exact counts_withTrial hpolled hstate (hev hstate hroom)
  | success k now =>
    simp only [step]
    split_ifs with hk
    · exact counts_report k now h (by simp [CircuitBreaker.recordSuccess])
    · exact h
  | failure k now =>
    simp only [step]
    split_ifs with hk
    · exact counts_report k now h recordFailure_state
    · exact h

theorem roomForTrial_of_bound (w : Callers) (ev : CallEvent) (h : Counts p w)
    (hbound : ((w.step p ev).trials.length : ℤ) ≤ p.halfOpenMaxCalls) : RoomForTrial p w ev := by
  cases ev with
  | success k now => trivial
  | failure k now => trivial
  | allow now =>
    intro hstate hroom
    have hlength := length_trials (w.polled p now)
    have hcurrent := (counts_polled now h).current hstate
    rcases step_allow p w now with ⟨hfull, -⟩ | ⟨hclosed, -⟩ | ⟨-, -, heq⟩
    · exact absurd hroom (not_lt.2 (hfull hstate))
    · exact absurd (hclosed.symm.trans hstate) (by simp)
    · rw [heq, trials_withTrial, List.length_cons] at hbound
      omega

/-- **The bound on concurrent trials**: at most `half_open_max_calls` trials are in flight at every
moment exactly when each is admitted while the trials of earlier half-open periods leave room. -/
theorem trials_le_iff (p : BreakerParams) (start : ℚ) (evs : List CallEvent) :
    Runs.Always (step p) (fun w => (w.trials.length : ℤ) ≤ p.halfOpenMaxCalls)
      { now := start } evs ↔
      Runs.EachStep (step p) (RoomForTrial p) { now := start } evs := by
  have hstart : trials { now := start } = [] := rfl
  have hcounts : Counts p { now := start } :=
    ⟨by simpa [hstart] using zero_le_one.trans p.halfOpenMaxCalls_pos, by simp [hstart],
      by rintro ⟨⟩⟩
  exact Runs.always_iff_eachStep (I := Counts p) (A := fun _ _ => True) (fun _ h => h.bound)
    (fun w ev _ => counts_step w ev) (fun w ev _ => roomForTrial_of_bound w ev)
    hcounts (Runs.eachStep_of_forall_mem _ fun _ _ => trivial)

/-- A trial is in flight when an older call fails, and the next half-open period admits another
one. -/
theorem exists_not_trials_le : ¬ ∀ (p : BreakerParams) (start : ℚ) (evs : List CallEvent),
    (start :: evs.map CallEvent.time).Pairwise (· ≤ ·) →
      Runs.Always (step p) (fun w => (w.trials.length : ℤ) ≤ p.halfOpenMaxCalls)
        { now := start } evs := by
  intro hall
  let p : BreakerParams := ⟨"api", 1, 30, 1, le_rfl, by norm_num, le_rfl⟩
  let evs : List CallEvent :=
    [.allow 0, .allow 0, .failure 1 1, .allow 40, .failure 1 41, .allow 80]
  have hlast := (hall p 0 evs (by decide +kernel)).last
  have htrials : (Runs.run (step p) { now := 0 } evs).trials = [2, 1] := by
    decide +kernel
  rw [htrials] at hlast
  exact absurd hlast (by decide)

end Callers

end Resilience.Python
