import Resilience.Python.Retry

/-!
# Executions that share a breaker

Any number of executions of the two drivers interleave, request by request, with one breaker. Each
method of the breaker takes its lock, so it is one step.

A driver that `guard` has admitted records an outcome before it ends, on every path
(`releases_runSync`, `releases_runAsync`). So a trial slot that is taken is held by an execution
under way, and with none under way the breaker admits a call as soon as the cooldown has elapsed
(`allow_of_idle`).
-/

namespace Resilience.Python

/-! ## One execution -/

/-- The monitor: whether the execution has been admitted and has recorded no outcome since. -/
def holds (V : Type) : Bool → (e : Request) → Reply V e → Bool
  | held, .allow, allowed => held || allowed
  | _, .recordSuccess, _ | _, .recordFailure, _ => false
  | held, _, _ => held

/-- The monitor only watches. -/
def anyRequest : Bool → Request → Prop := fun _ _ => True

section Holds

variable {V : Type} {policy : RetryPolicy} {p : BreakerParams} (attempt : ℕ)

/-- With `held` or not, nothing is held in the end, whether the program returns or raises. -/
def Releases {α : Type} (x : Driver V α) (held : Bool) : Prop :=
  x.run.Safe anyRequest (holds V) (fun held _ => held = false) held

theorem keeps_request {α : Type} {e : Request} {f : Reply V e → Except Raised α}
    (he : ∀ r, holds V false e r = false) :
    Keeps anyRequest (holds V) (· = false) (perform e f) := by
  refine keeps_perform (fun _ _ => trivial) fun m r hm => ?_
  rw [hm]
  exact he r

theorem keeps_sleepSync :
    Keeps anyRequest (holds V) (· = false) (sleepSync policy attempt) := by
  refine keeps_bind (keeps_request fun _ => rfl) fun delay => ?_
  exact keeps_ite (fun _ => keeps_request fun _ => rfl) fun _ => keeps_fromExcept

theorem keeps_sleepAsync :
    Keeps anyRequest (holds V) (· = false) (sleepAsync policy attempt) :=
  keeps_bind (keeps_request fun _ => rfl) fun _ => keeps_request fun _ => rfl

theorem releases_failed (hcb : policy.circuitBreaker = some p) (held giveUp : Bool) (err : Raised)
    {pause : Driver V Unit} (hpause : Keeps anyRequest (holds V) (· = false) pause) :
    Releases (failed policy giveUp err pause) held := by
  refine safe_except_bind.2 ?_
  rw [recordFailure, hcb]
  refine ⟨trivial, fun _ => ?_⟩
  cases giveUp with
  | true => exact rfl
  | false => exact keeps_bind hpause (fun _ => keeps_fromExcept) _ rfl

theorem releases_succeeded (hcb : policy.circuitBreaker = some p) (held : Bool) (result : V) :
    Releases (succeeded policy result) held := by
  refine safe_except_bind.2 ?_
  rw [recordSuccess, hcb]
  exact ⟨trivial, fun _ => rfl⟩

theorem releases_attemptSync (hcb : policy.circuitBreaker = some p) (held : Bool) :
    Releases (V := V) (attemptSync policy attempt) held := by
  refine ⟨trivial, fun start => ⟨trivial, fun outcome => ?_⟩⟩
  cases outcome with
  | error exc =>
    refine releases_failed hcb held _ _ ?_
    exact keeps_bind (keeps_request fun _ => rfl) fun _ => keeps_sleepSync attempt
  | ok result =>
    refine ⟨trivial, fun stop => ?_⟩
    change Releases (if policy.timeout < stop - start then _ else _) held
    split
    · exact releases_failed hcb held _ _ (keeps_sleepSync attempt)
    · exact releases_succeeded hcb held result

theorem releases_attemptAsync (hcb : policy.circuitBreaker = some p) (held : Bool) :
    Releases (V := V) (attemptAsync policy attempt) held := by
  refine ⟨trivial, fun outcome => ?_⟩
  cases outcome with
  | error exc =>
    change Releases (if exc.isInstance .asyncioTimeoutError = true then _ else _) held
    split
    · exact releases_failed hcb held _ _ (keeps_sleepAsync attempt)
    · exact releases_failed hcb held _ _ (keeps_sleepAsync attempt)
  | ok result => exact releases_succeeded hcb held result

/-- `guard` takes hold where it admits the call. -/
theorem safe_guard (hcb : policy.circuitBreaker = some p) :
    (guard (V := V) policy).run.Safe anyRequest (holds V)
      (fun held r => ∀ err, r = .error err → held = false) false := by
  rw [guard, hcb]
  refine ⟨trivial, fun allowed => ?_⟩
  cases allowed with
  | true => exact fun err herr => by cases herr
  | false => exact ⟨trivial, fun _ _ _ => rfl⟩

theorem releases_drive (hcb : policy.circuitBreaker = some p)
    {body : ℕ → Driver V (Except Raised V)} (hbody : ∀ attempt held, Releases (body attempt) held)
    (left attempt : ℕ) (lastExc : Option Raised) :
    Releases (drive policy body left attempt lastExc) false := by
  induction left generalizing attempt lastExc with
  | zero => cases lastExc <;> exact rfl
  | succ left ih =>
    refine safe_except_bind.2 ((safe_guard hcb).mono fun held r hguard => ?_)
    cases r with
    | error err => exact hguard err rfl
    | ok _ =>
      refine safe_except_bind.2 ((hbody attempt held).mono fun held r hreleased => ?_)
      cases hreleased
      cases r with
      | error err => exact rfl
      | ok outcome =>
        cases outcome with
        | ok result => exact rfl
        | error lastExc => exact ih (attempt + 1) (some lastExc)

/-- **Every path of `_run_sync` that is admitted records an outcome.** -/
theorem releases_runSync (hcb : policy.circuitBreaker = some p) :
    Releases (V := V) (runSync policy) false :=
  releases_drive hcb (fun attempt held => releases_attemptSync attempt hcb held) _ _ _

/-- **Every path of `_run_async` that is admitted records an outcome.** -/
theorem releases_runAsync (hcb : policy.circuitBreaker = some p) :
    Releases (V := V) (runAsync policy) false :=
  releases_drive hcb (fun attempt held => releases_attemptAsync attempt hcb held) _ _ _

end Holds

/-! ## Executions of both drivers -/

/-- An execution: what is left of it. `held` is history: it has been admitted and has recorded no
outcome since. -/
structure Execution (V : Type) where
  prog : Prog Request (Reply V) (Except Raised V)
  held : Bool := false

/-- It returned or raised. -/
def Execution.Ended {V : Type} (x : Execution V) : Prop := ∃ r, x.prog = .ret r

/-- The executions `I`, with the breaker and the last reading of its clock. -/
structure Sharing (I V : Type) where
  gate : Gate
  now : ℚ
  executions : I → Execution V

/-- Asking `e` of the breaker is the operation `op`, with this answer. -/
inductive Performs {V : Type} (p : BreakerParams) (b : CircuitBreaker) :
    (e : Request) → GateOp → Reply V e → Prop
  | allow (now : ℚ) : Performs p b .allow (.allow now) (b.allow p now).1
  | retryAfter (now later : ℚ) :
    Performs p b .retryAfter (.retryAfter now later) (b.retryAfter p now later).1
  | recordSuccess (now : ℚ) : Performs p b .recordSuccess (.recordSuccess now) ()
  | recordFailure (now : ℚ) : Performs p b .recordFailure (.recordFailure now) ()

/-- The methods of the breaker. -/
def Request.OfBreaker : Request → Prop
  | .allow | .retryAfter | .recordSuccess | .recordFailure => True
  | _ => False

namespace Sharing

variable {I V : Type} (p : BreakerParams)

/-- The executions before their first request, with a new breaker. -/
def start (progs : I → Driver V V) (now : ℚ) : Sharing I V where
  gate := .init
  now := now
  executions i := { prog := (progs i).run }

/-- Trial slots are taken only while an execution under way holds one. -/
structure Inv (s : Sharing I V) : Prop where
  reflects : Reflects p s.gate.history s.now s.gate.breaker
  safe : ∀ i, (s.executions i).prog.Safe anyRequest (holds V) (fun held _ => held = false)
    (s.executions i).held
  holder : p.failureThreshold ≤ failures s.gate.history → admitted s.gate.history ≠ 0 →
    ∃ i, (s.executions i).held = true

theorem inv_start {p : BreakerParams} {policies : I → RetryPolicy} {progs : I → Driver V V}
    (hcb : ∀ i, (policies i).circuitBreaker = some p)
    (hprogs : ∀ i, progs i = runSync (policies i) ∨ progs i = runAsync (policies i)) (now : ℚ) :
    Inv p (start progs now) where
  reflects := Gate.reflects_init now
  safe i := by
    rcases hprogs i with h | h
    · change Releases (progs i) false
      exact h ▸ releases_runSync (hcb i)
    · change Releases (progs i) false
      exact h ▸ releases_runAsync (hcb i)
  holder _ h := absurd rfl h

variable [DecidableEq I]

/-- One step: a method of the breaker, or another request with any answer. -/
inductive Step : Sharing I V → Sharing I V → Prop
  | operate {s : Sharing I V} {i e k held} (h : s.executions i = ⟨.ask e k, held⟩) (op : GateOp)
    (r : Reply V e) (hop : Performs p s.gate.breaker e op r)
    (hclock : (s.now :: op.readings).Pairwise (· ≤ ·)) :
    Step s ⟨s.gate.step p op, op.time,
      Function.update s.executions i ⟨k r, holds V held e r⟩⟩
  | answer {s : Sharing I V} {i e k held} (h : s.executions i = ⟨.ask e k, held⟩)
    (he : ¬ e.OfBreaker) (r : Reply V e) :
    Step s { s with executions := Function.update s.executions i ⟨k r, holds V held e r⟩ }

variable {p}

theorem safe_update {s : Sharing I V} (h : Inv p s) {i : I} {e : Request}
    {k : Reply V e → Prog Request (Reply V) (Except Raised V)} {held : Bool}
    (hi : s.executions i = ⟨.ask e k, held⟩) (r : Reply V e) (j : I) :
    let x := Function.update s.executions i ⟨k r, holds V held e r⟩ j
    x.prog.Safe anyRequest (holds V) (fun held _ => held = false) x.held := by
  rcases eq_or_ne j i with rfl | hne
  · rw [Function.update_self]
    have hsafe := h.safe j
    rw [hi] at hsafe
    exact hsafe.2 r
  · rw [Function.update_of_ne hne]
    exact h.safe j

/-- A holder stays one, unless it is the one that moves. -/
theorem holder_update {s : Sharing I V} {i : I} {x : Execution V}
    (hx : (s.executions i).held = true → x.held = true) (h : ∃ j, (s.executions j).held = true) :
    ∃ j, (Function.update s.executions i x j).held = true := by
  obtain ⟨j, hj⟩ := h
  refine ⟨j, ?_⟩
  rcases eq_or_ne j i with rfl | hne
  · rw [Function.update_self]
    exact hx hj
  · rwa [Function.update_of_ne hne]

theorem inv_step {s s' : Sharing I V} (h : Inv p s) (hstep : Step p s s') : Inv p s' := by
  cases hstep with
  | @operate i e k held hi op r hop hclock =>
    refine ⟨Gate.reflects_step h.reflects op hclock, safe_update h hi r, ?_⟩
    cases hop with
    | allow now =>
      cases hadmitted : (s.gate.breaker.allow p now).1 with
      | true => exact fun _ _ => ⟨i, by simp [holds]⟩
      | false =>
        intro hf ha
        simp only [Gate.step_allow, hadmitted, failures, admitted] at hf ha
        exact holder_update (by simp [hi, holds]) (h.holder hf ha)
    | retryAfter now later =>
      exact fun hf ha => holder_update (by simp [hi, holds]) (h.holder hf ha)
    | recordSuccess now =>
      intro hf
      exact absurd hf (not_le.2 (zero_lt_one.trans_le p.failureThreshold_pos))
    | recordFailure now => exact fun _ ha => absurd rfl ha
  | @answer i e k held hi he r =>
    refine ⟨h.reflects, safe_update h hi r, fun hf ha => holder_update ?_ (h.holder hf ha)⟩
    have hholds : holds V held e r = held := by
      cases e <;> first | rfl | exact absurd trivial he
    simp [hi, hholds]

theorem inv_of_reachable {policies : I → RetryPolicy} {progs : I → Driver V V}
    (hcb : ∀ i, (policies i).circuitBreaker = some p)
    (hprogs : ∀ i, progs i = runSync (policies i) ∨ progs i = runAsync (policies i)) {now : ℚ}
    {s : Sharing I V} (hrun : Relation.ReflTransGen (Step p) (start progs now) s) : Inv p s := by
  induction hrun with
  | refl => exact inv_start hcb hprogs now
  | tail _ hstep ih => exact inv_step ih hstep

/-- **A breaker shared by the drivers never wedges.** In any state that the executions reach, if no
execution is between its admission and its outcome, then from the end of the cooldown on, counted
from the last recorded failure, the breaker admits a call. -/
theorem allow_of_idle (p : BreakerParams) (policies : I → RetryPolicy) (progs : I → Driver V V)
    (hcb : ∀ i, (policies i).circuitBreaker = some p)
    (hprogs : ∀ i, progs i = runSync (policies i) ∨ progs i = runAsync (policies i)) (begin : ℚ)
    {s : Sharing I V} (hrun : Relation.ReflTransGen (Step p) (start progs begin) s)
    (hidle : ∀ i, (s.executions i).held = true → (s.executions i).Ended) (now : ℚ)
    (hnow : s.now ≤ now)
    (hcooldown : ∀ t, lastFailure s.gate.history = some t → p.cooldownSeconds ≤ now - t) :
    (s.gate.breaker.allow p now).1 = true := by
  have hinv := inv_of_reachable hcb hprogs hrun
  -- Nothing is held: an execution that has ended holds nothing, and the others are idle.
  have hfree (i : I) : (s.executions i).held ≠ true := by
    intro hheld
    obtain ⟨r, hr⟩ := hidle i hheld
    have hsafe := hinv.safe i
    rw [hr, Prog.safe_ret, hheld] at hsafe
    cases hsafe
  refine (reflects_allow (hinv.reflects.mono hnow)).1.2 ?_
  rcases lt_or_ge (failures s.gate.history : ℤ) p.failureThreshold with hlt | hle
  · exact .inl hlt
  · obtain ⟨t, ht⟩ := hinv.reflects.exists_lastFailure hle
    have hnone : admitted s.gate.history = 0 := by
      by_contra hne
      obtain ⟨i, hi⟩ := hinv.holder hle hne
      exact hfree i hi
    refine .inr ⟨t, ht, hcooldown t ht, ?_⟩
    rw [hnone]
    exact zero_lt_one.trans_le p.halfOpenMaxCalls_pos

/-- A call fails and opens the breaker; after the cooldown the next one is admitted. -/
theorem allow_of_idle_failed :
    ∃ p policy, BreakerParams.create "api" 1 30 1 = .ok p ∧
      RetryPolicy.create 1 1 0 0 1 [.exception] [] (some p) = .ok policy ∧
      ∃ s : Sharing Unit ℕ,
        Relation.ReflTransGen (Step p) (start (fun _ => runSync policy) 0) s ∧
        s.gate.history = [.failure 1, .allow true] ∧ (s.gate.breaker.allow p 31).1 = true := by
  let p : BreakerParams := ⟨"api", 1, 30, 1, le_rfl, by norm_num, le_rfl⟩
  let policy : RetryPolicy := ⟨1, 1, 0, 0, 1, [.exception], [], some p, one_pos, le_rfl, le_rfl,
    le_rfl, le_rfl⟩
  refine ⟨p, policy, rfl, by norm_num [RetryPolicy.create, policy], ?_⟩
  let err : PyException := ⟨"ValueError()", [.exception], none, none⟩
  have hfirst : ([0, 0] : List ℚ).Pairwise (· ≤ ·) := by decide +kernel
  have hsecond : ([0, 1] : List ℚ).Pairwise (· ≤ ·) := by decide +kernel
  obtain ⟨s, hrun, hhistory, hnow, hheld⟩ : ∃ s : Sharing Unit ℕ,
      Relation.ReflTransGen (Step p) (start (fun _ => runSync policy) 0) s ∧
        s.gate.history = [.failure 1, .allow true] ∧ s.now = 1 ∧
        (s.executions ()).held = false := by
    refine ⟨_, .head (.operate (i := ()) rfl (.allow 0) true (.allow 0) hfirst) <|
      .head (.answer (i := ()) rfl id (0 : ℚ)) <|
      .head (.answer (i := ()) rfl id (Except.error err : Except PyException ℕ)) <|
      .head (.operate (i := ()) rfl (.recordFailure 1) () (.recordFailure 1) hsecond) .refl,
      rfl, rfl, rfl⟩
  refine ⟨s, hrun, hhistory, ?_⟩
  refine allow_of_idle p (fun _ => policy) _ (fun _ => rfl) (fun _ => .inl rfl) 0 hrun ?_ 31
    ?_ ?_
  · exact fun _ hheld' => absurd (hheld.symm.trans hheld') Bool.false_ne_true
  · rw [hnow]
    norm_num
  · intro t ht
    rw [hhistory, lastFailure, Option.some.injEq] at ht
    rw [← ht]
    norm_num [p]

end Sharing

end Resilience.Python
