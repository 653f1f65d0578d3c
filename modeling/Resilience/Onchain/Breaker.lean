import Resilience.Onchain.TypeScript
import Mathlib.Algebra.Order.Ring.Rat
import Mathlib.Tactic.Linarith

/-!
# The circuit breaker of the TypeScript client

`CircuitBreaker` in `onchain/typescript/src/index.ts`, and any number of calls of `sendWithRetry`
that share one. The calls interleave request by request; the methods of the breaker run at once,
every other request is answered later, by anything. The clock may change at any time.

A call asks the breaker once, before its first attempt. So the breaker holds off submissions as long
as no failure opens it while a call can submit without asking it again (`not_isOpen_of_submits`).
Half-open it lets one call through at a time, as long as the calls that ask it then do not overlap
and nothing they are answered ends them without an outcome (`trials_le_one`): on every other answer
`sendWithRetry` records one (`sendWithRetry_pays`).
-/

namespace Resilience.Onchain.TypeScript

/-! ## The breaker -/

/-- `CircuitBreaker`, without its clock. -/
structure CircuitBreaker where
  threshold : ℚ
  cooldownMs : ℚ
  consecutiveFailures : ℕ
  openedAt : Option ℚ
  threshold_ge : 1 ≤ threshold
  /-- It is opened when the failures reach the threshold. -/
  opened : openedAt.isSome = true ↔ threshold ≤ consecutiveFailures

namespace CircuitBreaker

/-- The constructor. -/
def create (threshold : ℚ) (cooldownMs : ℚ := 0) : Except Thrown CircuitBreaker :=
  if h : threshold < 1 then .error (.onchainWriteError "threshold must be >= 1" "BAD_CONFIG")
  else .ok {
    threshold, cooldownMs
    consecutiveFailures := 0
    openedAt := none
    threshold_ge := not_lt.1 h
    opened := iff_of_false Bool.false_ne_true (by push_cast; linarith) }

variable (b : CircuitBreaker) (now : ℚ)

def assertClosed : Except String Unit :=
  match b.openedAt with
  | none => .ok ()
  | some openedAt =>
    if 0 < b.cooldownMs ∧ b.cooldownMs ≤ now - openedAt then .ok ()
    else .error s!"circuit open after {b.consecutiveFailures} consecutive failures"

def recordSuccess : CircuitBreaker where
  threshold := b.threshold
  cooldownMs := b.cooldownMs
  consecutiveFailures := 0
  openedAt := none
  threshold_ge := b.threshold_ge
  opened := iff_of_false Bool.false_ne_true (by have := b.threshold_ge; push_cast; linarith)

def recordFailure : CircuitBreaker where
  threshold := b.threshold
  cooldownMs := b.cooldownMs
  consecutiveFailures := b.consecutiveFailures + 1
  openedAt := if b.threshold ≤ ↑(b.consecutiveFailures + 1) then some now else b.openedAt
  threshold_ge := b.threshold_ge
  opened := by
    split
    · exact iff_of_true rfl ‹_›
    · rename_i h
      refine iff_of_false (fun hopened => h ?_) h
      have := b.opened.1 hopened
      push_cast
      linarith

def isOpen : Bool :=
  match b.assertClosed now with
  | .ok _ => false
  | .error _ => true

variable {b now}

theorem assertClosed_eq_ok (h : b.isOpen now = false) : b.assertClosed now = .ok () := by
  unfold isOpen at h
  cases hr : b.assertClosed now with
  | ok _ => rfl
  | error _ => simp [hr] at h

theorem assertClosed_eq_error (h : b.isOpen now = true) :
    ∃ m, b.assertClosed now = .error m := by
  unfold isOpen at h
  cases hr : b.assertClosed now with
  | ok _ => simp [hr] at h
  | error m => exact ⟨m, rfl⟩

variable (b now)

/-- It is open while the failures have reached the threshold and the cooldown has not elapsed. -/
theorem isOpen_iff : b.isOpen now = true ↔ ∃ openedAt, b.openedAt = some openedAt ∧
    ¬ (0 < b.cooldownMs ∧ b.cooldownMs ≤ now - openedAt) := by
  unfold isOpen assertClosed
  cases b.openedAt with
  | none => simp
  | some openedAt =>
    dsimp only
    split_ifs with h
    · refine iff_of_false nofun ?_
      rintro ⟨_, ⟨⟩, helapsed⟩
      exact helapsed h
    · exact iff_of_true rfl ⟨openedAt, rfl, h⟩

/-- A failure that reaches the threshold opens it. -/
theorem openedAt_recordFailure (h : b.threshold ≤ ↑(b.consecutiveFailures + 1)) :
    (b.recordFailure now).openedAt = some now := if_pos h

/-- When the cooldown has elapsed, it lets calls through. -/
theorem isOpen_eq_false {openedAt : ℚ} (hopened : b.openedAt = some openedAt)
    (hcooldown : 0 < b.cooldownMs) (helapsed : b.cooldownMs ≤ now - openedAt) :
    b.isOpen now = false := by
  rw [Bool.eq_false_iff, ne_eq, isOpen_iff, hopened]
  rintro ⟨_, ⟨⟩, h⟩
  exact h ⟨hcooldown, helapsed⟩

/-- Time does not open it. -/
theorem isOpen_of_le {now now' : ℚ} (hle : now ≤ now') (h : b.isOpen now' = true) :
    b.isOpen now = true := by
  rw [isOpen_iff] at h ⊢
  obtain ⟨openedAt, hopened, helapsed⟩ := h
  refine ⟨openedAt, hopened, fun h => helapsed ⟨h.1, ?_⟩⟩
  linarith [h.2]

/-- A failure that does not reach the threshold does not open it. -/
theorem isOpen_recordFailure (h : ¬ b.threshold ≤ ↑(b.consecutiveFailures + 1)) :
    (b.recordFailure now).isOpen now = b.isOpen now := by
  have hopened : (b.recordFailure now).openedAt = b.openedAt := if_neg h
  rw [Bool.eq_iff_iff, isOpen_iff, isOpen_iff, hopened]
  rfl

end CircuitBreaker

/-! ## Calls that share a breaker -/

/-- A call: what is left of it, and whether its next request has been made and not yet answered.
`trial` is history: the breaker let the call through half-open, and no outcome has been recorded
since. -/
structure Call where
  prog : Prog Request Answer (Except Thrown NormalizedReceipt)
  waiting : Bool := false
  trial : Bool := false

/-- The methods of the breaker. -/
def Request.Sync : Request → Prop
  | .assertClosed | .recordSuccess | .recordFailure => True
  | _ => False

/-- The calls `I`, with the breaker and the time its clock shows. `trials` is history: how many
calls the breaker has let through, half-open, since the last outcome. -/
structure Shared (I : Type) where
  breaker : CircuitBreaker
  now : ℚ
  calls : I → Call
  trials : ℕ := 0

/-- What a step does. -/
inductive Act (I : Type)
  | request (i : I)
  | answer (i : I) (e : Request) (r : Answer e)
  | check (i : I)
  | success (i : I)
  | failure (i : I)
  | tick

namespace Shared

variable {I : Type} [DecidableEq I]

def set (s : Shared I) (i : I) (c : Call) : Shared I :=
  { s with calls := Function.update s.calls i c }

/-- The history after an outcome: no call is on trial. -/
def settle (s : Shared I) : Shared I :=
  { s with trials := 0, calls := fun j => { s.calls j with trial := false } }

/-- The breaker is open, and lets a call through. -/
def HalfOpen (s : Shared I) : Prop :=
  s.breaker.openedAt.isSome = true ∧ s.breaker.isOpen s.now = false

instance (s : Shared I) : Decidable s.HalfOpen := inferInstanceAs (Decidable (_ ∧ _))

/-- `breaker.assertClosed()`. -/
def check (s : Shared I) (i : I)
    (k : Answer .assertClosed → Prog Request Answer (Except Thrown NormalizedReceipt)) : Shared I :=
  { s with trials := if s.HalfOpen then s.trials + 1 else s.trials }.set i
    { prog := k (s.breaker.assertClosed s.now)
      trial := (s.calls i).trial || decide s.HalfOpen }

/-- `breaker.recordSuccess()`. -/
def success (s : Shared I) (i : I)
    (k : Answer .recordSuccess → Prog Request Answer (Except Thrown NormalizedReceipt)) :
    Shared I :=
  { s.settle with breaker := s.breaker.recordSuccess }.set i { prog := k () }

/-- `breaker.recordFailure()`. -/
def failure (s : Shared I) (i : I)
    (k : Answer .recordFailure → Prog Request Answer (Except Thrown NormalizedReceipt)) :
    Shared I :=
  { s.settle with breaker := s.breaker.recordFailure s.now }.set i { prog := k () }

inductive Step : Shared I → Act I → Shared I → Prop
  | request {s i e k b} (h : s.calls i = ⟨.ask e k, false, b⟩) (he : ¬ e.Sync) :
    Step s (.request i) (s.set i ⟨.ask e k, true, b⟩)
  | answer {s i e k b} (h : s.calls i = ⟨.ask e k, true, b⟩) (he : ¬ e.Sync) (r : Answer e) :
    Step s (.answer i e r) (s.set i ⟨k r, false, b⟩)
  | check {s i k b} (h : s.calls i = ⟨.ask .assertClosed k, false, b⟩) :
      Step s (.check i) (s.check i k)
  | success {s i k b} (h : s.calls i = ⟨.ask .recordSuccess k, false, b⟩) :
    Step s (.success i) (s.success i k)
  | failure {s i k b} (h : s.calls i = ⟨.ask .recordFailure k, false, b⟩) :
    Step s (.failure i) (s.failure i k)
  | tick {s} (now : ℚ) : Step s .tick { s with now }

/-- Runs whose steps all satisfy `G`. -/
abbrev Run (G : Shared I → Act I → Shared I → Prop) : Shared I → Shared I → Prop :=
  Relation.ReflTransGen fun s s' => ∃ a, Step s a s' ∧ G s a s'

section Run

variable {G : Shared I → Act I → Shared I → Prop} {s s' : Shared I} (i : I) {e : Request} {b : Bool}

theorem Run.request {k : Answer e → Prog Request Answer (Except Thrown NormalizedReceipt)}
    (h : s.calls i = ⟨.ask e k, false, b⟩) (he : ¬ e.Sync)
    (hG : G s (.request i) (s.set i ⟨.ask e k, true, b⟩))
    (hrun : Run G (s.set i ⟨.ask e k, true, b⟩) s') : Run G s s' :=
  .head ⟨_, .request h he, hG⟩ hrun

theorem Run.answer {k : Answer e → Prog Request Answer (Except Thrown NormalizedReceipt)}
    (h : s.calls i = ⟨.ask e k, true, b⟩) (he : ¬ e.Sync) (r : Answer e)
    (hG : G s (.answer i e r) (s.set i ⟨k r, false, b⟩))
    (hrun : Run G (s.set i ⟨k r, false, b⟩) s') :
    Run G s s' :=
  .head ⟨_, .answer h he r, hG⟩ hrun

theorem Run.check {k : Answer .assertClosed → Prog Request Answer (Except Thrown NormalizedReceipt)}
    (h : s.calls i = ⟨.ask .assertClosed k, false, b⟩) (hG : G s (.check i) (s.check i k))
    (hrun : Run G (s.check i k) s') : Run G s s' :=
  .head ⟨_, .check h, hG⟩ hrun

/-- A call that is let through. -/
theorem Run.pass {k : Answer .assertClosed → Prog Request Answer (Except Thrown NormalizedReceipt)}
    (h : s.calls i = ⟨.ask .assertClosed k, false, b⟩) (hopen : s.breaker.isOpen s.now = false)
    (hG : G s (.check i) (s.check i k))
    (hrun : Run G ({ s with trials := if s.HalfOpen then s.trials + 1 else s.trials }.set i
      ⟨k (.ok ()), false, b || decide s.HalfOpen⟩) s') : Run G s s' := by
  refine .check i h hG ?_
  unfold Shared.check
  rwa [CircuitBreaker.assertClosed_eq_ok hopen, h]

theorem Run.failure
    {k : Answer .recordFailure → Prog Request Answer (Except Thrown NormalizedReceipt)}
    (h : s.calls i = ⟨.ask .recordFailure k, false, b⟩) (hG : G s (.failure i) (s.failure i k))
    (hrun : Run G (s.failure i k) s') : Run G s s' :=
  .head ⟨_, .failure h, hG⟩ hrun

theorem Run.tick (now : ℚ) (hG : G s .tick { s with now })
    (hrun : Run G { s with now } s') : Run G s s' :=
  .head ⟨_, .tick now, hG⟩ hrun

end Run

/-- The calls before their first request, all with this breaker. -/
def start (opts : I → SendWithRetryOpts) (breaker : CircuitBreaker) (now : ℚ) : Shared I where
  breaker := breaker
  now := now
  calls i := { prog := (sendWithRetry { opts i with breaker := true }).run }

end Shared

/-! ## The requests of the loop -/

/-- The requests of the guards. -/
def Request.Guard : Request → Prop
  | .alreadySent _ | .assertClosed => True
  | _ => False

/-- Every other request is allowed and keeps the property. -/
def LoopKeeps {M : Type} (ok : M → Request → Prop) (next : M → (e : Request) → Answer e → M)
    (I : M → Prop) : Prop :=
  ∀ e, ¬ e.Guard → ∀ m, I m → ok m e ∧ ∀ r, I (next m e r)

section Loop

variable {M : Type} {ok : M → Request → Prop} {next : M → (e : Request) → Answer e → M}
  {I : M → Prop} (h : LoopKeeps ok next I) (s : Settings) (attempt nonce : ℤ) (fee : FeeFields)
  (err : Thrown)

include h

theorem keeps_request {α : Type} {e : Request} (f : Answer e → Except Thrown α) (he : ¬ e.Guard) :
    Keeps ok next I (perform e f) :=
  keeps_perform (fun m hm => (h e he m hm).1) fun m r hm => (h e he m hm).2 r

theorem keeps_recordFailure : Keeps ok next I (recordFailure s) :=
  keeps_ite (fun _ => keeps_request h _ id) fun _ => keeps_fromExcept

theorem keeps_recordSuccess : Keeps ok next I (recordSuccess s) :=
  keeps_ite (fun _ => keeps_request h _ id) fun _ => keeps_fromExcept

theorem keeps_submitAndConfirm : Keeps ok next I (submitAndConfirm s attempt nonce fee) := by
  refine keeps_bind (keeps_request h _ id) fun submitted => ?_
  refine keeps_bind (keeps_request h _ id) fun _ => ?_
  refine keeps_bind (keeps_request h _ id) fun receipt => ?_
  refine keeps_ite (fun _ => ?_) fun _ => ?_
  · exact keeps_bind (keeps_recordFailure h s) fun _ => keeps_fromExcept
  · refine keeps_bind (keeps_recordSuccess h s) fun _ => ?_
    exact keeps_bind (keeps_request h _ id) fun _ => keeps_fromExcept

theorem keeps_failAttempt : Keeps ok next I (failAttempt s attempt nonce fee err) := by
  refine keeps_bind (keeps_recordFailure h s) fun _ => ?_
  refine keeps_ite (fun _ => keeps_fromExcept) fun _ => ?_
  refine keeps_ite (fun _ => keeps_bind keeps_fromExcept fun fee => ?_) fun _ => keeps_fromExcept
  refine keeps_bind (keeps_request h _ id) fun _ => ?_
  exact keeps_bind (keeps_request h _ id) fun _ => keeps_fromExcept

theorem keeps_onError : Keeps ok next I (onError s attempt nonce fee err) := by
  refine keeps_ite (fun _ => keeps_fromExcept) fun _ => keeps_ite (fun _ => ?_) fun _ =>
    keeps_failAttempt h s attempt nonce fee err
  refine keeps_bind (keeps_request h _ id) fun _ => ?_
  refine keeps_bind (keeps_request h _ id) fun state => ?_
  refine keeps_bind keeps_fromExcept fun fee => keeps_ite (fun _ => ?_) fun _ =>
    keeps_failAttempt h s attempt _ fee err
  exact keeps_bind (keeps_request h _ id) fun _ => keeps_fromExcept

theorem keeps_attempts (left : ℕ) : Keeps ok next I (attempts s left attempt nonce fee err) := by
  induction left generalizing attempt nonce fee err with
  | zero => exact keeps_fromExcept
  | succ left ih =>
    have htry : Keeps ok next I (observe (submitAndConfirm s attempt nonce fee)) :=
      fun m hm => safe_observe.2 (keeps_submitAndConfirm h s attempt nonce fee m hm)
    refine keeps_bind htry fun r => ?_
    cases r with
    | ok receipt => exact keeps_fromExcept
    | error err => exact keeps_bind (keeps_onError h s attempt nonce fee err) fun next => ih _ _ _ _

end Loop

/-! ## The outcome of a call -/

/-- The answers on which a call ends, or goes on to its next attempt, without an outcome: a callback
throws where nothing catches it, the state lacks the fee of the mode, or what a callback of the
attempt throws is a `TxFailedError`. -/
def spoils (mode : FeeMode) : (e : Request) → Answer e → Bool
  | .fetchState, .ok state => match initialFee mode state.fee with
    | .ok _ => false
    | .error _ => true
  | .fetchState, .error _ | .log (.refreshing _), .error _ | .sleep _, .error _ => true
  | .log (.sent _ _ _ _), .error err => err.isTxFailedError
  | .signSend _, .settled (.error err) | .wait _, .settled (.error err) => err.isTxFailedError
  | _, _ => false

/-- The monitor: whether the call owes the breaker no outcome. It owes one from an `assertClosed`
that returns on, and is let off by an answer that spoils it. -/
def paid (mode : FeeMode) (m : Bool) : (e : Request) → Answer e → Bool
  | .assertClosed, .ok _ => false
  | .assertClosed, .error _ | .recordSuccess, _ | .recordFailure, _ => true
  | e, r => m || spoils mode e r

/-- A call that owes an outcome does not ask the breaker again. -/
def AsksOnce (m : Bool) (e : Request) : Prop := e = .assertClosed → m = true

/-- The program ends when no outcome is owed. -/
abbrev Pays {α : Type} (mode : FeeMode) (m : Bool) (p : Prog Request Answer α) : Prop :=
  p.Safe AsksOnce (paid mode) (fun m _ => m = true) m

/-- What an attempt leaves behind: its outcome is recorded, or it throws no `TxFailedError`. -/
def Settled {α : Type} (m : Bool) (r : Except Thrown α) : Prop :=
  m = true ∨ ∃ err, r = .error err ∧ err.isTxFailedError = false

/-- What a callback of an attempt throws is let off as a `TxFailedError`, or settled otherwise. -/
theorem settled_of_thrown {α β : Type} {r : Called α} {err : Thrown} (h : r.result = .error err)
    {m m' : Bool} (hm : ∀ e, r = .error e → m' = (m || e.isTxFailedError)) :
    Settled m' (.error err : Except Thrown β) := by
  cases r with
  | ok a => cases h
  | error e =>
    cases h
    cases he : e.isTxFailedError with
    | true => exact .inl ((hm e rfl).trans (by rw [he, Bool.or_true]))
    | false => exact .inr ⟨_, rfl, he⟩

section Outcome

variable {mode : FeeMode}

theorem paid_true {e : Request} (he : e ≠ .assertClosed) (r : Answer e) :
    paid mode true e r = true := by
  cases e with
  | assertClosed => exact absurd rfl he
  | _ => rfl

theorem paid_of_not_spoils {e : Request} {r : Answer e} (he : ¬ e.Sync)
    (h : spoils mode e r = false) (m : Bool) : paid mode m e r = m := by
  cases e with
  | assertClosed | recordSuccess | recordFailure => exact absurd trivial he
  | _ => exact (congrArg (m || ·) h).trans (Bool.or_false m)

theorem loopKeeps_paid : LoopKeeps AsksOnce (paid mode) (· = true) := by
  rintro e he m rfl
  refine ⟨fun _ => rfl, fun r => paid_true ?_ r⟩
  rintro rfl
  exact he trivial

/-- A program that may owe an outcome may as well owe none. -/
theorem pays_true {α : Type} {p : Prog Request Answer α} {m : Bool} (h : Pays mode m p) :
    Pays mode true p := by
  cases m with
  | true => exact h
  | false =>
    induction p with
    | ret a => rfl
    | ask e k ih =>
      refine ⟨fun _ => rfl, fun r => ?_⟩
      have hk : Pays mode (paid mode false e r) (k r) := h.2 r
      have htrue : Pays mode true (k r) := by
        cases hm : paid mode false e r with
        | true => exact hm ▸ hk
        | false => exact ih r (hm ▸ hk)
      cases e with
      | assertClosed => cases r <;> exact hk
      | _ => exact htrue

/-- After a program that pays, the rest owes nothing. -/
theorem pays_bind {α β : Type} {x : Async α} {f : α → Async β} {m : Bool}
    (hx : Pays mode m x.run) (hf : ∀ a, Keeps AsksOnce (paid mode) (· = true) (f a)) :
    Pays mode m (x >>= f).run := by
  refine safe_except_bind.2 (hx.mono ?_)
  rintro m (e | a) hm
  · exact hm
  · exact hf a m hm

/-- The state is fetched and its fee is read: otherwise the call is let off. -/
theorem fetch_pays {α : Type} {g : StateResult → FeeFields → Async α}
    {Q : Bool → Except Thrown α → Prop}
    (hg : ∀ state fee m, (g state fee).run.Safe AsksOnce (paid mode) Q m)
    (hQ : ∀ err, Q true (.error err)) (m : Bool) :
    (do
      let state ← perform .fetchState Called.result
      let fee ← fromExcept (initialFee mode state.fee)
      g state fee : Async α).run.Safe AsksOnce (paid mode) Q m := by
  refine safe_perform_bind nofun (fun r state hr => ?_) fun r err h => ?_
  · cases Called.result_eq_ok.1 hr
    cases hfee : initialFee mode state.fee with
    | ok fee => exact hg state fee _
    | error err =>
      have hm : paid mode m .fetchState (.ok state) = true := by simp [paid, spoils, hfee]
      rw [hm]
      exact hQ err
  · cases r with
    | ok _ => cases h
    | error e =>
      have hm : paid mode m .fetchState (.error e) = true := Bool.or_true m
      rw [hm]
      exact hQ err

/-- A request of an attempt: what it throws is let off, or an outcome is recorded for it. -/
theorem request_settled {α β : Type} {e : Request} {f : Answer e → Except Thrown α}
    {g : α → Async β} (he : ¬ e.Guard)
    (hf : ∀ m r err, f r = .error err → Settled (paid mode m e r) (.error err : Except Thrown β))
    (hg : ∀ a m, (g a).run.Safe AsksOnce (paid mode) Settled m) (m : Bool) :
    (perform e f >>= g).run.Safe AsksOnce (paid mode) Settled m :=
  safe_perform_bind (fun h => absurd (h ▸ trivial) he) (fun _ a _ => hg a _) (hf m)

variable {s : Settings} (hbreaker : s.breaker = true) (attempt nonce : ℤ) (fee : FeeFields)

include hbreaker

theorem recordFailure_pays (m : Bool) : Pays mode m (recordFailure s).run := by
  unfold recordFailure
  rw [if_pos hbreaker]
  exact ⟨nofun, fun _ => rfl⟩

theorem recordSuccess_pays (m : Bool) : Pays mode m (recordSuccess s).run := by
  unfold recordSuccess
  rw [if_pos hbreaker]
  exact ⟨nofun, fun _ => rfl⟩

theorem confirm_pays (receipt : NormalizedReceipt) (m : Bool) :
    Pays mode m (confirm s attempt receipt).run := by
  unfold confirm
  split
  · exact pays_bind (recordFailure_pays hbreaker m) fun _ => keeps_fromExcept
  · refine pays_bind (recordSuccess_pays hbreaker m) fun _ => ?_
    exact keeps_bind (keeps_request loopKeeps_paid _ id) fun _ => keeps_fromExcept

theorem failAttempt_pays (err : Thrown) (m : Bool) :
    Pays mode m (failAttempt s attempt nonce fee err).run := by
  refine pays_bind (recordFailure_pays hbreaker m) fun _ => ?_
  refine keeps_ite (fun _ => keeps_fromExcept) fun _ => ?_
  refine keeps_ite (fun _ => keeps_bind keeps_fromExcept fun fee => ?_) fun _ => keeps_fromExcept
  refine keeps_bind (keeps_request loopKeeps_paid _ id) fun _ => ?_
  exact keeps_bind (keeps_request loopKeeps_paid _ id) fun _ => keeps_fromExcept

/-- An attempt ends with its outcome recorded, or throws what the loop records as a failure. -/
theorem submitAndConfirm_settled (m : Bool) :
    (submitAndConfirm s attempt nonce fee).run.Safe AsksOnce (paid mode) Settled m := by
  refine request_settled id (fun m r err h => ?_) (fun submitted => ?_) m
  · cases r with
    | timedOut => exact .inr ⟨err, rfl, by cases h; rfl⟩
    | settled r => exact settled_of_thrown h fun _ hr => by subst hr; rfl
  refine request_settled id (fun m r err h => ?_) fun _ => ?_
  · exact settled_of_thrown h fun _ hr => by subst hr; rfl
  refine request_settled id (fun m r err h => ?_) fun receipt m => ?_
  · cases r with
    | timedOut => exact .inr ⟨err, rfl, by cases h; rfl⟩
    | settled r => exact settled_of_thrown h fun _ hr => by subst hr; rfl
  exact (confirm_pays hbreaker attempt receipt m).mono fun _ _ => .inl

/-- What the loop catches is an outcome, except before the last attempt, when the state is
refreshed. -/
theorem onError_settled {err : Thrown} (herr : err.isTxFailedError = false) (m : Bool) :
    (onError s attempt nonce fee err).run.Safe AsksOnce (paid s.feeMode)
      (fun m r => m = true ∨ attempt < s.maxAttempts ∧ ∃ next, r = .ok next) m := by
  have hfail : ∀ nonce fee m, (failAttempt s attempt nonce fee err).run.Safe AsksOnce
      (paid s.feeMode) (fun m r => m = true ∨ attempt < s.maxAttempts ∧ ∃ next, r = .ok next) m :=
    fun nonce fee m => (failAttempt_pays hbreaker attempt nonce fee err m).mono fun _ _ => .inl
  unfold onError
  rw [if_neg (by simp [herr])]
  split
  · refine safe_perform_bind nofun (fun _ _ _ => ?_) fun r _ h => .inl ?_
    · refine fetch_pays (fun refreshed fee m => ?_) (fun _ => .inl rfl) _
      split
      · refine safe_perform_bind nofun (fun _ _ _ => .inr ⟨‹_›, _, rfl⟩) fun r _ h => .inl ?_
        cases r with
        | ok _ => cases h
        | error e => exact Bool.or_true m
      · exact hfail refreshed.nonce fee m
    · cases r with
      | ok _ => cases h
      | error e => exact Bool.or_true m
  · exact hfail nonce fee m

/-- The attempts end with an outcome, the last one at the latest. -/
theorem attempts_pays (left : ℕ) (err : Thrown) (m : Bool)
    (hleft : attempt + left = s.maxAttempts + 1) (hm : left = 0 → m = true) :
    Pays s.feeMode m (attempts s left attempt nonce fee err).run := by
  induction left generalizing attempt nonce fee err m with
  | zero => exact hm rfl
  | succ left ih =>
    refine safe_except_bind.2 (safe_observe.2 ?_)
    refine (submitAndConfirm_settled hbreaker attempt nonce fee m).mono fun m r hr => ?_
    obtain rfl | ⟨err, rfl, herr⟩ := hr
    · cases r with
      | ok receipt => rfl
      | error err =>
        exact keeps_bind (keeps_onError loopKeeps_paid s attempt nonce fee err)
          (fun next => keeps_attempts loopKeeps_paid s _ _ _ _ left) true rfl
    · refine safe_except_bind.2 ?_
      refine (onError_settled hbreaker attempt nonce fee herr m).mono fun m r hr => ?_
      obtain rfl | ⟨hlt, next, rfl⟩ := hr
      · cases r with
        | ok next => exact keeps_attempts loopKeeps_paid s _ _ _ _ left true rfl
        | error _ => rfl
      · exact ih (attempt + 1) _ _ err m (by push_cast at hleft; omega) (by omega)

end Outcome

/-- A call that the breaker lets through records an outcome before it ends, or gets an answer that
spoils it. -/
theorem sendWithRetry_pays (opts : SendWithRetryOpts) :
    Pays (opts.feeMode.getD .legacy) true
      (sendWithRetry { opts with breaker := true }).run := by
  unfold sendWithRetry
  extract_lets s
  split
  · rfl
  split
  · rfl
  have hguard : Keeps AsksOnce (paid s.feeMode) (· = true)
      (guardIdempotency { opts with breaker := true }) := by
    unfold guardIdempotency
    split
    · refine keeps_bind (keeps_perform nofun fun _ _ h => ?_) fun sent => ?_
      · subst h
        rfl
      · exact keeps_ite (fun _ => keeps_fromExcept) fun _ => keeps_fromExcept
    · exact keeps_fromExcept
  refine hguard.bind_safe (fun _ => ?_) fun _ => rfl
  refine safe_perform_bind (fun _ => rfl) (fun _ _ _ => ?_) fun r _ h => ?_
  · exact fetch_pays (fun state fee m => attempts_pays rfl 1 state.nonce fee _ _ m
      (by have : 1 ≤ s.maxAttempts := not_lt.1 ‹_›; omega) (by omega)) (fun _ => rfl) _
  · cases r with
    | ok _ => cases h
    | error _ => rfl

/-! ## Submissions while the breaker is open -/

/-- The call can submit without asking the breaker before. -/
inductive Committed : Prog Request Answer (Except Thrown NormalizedReceipt) → Prop
  | submit {ctx k} : Committed (.ask (.signSend ctx) k)
  | step {e k} (r : Answer e) (he : e ≠ .assertClosed) (h : Committed (k r)) : Committed (.ask e k)

/-- The monitor: whether the last `assertClosed` returned. -/
def lastAssert : Bool → (e : Request) → Answer e → Bool
  | _, .assertClosed, .ok _ => true
  | _, .assertClosed, .error _ => false
  | m, _, _ => m

/-- A submission needs an `assertClosed` that returned. -/
def Admitted (m : Bool) : Request → Prop
  | .signSend _ => m = true
  | _ => True

section Admitted

theorem not_committed {p : Prog Request Answer (Except Thrown NormalizedReceipt)}
    (h : p.Safe Admitted lastAssert (fun _ _ => True) false) : ¬ Committed p := by
  intro hp
  induction hp with
  | submit => exact Bool.false_ne_true h.1
  | @step e k r he _ ih =>
    apply ih
    have hm : lastAssert false e r = false := by cases e <;> first | rfl | exact absurd rfl he
    exact hm ▸ h.2 r

theorem loopKeeps_admitted : LoopKeeps Admitted lastAssert (· = true) := by
  rintro e he m rfl
  constructor
  · cases e <;> trivial
  · intro r
    cases e with
    | assertClosed => exact absurd trivial he
    | _ => rfl

/-- A call submits after an `assertClosed` that returned, and not otherwise. -/
theorem safe_call (opts : SendWithRetryOpts) :
    (sendWithRetry { opts with breaker := true }).run.Safe Admitted lastAssert
      (fun _ _ => True) false := by
  unfold sendWithRetry
  extract_lets s
  split
  · trivial
  split
  · trivial
  have hguard :
      Keeps Admitted lastAssert (· = false) (guardIdempotency { opts with breaker := true }) := by
    unfold guardIdempotency
    split
    · refine keeps_bind (keeps_perform (fun _ _ => trivial) fun _ _ h => h) fun sent => ?_
      exact keeps_ite (fun _ => keeps_fromExcept) fun _ => keeps_fromExcept
    · exact keeps_fromExcept
  refine hguard.bind_safe (fun _ => ?_) fun _ => trivial
  refine safe_bind_of (fun m _ => m = true) ⟨trivial, ?_⟩ ?_ fun _ _ => trivial
  · intro r u hr
    cases r with
    | ok _ => rfl
    | error e => cases hr
  rintro _ _ rfl
  have hfetch : Keeps Admitted lastAssert (· = true) (perform .fetchState Called.result) :=
    keeps_request loopKeeps_admitted _ id
  refine hfetch.bind_safe (fun state => ?_) fun _ => trivial
  refine keeps_fromExcept.bind_safe (fun fee => ?_) fun _ => trivial
  exact (keeps_attempts loopKeeps_admitted s 1 state.nonce fee _ _ true rfl).mono
    fun _ _ _ => trivial

/-- What is left of a call, after an `assertClosed` that returned. -/
def Cleared (p : Prog Request Answer (Except Thrown NormalizedReceipt)) : Prop :=
  p.Safe Admitted lastAssert (fun _ _ => True) true

/-- More is allowed after an `assertClosed` that returned. -/
theorem safe_true {p : Prog Request Answer (Except Thrown NormalizedReceipt)}
    (h : p.Safe Admitted lastAssert (fun _ _ => True) false) : Cleared p := by
  induction p with
  | ret a => trivial
  | ask e k ih =>
    obtain ⟨hok, hk⟩ := h
    refine ⟨?_, fun r => ?_⟩
    · cases e <;> trivial
    · cases e with
      | assertClosed => cases r <;> exact hk _
      | _ => exact ih r (hk r)

end Admitted

namespace Shared

variable {I : Type} [DecidableEq I]

/-- The clock does not go back, and a failure reaches the threshold only when afterwards no call can
submit without asking the breaker again. -/
def Sequenced (s : Shared I) (a : Act I) (s' : Shared I) : Prop :=
  match a with
  | .tick => s.now ≤ s'.now
  | .failure _ => s.breaker.threshold ≤ ↑(s.breaker.consecutiveFailures + 1) →
      ∀ j, ¬ Committed (s'.calls j).prog
  | _ => True

/-- While the breaker is open, no call can submit without asking it. -/
structure Held (s : Shared I) : Prop where
  safe : ∀ i, Cleared (s.calls i).prog
  held : s.breaker.isOpen s.now = true → ∀ i, ¬ Committed (s.calls i).prog

omit [DecidableEq I] in
theorem held_start (opts : I → SendWithRetryOpts) (b : CircuitBreaker) (now : ℚ) :
    Held (start opts b now) :=
  ⟨fun i => safe_true (safe_call (opts i)), fun _ i => not_committed (safe_call (opts i))⟩

/-- A property of what is left of the calls, when one of them goes on. -/
theorem forall_update (p : Prog Request Answer (Except Thrown NormalizedReceipt) → Prop)
    {f : I → Call} {i : I} {c : Call} (hi : p c.prog) (h : ∀ j, p (f j).prog) :
    ∀ j, p (Function.update f i c j).prog :=
  (Function.forall_update_iff f fun _ c => p c.prog).2 ⟨hi, fun j _ => h j⟩

theorem Held.step {s s' : Shared I} {a : Act I} (h : Held s) (hstep : Step s a s')
    (hseq : Sequenced s a s') : Held s' := by
  have hnext : ∀ {i e k} (r : Answer e), (s.calls i).prog = .ask e k →
      Cleared (k r) := by
    intro i e k r hi
    have hk := (hi ▸ h.safe i).2 r
    cases hm : lastAssert true e r with
    | true =>
      rw [hm] at hk
      exact hk
    | false =>
      rw [hm] at hk
      exact safe_true hk
  cases hstep with
  | @request i e k _ hcall _ =>
    have hi : (s.calls i).prog = .ask e k := congrArg Call.prog hcall
    exact ⟨forall_update Cleared (hi ▸ h.safe i) h.safe,
      fun hopen => forall_update (¬ Committed ·) (hi ▸ h.held hopen i) (h.held hopen)⟩
  | @answer i e k _ hcall he r =>
    have hi : (s.calls i).prog = .ask e k := congrArg Call.prog hcall
    refine ⟨forall_update Cleared (hnext r hi) h.safe,
      fun hopen => forall_update (¬ Committed ·) (fun hr => ?_) (h.held hopen)⟩
    have hne : e ≠ .assertClosed := by
      rintro rfl
      exact he trivial
    exact h.held hopen i (hi ▸ .step r hne hr)
  | @check i k _ hcall =>
    have hi : (s.calls i).prog = .ask .assertClosed k := congrArg Call.prog hcall
    refine ⟨forall_update Cleared (hnext _ hi) h.safe,
      fun hopen => forall_update (¬ Committed ·) ?_ (h.held hopen)⟩
    -- the call is turned away
    obtain ⟨m, hm⟩ : ∃ m, s.breaker.assertClosed s.now = .error m :=
      CircuitBreaker.assertClosed_eq_error hopen
    refine not_committed (?_ : (k (s.breaker.assertClosed s.now)).Safe _ _ _ _)
    rw [hm]
    exact (hi ▸ h.safe i).2 (.error m)
  | @success i k _ hcall =>
    have hi : (s.calls i).prog = .ask .recordSuccess k := congrArg Call.prog hcall
    exact ⟨forall_update Cleared (hnext () hi) h.safe, fun hopen => by cases hopen⟩
  | @failure i k _ hcall =>
    have hi : (s.calls i).prog = .ask .recordFailure k := congrArg Call.prog hcall
    refine ⟨forall_update Cleared (hnext () hi) h.safe, fun hopen => ?_⟩
    by_cases hreach : s.breaker.threshold ≤ ↑(s.breaker.consecutiveFailures + 1)
    · exact hseq hreach
    · have hopen' : s.breaker.isOpen s.now = true :=
        (s.breaker.isOpen_recordFailure s.now hreach).symm.trans hopen
      refine forall_update (¬ Committed ·) (fun hk => ?_) (h.held hopen')
      exact h.held hopen' i (hi ▸ .step () nofun hk)
  | tick now => exact ⟨h.safe, fun hopen => h.held (s.breaker.isOpen_of_le hseq hopen)⟩

/-- **The breaker stops submissions, as long as no failure opens it while a call can submit without
asking it again.** -/
theorem not_isOpen_of_submits (opts : I → SendWithRetryOpts) (b : CircuitBreaker) (now : ℚ)
    {s : Shared I} (hrun : Run Sequenced (start opts b now) s) {i : I} {ctx : TxContext}
    {k : Answer (.signSend ctx) → Prog Request Answer (Except Thrown NormalizedReceipt)} {t : Bool}
    (hcall : s.calls i = ⟨.ask (.signSend ctx) k, false, t⟩) : s.breaker.isOpen s.now = false := by
  have hheld : Held s := by
    clear hcall
    induction hrun with
    | refl => exact held_start opts b now
    | tail _ hstep ih =>
      obtain ⟨a, hstep, hseq⟩ := hstep
      exact ih.step hstep hseq
  have hi : (s.calls i).prog = .ask (.signSend ctx) k := congrArg Call.prog hcall
  exact Bool.eq_false_iff.2 fun hopen => hheld.held hopen i (hi ▸ .submit)

/-- A new breaker that one failure opens. -/
def fragile : CircuitBreaker where
  threshold := 1
  cooldownMs := 0
  consecutiveFailures := 0
  openedAt := none
  threshold_ge := le_rfl
  opened := by simp

/-- A breaker that one failure has opened, for ten milliseconds. -/
def opened : CircuitBreaker where
  threshold := 1
  cooldownMs := 10
  consecutiveFailures := 1
  openedAt := some 0
  threshold_ge := le_rfl
  opened := by simp

theorem isOpen_recordSuccess_recordFailure :
    (opened.recordSuccess.recordFailure 0).isOpen 10 = false :=
  (opened.recordSuccess.recordFailure 0).isOpen_eq_false 10
    (opened.recordSuccess.openedAt_recordFailure 0 (show (1 : ℚ) ≤ (0 + 1 : ℕ) by norm_num))
    (show (0 : ℚ) < 10 by norm_num) (show (10 : ℚ) ≤ 10 - 0 by norm_num)

/-- The only attempt of a call fails, which opens the breaker for ten milliseconds; another call
submits after them. -/
theorem not_isOpen_of_submits_later :
    ∃ (s : Shared Bool) (ctx : TxContext)
      (k : Answer (.signSend ctx) → Prog Request Answer (Except Thrown NormalizedReceipt))
      (t : Bool), s.breaker.openedAt.isSome = true ∧
      s.calls false = ⟨.ask (.signSend ctx) k, false, t⟩ ∧ s.breaker.isOpen s.now = false := by
  refine ⟨?s, ?ctx, ?k, ?t, ?opened, ?call, not_isOpen_of_submits
    (fun _ => { maxAttempts := some 1, bumpFactor := some 2 }) opened.recordSuccess 0 ?run ?call⟩
  case run =>
    refine .pass true rfl rfl trivial ?_
    refine .request true rfl id trivial ?_
    refine .answer true rfl id (.ok ⟨7, { gasPrice := some 100 }⟩) trivial ?_
    refine .request true rfl id trivial ?_
    refine .answer true rfl id (.settled (.error ⟨"timeout", false⟩)) trivial ?_
    refine .failure true rfl (fun _ j => ?_) ?_
    · cases j with
      | true => exact nofun
      | false => exact not_committed (safe_call { maxAttempts := some 1, bumpFactor := some 2 })
    refine .tick 10 (show (0 : ℚ) ≤ 10 by norm_num) ?_
    refine .pass false rfl isOpen_recordSuccess_recordFailure trivial ?_
    refine .request false rfl id trivial ?_
    refine .answer false rfl id (.ok ⟨7, { gasPrice := some 100 }⟩) trivial ?_
    exact .refl
  case call => rfl
  case opened =>
    show (opened.recordSuccess.recordFailure 0).openedAt.isSome = true
    rw [opened.recordSuccess.openedAt_recordFailure 0 (show (1 : ℚ) ≤ (0 + 1 : ℕ) by norm_num)]
    rfl

/-- The first attempt fails and opens the breaker; the second is made nevertheless. -/
theorem exists_isOpen_of_submits :
    ∃ (opts : Unit → SendWithRetryOpts) (b : CircuitBreaker) (s : Shared Unit) (ctx : TxContext)
      (k : Answer (.signSend ctx) → Prog Request Answer (Except Thrown NormalizedReceipt))
      (t : Bool),
      Run (fun _ _ _ => True) (start opts b 0) s ∧
        s.calls () = ⟨.ask (.signSend ctx) k, false, t⟩ ∧ s.breaker.isOpen s.now = true := by
  refine ⟨fun _ => { bumpFactor := some 2 }, fragile, ?s, ?ctx, ?k, ?t, ?run, ?call, ?isOpen⟩
  case run =>
    refine .check () rfl trivial ?_
    refine .request () rfl id trivial ?_
    refine .answer () rfl id (.ok ⟨7, { gasPrice := some 100 }⟩) trivial ?_
    refine .request () rfl id trivial ?_
    refine .answer () rfl id (.settled (.error ⟨"timeout", false⟩)) trivial ?_
    refine .failure () rfl trivial ?_
    refine .request () rfl id trivial ?_
    refine .answer () rfl id (.ok ()) trivial ?_
    refine .request () rfl id trivial ?_
    refine .answer () rfl id (.ok ()) trivial ?_
    exact .refl
  case call => rfl
  case isOpen => rfl

/-! ## The half-open trial -/

/-- The calls that ask the half-open breaker do not overlap: it is asked only when those that it has
let through half-open, since an outcome was last recorded, have come to their end. And such a call
gets no answer that spoils it. -/
def Spaced (opts : I → SendWithRetryOpts) (s : Shared I) (a : Act I) (_ : Shared I) : Prop :=
  match a with
  | .check _ => s.HalfOpen → ∀ j, (s.calls j).trial = true → ∃ r, (s.calls j).prog = .ret r
  | .answer i e r =>
    (s.calls i).trial = true → spoils ((opts i).feeMode.getD .legacy) e r = false
  | _ => True

/-- A call on trial owes an outcome, and there is one at most. -/
structure OneTrial (opts : I → SendWithRetryOpts) (s : Shared I) : Prop where
  pays : ∀ i, Pays ((opts i).feeMode.getD .legacy) (!(s.calls i).trial) (s.calls i).prog
  le_one : s.trials ≤ 1
  on_trial : 0 < s.trials → ∃ j, (s.calls j).trial = true

/-- A call that is on trial stays on trial when a call goes on that keeps its mark. -/
theorem exists_trial {f : I → Call} {i : I} {c : Call} (hc : (f i).trial = true → c.trial = true)
    (h : ∃ j, (f j).trial = true) : ∃ j, (Function.update f i c j).trial = true := by
  obtain ⟨j, hj⟩ := h
  refine ⟨j, ?_⟩
  by_cases hji : j = i
  · subst hji
    rw [Function.update_self]
    exact hc hj
  · rwa [Function.update_of_ne hji]

theorem trials_check {s : Shared I} (h : s.HalfOpen) (i : I)
    (k : Answer .assertClosed → Prog Request Answer (Except Thrown NormalizedReceipt)) :
    (s.check i k).trials = s.trials + 1 := if_pos h

section OneTrial

variable {opts : I → SendWithRetryOpts} {s s' : Shared I}

/-- When one of the calls goes on. -/
theorem OneTrial.update (h : OneTrial opts s) {i : I} {c : Call}
    (hi : Pays ((opts i).feeMode.getD .legacy) (!c.trial) c.prog) :
    ∀ j, Pays ((opts j).feeMode.getD .legacy) (!(Function.update s.calls i c j).trial)
      (Function.update s.calls i c j).prog :=
  (Function.forall_update_iff s.calls fun j c =>
    Pays ((opts j).feeMode.getD .legacy) (!c.trial) c.prog).2 ⟨hi, fun j _ => h.pays j⟩

omit [DecidableEq I] in
/-- After an outcome nobody is on trial. -/
theorem OneTrial.settle (h : OneTrial opts s) : OneTrial opts s.settle where
  pays j := pays_true (h.pays j)
  le_one := Nat.zero_le 1
  on_trial hpos := absurd hpos (lt_irrefl 0)

omit [DecidableEq I] in
/-- A call on trial has not come to its end. -/
theorem OneTrial.trials_eq_zero (h : OneTrial opts s)
    (hended : ∀ j, (s.calls j).trial = true → ∃ r, (s.calls j).prog = .ret r) : s.trials = 0 := by
  by_contra hne
  obtain ⟨j, hj⟩ := h.on_trial (Nat.pos_of_ne_zero hne)
  obtain ⟨r, hr⟩ := hended j hj
  have hpays := h.pays j
  rw [hj, hr] at hpays
  exact Bool.false_ne_true hpays

theorem OneTrial.step {a : Act I} (h : OneTrial opts s) (hstep : Step s a s')
    (hspaced : Spaced opts s a s') : OneTrial opts s' := by
  cases hstep with
  | @request i e k b hcall _ =>
    have hi := h.pays i
    rw [hcall] at hi
    refine ⟨h.update hi, h.le_one, fun hpos => exists_trial (fun hb => ?_) (h.on_trial hpos)⟩
    rwa [hcall] at hb
  | @answer i e k b hcall he r =>
    have hi := h.pays i
    rw [hcall] at hi
    have hpaid : paid ((opts i).feeMode.getD .legacy) (!b) e r = !b := by
      cases b with
      | true => exact paid_of_not_spoils he (hspaced (congrArg Call.trial hcall)) false
      | false =>
        refine paid_true ?_ r
        rintro rfl
        exact he trivial
    refine ⟨h.update (hpaid ▸ hi.2 r : Pays _ (!b) (k r)), h.le_one,
      fun hpos => exists_trial (fun hb => ?_) (h.on_trial hpos)⟩
    rwa [hcall] at hb
  | @check i k b hcall =>
    have hi := h.pays i
    rw [hcall] at hi
    -- it has not been let through before
    obtain rfl : b = false := by simpa using hi.1 rfl
    by_cases hopen : s.HalfOpen
    · have htrials : (s.check i k).trials = 1 := by
        rw [trials_check hopen, h.trials_eq_zero (hspaced hopen)]
      have hmark : (false || decide s.HalfOpen) = true := decide_eq_true hopen
      refine ⟨h.update ?_, htrials.le, fun _ => ⟨i, ?_⟩⟩
      · show Pays _ (!((s.calls i).trial || decide s.HalfOpen)) (k (s.breaker.assertClosed s.now))
        rw [hcall, hmark, CircuitBreaker.assertClosed_eq_ok hopen.2]
        exact hi.2 (.ok ())
      · show (Function.update s.calls i _ i).trial = true
        rw [Function.update_self, hcall, hmark]
    · have htrials : (s.check i k).trials = s.trials := if_neg hopen
      refine ⟨h.update ?_, htrials.le.trans h.le_one, fun hpos => ?_⟩
      · show Pays _ (!((s.calls i).trial || decide s.HalfOpen)) (k (s.breaker.assertClosed s.now))
        rw [hcall, decide_eq_false hopen]
        exact pays_true (hi.2 _)
      · exact exists_trial (fun hb => Bool.or_eq_true_iff.2 (.inl hb))
          (h.on_trial (htrials ▸ hpos))
  | @success i k b hcall =>
    have hi := h.pays i
    rw [hcall] at hi
    exact ⟨h.settle.update (pays_true (hi.2 ())), Nat.zero_le 1,
      fun hpos => absurd hpos (lt_irrefl 0)⟩
  | @failure i k b hcall =>
    have hi := h.pays i
    rw [hcall] at hi
    exact ⟨h.settle.update (pays_true (hi.2 ())), Nat.zero_le 1,
      fun hpos => absurd hpos (lt_irrefl 0)⟩
  | tick now => exact ⟨h.pays, h.le_one, h.on_trial⟩

end OneTrial

/-- **The half-open breaker lets one call through at a time, as long as the calls that ask it do not
overlap and none of them gets an answer that spoils it.** -/
theorem trials_le_one (opts : I → SendWithRetryOpts) (b : CircuitBreaker) (now : ℚ) {s : Shared I}
    (hrun : Run (Spaced opts) (start opts b now) s) : s.trials ≤ 1 := by
  suffices OneTrial opts s from this.le_one
  induction hrun with
  | refl =>
    exact ⟨fun i => sendWithRetry_pays (opts i), Nat.zero_le _,
      fun hpos => absurd hpos (lt_irrefl _)⟩
  | tail _ hstep ih =>
    obtain ⟨a, hstep, hspaced⟩ := hstep
    exact ih.step hstep hspaced

theorem isOpen_opened : opened.isOpen 10 = false :=
  opened.isOpen_eq_false 10 rfl (show (0 : ℚ) < 10 by norm_num)
    (show (10 : ℚ) ≤ 10 - 0 by norm_num)

/-- A failure at 10 opens it again, for ten milliseconds. -/
theorem openedAt_opened : (opened.recordFailure 10).openedAt = some 10 :=
  opened.openedAt_recordFailure 10 (show (1 : ℚ) ≤ (1 + 1 : ℕ) by norm_num)

theorem isOpen_opened_again : (opened.recordFailure 10).isOpen 20 = false :=
  (opened.recordFailure 10).isOpen_eq_false 20 openedAt_opened (show (0 : ℚ) < 10 by norm_num)
    (show (10 : ℚ) ≤ 20 - 10 by norm_num)

/-- A call that is let through after the cooldown fails, which opens the breaker again; ten
milliseconds later, while it waits for its second attempt, another one is let through. -/
theorem trials_le_one_again : ∃ s : Shared Bool, s.trials = 1 ∧ s.trials ≤ 1 := by
  refine ⟨?s, ?eq, trials_le_one (fun _ => { bumpFactor := some 2 }) opened 10 ?run⟩
  case run =>
    refine .pass true rfl isOpen_opened (fun _ j hj => absurd hj Bool.false_ne_true) ?_
    refine .request true rfl id trivial ?_
    refine .answer true rfl id (.ok ⟨7, { gasPrice := some 100 }⟩) (fun _ => rfl) ?_
    refine .request true rfl id trivial ?_
    refine .answer true rfl id (.settled (.error ⟨"timeout", false⟩)) (fun _ => rfl) ?_
    refine .failure true rfl trivial ?_
    refine .tick 20 trivial ?_
    refine .check false rfl (fun _ j hj => absurd hj (by cases j <;> exact Bool.false_ne_true)) ?_
    exact .refl
  case eq =>
    refine trials_check ⟨?_, isOpen_opened_again⟩ false _
    show (opened.recordFailure 10).openedAt.isSome = true
    rw [openedAt_opened]
    rfl

/-- After the cooldown two calls are let through. -/
theorem exists_trials_eq_two :
    ∃ (opts : Bool → SendWithRetryOpts) (b : CircuitBreaker) (now : ℚ) (s : Shared Bool),
      0 < b.cooldownMs ∧ Run (fun _ _ _ => True) (start opts b now) s ∧ s.trials = 2 := by
  have hopen : (start (fun _ : Bool => { bumpFactor := some 2 }) opened 10).HalfOpen :=
    ⟨rfl, isOpen_opened⟩
  refine ⟨fun _ => { bumpFactor := some 2 }, opened, 10, _, by norm_num [opened],
    .check true rfl trivial (.check false rfl trivial .refl), ?_⟩
  have hopen' :
      ∀ k, ((start (fun _ : Bool => { bumpFactor := some 2 }) opened 10).check true k).HalfOpen :=
    fun _ => hopen
  exact (trials_check (hopen' _) false _).trans (congrArg (· + 1) (trials_check hopen true _))

end Shared

end Resilience.Onchain.TypeScript
