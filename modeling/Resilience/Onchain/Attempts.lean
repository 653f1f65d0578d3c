import Resilience.Onchain.TypeScript
import Mathlib.Tactic.Linarith

/-!
# Attempts of the TypeScript client

What one call of `sendWithRetry` submits, attempt after attempt, read off its complete runs: every
attempt makes one `signSend` call, and what happens between two attempts is what `onError` does
(`runs_attempts`).

Two consequences. A replacement, a later submission with the same nonce, has higher fees exactly
when no refresh returns to a nonce with fees that are not higher (`feesIncrease_iff`): a refresh
starts the fees anew. And an error that says it is deterministic ends the call exactly when it is
not taken for a stale nonce before (`failsFast_iff`).
-/

namespace Resilience.Onchain.TypeScript

open Prog

abbrev Trace := List (Event Request Answer)

/-- The contexts of the `signSend` calls, in order. -/
def submissions (t : Trace) : List TxContext :=
  t.filterMap fun
    | ⟨.signSend ctx, _⟩ => some ctx
    | _ => none

/-- Requests that neither submit, nor wait, nor look at the chain. -/
def Request.Quiet : Request → Prop
  | .signSend _ | .wait _ | .fetchState => False
  | _ => True

def Quiet (t : Trace) : Prop := ∀ ev ∈ t, ev.1.Quiet

theorem submissions_append (t u : Trace) : submissions (t ++ u) = submissions t ++ submissions u :=
  List.filterMap_append

/-! ## Runs -/

section Runs

variable {s : Settings} {attempt nonce : ℤ} {fee : FeeFields} {err : Thrown} {t : Trace}

/-- A request that is made with a breaker only, and whose answer is not looked at. -/
theorem runs_record {breaker : Bool} {e : Request} (he : e.Quiet) {res : Except Thrown Unit}
    (h : (if breaker then perform e fun _ => .ok () else fromExcept (.ok ())).run.Runs t res) :
    res = .ok () ∧ Quiet t := by
  split at h
  · obtain ⟨r, rfl, rfl⟩ := runs_perform.1 h
    exact ⟨rfl, List.forall_mem_singleton.2 he⟩
  · obtain ⟨rfl, rfl⟩ := runs_fromExcept.1 h
    exact ⟨rfl, List.forall_mem_nil _⟩

theorem runs_recordFailure {res : Except Thrown Unit} (h : (recordFailure s).run.Runs t res) :
    res = .ok () ∧ Quiet t := runs_record (e := .recordFailure) trivial h

theorem runs_recordSuccess {res : Except Thrown Unit} (h : (recordSuccess s).run.Runs t res) :
    res = .ok () ∧ Quiet t := runs_record (e := .recordSuccess) trivial h

theorem quiet_confirm {receipt : NormalizedReceipt} {res : Except Thrown NormalizedReceipt}
    (h : (confirm s attempt receipt).run.Runs t res) : Quiet t := by
  unfold confirm at h
  split at h
  · obtain ⟨t₁, _, t₂, rfl, h₁, h₂⟩ | ⟨e, rfl, h₁⟩ := runs_except_bind.1 h
    · obtain ⟨rfl, -⟩ := h₂
      simpa using (runs_recordFailure h₁).2
    · exact (runs_recordFailure h₁).2
  · obtain ⟨t₁, _, t₂, rfl, h₁, h₂⟩ | ⟨e, rfl, h₁⟩ := runs_except_bind.1 h
    · have hq := (runs_recordSuccess h₁).2
      obtain ⟨r, t₃, rfl, h₃⟩ := runs_perform_bind.1 h₂
      have hnil : t₃ = [] := by cases r <;> exact h₃.1
      subst hnil
      simpa [Quiet, Request.Quiet, or_imp, forall_and] using hq
    · exact (runs_recordSuccess h₁).2

/-- What the `try` block of an attempt can do. -/
inductive AttemptShape (s : Settings) (ctx : TxContext) :
    Trace → Except Thrown NormalizedReceipt → Prop
  | unsent {r e} (hr : Race.result s.timeoutMs s!"attempt {ctx.attempt}" r = .error e) :
    AttemptShape s ctx [⟨.signSend ctx, r⟩] (.error e)
  | unlogged {submitted line e} :
    AttemptShape s ctx [⟨.signSend ctx, .settled (.ok submitted)⟩, ⟨.log line, .error e⟩]
      (.error (.foreign e))
  | unconfirmed {submitted line r e}
      (hr : Race.result s.timeoutMs s!"attempt {ctx.attempt}" r = .error e) :
    AttemptShape s ctx [⟨.signSend ctx, .settled (.ok submitted)⟩, ⟨.log line, .ok ()⟩,
      ⟨.wait submitted, r⟩] (.error e)
  | confirmed {submitted line receipt rest res}
      (h : (confirm s ctx.attempt receipt).run.Runs rest res) :
    AttemptShape s ctx (⟨.signSend ctx, .settled (.ok submitted)⟩ :: ⟨.log line, .ok ()⟩ ::
      ⟨.wait submitted, .settled (.ok receipt)⟩ :: rest) res

theorem shape_submitAndConfirm {res : Except Thrown NormalizedReceipt}
    (h : (submitAndConfirm s attempt nonce fee).run.Runs t res) :
    AttemptShape s ⟨nonce, fee, attempt⟩ t res := by
  obtain ⟨r, t₁, rfl, h₁⟩ := runs_perform_bind.1 h
  rcases r with (e | submitted) | -
  · obtain ⟨rfl, rfl⟩ := h₁
    exact .unsent rfl
  · obtain ⟨logged, t₂, rfl, h₂⟩ := runs_perform_bind.1 h₁
    cases logged with
    | error e =>
      obtain ⟨rfl, rfl⟩ := h₂
      exact .unlogged
    | ok _ =>
      obtain ⟨r, t₃, rfl, h₃⟩ := runs_perform_bind.1 h₂
      rcases r with (e | receipt) | -
      · obtain ⟨rfl, rfl⟩ := h₃
        exact .unconfirmed rfl
      · exact .confirmed h₃
      · obtain ⟨rfl, rfl⟩ := h₃
        exact .unconfirmed rfl
  · obtain ⟨rfl, rfl⟩ := h₁
    exact .unsent rfl

/-- A rejection `e` of `signSend` or of `wait`. -/
inductive Rejection (e : Foreign) : Event Request Answer → Prop
  | signSend (ctx : TxContext) : Rejection e ⟨.signSend ctx, .settled (.error e)⟩
  | wait (submitted : SubmitResult) : Rejection e ⟨.wait submitted, .settled (.error e)⟩

/-- A trace without a rejection. -/
def Kept (t : Trace) : Prop := ∀ ev ∈ t, ∀ e, ¬ Rejection e ev

theorem quiet_nil : Quiet [] := List.forall_mem_nil _

theorem Quiet.kept {t : Trace} (h : Quiet t) : Kept t := by
  intro ev hev e hrej
  have hquiet := h ev hev
  cases hrej <;> exact hquiet

/-- The requests of an attempt after its submission. -/
def Request.Later : Request → Prop
  | .signSend _ | .fetchState => False
  | _ => True

/-- How an attempt can go: with a rejection of `signSend` or of `wait` as its end, or without. -/
inductive AttemptRun (ctx : TxContext) : Trace → Except Thrown NormalizedReceipt → Prop
  | refused {e} : AttemptRun ctx [⟨.signSend ctx, .settled (.error e)⟩] (.error (.foreign e))
  | rejected {submitted line e} :
    AttemptRun ctx [⟨.signSend ctx, .settled (.ok submitted)⟩, ⟨.log line, .ok ()⟩,
      ⟨.wait submitted, .settled (.error e)⟩] (.error (.foreign e))
  | other {r rest res} (hrest : ∀ ev ∈ rest, ev.1.Later)
      (hkept : Kept (⟨.signSend ctx, r⟩ :: rest)) :
      AttemptRun ctx (⟨.signSend ctx, r⟩ :: rest) res

theorem Quiet.later {t : Trace} (h : Quiet t) : ∀ ev ∈ t, ev.1.Later := by
  intro ev hev
  have hquiet := h ev hev
  obtain ⟨e, r⟩ := ev
  cases e <;> trivial

theorem runs_submitAndConfirm {res : Except Thrown NormalizedReceipt}
    (h : (submitAndConfirm s attempt nonce fee).run.Runs t res) :
    AttemptRun ⟨nonce, fee, attempt⟩ t res := by
  have hlog : ∀ line r e, ¬ Rejection e ⟨.log line, r⟩ := fun _ _ _ h => by cases h
  have hsent : ∀ submitted e,
      ¬ Rejection e ⟨.signSend ⟨nonce, fee, attempt⟩, .settled (.ok submitted)⟩ :=
    fun _ _ h => by cases h
  cases shape_submitAndConfirm h with
  | @unsent r _ hr =>
    rcases r with (e | submitted) | -
    · obtain rfl := Except.error.inj hr
      exact .refused
    · cases hr
    · exact .other quiet_nil.later (List.forall_mem_singleton.2 fun _ h => by cases h)
  | unlogged =>
    refine .other (List.forall_mem_singleton.2 trivial) ?_
    exact List.forall_mem_cons.2 ⟨hsent _, List.forall_mem_singleton.2 (hlog _ _)⟩
  | @unconfirmed submitted line r _ hr =>
    rcases r with (e | receipt) | -
    · obtain rfl := Except.error.inj hr
      exact .rejected
    · cases hr
    · refine .other (List.forall_mem_cons.2 ⟨trivial, List.forall_mem_singleton.2 trivial⟩) ?_
      refine List.forall_mem_cons.2 ⟨hsent _, List.forall_mem_cons.2 ⟨hlog _ _, ?_⟩⟩
      exact List.forall_mem_singleton.2 fun _ h => by cases h
  | confirmed h =>
    have hquiet := quiet_confirm h
    refine .other ?_ ?_
    · exact List.forall_mem_cons.2 ⟨trivial, List.forall_mem_cons.2 ⟨trivial, hquiet.later⟩⟩
    refine List.forall_mem_cons.2 ⟨hsent _, List.forall_mem_cons.2 ⟨hlog _ _, ?_⟩⟩
    refine List.forall_mem_cons.2 ⟨?_, hquiet.kept⟩
    rintro e ⟨⟩

theorem runs_bumpAndSleep {res : Except Thrown (ℤ × FeeFields)}
    (h : (bumpAndSleep s attempt nonce fee err).run.Runs t res) :
    Quiet t ∧ ∀ next, res = .ok next → next.1 = nonce ∧
      (attempt < s.maxAttempts → bumpFee s.feeMode fee s.bumpFactor = .ok next.2) := by
  unfold bumpAndSleep at h
  split at h
  · obtain ⟨t₁, fee', t₂, rfl, ⟨rfl, hfee⟩, h₂⟩ | ⟨e, rfl, rfl, -⟩ := runs_except_bind.1 h
    · obtain ⟨logged, t₃, rfl, h₃⟩ := runs_perform_bind.1 h₂
      cases logged with
      | error e =>
        obtain ⟨rfl, rfl⟩ := h₃
        exact ⟨List.forall_mem_singleton.2 trivial, nofun⟩
      | ok _ =>
        obtain ⟨slept, t₄, rfl, h₄⟩ := runs_perform_bind.1 h₃
        have hquiet : t₄ = [] := by cases slept <;> exact h₄.1
        subst hquiet
        refine ⟨List.forall_mem_cons.2 ⟨trivial, List.forall_mem_singleton.2 trivial⟩, ?_⟩
        rintro next rfl
        cases slept with
        | error e => cases h₄.2
        | ok _ =>
          obtain rfl := Except.ok.inj h₄.2
          exact ⟨rfl, fun _ => hfee⟩
    · exact ⟨quiet_nil, nofun⟩
  · rename_i hlast
    obtain ⟨rfl, rfl⟩ := h
    refine ⟨quiet_nil, ?_⟩
    rintro next ⟨⟩
    exact ⟨rfl, fun hlt => absurd hlt hlast⟩

theorem runs_failAttempt {res : Except Thrown (ℤ × FeeFields)}
    (h : (failAttempt s attempt nonce fee err).run.Runs t res) :
    Quiet t ∧ (isRetryable err = false → ∃ m, res = .error (.nonRetryable m err)) ∧
      ∀ next, res = .ok next → next.1 = nonce ∧
        (attempt < s.maxAttempts → bumpFee s.feeMode fee s.bumpFactor = .ok next.2) := by
  obtain ⟨t₁, _, t₂, rfl, h₁, h₂⟩ | ⟨e, rfl, h₁⟩ := runs_except_bind.1 h
  case inr => cases (runs_recordFailure h₁).1
  have hquiet := (runs_recordFailure h₁).2
  split at h₂
  case isTrue hretry =>
    obtain ⟨rfl, rfl⟩ := h₂
    rw [List.append_nil]
    exact ⟨hquiet, fun _ => ⟨_, rfl⟩, nofun⟩
  case isFalse hretry =>
    obtain ⟨hquiet', hnext⟩ := runs_bumpAndSleep h₂
    refine ⟨List.forall_mem_append.2 ⟨hquiet, hquiet'⟩, fun hfatal => ?_, hnext⟩
    exact absurd (by simp [hfatal]) hretry

/-- What the `catch` block of an attempt can do. -/
inductive OnErrorRun (s : Settings) (attempt nonce : ℤ) (fee : FeeFields) (err : Thrown) :
    Trace → Except Thrown (ℤ × FeeFields) → Prop
  | rethrown (htx : err.isTxFailedError = true) : OnErrorRun s attempt nonce fee err [] (.error err)
  | failed {t res} (htx : err.isTxFailedError = false) (hnonce : isNonceTooLow err = false)
      (h : (failAttempt s attempt nonce fee err).run.Runs t res) :
      OnErrorRun s attempt nonce fee err t res
  | logFailed {line e} (hnonce : isNonceTooLow err = true) :
      OnErrorRun s attempt nonce fee err [⟨.log line, .error e⟩] (.error (.foreign e))
  | fetchFailed {line e} (hnonce : isNonceTooLow err = true) :
      OnErrorRun s attempt nonce fee err [⟨.log line, .ok ()⟩, ⟨.fetchState, .error e⟩]
        (.error (.foreign e))
  | badFee {line st e} (hnonce : isNonceTooLow err = true)
      (he : initialFee s.feeMode st.fee = .error e) :
      OnErrorRun s attempt nonce fee err [⟨.log line, .ok ()⟩, ⟨.fetchState, .ok st⟩] (.error e)
  | sleepFailed {line st ms e} (hnonce : isNonceTooLow err = true) (hlt : attempt < s.maxAttempts) :
      OnErrorRun s attempt nonce fee err
        [⟨.log line, .ok ()⟩, ⟨.fetchState, .ok st⟩, ⟨.sleep ms, .error e⟩] (.error (.foreign e))
  | refreshed {line st fee' ms} (hnonce : isNonceTooLow err = true) (hlt : attempt < s.maxAttempts)
      (hfee : initialFee s.feeMode st.fee = .ok fee') :
      OnErrorRun s attempt nonce fee err
        [⟨.log line, .ok ()⟩, ⟨.fetchState, .ok st⟩, ⟨.sleep ms, .ok ()⟩] (.ok (st.nonce, fee'))
  | last {line st fee' t res} (htx : err.isTxFailedError = false)
      (hnonce : isNonceTooLow err = true)
      (hlast : s.maxAttempts ≤ attempt) (hfee : initialFee s.feeMode st.fee = .ok fee')
      (h : (failAttempt s attempt st.nonce fee' err).run.Runs t res) :
      OnErrorRun s attempt nonce fee err (⟨.log line, .ok ()⟩ :: ⟨.fetchState, .ok st⟩ :: t) res

theorem runs_onError {res : Except Thrown (ℤ × FeeFields)}
    (h : (onError s attempt nonce fee err).run.Runs t res) :
    OnErrorRun s attempt nonce fee err t res := by
  unfold onError at h
  split at h
  case isTrue htx =>
    obtain ⟨rfl, rfl⟩ := h
    exact .rethrown htx
  rename_i htx
  rw [Bool.not_eq_true] at htx
  split at h
  case isFalse hnonce => exact .failed htx (Bool.not_eq_true _ ▸ hnonce) h
  rename_i hnonce
  obtain ⟨logged, t₁, rfl, h₁⟩ := runs_perform_bind.1 h
  cases logged with
  | error e =>
    obtain ⟨rfl, rfl⟩ := h₁
    exact .logFailed hnonce
  | ok _ =>
    obtain ⟨state, t₂, rfl, h₂⟩ := runs_perform_bind.1 h₁
    cases state with
    | error e =>
      obtain ⟨rfl, rfl⟩ := h₂
      exact .fetchFailed hnonce
    | ok st =>
      obtain ⟨t₃, fee', t₄, rfl, ⟨rfl, hfee⟩, h₄⟩ | ⟨e, rfl, rfl, hfee⟩ := runs_except_bind.1 h₂
      case inr => exact .badFee hnonce hfee
      split at h₄
      case isTrue hlt =>
        obtain ⟨slept, t₅, rfl, h₅⟩ := runs_perform_bind.1 h₄
        cases slept with
        | error e =>
          obtain ⟨rfl, rfl⟩ := h₅
          exact .sleepFailed hnonce hlt
        | ok _ =>
          obtain ⟨rfl, rfl⟩ := h₅
          exact .refreshed hnonce hlt hfee
      case isFalse hlt => exact .last htx hnonce (not_lt.1 hlt) hfee h₄

/-- What is left of the call after an attempt that failed with `err`. -/
def goOn (s : Settings) (left : ℕ) (attempt nonce : ℤ) (fee : FeeFields) (err : Thrown) :
    Async NormalizedReceipt := do
  let next ← onError s attempt nonce fee err
  attempts s left (attempt + 1) next.1 next.2 err

/-- An attempt, and what is left of the call after it. -/
theorem runs_attempts {left : ℕ} {res : Except Thrown NormalizedReceipt}
    (h : (attempts s (left + 1) attempt nonce fee err).run.Runs t res) :
    (∃ receipt, res = .ok receipt ∧ AttemptRun ⟨nonce, fee, attempt⟩ t (.ok receipt)) ∨
      ∃ t₁ err t₂, t = t₁ ++ t₂ ∧ AttemptRun ⟨nonce, fee, attempt⟩ t₁ (.error err) ∧
        (goOn s left attempt nonce fee err).run.Runs t₂ res := by
  obtain ⟨t₁, r, t₂, rfl, h₁, h₂⟩ := runs_observe_bind.1 h
  have hattempt := runs_submitAndConfirm h₁
  cases r with
  | ok receipt =>
    obtain ⟨rfl, rfl⟩ := h₂
    rw [List.append_nil]
    exact .inl ⟨receipt, rfl, hattempt⟩
  | error err => exact .inr ⟨t₁, err, t₂, rfl, hattempt, h₂⟩

end Runs

/-! ## Replacement fees -/

/-- Every fee field of `g` is higher than that of `f`. -/
def Below (f g : FeeFields) : Prop :=
  (∀ w, g.gasPrice = some w → ∃ v, f.gasPrice = some v ∧ v < w) ∧
    (∀ w, g.maxFeePerGas = some w → ∃ v, f.maxFeePerGas = some v ∧ v < w) ∧
      ∀ w, g.maxPriorityFeePerGas = some w → ∃ v, f.maxPriorityFeePerGas = some v ∧ v < w

/-- Two submissions with the same nonce have fees that increase. -/
def Replaces (c c' : TxContext) : Prop := c.nonce = c'.nonce → Below c.fee c'.fee

/-- What a fee must be for a bump to raise it: not negative, or so little that rounding raises it
nevertheless. -/
def Bumpable (factor : ℚ) (v : ℤ) : Prop := -1000 < v * (mathRound (factor * 1000) - 1000)

def FeesBumpable (factor : ℚ) (f : FeeFields) : Prop :=
  ∀ v, f.gasPrice = some v ∨ f.maxFeePerGas = some v ∨ f.maxPriorityFeePerGas = some v →
    Bumpable factor v

/-- The fee fields of a mode. -/
inductive Shaped : FeeMode → FeeFields → Prop
  | legacy (v : ℤ) : Shaped .legacy { gasPrice := v }
  | eip1559 (v w : ℤ) : Shaped .eip1559 { maxFeePerGas := v, maxPriorityFeePerGas := w }

theorem shaped_initialFee {mode : FeeMode} {base fee : FeeFields}
    (h : initialFee mode base = .ok fee) : Shaped mode fee := by
  unfold initialFee at h
  cases mode with
  | legacy =>
    cases hv : base.gasPrice with
    | none => simp [hv] at h
    | some v =>
      simp only [hv, Except.ok.injEq] at h
      exact h ▸ .legacy v
  | eip1559 =>
    cases hv : base.maxFeePerGas with
    | none => simp [hv] at h
    | some v =>
      simp only [hv, Except.ok.injEq] at h
      exact h ▸ .eip1559 v _

theorem mathRound_ge {factor : ℚ} (h : 1 < factor) : 1000 ≤ mathRound (factor * 1000) := by
  refine Int.le_floor.2 ?_
  push_cast
  linarith

/-- A bump raises exactly the fees that are not too negative. -/
theorem lt_bump_iff {factor : ℚ} (h : 1 < factor) (v : ℤ) :
    v < (v * mathRound (factor * 1000)).tdiv 1000 + 1 ↔ Bumpable factor v := by
  have hm := mathRound_ge h
  unfold Bumpable
  generalize mathRound (factor * 1000) = m at hm ⊢
  rw [mul_sub]
  rcases le_or_gt 0 v with hv | hv
  · have hle : v * 1000 ≤ v * m := mul_le_mul_of_nonneg_left hm hv
    rw [Int.tdiv_eq_ediv_of_nonneg (by omega)]
    omega
  · have hle : v * m ≤ v * 1000 := mul_le_mul_of_nonpos_left hm hv.le
    have htdiv : (v * m).tdiv 1000 = -(-(v * m) / 1000) := by
      rw [← Int.tdiv_eq_ediv_of_nonneg (by omega), Int.neg_tdiv, neg_neg]
    rw [htdiv]
    omega

theorem bumpFee_shaped {mode : FeeMode} {fee fee' : FeeFields} {factor : ℚ} (hfactor : 1 < factor)
    (hshaped : Shaped mode fee) (h : bumpFee mode fee factor = .ok fee') :
    Shaped mode fee' ∧ (Below fee fee' ↔ FeesBumpable factor fee) := by
  cases hshaped with
  | legacy v =>
    obtain rfl := Except.ok.inj h
    refine ⟨.legacy _, ?_⟩
    simp [Below, FeesBumpable, lt_bump_iff hfactor]
  | eip1559 v w =>
    obtain rfl := Except.ok.inj h
    refine ⟨.eip1559 _ _, ?_⟩
    simp [Below, FeesBumpable, lt_bump_iff hfactor, or_imp, forall_and]

theorem Below.trans {f g k : FeeFields} (h : Below f g)
    (h' : Below g k) : Below f k := by
  refine ⟨fun x hx => ?_, fun x hx => ?_, fun x hx => ?_⟩
  · obtain ⟨w, hw, hlt'⟩ := h'.1 x hx
    obtain ⟨v, hv, hlt⟩ := h.1 w hw
    exact ⟨v, hv, hlt.trans hlt'⟩
  · obtain ⟨w, hw, hlt'⟩ := h'.2.1 x hx
    obtain ⟨v, hv, hlt⟩ := h.2.1 w hw
    exact ⟨v, hv, hlt.trans hlt'⟩
  · obtain ⟨w, hw, hlt'⟩ := h'.2.2 x hx
    obtain ⟨v, hv, hlt⟩ := h.2.2 w hw
    exact ⟨v, hv, hlt.trans hlt'⟩

/-- What must hold when the call submits again, with `sent` submitted before, the latest first:
after a refresh, that the state fetched has higher fees than every earlier submission with its
nonce; after a bump, that this raises the latest fees. -/
def StepRises (s : Settings) : List TxContext → Option StateResult → Prop
  | sent, some st => ∀ c ∈ sent, c.nonce = st.nonce →
      ∀ fee, initialFee s.feeMode st.fee = .ok fee → Below c.fee fee
  | c :: _, none => FeesBumpable s.bumpFactor c.fee
  | [], none => True

/-- Every submission of a trace satisfies `StepRises`; the option is the state fetched since the
latest one. -/
def Rises (s : Settings) : List TxContext → Option StateResult → Trace → Prop
  | _, _, [] => True
  | sent, fetched, ⟨.signSend ctx, _⟩ :: t =>
    StepRises s sent fetched ∧ Rises s (ctx :: sent) none t
  | sent, _, ⟨.fetchState, .ok st⟩ :: t => Rises s sent (some st) t
  | sent, fetched, _ :: t => Rises s sent fetched t

/-- The fees of replacements increase. -/
def FeesIncrease (t : Trace) : Prop := (submissions t).Pairwise Replaces

section Rises

variable {s : Settings} {sent : List TxContext} {fetched : Option StateResult} {t : Trace}

theorem rises_append_of_later {u : Trace} (hu : ∀ ev ∈ u, ev.1.Later) :
    Rises s sent fetched (u ++ t) ↔ Rises s sent fetched t := by
  induction u with
  | nil => rfl
  | cons ev u ih =>
    obtain ⟨hev, hrest⟩ := List.forall_mem_cons.1 hu
    obtain ⟨e, r⟩ := ev
    rw [← ih hrest]
    cases e <;> first | rfl | exact absurd hev id

theorem rises_of_submissions_nil (h : submissions t = []) : Rises s sent fetched t := by
  induction t generalizing fetched with
  | nil => trivial
  | cons ev t ih =>
    obtain ⟨e, r⟩ := ev
    cases e with
    | signSend ctx => cases h
    | fetchState => cases r <;> exact ih h
    | _ => exact ih h

/-- Nothing more is submitted. -/
theorem pairwise_iff_rises_of_nil (hsent : sent.Pairwise fun c c' => Replaces c' c)
    (ht : submissions t = []) :
    (sent.reverse ++ submissions t).Pairwise Replaces ↔ Rises s sent fetched t := by
  rw [ht, List.append_nil, List.pairwise_reverse]
  exact iff_of_true hsent (rises_of_submissions_nil ht)

/-- The nonce and the fee of the next submission, from what was submitted and fetched before. -/
def Next (s : Settings) (sent : List TxContext) (fetched : Option StateResult) (nonce : ℤ)
    (fee : FeeFields) : Prop :=
  match fetched with
  | some st => nonce = st.nonce ∧ initialFee s.feeMode st.fee = .ok fee
  | none => ∃ c rest, sent = c :: rest ∧ nonce = c.nonce ∧ Shaped s.feeMode c.fee ∧
      bumpFee s.feeMode c.fee s.bumpFactor = .ok fee

theorem Next.shaped {nonce : ℤ} {fee : FeeFields} (h : Next s sent fetched nonce fee)
    (hfactor : 1 < s.bumpFactor) : Shaped s.feeMode fee := by
  cases fetched with
  | some st => exact shaped_initialFee h.2
  | none =>
    obtain ⟨c, rest, -, -, hshaped, hbump⟩ := h
    exact (bumpFee_shaped hfactor hshaped hbump).1

/-- **One submission**: it replaces all earlier ones with its nonce exactly when the step rises. -/
theorem forall_replaces_iff {nonce : ℤ} {fee : FeeFields} (attempt : ℤ)
    (h : Next s sent fetched nonce fee) (hfactor : 1 < s.bumpFactor)
    (hsent : sent.Pairwise fun c c' => Replaces c' c) :
    (∀ c ∈ sent, Replaces c ⟨nonce, fee, attempt⟩) ↔ StepRises s sent fetched := by
  cases fetched with
  | some st =>
    obtain ⟨rfl, hfee⟩ := h
    refine forall₂_congr fun c _ => forall_congr' fun _ => ?_
    exact ⟨fun hbelow fee' hfee' => Except.ok.inj (hfee.symm.trans hfee') ▸ hbelow,
      fun hbelow => hbelow fee hfee⟩
  | none =>
    obtain ⟨c, rest, rfl, rfl, hshaped, hbump⟩ := h
    have hbelow := (bumpFee_shaped hfactor hshaped hbump).2
    constructor
    · exact fun hall => hbelow.1 (hall c (List.mem_cons_self ..) rfl)
    · intro hstep c' hc' hnonce
      rcases List.mem_cons.1 hc' with rfl | hc'
      · exact hbelow.2 hstep
      · exact ((List.pairwise_cons.1 hsent).1 c' hc' hnonce).trans (hbelow.2 hstep)

theorem AttemptRun.later {ctx : TxContext} {res : Except Thrown NormalizedReceipt}
    (h : AttemptRun ctx t res) : ∃ r rest, t = ⟨.signSend ctx, r⟩ :: rest ∧
      ∀ ev ∈ rest, ev.1.Later := by
  cases h with
  | refused => exact ⟨_, [], rfl, List.forall_mem_nil _⟩
  | rejected =>
    exact ⟨_, _, rfl, List.forall_mem_cons.2 ⟨trivial, List.forall_mem_singleton.2 trivial⟩⟩
  | other hrest => exact ⟨_, _, rfl, hrest⟩

theorem submissions_of_later {u : Trace} (hu : ∀ ev ∈ u, ev.1.Later) : submissions u = [] := by
  refine List.filterMap_eq_nil_iff.2 fun ev hev => ?_
  have hlater := hu ev hev
  obtain ⟨e, r⟩ := ev
  cases e <;> first | rfl | exact absurd hlater id

/-- What comes after the submission of an attempt. -/
theorem onError_rises {attempt nonce : ℤ} {fee : FeeFields} {err : Thrown}
    {res : Except Thrown (ℤ × FeeFields)} (h : OnErrorRun s attempt nonce fee err t res)
    (hshaped : Shaped s.feeMode fee) (rest : List TxContext) :
    submissions t = [] ∧ ∀ next, res = .ok next → attempt < s.maxAttempts →
      ∃ fetched, Next s (⟨nonce, fee, attempt⟩ :: rest) fetched next.1 next.2 ∧
        ∀ u, Rises s (⟨nonce, fee, attempt⟩ :: rest) none (t ++ u) ↔
          Rises s (⟨nonce, fee, attempt⟩ :: rest) fetched u := by
  cases h with
  | failed _ _ h =>
    obtain ⟨hquiet, -, hnext⟩ := runs_failAttempt h
    refine ⟨submissions_of_later hquiet.later, fun next hres hlt => ?_⟩
    obtain ⟨hnonce, hbump⟩ := hnext next hres
    exact ⟨none, ⟨_, _, rfl, hnonce, hshaped, hbump hlt⟩,
      fun u => rises_append_of_later hquiet.later⟩
  | refreshed _ _ hfee =>
    refine ⟨rfl, ?_⟩
    rintro next ⟨⟩ -
    exact ⟨some _, ⟨rfl, hfee⟩, fun u => Iff.rfl⟩
  | last _ _ hlast _ h =>
    have hnil := submissions_of_later (runs_failAttempt h).1.later
    exact ⟨hnil, fun next _ hlt => absurd hlt hlast.not_gt⟩
  | _ => exact ⟨rfl, nofun⟩

/-- The loop: the fees increase exactly when every step rises. -/
theorem attempts_rises {left : ℕ} {attempt nonce : ℤ} {fee : FeeFields} {err : Thrown}
    {res : Except Thrown NormalizedReceipt} (hfactor : 1 < s.bumpFactor)
    (hleft : attempt + left = s.maxAttempts + 1)
    (h : (attempts s left attempt nonce fee err).run.Runs t res)
    (hnext : 0 < left → Next s sent fetched nonce fee)
    (hsent : sent.Pairwise fun c c' => Replaces c' c) :
    (sent.reverse ++ submissions t).Pairwise Replaces ↔ Rises s sent fetched t := by
  induction left generalizing attempt nonce fee err t sent fetched with
  | zero =>
    obtain ⟨rfl, -⟩ := h
    exact pairwise_iff_rises_of_nil hsent rfl
  | succ left ih =>
    have hnext := hnext left.succ_pos
    have hstep := forall_replaces_iff attempt hnext hfactor hsent
    -- it is enough to look at what follows the submission of this attempt
    suffices ∃ r u, t = ⟨.signSend ⟨nonce, fee, attempt⟩, r⟩ :: u ∧
        ((⟨nonce, fee, attempt⟩ :: sent).Pairwise (fun c c' => Replaces c' c) →
          (((⟨nonce, fee, attempt⟩ :: sent).reverse ++ submissions u).Pairwise Replaces ↔
            Rises s (⟨nonce, fee, attempt⟩ :: sent) none u)) by
      obtain ⟨r, u, rfl, hu⟩ := this
      show (sent.reverse ++ (_ :: submissions u)).Pairwise Replaces ↔ StepRises s sent fetched ∧ _
      rw [List.reverse_cons, List.append_assoc, List.singleton_append] at hu
      by_cases hrise : StepRises s sent fetched
      · rw [and_iff_right hrise]
        exact hu (List.pairwise_cons.2 ⟨hstep.2 hrise, hsent⟩)
      · refine iff_of_false (fun hpair => hrise (hstep.1 fun c hc => ?_)) fun hr => hrise hr.1
        exact (List.pairwise_append.1 hpair).2.2 c (List.mem_reverse.2 hc) _ (List.mem_cons_self ..)
    rcases runs_attempts h with ⟨receipt, rfl, ha⟩ | ⟨t₁, err', t₂, rfl, ha, hgo⟩
    · obtain ⟨r, u, rfl, hu⟩ := ha.later
      exact ⟨r, u, rfl, fun hpair => pairwise_iff_rises_of_nil hpair (submissions_of_later hu)⟩
    · obtain ⟨r, u, rfl, hu⟩ := ha.later
      refine ⟨r, u ++ t₂, rfl, fun hpair => ?_⟩
      rw [submissions_append, submissions_of_later hu, List.nil_append, rises_append_of_later hu]
      obtain ⟨u₁, next, u₂, rfl, h₁, h₂⟩ | ⟨e, rfl, h₁⟩ := runs_except_bind.1 hgo
      · obtain ⟨hnil, hnext'⟩ := onError_rises (runs_onError h₁) (hnext.shaped hfactor) sent
        rcases Nat.eq_zero_or_pos left with rfl | hpos
        · obtain ⟨rfl, -⟩ := h₂
          rw [List.append_nil]
          exact pairwise_iff_rises_of_nil hpair hnil
        · obtain ⟨fetched', hnext', hrises⟩ := hnext' next rfl (by omega)
          rw [submissions_append, hnil, List.nil_append, hrises]
          exact ih (by omega) h₂ (fun _ => hnext') hpair
      · have hnil := (onError_rises (runs_onError h₁) (hnext.shaped hfactor) sent).1
        exact pairwise_iff_rises_of_nil hpair hnil

/-- A guard refuses the call. -/
inductive Refusal : Event Request Answer → Prop
  | alreadySent (key : String) : Refusal ⟨.alreadySent key, .ok true⟩
  | circuitOpen (message : String) : Refusal ⟨.assertClosed, .error message⟩

theorem runs_guardIdempotency {opts : SendWithRetryOpts} {res : Except Thrown Unit}
    (h : (guardIdempotency opts).run.Runs t res) :
    Quiet t ∧ (res = .ok () → ∀ ev ∈ t, ¬ Refusal ev) := by
  unfold guardIdempotency at h
  split at h
  · obtain ⟨r, u, rfl, h₁⟩ := runs_perform_bind.1 h
    rcases r with e | - | -
    · obtain ⟨rfl, rfl⟩ := h₁
      exact ⟨List.forall_mem_singleton.2 trivial, nofun⟩
    · obtain ⟨rfl, rfl⟩ := h₁
      refine ⟨List.forall_mem_singleton.2 trivial, fun _ => List.forall_mem_singleton.2 ?_⟩
      rintro ⟨⟩
    · obtain ⟨rfl, rfl⟩ := h₁
      exact ⟨List.forall_mem_singleton.2 trivial, nofun⟩
  · obtain ⟨rfl, -⟩ := h
    exact ⟨quiet_nil, fun _ => List.forall_mem_nil _⟩

theorem runs_guardBreaker {res : Except Thrown Unit} (h : (guardBreaker s).run.Runs t res) :
    Quiet t ∧ (res = .ok () → ∀ ev ∈ t, ¬ Refusal ev) := by
  unfold guardBreaker at h
  split at h
  · obtain ⟨r, rfl, rfl⟩ := runs_perform.1 h
    refine ⟨List.forall_mem_singleton.2 trivial, fun hok => List.forall_mem_singleton.2 ?_⟩
    rintro ⟨⟩
    cases hok
  · obtain ⟨rfl, -⟩ := runs_fromExcept.1 h
    exact ⟨quiet_nil, fun _ => List.forall_mem_nil _⟩

/-- A call that makes no attempt. -/
def Idle (t : Trace) : Prop := submissions t = [] ∧ Kept t

theorem Quiet.idle {t : Trace} (h : Quiet t) : Idle t := ⟨submissions_of_later h.later, h.kept⟩

theorem idle_fetchState {pre : Trace} (h : Quiet pre) (r : Called StateResult) :
    Idle (pre ++ [⟨.fetchState, r⟩]) := by
  constructor
  · rw [submissions_append, submissions_of_later h.later]
    rfl
  · refine List.forall_mem_append.2 ⟨h.kept, List.forall_mem_singleton.2 ?_⟩
    rintro e ⟨⟩

/-- What a call can do. -/
inductive CallShape (opts : SendWithRetryOpts) : Trace → Except Thrown NormalizedReceipt → Prop
  | refused {t e} (hquiet : Quiet t) : CallShape opts t (.error e)
  | unstarted {pre r e} (hquiet : Quiet pre) (hclear : ∀ ev ∈ pre, ¬ Refusal ev) :
    CallShape opts (pre ++ [⟨.fetchState, r⟩]) (.error e)
  | started {pre st fee u res} (hquiet : Quiet pre) (hclear : ∀ ev ∈ pre, ¬ Refusal ev)
      (hfactor : 1 < opts.settings.bumpFactor) (hmax : 1 ≤ opts.settings.maxAttempts)
      (hfee : initialFee opts.settings.feeMode st.fee = .ok fee)
      (hrun : (attempts opts.settings opts.settings.maxAttempts.toNat 1 st.nonce fee
        (.foreign ⟨"undefined", false⟩)).run.Runs u res) :
      CallShape opts (pre ++ ⟨.fetchState, .ok st⟩ :: u) res

theorem shape_sendWithRetry {opts : SendWithRetryOpts} {res : Except Thrown NormalizedReceipt}
    (h : (sendWithRetry opts).run.Runs t res) : CallShape opts t res := by
  unfold sendWithRetry at h
  extract_lets s at h
  split at h
  · obtain ⟨rfl, rfl⟩ := h
    exact .refused quiet_nil
  rename_i hfactor
  split at h
  · obtain ⟨rfl, rfl⟩ := h
    exact .refused quiet_nil
  rename_i hmax
  obtain ⟨t₁, _, t₂, rfl, h₁, h₂⟩ | ⟨e, rfl, h₁⟩ := runs_except_bind.1 h
  case inr => exact .refused (runs_guardIdempotency h₁).1
  obtain ⟨hquiet₁, hclear₁⟩ := runs_guardIdempotency h₁
  obtain ⟨t₃, _, t₄, rfl, h₃, h₄⟩ | ⟨e, rfl, h₃⟩ := runs_except_bind.1 h₂
  case inr => exact .refused (List.forall_mem_append.2 ⟨hquiet₁, (runs_guardBreaker h₃).1⟩)
  obtain ⟨hquiet₃, hclear₃⟩ := runs_guardBreaker h₃
  have hquiet : Quiet (t₁ ++ t₃) := List.forall_mem_append.2 ⟨hquiet₁, hquiet₃⟩
  have hclear : ∀ ev ∈ t₁ ++ t₃, ¬ Refusal ev :=
    List.forall_mem_append.2 ⟨hclear₁ rfl, hclear₃ rfl⟩
  rw [← List.append_assoc]
  obtain ⟨r, t₅, rfl, h₅⟩ := runs_perform_bind.1 h₄
  cases r with
  | error e =>
    obtain ⟨rfl, rfl⟩ := h₅
    exact .unstarted hquiet hclear
  | ok st =>
    obtain ⟨t₆, fee, t₇, rfl, ⟨rfl, hfee⟩, h₇⟩ | ⟨e, rfl, rfl, -⟩ := runs_except_bind.1 h₅
    · exact .started hquiet hclear (not_le.1 hfactor) (not_lt.1 hmax) hfee h₇
    · exact .unstarted hquiet hclear

/-- A call makes no attempt, or it is the guards, a state with its initial fee, and the loop. -/
theorem runs_sendWithRetry {opts : SendWithRetryOpts} {res : Except Thrown NormalizedReceipt}
    (h : (sendWithRetry opts).run.Runs t res) :
    Idle t ∨
      ∃ pre st fee u, t = pre ++ ⟨.fetchState, .ok st⟩ :: u ∧ Quiet pre ∧
        1 < opts.settings.bumpFactor ∧ 1 ≤ opts.settings.maxAttempts ∧
        initialFee opts.settings.feeMode st.fee = .ok fee ∧
        (attempts opts.settings opts.settings.maxAttempts.toNat 1 st.nonce fee
          (.foreign ⟨"undefined", false⟩)).run.Runs u res := by
  cases shape_sendWithRetry h with
  | refused hquiet => exact .inl hquiet.idle
  | unstarted hquiet => exact .inl (idle_fetchState hquiet _)
  | started hquiet _ hfactor hmax hfee hrun =>
    exact .inr ⟨_, _, _, _, rfl, hquiet, hfactor, hmax, hfee, hrun⟩

end Rises

/-- **When the fees of replacements increase.** In every run of a call, each submission has higher
fees than all earlier ones with its nonce, exactly when after each refresh with a further submission
the state fetched has higher fees than the earlier submissions with its nonce, and no bumped fee is
so negative that the bump lowers it. -/
theorem feesIncrease_iff (opts : SendWithRetryOpts) {t : Trace}
    {res : Except Thrown NormalizedReceipt} (hrun : (sendWithRetry opts).run.Runs t res) :
    FeesIncrease t ↔ Rises opts.settings [] none t := by
  rcases runs_sendWithRetry hrun with
    hidle | ⟨pre, st, fee, u, rfl, hpre, hfactor, hmax, hfee, hrun⟩
  · rw [FeesIncrease, hidle.1]
    exact iff_of_true .nil (rises_of_submissions_nil hidle.1)
  · have hsubmissions : submissions (pre ++ ⟨.fetchState, .ok st⟩ :: u) = submissions u := by
      rw [submissions_append, submissions_of_later hpre.later]
      rfl
    rw [FeesIncrease, hsubmissions, rises_append_of_later hpre.later]
    have hnext : Next opts.settings [] (some st) st.nonce fee := ⟨rfl, hfee⟩
    exact attempts_rises hfactor (by omega) hrun (fun _ => hnext) .nil

/-- The first attempt is rejected as already known; the refresh returns the same nonce and a higher
fee. The second attempt times out, and the third one has the bumped fee. -/
def raising : Trace :=
  let delay : ℚ := (1000 : ℤ) * 2 ^ ((2 : ℤ) - 1)
  let gasPrice : ℤ := (300 * mathRound (2 * 1000)).tdiv 1000 + 1
  [⟨.fetchState, .ok ⟨7, { gasPrice := some 100 }⟩⟩,
    ⟨.signSend ⟨7, { gasPrice := some 100 }, 1⟩, .settled (.error ⟨"already known", false⟩)⟩,
    ⟨.log (.refreshing 1), .ok ()⟩,
    ⟨.fetchState, .ok ⟨7, { gasPrice := some 300 }⟩⟩,
    ⟨.sleep (1000 : ℤ), .ok ()⟩,
    ⟨.signSend ⟨7, { gasPrice := some 300 }, 2⟩, .timedOut⟩,
    ⟨.log (.failed 2 "attempt 2 timed out after 120000ms" delay), .ok ()⟩,
    ⟨.sleep delay, .ok ()⟩,
    ⟨.signSend ⟨7, { gasPrice := some gasPrice }, 3⟩, .settled (.error ⟨"unauthorized", false⟩)⟩]

theorem feesIncrease_iff_raising :
    ∃ res, (sendWithRetry { bumpFactor := some 2 }).run.Runs raising res ∧
      FeesIncrease raising := by
  have hrun : (sendWithRetry { bumpFactor := some 2 }).run.Runs raising
      (.error (.nonRetryable "non-retryable on-chain error on attempt 3: unauthorized"
        (.foreign ⟨"unauthorized", false⟩))) := by
    iterate 9 refine .ask ?_
    exact ⟨rfl, rfl⟩
  refine ⟨_, hrun, (feesIncrease_iff { bumpFactor := some 2 } hrun).2 ⟨?first, ?refreshed, ?bumped,
    trivial⟩⟩
  case first => exact fun c hc => absurd hc List.not_mem_nil
  case refreshed =>
    intro c hc _ fee hfee
    obtain rfl := List.mem_singleton.1 hc
    obtain rfl : { gasPrice := some 300 } = fee := Except.ok.inj hfee
    refine ⟨fun w hw => ⟨100, rfl, ?_⟩, nofun, nofun⟩
    obtain rfl := Option.some.inj hw
    decide
  case bumped =>
    rintro v (hv | hv | hv)
    · obtain rfl := Option.some.inj hv
      have hround : mathRound (2 * 1000) = 2000 := by norm_num [mathRound]
      show -1000 < (300 : ℤ) * (mathRound (2 * 1000) - 1000)
      rw [hround]
      decide
    · cases hv
    · cases hv

/-- The first attempt is rejected as already known; the refresh returns the same nonce and fees, and
the second attempt is made with these. -/
theorem exists_not_feesIncrease :
    ∃ (opts : SendWithRetryOpts) (t : Trace) (res : Except Thrown NormalizedReceipt),
      1 < opts.settings.bumpFactor ∧ 1 ≤ opts.settings.maxAttempts ∧
        (sendWithRetry opts).run.Runs t res ∧ ¬ FeesIncrease t := by
  refine ⟨{ bumpFactor := some 2 }, [⟨.fetchState, .ok ⟨7, { gasPrice := some 100 }⟩⟩,
      ⟨.signSend ⟨7, { gasPrice := some 100 }, 1⟩, .settled (.error ⟨"already known", false⟩)⟩,
      ⟨.log (.refreshing 1), .ok ()⟩,
      ⟨.fetchState, .ok ⟨7, { gasPrice := some 100 }⟩⟩,
      ⟨.sleep 1000, .ok ()⟩,
      ⟨.signSend ⟨7, { gasPrice := some 100 }, 2⟩, .settled (.error ⟨"unauthorized", false⟩)⟩],
    .error (.nonRetryable "non-retryable on-chain error on attempt 2: unauthorized"
      (.foreign ⟨"unauthorized", false⟩)), by decide, by decide, ?run, fun h => ?no⟩
  case run =>
    iterate 6 refine .ask ?_
    exact ⟨rfl, rfl⟩
  case no =>
    have hreplaces := (List.pairwise_cons.1 h).1 ⟨7, { gasPrice := some 100 }, 2⟩ (by simp) rfl
    obtain ⟨v, hv, hlt⟩ := hreplaces.1 100 rfl
    exact lt_irrefl _ (Option.some.inj hv ▸ hlt)

/-! ## Failing fast -/

/-- The phrases of an error that no further attempt can cure. -/
def deterministicPhrases : List String :=
  ["insufficient funds", "invalid signature", "execution reverted", "unauthorized"]

/-- The message contains one of the phrases, in any letter case. -/
def Deterministic (e : Foreign) : Prop :=
  ∃ phrase ∈ deterministicPhrases, includes (toLowerCase e.message) phrase = true

theorem isRetryable_eq_false_iff {e : Foreign} :
    isRetryable (.foreign e) = false ↔ Deterministic e := by
  show (!deterministicPhrases.any fun s => includes (toLowerCase e.message) s) = false ↔ _
  rw [Bool.not_eq_false', List.any_eq_true]
  rfl

/-- Nothing more is submitted, and the call rejects with `NON_RETRYABLE`. -/
def FailsFast (post : Trace) (res : Except Thrown NormalizedReceipt) : Prop :=
  submissions post = [] ∧ ∃ m cause, res = .error (.nonRetryable m cause)

/-- The error is no `TxFailedError`; and if it looks like a stale nonce, then the attempt was the
last one, and the refresh, which `post` begins with, succeeds. -/
def EndsCall (s : Settings) (attempt : ℤ) (e : Foreign) (post : Trace) : Prop :=
  e.isTxFailedError = false ∧ (isNonceTooLow (.foreign e) = true →
    attempt = s.maxAttempts ∧ ∃ line st fee rest,
      post = ⟨.log line, .ok ()⟩ :: ⟨.fetchState, .ok st⟩ :: rest ∧
        initialFee s.feeMode st.fee = .ok fee)

theorem append_eq_append_cons {α : Type*} {t₁ t₂ pre post : List α} {x : α}
    (h : t₁ ++ t₂ = pre ++ x :: post) :
    (∃ c, t₁ = pre ++ x :: c ∧ post = c ++ t₂) ∨ ∃ a, pre = t₁ ++ a ∧ t₂ = a ++ x :: post := by
  obtain ⟨a, rfl, rfl⟩ | ⟨c, rfl, hc⟩ := List.append_eq_append_iff.1 h
  · exact .inr ⟨a, rfl, rfl⟩
  · cases c with
    | nil => exact .inr ⟨[], by simp, by simpa using hc.symm⟩
    | cons y c =>
      obtain ⟨rfl, rfl⟩ := List.cons.inj hc
      exact .inl ⟨c, rfl, rfl⟩

section FailsFast

variable {s : Settings} {attempt nonce : ℤ} {fee : FeeFields} {t : Trace} {e : Foreign}

theorem initialFee_error {mode : FeeMode} {base : FeeFields} {err : Thrown}
    (h : initialFee mode base = .error err) : ∃ m code, err = .onchainWriteError m code := by
  unfold initialFee at h
  split at h <;> split at h
  · exact ⟨_, _, (Except.error.inj h).symm⟩
  · cases h
  · exact ⟨_, _, (Except.error.inj h).symm⟩
  · cases h

theorem not_failsFast {err : Thrown} (h : ∀ m cause, err ≠ .nonRetryable m cause) :
    ¬ FailsFast t (.error err) := fun ⟨_, m, cause, heq⟩ => h m cause (Except.error.inj heq)

theorem failsFast_failAttempt {err : Thrown} {res : Except Thrown (ℤ × FeeFields)}
    (hfatal : isRetryable err = false) (h : (failAttempt s attempt nonce fee err).run.Runs t res) :
    submissions t = [] ∧ ∃ m, res = .error (.nonRetryable m err) := by
  obtain ⟨hquiet, hres, -⟩ := runs_failAttempt h
  exact ⟨submissions_of_later hquiet.later, hres hfatal⟩

/-- With attempts left, the loop starts with a submission. -/
theorem attempts_head {left : ℕ} {err : Thrown} {res : Except Thrown NormalizedReceipt}
    (h : (attempts s (left + 1) attempt nonce fee err).run.Runs t res) :
    ∃ r rest, t = ⟨.signSend ⟨nonce, fee, attempt⟩, r⟩ :: rest := by
  obtain ⟨receipt, -, ha⟩ | ⟨t₁, err', t₂, rfl, ha, -⟩ := runs_attempts h
  · obtain ⟨r, rest, ht, -⟩ := ha.later
    exact ⟨r, rest, ht⟩
  · obtain ⟨r, rest, rfl, -⟩ := ha.later
    exact ⟨r, rest ++ t₂, rfl⟩

/-- The end of an attempt that was rejected with a deterministic error. -/
theorem failsFast_goOn {left : ℕ} {res : Except Thrown NormalizedReceipt} (he : Deterministic e)
    (hleft : attempt + left = s.maxAttempts)
    (h : (goOn s left attempt nonce fee (.foreign e)).run.Runs t res) :
    FailsFast t res ↔ EndsCall s attempt e t := by
  have hfatal := isRetryable_eq_false_iff.2 he
  obtain ⟨t₁, next, t₂, rfl, h₁, h₂⟩ | ⟨err, rfl, h₁⟩ := runs_except_bind.1 h
  · generalize hr : (Except.ok next : Except Thrown (ℤ × FeeFields)) = r at h₁
    cases runs_onError h₁ with
    | failed _ _ hfail =>
      obtain ⟨-, m, hm⟩ := failsFast_failAttempt hfatal hfail
      cases hr.trans hm
    | last _ _ _ _ hfail =>
      obtain ⟨-, m, hm⟩ := failsFast_failAttempt hfatal hfail
      cases hr.trans hm
    | refreshed hnonce hlt _ =>
      refine iff_of_false (fun hf => ?_) fun hends => hlt.ne (hends.2 hnonce).1
      obtain ⟨left, rfl⟩ : ∃ n, left = n + 1 := ⟨left - 1, by omega⟩
      obtain ⟨r, rest, rfl⟩ := attempts_head h₂
      cases hf.1
    | _ => cases hr
  · generalize hr : (Except.error err : Except Thrown (ℤ × FeeFields)) = r at h₁
    cases runs_onError h₁ with
    | rethrown htx =>
      obtain rfl := Except.error.inj hr
      refine iff_of_false (not_failsFast nofun) fun hends => ?_
      exact absurd (htx.symm.trans hends.1) (by decide)
    | failed htx hnonce hfail =>
      obtain ⟨hnil, m, hm⟩ := failsFast_failAttempt hfatal hfail
      obtain rfl := Except.error.inj (hr.trans hm)
      exact iff_of_true ⟨hnil, _, _, rfl⟩ ⟨htx, fun h => absurd (hnonce.symm.trans h) (by decide)⟩
    | logFailed hnonce =>
      obtain rfl := Except.error.inj hr
      refine iff_of_false (not_failsFast nofun) fun hends => ?_
      obtain ⟨-, _, _, _, _, hpost, -⟩ := hends.2 hnonce
      cases hpost
    | fetchFailed hnonce =>
      obtain rfl := Except.error.inj hr
      refine iff_of_false (not_failsFast nofun) fun hends => ?_
      obtain ⟨-, _, _, _, _, hpost, -⟩ := hends.2 hnonce
      cases hpost
    | badFee hnonce hfee =>
      obtain ⟨m, code, rfl⟩ := initialFee_error hfee
      obtain rfl := Except.error.inj hr
      refine iff_of_false (not_failsFast nofun) fun hends => ?_
      obtain ⟨-, _, st, _, _, hpost, hok⟩ := hends.2 hnonce
      obtain ⟨-, hpost⟩ := List.cons.inj hpost
      obtain ⟨hst, -⟩ := List.cons.inj hpost
      obtain rfl := Except.ok.inj (eq_of_heq (Sigma.mk.inj hst).2)
      cases hfee.symm.trans hok
    | sleepFailed hnonce hlt =>
      obtain rfl := Except.error.inj hr
      exact iff_of_false (not_failsFast nofun) fun hends => hlt.ne (hends.2 hnonce).1
    | refreshed => cases hr
    | last htx hnonce hlast hfee hfail =>
      obtain ⟨hnil, m, hm⟩ := failsFast_failAttempt hfatal hfail
      obtain rfl := Except.error.inj (hr.trans hm)
      refine iff_of_true ⟨hnil, _, _, rfl⟩ ⟨htx, fun _ => ⟨by omega, _, _, _, _, rfl, hfee⟩⟩

theorem AttemptRun.rejection {ctx : TxContext} {res : Except Thrown NormalizedReceipt}
    (h : AttemptRun ctx t res) {pre post : Trace} {ev : Event Request Answer}
    (ht : t = pre ++ ev :: post) (hev : Rejection e ev) :
    post = [] ∧ res = .error (.foreign e) := by
  cases h with
  | @refused e' =>
    rcases pre with - | ⟨x, pre⟩
    · obtain ⟨rfl, rfl⟩ := List.cons.inj ht
      cases hev
      exact ⟨rfl, rfl⟩
    · simp at ht
  | rejected =>
    rcases pre with - | ⟨x, - | ⟨y, pre⟩⟩
    · obtain ⟨rfl, -⟩ := List.cons.inj ht
      cases hev
    · obtain ⟨-, ht⟩ := List.cons.inj ht
      obtain ⟨rfl, -⟩ := List.cons.inj ht
      cases hev
    · obtain ⟨-, ht⟩ := List.cons.inj ht
      obtain ⟨-, ht⟩ := List.cons.inj ht
      rcases pre with - | ⟨z, pre⟩
      · obtain ⟨rfl, rfl⟩ := List.cons.inj ht
        cases hev
        exact ⟨rfl, rfl⟩
      · simp at ht
  | other _ hkept => exact absurd hev (hkept ev (by simp [ht]) e)

theorem OnErrorRun.kept {err : Thrown} {res : Except Thrown (ℤ × FeeFields)}
    (h : OnErrorRun s attempt nonce fee err t res) : Kept t ∧ submissions t = [] := by
  have hlog : ∀ line r e, ¬ Rejection e ⟨.log line, r⟩ := fun _ _ _ h => by cases h
  have hfetch : ∀ r e, ¬ Rejection e ⟨.fetchState, r⟩ := fun _ _ h => by cases h
  have hsleep : ∀ ms r e, ¬ Rejection e ⟨.sleep ms, r⟩ := fun _ _ _ h => by cases h
  cases h with
  | rethrown => exact ⟨List.forall_mem_nil _, rfl⟩
  | failed _ _ h =>
    have hquiet := (runs_failAttempt h).1
    exact ⟨hquiet.kept, submissions_of_later hquiet.later⟩
  | last _ _ _ _ h =>
    have hquiet := (runs_failAttempt h).1
    have hnil := submissions_of_later hquiet.later
    refine ⟨?_, hnil⟩
    exact List.forall_mem_cons.2 ⟨hlog _ _, List.forall_mem_cons.2 ⟨hfetch _, hquiet.kept⟩⟩
  | logFailed => exact ⟨List.forall_mem_singleton.2 (hlog _ _), rfl⟩
  | fetchFailed =>
    exact ⟨List.forall_mem_cons.2 ⟨hlog _ _, List.forall_mem_singleton.2 (hfetch _)⟩, rfl⟩
  | badFee => exact ⟨List.forall_mem_cons.2 ⟨hlog _ _, List.forall_mem_singleton.2 (hfetch _)⟩, rfl⟩
  | _ =>
    refine ⟨List.forall_mem_cons.2 ⟨hlog _ _, List.forall_mem_cons.2 ⟨hfetch _, ?_⟩⟩, rfl⟩
    exact List.forall_mem_singleton.2 (hsleep _ _)

/-- The loop: a deterministic rejection ends the call exactly when `EndsCall` says so. -/
theorem failsFast_attempts {left : ℕ} {err : Thrown} {res : Except Thrown NormalizedReceipt}
    {pre post : Trace} {ev : Event Request Answer} (he : Deterministic e) (hev : Rejection e ev)
    (hleft : attempt + left = s.maxAttempts + 1)
    (h : (attempts s left attempt nonce fee err).run.Runs (pre ++ ev :: post) res) :
    FailsFast post res ↔
      EndsCall s (attempt - 1 + (submissions (pre ++ [ev])).length) e post := by
  generalize ht : pre ++ ev :: post = t at h
  induction left generalizing attempt nonce fee err t pre with
  | zero =>
    obtain ⟨rfl, -⟩ := h
    simp at ht
  | succ left ih =>
    rcases runs_attempts h with ⟨receipt, rfl, ha⟩ | ⟨t₁, err', t₂, rfl, ha, hgo⟩
    · cases (ha.rejection ht.symm hev).2
    obtain ⟨r, rest, ht₁, hrest⟩ := ha.later
    have hone : submissions t₁ = [⟨nonce, fee, attempt⟩] := by
      rw [ht₁]
      exact congrArg (_ :: ·) (submissions_of_later hrest)
    rcases append_eq_append_cons ht.symm with ⟨c, hsplit, rfl⟩ | ⟨a, rfl, hsplit⟩
    · obtain ⟨rfl, heq⟩ := ha.rejection hsplit hev
      obtain rfl := Except.error.inj heq
      rw [← hsplit, hone, List.length_singleton]
      have hgoOn := failsFast_goOn he (by omega) hgo
      simpa using hgoOn
    · obtain ⟨u₁, next, u₂, rfl, h₁, h₂⟩ | ⟨err₂, rfl, h₁⟩ := runs_except_bind.1 hgo
      · obtain ⟨hkept, hnil⟩ := (runs_onError h₁).kept
        rcases append_eq_append_cons hsplit with ⟨c, rfl, -⟩ | ⟨a, rfl, hu₂⟩
        · exact absurd hev (hkept ev (by simp) e)
        · have hleft' : attempt + 1 + left = s.maxAttempts + 1 := by
            push_cast at hleft
            omega
          have hiff := ih hleft' u₂ hu₂.symm h₂
          have hcount : submissions (t₁ ++ (u₁ ++ a) ++ [ev]) =
              ⟨nonce, fee, attempt⟩ :: submissions (a ++ [ev]) := by
            simp only [submissions_append, hone, hnil]
            rfl
          rw [hiff, hcount, List.length_cons]
          refine iff_of_eq (congrArg (EndsCall s · e post) ?_)
          push_cast
          omega
      · exact absurd hev ((runs_onError h₁).kept.1 ev (by simp [hsplit]) e)

end FailsFast

/-- **When a deterministic error ends the call.** After a rejection of `signSend` or of `wait` with
one of the phrases, nothing more is submitted and the call rejects with `NON_RETRYABLE`, exactly
when the error is no `TxFailedError` and not taken for a stale nonce, or taken for one on the last
attempt with a refresh that succeeds. -/
theorem failsFast_iff (opts : SendWithRetryOpts) {pre post : Trace} {ev : Event Request Answer}
    {res : Except Thrown NormalizedReceipt} {e : Foreign} (hev : Rejection e ev)
    (he : Deterministic e) (hrun : (sendWithRetry opts).run.Runs (pre ++ ev :: post) res) :
    FailsFast post res ↔
      EndsCall opts.settings (submissions (pre ++ [ev])).length e post := by
  rcases runs_sendWithRetry hrun with
    hidle | ⟨pre', st, fee, u, ht, hpre, -, hmax, -, hrun⟩
  · exact absurd hev (hidle.2 ev (by simp) e)
  rcases append_eq_append_cons ht.symm with ⟨c, rfl, -⟩ | ⟨a, rfl, ha⟩
  · exact absurd hev (hpre.kept ev (by simp) e)
  cases a with
  | nil =>
    obtain ⟨rfl, -⟩ := List.cons.inj ha
    cases hev
  | cons x a =>
    obtain ⟨rfl, rfl⟩ := List.cons.inj ha
    have hiff := failsFast_attempts he hev (by omega) hrun
    have hcount :
        submissions (pre' ++ ⟨.fetchState, .ok st⟩ :: a ++ [ev]) = submissions (a ++ [ev]) := by
      rw [List.append_assoc, submissions_append, submissions_of_later hpre.later]
      rfl
    rw [hiff, hcount, sub_self, zero_add]

/-- A first attempt without funds. -/
theorem failsFast_iff_insufficientFunds :
    ∃ (post : Trace) (res : Except Thrown NormalizedReceipt), FailsFast post res := by
  have hrun : (sendWithRetry { bumpFactor := some 2 }).run.Runs
      ([⟨.fetchState, .ok ⟨7, { gasPrice := some 100 }⟩⟩] ++
        ⟨.signSend ⟨7, { gasPrice := some 100 }, 1⟩,
          .settled (.error ⟨"Insufficient funds for gas", false⟩)⟩ :: [])
      (.error (.nonRetryable "non-retryable on-chain error on attempt 1: Insufficient funds for gas"
        (.foreign ⟨"Insufficient funds for gas", false⟩))) := by
    iterate 2 refine .ask ?_
    exact ⟨rfl, rfl⟩
  have hends : EndsCall (SendWithRetryOpts.settings { bumpFactor := some 2 }) (1 : ℕ)
      ⟨"Insufficient funds for gas", false⟩ [] := ⟨rfl, fun h => absurd h (by decide)⟩
  exact ⟨[], _, (failsFast_iff { bumpFactor := some 2 } (.signSend _)
    ⟨"insufficient funds", by simp [deterministicPhrases], by decide⟩ hrun).2 hends⟩

/-- The first attempt is rejected with a message that names a revert and a stale nonce: the nonce
is refreshed, and there is a second attempt. -/
theorem exists_not_failsFast :
    ∃ (opts : SendWithRetryOpts) (pre post : Trace) (ev : Event Request Answer) (e : Foreign)
      (res : Except Thrown NormalizedReceipt),
      (sendWithRetry opts).run.Runs (pre ++ ev :: post) res ∧ Rejection e ev ∧ Deterministic e ∧
        e.isTxFailedError = false ∧ submissions post ≠ [] ∧ ∃ receipt, res = .ok receipt := by
  refine ⟨{ bumpFactor := some 2 }, [⟨.fetchState, .ok ⟨7, { gasPrice := some 100 }⟩⟩],
    [⟨.log (.refreshing 1), .ok ()⟩,
      ⟨.fetchState, .ok ⟨8, { gasPrice := some 100 }⟩⟩,
      ⟨.sleep 1000, .ok ()⟩,
      ⟨.signSend ⟨8, { gasPrice := some 100 }, 2⟩, .settled (.ok ⟨"0xa"⟩)⟩,
      ⟨.log (.sent 2 5 8 "0xa"), .ok ()⟩,
      ⟨.wait ⟨"0xa"⟩, .settled (.ok ⟨.number 1, some "0xa"⟩)⟩,
      ⟨.log (.confirmed 2 "0xa"), .ok ()⟩],
    ⟨.signSend ⟨7, { gasPrice := some 100 }, 1⟩,
      .settled (.error ⟨"execution reverted: invalid nonce", false⟩)⟩,
    ⟨"execution reverted: invalid nonce", false⟩, .ok ⟨.number 1, some "0xa"⟩, ?run, .signSend _,
    ⟨"execution reverted", by simp [deterministicPhrases], by decide⟩, rfl, nofun, _, rfl⟩
  iterate 9 refine .ask ?_
  exact ⟨rfl, rfl⟩

end Resilience.Onchain.TypeScript
