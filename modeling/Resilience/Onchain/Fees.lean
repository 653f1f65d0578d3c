import Resilience.Onchain.Attempts
import Resilience.Onchain.Python

/-!
# Fees along a run

In `eip1559` mode the priority fee of a submission must not exceed its fee. A bump keeps that: it is
monotone, the same for both fields, and it raises every fee that is not negative. A refresh starts
from the fees of the chain. So what a call submits is valid as long as what it fetches is, and
between two refreshes every submission raises the fees (`submitted_valid`). Both clients are watched
by one monitor, which sees what they fetch and what they submit.
-/

namespace Resilience.Onchain

/-! ## One bump -/

/-- Floor division, then one more: more than the quotient, and more than what was there before. -/
theorem lt_div_succ {v n : ℤ} (hv : 0 ≤ v) (hn : 1000 ≤ n) :
    v < v * n / 1000 + 1 ∧ v * n < 1000 * (v * n / 1000 + 1) := by
  have hle : v * 1000 ≤ v * n := mul_le_mul_of_nonneg_left hn hv
  omega

theorem div_succ_mono {v w n : ℤ} (hvw : v ≤ w) (hn : 0 ≤ n) :
    v * n / 1000 + 1 ≤ w * n / 1000 + 1 := by
  have hle : v * n ≤ w * n := mul_le_mul_of_nonneg_right hvw hn
  omega

namespace TypeScript

theorem tdiv_eq {factor : ℚ} (hfactor : 1 < factor) {v : ℤ} (hv : 0 ≤ v) :
    (v * mathRound (factor * 1000)).tdiv 1000 = v * mathRound (factor * 1000) / 1000 :=
  Int.tdiv_eq_ediv_of_nonneg
    (mul_nonneg hv (le_trans (by decide) (mathRound_ge hfactor)))

/-- A bump of a fee that is not negative, more than the scaled factor asks for. -/
theorem lt_bump {factor : ℚ} (hfactor : 1 < factor) {v v' : ℤ} (hv : 0 ≤ v)
    (h : bump factor (some v) = .ok v') :
    v < v' ∧ v * mathRound (factor * 1000) < 1000 * v' := by
  obtain rfl := Except.ok.inj h
  rw [tdiv_eq hfactor hv]
  exact lt_div_succ hv (mathRound_ge hfactor)

theorem bump_mono {factor : ℚ} (hfactor : 1 < factor) {v w v' w' : ℤ} (hv : 0 ≤ v) (hvw : v ≤ w)
    (h : bump factor (some v) = .ok v') (h' : bump factor (some w) = .ok w') : v' ≤ w' := by
  obtain rfl := Except.ok.inj h
  obtain rfl := Except.ok.inj h'
  rw [tdiv_eq hfactor hv, tdiv_eq hfactor (hv.trans hvw)]
  exact div_succ_mono hvw (le_trans (by decide) (mathRound_ge hfactor))

end TypeScript

namespace Python

theorem pyRound_ge {factor : ℚ} (h : 1 < factor) : 1000 ≤ pyRound (factor * 1000) := by
  have hfloor : 1000 ≤ ⌊factor * 1000⌋ := by
    refine Int.le_floor.2 ?_
    push_cast
    linarith
  unfold pyRound
  dsimp only
  split_ifs <;> omega

/-- A bump of a fee that is not negative, more than the scaled factor asks for. -/
theorem lt_bump {factor : ℚ} (hfactor : 1 < factor) {v v' : ℤ} (hv : 0 ≤ v)
    (h : bump factor (some v) = .ok v') :
    v < v' ∧ v * pyRound (factor * 1000) < 1000 * v' := by
  obtain rfl := Except.ok.inj h
  rw [Int.fdiv_eq_ediv_of_nonneg _ (by decide)]
  exact lt_div_succ hv (pyRound_ge hfactor)

theorem bump_mono {factor : ℚ} (hfactor : 1 < factor) {v w v' w' : ℤ} (hvw : v ≤ w)
    (h : bump factor (some v) = .ok v') (h' : bump factor (some w) = .ok w') : v' ≤ w' := by
  obtain rfl := Except.ok.inj h
  obtain rfl := Except.ok.inj h'
  rw [Int.fdiv_eq_ediv_of_nonneg _ (by decide), Int.fdiv_eq_ediv_of_nonneg _ (by decide)]
  exact div_succ_mono hvw (le_trans (by decide) (pyRound_ge hfactor))

end Python

/-! ## What is fetched and submitted -/

open Prog

/-- What a state may report: nothing negative, and no priority fee above the fee. -/
def Valid (base : FeeFields) : Prop :=
  ∀ m ∈ base.maxFeePerGas, 0 ≤ m ∧ ∀ p ∈ base.maxPriorityFeePerGas, 0 ≤ p ∧ p ≤ m

instance (base : FeeFields) : Decidable (Valid base) := by
  unfold Valid
  infer_instance

/-- Both fees are there, and the priority fee is at most the fee. -/
def Submittable (fee : FeeFields) : Prop :=
  ∃ m p, fee = { maxFeePerGas := some m, maxPriorityFeePerGas := some p } ∧ 0 ≤ p ∧ p ≤ m

/-- Both fees of `g` are above those of `f`, by more than `scaled / 1000` asks for. -/
def Raised (scaled : ℤ) (f g : FeeFields) : Prop :=
  ∃ m p m' p', f = { maxFeePerGas := some m, maxPriorityFeePerGas := some p } ∧
    g = { maxFeePerGas := some m', maxPriorityFeePerGas := some p' } ∧
    m < m' ∧ m * scaled < 1000 * m' ∧ p < p' ∧ p * scaled < 1000 * p'

/-- What a call sees of the fees. -/
inductive FeeEvent
  | fetched (base : FeeFields)
  | submitted (fee : FeeFields)

/-- If what is fetched is valid, so is what is submitted; and a submission that follows another one,
without a state fetched in between, raises its fees. -/
def KeepsFees (scaled : ℤ) (events : List FeeEvent) : Prop :=
  (∀ base, .fetched base ∈ events → Valid base) →
    (∀ fee, .submitted fee ∈ events → Submittable fee) ∧
      ∀ pre fee fee' post, events = pre ++ .submitted fee :: .submitted fee' :: post →
        Raised scaled fee fee'

/-- What the next fees go by: a state that was not valid, a new state, or a submission. -/
inductive Seen
  | invalid
  | fresh
  | sent (fee : FeeFields)

namespace Seen

def next : Seen → FeeEvent → Seen
  | .invalid, _ => .invalid
  | _, .fetched base => if Valid base then .fresh else .invalid
  | _, .submitted fee => .sent fee

/-- The fees may be submitted next. -/
def Allows (scaled : ℤ) : Seen → FeeFields → Prop
  | .invalid, _ => True
  | .fresh, fee => Submittable fee
  | .sent f, fee => Submittable fee ∧ Raised scaled f fee

/-- The fees have been submitted last. -/
def Left (fee : FeeFields) : Seen → Prop
  | .invalid => True
  | .fresh => False
  | .sent f => f = fee ∧ Submittable fee

variable {scaled : ℤ} {m : Seen}

theorem Allows.left {fee : FeeFields} (h : m.Allows scaled fee) :
    (m.next (.submitted fee)).Left fee := by
  cases m with
  | invalid => trivial
  | fresh => exact ⟨rfl, h⟩
  | sent f => exact ⟨rfl, h.1⟩

theorem Left.allows {fee fee' : FeeFields} (h : m.Left fee)
    (hbump : Submittable fee → Submittable fee' ∧ Raised scaled fee fee') :
    m.Allows scaled fee' := by
  cases m with
  | invalid => trivial
  | fresh => exact h.elim
  | sent f =>
    obtain ⟨rfl, hfee⟩ := h
    exact hbump hfee

/-- After a state has been fetched. -/
theorem allows_fetched {base fee : FeeFields} (h : Valid base → Submittable fee) :
    (m.next (.fetched base)).Allows scaled fee := by
  cases m with
  | invalid => trivial
  | _ =>
    show (if Valid base then fresh else invalid).Allows scaled fee
    split_ifs with hbase
    · exact h hbase
    · trivial

theorem next_ne_invalid (h : m ≠ .invalid) {ev : FeeEvent}
    (hev : ∀ base, ev = .fetched base → Valid base) : m.next ev ≠ .invalid := by
  cases ev with
  | fetched base => cases m <;> simp_all [next]
  | submitted fee => cases m <;> simp_all [next]

theorem foldl_ne_invalid {events : List FeeEvent} (h : m ≠ .invalid)
    (hevents : ∀ base, .fetched base ∈ events → Valid base) :
    events.foldl next m ≠ .invalid := by
  induction events generalizing m with
  | nil => exact h
  | cons ev events ih =>
    refine ih (next_ne_invalid h ?_) fun base hbase => hevents base (List.mem_cons_of_mem _ hbase)
    rintro base rfl
    exact hevents base List.mem_cons_self

theorem Allows.submittable (h : m ≠ .invalid) {fee : FeeFields} (hm : m.Allows scaled fee) :
    Submittable fee := by
  cases m with
  | invalid => exact absurd rfl h
  | fresh => exact hm
  | sent f => exact hm.1

end Seen

/-- It is enough that each submission is allowed where it is made. -/
theorem keepsFees_of_allows {scaled : ℤ} {events : List FeeEvent}
    (h : ∀ pre fee post, events = pre ++ .submitted fee :: post →
      (pre.foldl Seen.next .fresh).Allows scaled fee) : KeepsFees scaled events := by
  intro hfetched
  have hvalid : ∀ pre ev post, events = pre ++ ev :: post →
      pre.foldl Seen.next .fresh ≠ .invalid := by
    rintro pre ev post rfl
    exact Seen.foldl_ne_invalid nofun fun base hbase =>
      hfetched base (List.mem_append_left _ hbase)
  constructor
  · intro fee hfee
    obtain ⟨pre, post, heq⟩ := List.append_of_mem hfee
    exact (h pre fee post heq).submittable (hvalid pre _ post heq)
  · intro pre fee fee' post heq
    have hsplit : events = (pre ++ [.submitted fee]) ++ .submitted fee' :: post := by
      rw [heq, List.append_assoc]
      rfl
    have hnext := h _ fee' post hsplit
    have hpre := hvalid pre _ _ heq
    rw [List.foldl_append] at hnext
    cases hm : pre.foldl Seen.next .fresh with
    | invalid => exact absurd hm hpre
    | fresh =>
      rw [hm] at hnext
      exact hnext.2
    | sent f =>
      rw [hm] at hnext
      exact hnext.2

section Watch

variable {E : Type} {R : E → Type} (view : Event E R → Option FeeEvent) (scaled : ℤ)

/-- The monitor of a client: `view` is what its requests and their answers say of the fees. -/
def watch (m : Seen) (e : E) (r : R e) : Seen :=
  match view ⟨e, r⟩ with
  | some ev => m.next ev
  | none => m

/-- Only what may be submitted next is submitted. -/
def Permits (m : Seen) (e : E) : Prop :=
  ∀ r fee, view ⟨e, r⟩ = some (.submitted fee) → m.Allows scaled fee

variable {view scaled}

theorem keepsFees_of_safe {α : Type} {p : Prog E R α} {Q : Seen → α → Prop}
    (h : p.Safe (Permits view scaled) (watch view) Q .fresh) {t : List (Event E R)} {a : α}
    (hrun : p.Runs t a) : KeepsFees scaled (t.filterMap view) := by
  refine keepsFees_of_allows fun pre fee post heq => ?_
  obtain ⟨t₁, t₂, rfl, rfl, htail⟩ := List.filterMap_eq_append_iff.1 heq
  obtain ⟨u, ev, v, rfl, hnone, hev, -⟩ := List.filterMap_eq_cons_iff.1 htail
  have hpre : (t₁ ++ u).filterMap view = t₁.filterMap view := by
    rw [List.filterMap_append, List.filterMap_eq_nil_iff.2 hnone, List.append_nil]
  have hfold : (t₁ ++ u).foldl (fun m ev => watch view m ev.1 ev.2) .fresh =
      (t₁.filterMap view).foldl Seen.next .fresh := by
    rw [← hpre, List.foldl_filterMap]
    congr 1
    funext m ev
    obtain ⟨e, r⟩ := ev
    unfold watch
    cases view ⟨e, r⟩ <;> rfl
  rw [← List.append_assoc] at hrun
  exact hfold ▸ h.runs_at hrun ev.2 fee hev

/-- A request that says nothing of the fees. -/
theorem keeps_of_view_eq_none {ε α : Type} {e : E} (f : R e → Except ε α) (m : Seen)
    (he : ∀ r, view ⟨e, r⟩ = none) :
    Keeps (Permits view scaled) (watch view) (· = m) (perform e f) := by
  refine keeps_perform (fun _ _ r fee h => ?_) fun m' r hm => ?_
  · rw [he r] at h
    cases h
  · unfold watch
    rw [he r]
    exact hm

end Watch

/-! ## The TypeScript client -/

namespace TypeScript

def feeEvent : Event Request Answer → Option FeeEvent
  | ⟨.fetchState, .ok state⟩ => some (.fetched state.fee)
  | ⟨.signSend ctx, _⟩ => some (.submitted ctx.fee)
  | _ => none

theorem submittable_initialFee {base fee : FeeFields} (h : initialFee .eip1559 base = .ok fee)
    (hbase : Valid base) : Submittable fee := by
  unfold initialFee at h
  dsimp only at h
  split at h
  · cases h
  · rename_i m hm
    obtain rfl := Except.ok.inj h
    obtain ⟨hnonneg, hprio⟩ := hbase m hm
    refine ⟨m, _, rfl, ?_⟩
    cases hp : base.maxPriorityFeePerGas with
    | none => exact ⟨hnonneg, le_rfl⟩
    | some p => exact hprio p hp

theorem raised_bumpFee {factor : ℚ} {fee fee' : FeeFields} (hfactor : 1 < factor)
    (hfee : Submittable fee) (h : bumpFee .eip1559 fee factor = .ok fee') :
    Submittable fee' ∧ Raised (mathRound (factor * 1000)) fee fee' := by
  obtain ⟨m, p, rfl, hp, hle⟩ := hfee
  obtain rfl := Except.ok.inj h
  obtain ⟨hm, hm'⟩ := lt_bump hfactor (hp.trans hle) rfl
  obtain ⟨hp', hp''⟩ := lt_bump hfactor hp rfl
  exact ⟨⟨_, _, rfl, hp.trans hp'.le, bump_mono hfactor hp hle rfl rfl⟩,
    m, p, _, _, rfl, rfl, hm, hm', hp', hp''⟩

section Loop

variable (s : Settings) (attempt nonce : ℤ) (fee : FeeFields) (err : Thrown) {m : Seen}

/-- The request says nothing of the fees. -/
theorem keeps_request_seen {scaled : ℤ} {α : Type} {e : Request} (f : Answer e → Except Thrown α)
    (he : ∀ r, feeEvent ⟨e, r⟩ = none) (m : Seen) :
    Keeps (Permits feeEvent scaled) (watch feeEvent) (· = m) (perform e f) :=
  keeps_of_view_eq_none f m he

theorem keeps_log_seen {scaled : ℤ} (line : LogLine) (m : Seen) :
    Keeps (Permits feeEvent scaled) (watch feeEvent) (· = m) (log line) :=
  keeps_request_seen _ (fun _ => rfl) m

theorem permits_fetchState {scaled : ℤ} (m : Seen) : Permits feeEvent scaled m .fetchState := by
  intro r fee h
  cases r <;> cases h

/-- From what has been seen, `x` makes only submissions that are allowed, and ends in `Q`. -/
abbrev Watched {α : Type} (x : Async α) (Q : Seen → Except Thrown α → Prop) (m : Seen) : Prop :=
  x.run.Safe (Permits feeEvent (mathRound (s.bumpFactor * 1000))) (watch feeEvent) Q m

theorem keeps_recordFailure_seen {scaled : ℤ} (m : Seen) :
    Keeps (Permits feeEvent scaled) (watch feeEvent) (· = m) (recordFailure s) :=
  keeps_ite (fun _ => keeps_request_seen _ (fun _ => rfl) m) fun _ => keeps_fromExcept

theorem keeps_confirm_seen {scaled : ℤ} (receipt : NormalizedReceipt) (m : Seen) :
    Keeps (Permits feeEvent scaled) (watch feeEvent) (· = m) (confirm s attempt receipt) := by
  refine keeps_ite (fun _ => ?_) fun _ => ?_
  · exact keeps_bind (keeps_recordFailure_seen s m) fun _ => keeps_fromExcept
  · refine keeps_bind ?_ fun _ => keeps_bind (keeps_request_seen _ (fun _ => rfl) m) fun _ =>
      keeps_fromExcept
    exact keeps_ite (fun _ => keeps_request_seen _ (fun _ => rfl) m) fun _ => keeps_fromExcept

variable {s fee}

theorem watched_submitAndConfirm (hm : m.Allows (mathRound (s.bumpFactor * 1000)) fee) :
    Watched s (submitAndConfirm s attempt nonce fee) (fun m' _ => m' = m.next (.submitted fee))
      m := by
  refine safe_perform_bind ?_ (fun r submitted _ => ?_) fun _ _ _ => rfl
  · rintro _ _ ⟨⟩
    exact hm
  refine keeps_bind (keeps_request_seen _ (fun _ => rfl) _) (fun _ => ?_) _ rfl
  exact keeps_bind (keeps_request_seen _ (fun _ => rfl) _) fun receipt =>
    keeps_confirm_seen s attempt receipt _

variable (hmode : s.feeMode = .eip1559) (hfactor : 1 < s.bumpFactor)

include hmode hfactor

theorem watched_bumpAndSleep (hm : attempt < s.maxAttempts → m.Left fee) :
    Watched s (bumpAndSleep s attempt nonce fee err) (fun m' r => ∀ next, r = .ok next →
      attempt < s.maxAttempts → m'.Allows (mathRound (s.bumpFactor * 1000)) next.2) m := by
  unfold bumpAndSleep
  rw [hmode]
  split_ifs with hlt
  · cases hfee : bumpFee .eip1559 fee s.bumpFactor with
    | error e => exact nofun
    | ok fee' =>
      refine (keeps_log_seen _ m).bind_safe (fun _ => ?_) nofun
      refine (keeps_request_seen _ (fun _ => rfl) m).bind_safe (fun _ => ?_) nofun
      rintro _ ⟨⟩ -
      exact (hm hlt).allows fun hsubmittable => raised_bumpFee hfactor hsubmittable hfee
  · exact fun _ _ hlt' => absurd hlt' hlt

theorem watched_failAttempt (hm : attempt < s.maxAttempts → m.Left fee) :
    Watched s (failAttempt s attempt nonce fee err) (fun m' r => ∀ next, r = .ok next →
      attempt < s.maxAttempts → m'.Allows (mathRound (s.bumpFactor * 1000)) next.2) m := by
  refine (keeps_recordFailure_seen s m).bind_safe (fun _ => ?_) nofun
  split
  · exact nofun
  · exact watched_bumpAndSleep attempt nonce err hmode hfactor hm

theorem watched_onError (hm : m.Left fee) :
    Watched s (onError s attempt nonce fee err) (fun m' r => ∀ next, r = .ok next →
      attempt < s.maxAttempts → m'.Allows (mathRound (s.bumpFactor * 1000)) next.2) m := by
  unfold onError
  split
  · exact nofun
  split
  · refine (keeps_request_seen _ (fun _ => rfl) m).bind_safe (fun _ => ?_) nofun
    refine safe_perform_bind (permits_fetchState m) (fun r refreshed hr => ?_) fun _ _ _ => nofun
    cases Called.result_eq_ok.1 hr
    rw [hmode]
    cases hfee : initialFee .eip1559 refreshed.fee with
    | error e => exact nofun
    | ok fee' =>
      show Watched s (if attempt < s.maxAttempts then _ else _) _ _
      split_ifs with hlt
      · refine (keeps_request_seen _ (fun _ => rfl) _).bind_safe (fun _ => ?_) nofun
        rintro _ ⟨⟩ -
        exact Seen.allows_fetched (submittable_initialFee hfee)
      · exact watched_failAttempt attempt _ err hmode hfactor fun hlt' => absurd hlt' hlt
  · exact watched_failAttempt attempt nonce err hmode hfactor fun _ => hm

/-- The loop: every attempt submits fees that are allowed, and leaves such fees to the next. -/
theorem watched_attempts (left : ℕ) (hleft : attempt + left = s.maxAttempts + 1)
    (hm : 0 < left → m.Allows (mathRound (s.bumpFactor * 1000)) fee) :
    Watched s (attempts s left attempt nonce fee err) (fun _ _ => True) m := by
  induction left generalizing attempt nonce fee err m with
  | zero => trivial
  | succ left ih =>
    have hfee := hm left.succ_pos
    refine safe_except_bind.2 (safe_observe.2 ?_)
    refine (watched_submitAndConfirm attempt nonce hfee).mono ?_
    rintro _ (err | receipt) rfl
    · refine safe_bind_of _ (watched_onError attempt nonce err hmode hfactor hfee.left)
        (fun m' next hnext => ?_) fun _ _ => trivial
      exact ih (attempt + 1) _ err (by push_cast at hleft; omega) fun hpos =>
        hnext (by push_cast at hleft; omega)
    · trivial

end Loop

theorem watched_sendWithRetry {opts : SendWithRetryOpts}
    (hmode : opts.settings.feeMode = .eip1559) :
    Watched opts.settings (sendWithRetry opts) (fun _ _ => True) .fresh := by
  unfold sendWithRetry
  extract_lets s
  split
  · trivial
  split
  · trivial
  have hguard : Keeps (Permits feeEvent (mathRound (s.bumpFactor * 1000))) (watch feeEvent)
      (· = .fresh) (guardIdempotency opts) := by
    unfold guardIdempotency
    split
    · refine keeps_bind (keeps_request_seen _ (fun _ => rfl) _) fun sent => ?_
      exact keeps_ite (fun _ => keeps_fromExcept) fun _ => keeps_fromExcept
    · exact keeps_fromExcept
  have hbreaker : Keeps (Permits feeEvent (mathRound (s.bumpFactor * 1000))) (watch feeEvent)
      (· = .fresh) (guardBreaker s) :=
    keeps_ite (fun _ => keeps_request_seen _ (fun _ => rfl) _) fun _ => keeps_fromExcept
  refine hguard.bind_safe (fun _ => ?_) fun _ => trivial
  refine hbreaker.bind_safe (fun _ => ?_) fun _ => trivial
  refine safe_perform_bind (permits_fetchState _) (fun r state hr => ?_) fun _ _ _ => trivial
  cases Called.result_eq_ok.1 hr
  rw [show s.feeMode = .eip1559 from hmode]
  cases hfee : initialFee .eip1559 state.fee with
  | error e => trivial
  | ok fee =>
    have hmax : 1 ≤ s.maxAttempts := not_lt.1 ‹_›
    refine watched_attempts (s := s) 1 state.nonce _ hmode (not_le.1 ‹_›) s.maxAttempts.toNat
      (by omega) fun _ => ?_
    exact Seen.allows_fetched (m := .fresh) (submittable_initialFee hfee)

end TypeScript

/-! ## The Python client -/

namespace Python

def feeEvent : Event Request Answer → Option FeeEvent
  | ⟨.fetchState, .ok state⟩ => some (.fetched state.fee)
  | ⟨.signSend ctx, _⟩ => some (.submitted ctx.fee)
  | _ => none

theorem submittable_initialFee {base fee : FeeFields} (h : initialFee "eip1559" base = .ok fee)
    (hbase : Valid base) : Submittable fee := by
  unfold initialFee at h
  rw [if_neg (by decide)] at h
  split at h
  · cases h
  · rename_i m hm
    obtain rfl := Except.ok.inj h
    obtain ⟨hnonneg, hprio⟩ := hbase m hm
    refine ⟨m, _, rfl, ?_⟩
    cases hp : base.maxPriorityFeePerGas with
    | none => exact ⟨hnonneg, le_rfl⟩
    | some p => exact hprio p hp

theorem raised_bumpFee {factor : ℚ} {fee fee' : FeeFields} (hfactor : 1 < factor)
    (hfee : Submittable fee) (h : bumpFee "eip1559" fee factor = .ok fee') :
    Submittable fee' ∧ Raised (pyRound (factor * 1000)) fee fee' := by
  obtain ⟨m, p, rfl, hp, hle⟩ := hfee
  unfold bumpFee at h
  rw [if_neg (by decide)] at h
  obtain rfl := Except.ok.inj h
  obtain ⟨hm, hm'⟩ := lt_bump hfactor (hp.trans hle) rfl
  obtain ⟨hp', hp''⟩ := lt_bump hfactor hp rfl
  exact ⟨⟨_, _, rfl, hp.trans hp'.le, bump_mono hfactor hle rfl rfl⟩,
    m, p, _, _, rfl, rfl, hm, hm', hp', hp''⟩

section Loop

variable (o : SendOpts) (attempt nonce : ℤ) (fee : FeeFields) (err : Thrown) {m : Seen}

/-- The request says nothing of the fees. -/
theorem keeps_request_seen {scaled : ℤ} {α : Type} {e : Request} (f : Answer e → Except Thrown α)
    (he : ∀ r, feeEvent ⟨e, r⟩ = none) (m : Seen) :
    Keeps (Permits feeEvent scaled) (watch feeEvent) (· = m) (perform e f) :=
  keeps_of_view_eq_none f m he

theorem keeps_log_seen {scaled : ℤ} (line : LogLine) (m : Seen) :
    Keeps (Permits feeEvent scaled) (watch feeEvent) (· = m) (log line) :=
  keeps_request_seen _ (fun _ => rfl) m

theorem permits_fetchState {scaled : ℤ} (m : Seen) : Permits feeEvent scaled m .fetchState := by
  intro r fee h
  cases r <;> cases h

/-- From what has been seen, `x` makes only submissions that are allowed, and ends in `Q`. -/
abbrev Watched {α : Type} (x : Sync α) (Q : Seen → Except Thrown α → Prop) (m : Seen) : Prop :=
  x.run.Safe (Permits feeEvent (pyRound (o.bumpFactor * 1000))) (watch feeEvent) Q m

theorem keeps_recordFailure_seen {scaled : ℤ} (m : Seen) :
    Keeps (Permits feeEvent scaled) (watch feeEvent) (· = m) (recordFailure o) :=
  keeps_ite (fun _ => keeps_request_seen _ (fun _ => rfl) m) fun _ => keeps_fromExcept

theorem keeps_confirm_seen {scaled : ℤ} (receipt : NormalizedReceipt) (m : Seen) :
    Keeps (Permits feeEvent scaled) (watch feeEvent) (· = m) (confirm o attempt receipt) := by
  refine keeps_ite (fun _ => ?_) fun _ => ?_
  · exact keeps_bind (keeps_recordFailure_seen o m) fun _ => keeps_fromExcept
  · refine keeps_bind ?_ fun _ => keeps_bind (keeps_request_seen _ (fun _ => rfl) m) fun _ =>
      keeps_fromExcept
    exact keeps_ite (fun _ => keeps_request_seen _ (fun _ => rfl) m) fun _ => keeps_fromExcept

variable {o fee}

theorem watched_submitAndWait (hm : m.Allows (pyRound (o.bumpFactor * 1000)) fee) :
    Watched o (submitAndWait o nonce fee attempt) (fun m' _ => m' = m.next (.submitted fee)) m := by
  refine safe_perform_bind ?_ (fun r submitted _ => ?_) fun _ _ _ => rfl
  · rintro _ _ ⟨⟩
    exact hm
  exact keeps_bind (keeps_request_seen _ (fun _ => rfl) _)
    (fun _ => keeps_request_seen _ (fun _ => rfl) _) _ rfl

theorem watched_submitAndConfirm (hm : m.Allows (pyRound (o.bumpFactor * 1000)) fee) :
    Watched o (submitAndConfirm o attempt nonce fee) (fun m' _ => m' = m.next (.submitted fee))
      m := by
  have hrest : ∀ (label : String) receipt, Keeps (Permits feeEvent (pyRound (o.bumpFactor * 1000)))
      (watch feeEvent) (· = m.next (.submitted fee)) (do
        let elapsed ← perform .elapsed .ok
        if o.timeout.value < elapsed then
          throw (.onchainWriteError s!"{label} exceeded timeout of {o.timeout.text}s" "TIMEOUT")
        else return receipt : Sync NormalizedReceipt) := fun label receipt =>
    keeps_bind (keeps_request_seen _ (fun _ => rfl) _) fun _ =>
      keeps_ite (fun _ => keeps_fromExcept) fun _ => keeps_fromExcept
  refine safe_except_bind.2 (safe_except_bind.2 ?_)
  refine (watched_submitAndWait attempt nonce hm).mono ?_
  rintro _ (err | receipt) rfl
  · rfl
  · refine (hrest s!"attempt {attempt}" receipt _ rfl).mono ?_
    rintro _ (err | receipt) rfl
    · rfl
    · exact keeps_confirm_seen o attempt receipt _ _ rfl

variable (hmode : o.feeMode = "eip1559") (hfactor : 1 < o.bumpFactor)

include hmode hfactor

theorem watched_bumpAndSleep (hm : attempt < o.maxAttempts → m.Left fee) :
    Watched o (bumpAndSleep o attempt nonce fee err) (fun m' r => ∀ next, r = .ok next →
      attempt < o.maxAttempts → m'.Allows (pyRound (o.bumpFactor * 1000)) next.2) m := by
  unfold bumpAndSleep
  rw [hmode]
  split_ifs with hlt
  · cases hfee : bumpFee "eip1559" fee o.bumpFactor with
    | error e => exact nofun
    | ok fee' =>
      show Watched o (do
        let delay ← fromExcept (backoffDelay o.backoffBase attempt)
        log (.failed attempt err.message delay)
        perform (.sleep delay) Called.result
        return (nonce, fee')) _ m
      refine keeps_fromExcept.bind_safe (fun delay => ?_) nofun
      refine (keeps_log_seen _ m).bind_safe (fun _ => ?_) nofun
      refine (keeps_request_seen _ (fun _ => rfl) m).bind_safe (fun _ => ?_) nofun
      rintro _ ⟨⟩ -
      exact (hm hlt).allows fun hsubmittable => raised_bumpFee hfactor hsubmittable hfee
  · exact fun _ _ hlt' => absurd hlt' hlt

theorem watched_failAttempt (hm : attempt < o.maxAttempts → m.Left fee) :
    Watched o (failAttempt o attempt nonce fee err) (fun m' r => ∀ next, r = .ok next →
      attempt < o.maxAttempts → m'.Allows (pyRound (o.bumpFactor * 1000)) next.2) m := by
  refine (keeps_recordFailure_seen o m).bind_safe (fun _ => ?_) nofun
  split
  · exact nofun
  · exact watched_bumpAndSleep attempt nonce err hmode hfactor hm

theorem watched_onError (hm : m.Left fee) :
    Watched o (onError o attempt nonce fee err) (fun m' r => ∀ next, r = .ok next →
      attempt < o.maxAttempts → m'.Allows (pyRound (o.bumpFactor * 1000)) next.2) m := by
  unfold onError
  split
  · exact nofun
  split
  · refine (keeps_request_seen _ (fun _ => rfl) m).bind_safe (fun _ => ?_) nofun
    refine safe_perform_bind (permits_fetchState m) (fun r refreshed hr => ?_) fun _ _ _ => nofun
    cases Called.result_eq_ok.1 hr
    rw [hmode]
    cases hfee : initialFee "eip1559" refreshed.fee with
    | error e => exact nofun
    | ok fee' =>
      show Watched o (if attempt < o.maxAttempts then _ else _) _ _
      split_ifs with hlt
      · refine (keeps_request_seen _ (fun _ => rfl) _).bind_safe (fun _ => ?_) nofun
        rintro _ ⟨⟩ -
        exact Seen.allows_fetched (submittable_initialFee hfee)
      · exact watched_failAttempt attempt _ err hmode hfactor fun hlt' => absurd hlt' hlt
  · exact watched_failAttempt attempt nonce err hmode hfactor fun _ => hm

/-- The loop: every attempt submits fees that are allowed, and leaves such fees to the next. -/
theorem watched_attempts (left : ℕ) (hleft : attempt + left = o.maxAttempts + 1)
    (hm : 0 < left → m.Allows (pyRound (o.bumpFactor * 1000)) fee) :
    Watched o (attempts o left attempt nonce fee err) (fun _ _ => True) m := by
  induction left generalizing attempt nonce fee err m with
  | zero => trivial
  | succ left ih =>
    have hfee := hm left.succ_pos
    refine safe_except_bind.2 (safe_observe.2 ?_)
    refine (watched_submitAndConfirm attempt nonce hfee).mono ?_
    rintro _ (err | receipt) rfl
    · refine safe_bind_of _ (watched_onError attempt nonce err hmode hfactor hfee.left)
        (fun m' next hnext => ?_) fun _ _ => trivial
      exact ih (attempt + 1) _ err (by push_cast at hleft; omega) fun hpos =>
        hnext (by push_cast at hleft; omega)
    · trivial

end Loop

theorem watched_sendWithRetry {o : SendOpts} (hmode : o.feeMode = "eip1559") :
    Watched o (sendWithRetry (some o)) (fun _ _ => True) .fresh := by
  show Watched o (if o.bumpFactor ≤ 1 then _ else if o.maxAttempts < 1 then _ else _) _ _
  split
  · trivial
  split
  · trivial
  have hguard : Keeps (Permits feeEvent (pyRound (o.bumpFactor * 1000))) (watch feeEvent)
      (· = .fresh) (guardIdempotency o) := by
    unfold guardIdempotency
    split
    · refine keeps_bind (keeps_request_seen _ (fun _ => rfl) _) fun sent => ?_
      exact keeps_ite (fun _ => keeps_fromExcept) fun _ => keeps_fromExcept
    · exact keeps_fromExcept
  have hbreaker : Keeps (Permits feeEvent (pyRound (o.bumpFactor * 1000))) (watch feeEvent)
      (· = .fresh) (guardBreaker o) :=
    keeps_ite (fun _ => keeps_request_seen _ (fun _ => rfl) _) fun _ => keeps_fromExcept
  refine hguard.bind_safe (fun _ => ?_) fun _ => trivial
  refine hbreaker.bind_safe (fun _ => ?_) fun _ => trivial
  refine safe_perform_bind (permits_fetchState _) (fun r state hr => ?_) fun _ _ _ => trivial
  cases Called.result_eq_ok.1 hr
  rw [Option.getD_some, hmode]
  cases hfee : initialFee "eip1559" state.fee with
  | error e => trivial
  | ok fee =>
    refine watched_attempts (o := o) 1 state.nonce _ hmode (not_le.1 ‹_›) o.maxAttempts.toNat
      (by omega) fun _ => ?_
    exact Seen.allows_fetched (m := .fresh) (submittable_initialFee hfee)

end Python

/-! ## Both clients -/

/-- **EIP-1559 fees stay valid, and every bump raises them.** In `eip1559` mode, if every state that
a call fetches is valid, every submission has a priority fee of at most its fee; and of two
submissions without a state fetched in between, the later has fees above those of the earlier, by
more than the rounded factor asks for. This holds of every run of both clients. -/
theorem submitted_valid :
    (∀ (opts : TypeScript.SendWithRetryOpts) (t : TypeScript.Trace)
      (res : Except Thrown NormalizedReceipt), opts.settings.feeMode = .eip1559 →
      (TypeScript.sendWithRetry opts).run.Runs t res →
      KeepsFees (TypeScript.mathRound (opts.settings.bumpFactor * 1000))
        (t.filterMap TypeScript.feeEvent)) ∧
    ∀ (o : Python.SendOpts) (t : Python.Trace) (res : Except Thrown NormalizedReceipt),
      o.feeMode = "eip1559" → (Python.sendWithRetry (some o)).run.Runs t res →
      KeepsFees (Python.pyRound (o.bumpFactor * 1000)) (t.filterMap Python.feeEvent) :=
  ⟨fun _ _ _ hmode hrun => keepsFees_of_safe (TypeScript.watched_sendWithRetry hmode) hrun,
    fun _ _ _ hmode hrun => keepsFees_of_safe (Python.watched_sendWithRetry hmode) hrun⟩

/-- A fee of 100 without a priority fee, bumped once by a factor of 2. -/
def bumpedOnce : List FeeEvent :=
  [.fetched { maxFeePerGas := some 100 },
    .submitted { maxFeePerGas := some 100, maxPriorityFeePerGas := some 100 },
    .submitted { maxFeePerGas := some 201, maxPriorityFeePerGas := some 201 }]

theorem valid_bumpedOnce (base : FeeFields) (h : .fetched base ∈ bumpedOnce) : Valid base := by
  obtain rfl : base = { maxFeePerGas := some 100 } := by simpa [bumpedOnce] using h
  decide

/-- Both clients submit twice, the second time with bumped fees. -/
theorem submitted_valid_bumped :
    ∃ (t : TypeScript.Trace) (e : Thrown) (t' : Python.Trace) (e' : Thrown),
      (TypeScript.sendWithRetry { feeMode := some .eip1559, bumpFactor := some 2 }).run.Runs t
        (.error e) ∧
      (Python.sendWithRetry (some { feeMode := "eip1559", bumpFactor := 2 })).run.Runs t'
        (.error e') ∧
      t.filterMap TypeScript.feeEvent = bumpedOnce ∧ t'.filterMap Python.feeEvent = bumpedOnce ∧
      (∀ fee, .submitted fee ∈ bumpedOnce → Submittable fee) ∧
      Raised (TypeScript.mathRound (2 * 1000))
        { maxFeePerGas := some 100, maxPriorityFeePerGas := some 100 }
        { maxFeePerGas := some 201, maxPriorityFeePerGas := some 201 } ∧
      Raised (Python.pyRound (2 * 1000))
        { maxFeePerGas := some 100, maxPriorityFeePerGas := some 100 }
        { maxFeePerGas := some 201, maxPriorityFeePerGas := some 201 } := by
  have htypescript : ∃ line ms fee e,
      (TypeScript.sendWithRetry { feeMode := some .eip1559, bumpFactor := some 2 }).run.Runs
        [⟨.fetchState, .ok ⟨7, { maxFeePerGas := some 100 }⟩⟩,
          ⟨.signSend ⟨7, { maxFeePerGas := some 100, maxPriorityFeePerGas := some 100 }, 1⟩,
            .settled (.error ⟨"replaced", false⟩)⟩,
          ⟨.log line, .ok ()⟩, ⟨.sleep ms, .ok ()⟩,
          ⟨.signSend ⟨7, fee, 2⟩, .settled (.error ⟨"unauthorized", false⟩)⟩] (.error e) ∧
        fee = { maxFeePerGas := some 201, maxPriorityFeePerGas := some 201 } :=
    ⟨_, _, _, _, .ask (.ask (.ask (.ask (.ask ⟨rfl, rfl⟩)))), by decide +kernel⟩
  have hpython : ∃ line seconds fee e,
      (Python.sendWithRetry (some { feeMode := "eip1559", bumpFactor := 2 })).run.Runs
        [⟨.fetchState, .ok ⟨7, { maxFeePerGas := some 100 }⟩⟩,
          ⟨.signSend ⟨7, { maxFeePerGas := some 100, maxPriorityFeePerGas := some 100 }, 1⟩,
            .error ⟨"replaced", false⟩⟩,
          ⟨.log line, .ok ()⟩, ⟨.sleep seconds, .ok ()⟩,
          ⟨.signSend ⟨7, fee, 2⟩, .error ⟨"unauthorized", false⟩⟩] (.error e) ∧
        fee = { maxFeePerGas := some 201, maxPriorityFeePerGas := some 201 } :=
    ⟨_, _, _, _, .ask (.ask (.ask (.ask (.ask ⟨rfl, rfl⟩)))), by decide +kernel⟩
  obtain ⟨line, ms, _, e, hrun, rfl⟩ := htypescript
  obtain ⟨line', seconds, _, e', hrun', rfl⟩ := hpython
  obtain ⟨hsubmittable, hraised⟩ : (∀ fee, .submitted fee ∈ bumpedOnce → Submittable fee) ∧ _ :=
    submitted_valid.1 _ _ _ rfl hrun valid_bumpedOnce
  obtain ⟨-, hraised'⟩ := submitted_valid.2 _ _ _ rfl hrun' valid_bumpedOnce
  exact ⟨_, _, _, _, hrun, hrun', rfl, rfl, hsubmittable, hraised [_] _ _ [] rfl,
    hraised' [_] _ _ [] rfl⟩

end Resilience.Onchain
