import Resilience.Onchain.Python
import Mathlib.Tactic.Common

/-!
# Receipts in the Python client

Once the `wait` of an attempt has returned a receipt, the transaction is settled, and the call
should end with it: return the receipt if it is a success, raise `TxFailedError` if it is not, and
submit nothing more (`ReceiptFinal`). `receiptFinal_iff`: that is so exactly in the runs where
every attempt with a receipt was within its timeout and the logger did not raise on the
confirmation (`InTime`). The timeout is raised after the fact, from inside the `try` block, so a
late receipt is dropped and the attempt is retried (`exists_not_receiptFinal`).
-/

namespace Resilience.Onchain.Python

/-! ## Statements -/

/-- `wait` returned the receipt `r`. -/
abbrev receiptEvent (s : SubmitResult) (r : NormalizedReceipt) : Prog.Event Request Answer :=
  ⟨.wait s, Except.ok r⟩

/-- What a call that got the receipt `r` ends with. -/
def Reports (r : NormalizedReceipt) (res : Except Thrown NormalizedReceipt) : Prop :=
  if isReceiptSuccess r then res = .ok r else ∃ m, res = .error (.txFailed m r)

/-- After a receipt nothing more is submitted, and the call ends with that receipt. -/
def ReceiptFinal (t : Trace) (res : Except Thrown NormalizedReceipt) : Prop :=
  ∀ pre s r post, t = pre ++ receiptEvent s r :: post →
    (∀ ctx a, ⟨.signSend ctx, a⟩ ∉ post) ∧ Reports r res

/-- Every attempt whose `wait` returned a receipt was within the timeout, and no logger call after
the receipt raised. -/
def InTime (o : SendOpts) (t : Trace) : Prop :=
  ∀ pre s r post, t = pre ++ receiptEvent s r :: post →
    ∃ (d : ℚ) (rest : Trace), post = ⟨.elapsed, d⟩ :: rest ∧ d ≤ o.timeout.value ∧
      ∀ line e, ⟨.log line, Except.error e⟩ ∉ rest

/-! ## Traces without a receipt -/

def NoReceipt (t : Trace) : Prop := ∀ s r, receiptEvent s r ∉ t

/-- Requests that neither submit a transaction nor wait for one. -/
def Request.Quiet : Request → Prop
  | .signSend _ | .wait _ => False
  | _ => True

def Quiet (t : Trace) : Prop := ∀ ev ∈ t, ev.1.Quiet

theorem Quiet.noReceipt {t : Trace} (h : Quiet t) : NoReceipt t :=
  fun _ _ hmem => h _ hmem

theorem Quiet.not_signSend {t : Trace} (h : Quiet t) (ctx : TxContext)
    (a : Answer (.signSend ctx)) : ⟨.signSend ctx, a⟩ ∉ t :=
  fun hmem => h _ hmem

theorem split_append {t₁ t₂ pre post : Trace} {s : SubmitResult} {r : NormalizedReceipt}
    (h₁ : NoReceipt t₁) (h : t₁ ++ t₂ = pre ++ receiptEvent s r :: post) :
    ∃ pre', pre = t₁ ++ pre' ∧ t₂ = pre' ++ receiptEvent s r :: post := by
  obtain ⟨a, rfl, rfl⟩ | ⟨c, hc, hpost⟩ := List.append_eq_append_iff.1 h
  · exact ⟨a, rfl, rfl⟩
  · cases c with
    | nil => exact ⟨[], by simpa using hc.symm, by simpa using hpost.symm⟩
    | cons ev c =>
      obtain ⟨hev, -⟩ := List.cons_eq_cons.1 hpost
      exact absurd (by simp [hc, hev]) (h₁ s r)

theorem receiptFinal_append {t₁ t₂ : Trace} {res : Except Thrown NormalizedReceipt}
    (h : NoReceipt t₁) : ReceiptFinal (t₁ ++ t₂) res ↔ ReceiptFinal t₂ res := by
  constructor
  · rintro hf pre s r post rfl
    exact hf (t₁ ++ pre) s r post (by simp)
  · intro hf pre s r post ht
    obtain ⟨pre', rfl, rfl⟩ := split_append h ht
    exact hf pre' s r post rfl

theorem inTime_append {o : SendOpts} {t₁ t₂ : Trace} (h : NoReceipt t₁) :
    InTime o (t₁ ++ t₂) ↔ InTime o t₂ := by
  constructor
  · rintro hf pre s r post rfl
    exact hf (t₁ ++ pre) s r post (by simp)
  · intro hf pre s r post ht
    obtain ⟨pre', rfl, rfl⟩ := split_append h ht
    exact hf pre' s r post rfl

theorem receiptFinal_iff_inTime_of_noReceipt {o : SendOpts} {t : Trace}
    {res : Except Thrown NormalizedReceipt} (h : NoReceipt t) :
    ReceiptFinal t res ↔ InTime o t := by
  constructor
  all_goals
    rintro - pre s r post rfl
    exact absurd (by simp) (h s r)

theorem receiptFinal_iff_bind {α : Type} {o : SendOpts} {x : Sync α}
    {f : α → Sync NormalizedReceipt} (hx : ∀ {t res}, x.run.Runs t res → Quiet t)
    (hf : ∀ {a t res}, (f a).run.Runs t res → (ReceiptFinal t res ↔ InTime o t)) {t : Trace}
    {res : Except Thrown NormalizedReceipt} (h : (x >>= f).run.Runs t res) :
    ReceiptFinal t res ↔ InTime o t := by
  obtain ⟨t₁, a, t₂, rfl, h₁, h₂⟩ | ⟨e, rfl, h₁⟩ := runs_except_bind.1 h
  · have hq := (hx h₁).noReceipt
    rw [receiptFinal_append hq, inTime_append hq]
    exact hf h₂
  · exact receiptFinal_iff_inTime_of_noReceipt (hx h₁).noReceipt

/-! ## One attempt -/

/-- How an attempt can go: without a receipt; with a receipt and too late; with the receipt of a
revert; with the receipt of a success, reported or not. -/
inductive AttemptRun (o : SendOpts) : Trace → Except Thrown NormalizedReceipt → Prop
  | failed {t e} (h : NoReceipt t) : AttemptRun o t (.error e)
  | late {pre s r d e} (h : NoReceipt pre) (hd : o.timeout.value < d)
      (he : ∀ m r, e ≠ .txFailed m r) :
      AttemptRun o (pre ++ [receiptEvent s r, ⟨.elapsed, d⟩]) (.error e)
  | reverted {pre s r d rest m} (h : NoReceipt pre) (hd : d ≤ o.timeout.value)
      (hr : isReceiptSuccess r = false) (hrest : Quiet rest)
      (hlog : ∀ line e, ⟨.log line, Except.error e⟩ ∉ rest) :
      AttemptRun o (pre ++ receiptEvent s r :: ⟨.elapsed, d⟩ :: rest) (.error (.txFailed m r))
  | confirmed {pre s r d rest} (h : NoReceipt pre) (hd : d ≤ o.timeout.value)
      (hr : isReceiptSuccess r = true) (hrest : Quiet rest)
      (hlog : ∀ line e, ⟨.log line, Except.error e⟩ ∉ rest) :
      AttemptRun o (pre ++ receiptEvent s r :: ⟨.elapsed, d⟩ :: rest) (.ok r)
  | raised {pre s r d rest e line} (h : NoReceipt pre) (hr : isReceiptSuccess r = true)
      (hrest : Quiet rest) (hlog : ⟨.log line, Except.error e⟩ ∈ rest) :
      AttemptRun o (pre ++ receiptEvent s r :: ⟨.elapsed, d⟩ :: rest) (.error (.foreign e))

theorem quiet_recordSuccess {o : SendOpts} {t : Trace} {res : Except Thrown Unit}
    (h : (recordSuccess o).run.Runs t res) :
    res = .ok () ∧ Quiet t ∧ ∀ line e, ⟨.log line, Except.error e⟩ ∉ t := by
  unfold recordSuccess at h
  split at h
  · obtain ⟨r, rfl, rfl⟩ := runs_perform.1 h
    simp [Quiet, Request.Quiet]
  · obtain ⟨rfl, rfl⟩ := runs_fromExcept.1 h
    simp [Quiet]

theorem quiet_recordFailure {o : SendOpts} {t : Trace} {res : Except Thrown Unit}
    (h : (recordFailure o).run.Runs t res) :
    res = .ok () ∧ Quiet t ∧ ∀ line e, ⟨.log line, Except.error e⟩ ∉ t := by
  unfold recordFailure at h
  split at h
  · obtain ⟨r, rfl, rfl⟩ := runs_perform.1 h
    simp [Quiet, Request.Quiet]
  · obtain ⟨rfl, rfl⟩ := runs_fromExcept.1 h
    simp [Quiet]

theorem runs_submitAndWait {o : SendOpts} {n a : ℤ} {f : FeeFields} {t : Trace}
    {res : Except Thrown NormalizedReceipt} (h : (submitAndWait o n f a).run.Runs t res) :
    (NoReceipt t ∧ ∃ e, res = .error e) ∨
      ∃ pre s r, NoReceipt pre ∧ t = pre ++ [receiptEvent s r] ∧ res = .ok r := by
  obtain ⟨submitted, t₁, rfl, h₁⟩ := runs_perform_bind.1 h
  cases submitted with
  | error e =>
    obtain ⟨rfl, rfl⟩ := h₁
    exact .inl ⟨by simp [NoReceipt], _, rfl⟩
  | ok submitted =>
    obtain ⟨logged, t₂, rfl, h₂⟩ := runs_perform_bind.1 h₁
    cases logged with
    | error e =>
      obtain ⟨rfl, rfl⟩ := h₂
      exact .inl ⟨by simp [NoReceipt], _, rfl⟩
    | ok _ =>
      obtain ⟨receipt, rfl, rfl⟩ := runs_perform.1 h₂
      cases receipt with
      | error e => exact .inl ⟨by simp [NoReceipt], _, rfl⟩
      | ok r => exact .inr ⟨[_, _], submitted, r, by simp [NoReceipt], rfl, rfl⟩

/-- What `confirm` does with the receipt of an attempt that was in time. -/
theorem runs_confirm {o : SendOpts} {attempt : ℤ} {r : NormalizedReceipt} {pre rest : Trace}
    {s : SubmitResult} {d : ℚ} {res : Except Thrown NormalizedReceipt} (hpre : NoReceipt pre)
    (hd : d ≤ o.timeout.value) (h : (confirm o attempt r).run.Runs rest res) :
    AttemptRun o (pre ++ receiptEvent s r :: ⟨.elapsed, d⟩ :: rest) res := by
  unfold confirm at h
  split at h
  case isTrue hr =>
    obtain ⟨t₁, _, t₂, rfl, h₁, h₂⟩ | ⟨e, rfl, h₁⟩ := runs_except_bind.1 h
    case inr => cases (quiet_recordFailure h₁).1
    obtain ⟨-, hq, hlog⟩ := quiet_recordFailure h₁
    obtain ⟨rfl, rfl⟩ := h₂
    rw [List.append_nil]
    exact .reverted hpre hd (by simpa using hr) hq hlog
  case isFalse hr =>
    have hr : isReceiptSuccess r = true := by simpa using hr
    obtain ⟨t₁, _, t₂, rfl, h₁, h₂⟩ | ⟨e, rfl, h₁⟩ := runs_except_bind.1 h
    case inr => cases (quiet_recordSuccess h₁).1
    obtain ⟨-, hq, hlog⟩ := quiet_recordSuccess h₁
    obtain ⟨logged, t₃, rfl, h₃⟩ := runs_perform_bind.1 h₂
    have hq' : Quiet (t₁ ++ [⟨.log (.confirmed attempt (r.txHash.getD "")), logged⟩]) := by
      simpa [Quiet, Request.Quiet, or_imp, forall_and] using hq
    cases logged with
    | error e =>
      obtain ⟨rfl, rfl⟩ := h₃
      exact .raised hpre hr hq' (List.mem_append_right _ (List.mem_singleton_self _))
    | ok _ =>
      obtain ⟨rfl, rfl⟩ := h₃
      exact .confirmed hpre hd hr hq' (by simpa using hlog)

theorem runs_submitAndConfirm {o : SendOpts} {attempt nonce : ℤ} {fee : FeeFields} {t : Trace}
    {res : Except Thrown NormalizedReceipt}
    (h : (submitAndConfirm o attempt nonce fee).run.Runs t res) : AttemptRun o t res := by
  unfold submitAndConfirm withTimeout at h
  simp only [bind_assoc] at h
  obtain ⟨t₁, r, t₂, rfl, h₁, h₂⟩ | ⟨e, rfl, h₁⟩ := runs_except_bind.1 h
  case inr =>
    obtain ⟨hnone, -⟩ | ⟨_, _, _, _, _, he⟩ := runs_submitAndWait h₁
    · exact .failed hnone
    · cases he
  obtain ⟨-, e, he⟩ | ⟨pre, s, r, hpre, rfl, ⟨⟩⟩ := runs_submitAndWait h₁
  · cases he
  obtain ⟨d, t₃, rfl, h₃⟩ := runs_perform_bind.1 h₂
  rw [List.append_assoc, List.singleton_append]
  dsimp only at h₃
  split at h₃
  case isTrue hd =>
    obtain ⟨rfl, rfl⟩ := h₃
    exact .late hpre hd fun _ _ => nofun
  case isFalse hd => exact runs_confirm hpre (not_lt.1 hd) h₃

/-! ## The handlers -/

/-- A program that submits nothing, waits for nothing and does not raise the client's own
`TxFailedError`. -/
def Mild {α : Type} (x : Sync α) : Prop :=
  x.run.Safe (fun _ e => e.Quiet) (fun _ _ _ => ())
    (fun _ res => ∀ m r, res ≠ .error (.txFailed m r)) ()

theorem mild_bind {α β : Type} {x : Sync α} {f : α → Sync β} (hx : Mild x)
    (hf : ∀ a, Mild (f a)) : Mild (x >>= f) := by
  refine safe_except_bind.2 (Prog.Safe.mono hx ?_)
  rintro _ (e | a) h
  · exact fun m r he => h m r (by rw [Except.error.inj he])
  · exact hf a

theorem mild_pure {α : Type} (a : α) : Mild (pure a : Sync α) := fun _ _ => nofun

theorem mild_throw {α : Type} {e : Thrown} (he : ∀ m r, e ≠ .txFailed m r) :
    Mild (throw e : Sync α) :=
  fun m r h => he m r (Except.error.inj h)

theorem mild_fromExcept {α : Type} {res : Except Thrown α}
    (h : ∀ m r, res ≠ .error (.txFailed m r)) : Mild (fromExcept res) := h

theorem mild_perform {α : Type} {e : Request} {f : Answer e → Except Thrown α} (he : e.Quiet)
    (hf : ∀ a m r, f a ≠ .error (.txFailed m r)) : Mild (perform e f) := ⟨he, hf⟩

theorem result_ne_txFailed {α : Type} (a : Called α) (m : String) (r : NormalizedReceipt) :
    a.result ≠ .error (.txFailed m r) := by
  cases a <;> exact nofun

theorem initialFee_ne_txFailed (mode : String) (base : FeeFields) (m : String)
    (r : NormalizedReceipt) : initialFee mode base ≠ .error (.txFailed m r) := by
  unfold initialFee
  split <;> split <;> exact nofun

theorem bumpFee_ne_txFailed (mode : String) (fee : FeeFields) (factor : ℚ) (m : String)
    (r : NormalizedReceipt) : bumpFee mode fee factor ≠ .error (.txFailed m r) := by
  obtain ⟨gasPrice, maxFee, maxPriority⟩ := fee
  unfold bumpFee
  split
  · cases gasPrice <;> exact nofun
  · cases maxFee <;> cases maxPriority <;> exact nofun

theorem backoffDelay_ne_txFailed (backoffBase : ℚ) (attempt : ℤ) (m : String)
    (r : NormalizedReceipt) : backoffDelay backoffBase attempt ≠ .error (.txFailed m r) := by
  unfold backoffDelay
  split <;> exact nofun

theorem mild_recordFailure (o : SendOpts) : Mild (recordFailure o) := by
  unfold recordFailure
  split
  · exact mild_perform trivial fun _ _ _ => nofun
  · exact mild_fromExcept fun _ _ => nofun

theorem mild_bumpAndSleep (o : SendOpts) (attempt nonce : ℤ) (fee : FeeFields) (err : Thrown) :
    Mild (bumpAndSleep o attempt nonce fee err) := by
  unfold bumpAndSleep
  split
  · refine mild_bind (mild_fromExcept (bumpFee_ne_txFailed _ _ _)) fun fee => ?_
    refine mild_bind (mild_fromExcept (backoffDelay_ne_txFailed _ _)) fun delay => ?_
    refine mild_bind (mild_perform trivial result_ne_txFailed) fun _ => ?_
    exact mild_bind (mild_perform trivial result_ne_txFailed) fun _ => mild_pure _
  · exact mild_pure _

theorem mild_failAttempt (o : SendOpts) (attempt nonce : ℤ) (fee : FeeFields) (err : Thrown) :
    Mild (failAttempt o attempt nonce fee err) := by
  refine mild_bind (mild_recordFailure o) fun _ => ?_
  split
  · exact mild_throw fun _ _ => nofun
  · exact mild_bumpAndSleep o attempt nonce fee err

theorem mild_onError (o : SendOpts) (attempt nonce : ℤ) (fee : FeeFields) {err : Thrown}
    (herr : ∀ m r, err ≠ .txFailed m r) : Mild (onError o attempt nonce fee err) := by
  unfold onError
  split
  · exact mild_throw herr
  split
  · refine mild_bind (mild_perform trivial result_ne_txFailed) fun _ => ?_
    refine mild_bind (mild_perform trivial result_ne_txFailed) fun refreshed => ?_
    refine mild_bind (mild_fromExcept (initialFee_ne_txFailed _ _)) fun fee => ?_
    split
    · exact mild_bind (mild_perform trivial result_ne_txFailed) fun _ => mild_pure _
    · exact mild_failAttempt o attempt _ fee err
  · exact mild_failAttempt o attempt nonce fee err

theorem Mild.runs {α : Type} {x : Sync α} {t : Trace} {res : Except Thrown α} (h : Mild x)
    (hrun : x.run.Runs t res) : Quiet t ∧ ∀ m r, res ≠ .error (.txFailed m r) := by
  obtain ⟨hok, -, hres⟩ := Prog.Safe.runs h hrun
  exact ⟨fun ev hev => (hok ev hev).choose_spec, hres⟩

theorem onError_txFailed {o : SendOpts} {attempt nonce : ℤ} {fee : FeeFields} {err : Thrown}
    (h : err.isTxFailedError = true) : onError o attempt nonce fee err = throw err := if_pos h

theorem quiet_onError {o : SendOpts} {attempt nonce : ℤ} {fee : FeeFields} {err : Thrown}
    {t : Trace} {res : Except Thrown (ℤ × FeeFields)}
    (h : (onError o attempt nonce fee err).run.Runs t res) : Quiet t := by
  by_cases herr : err.isTxFailedError = true
  · rw [onError_txFailed herr] at h
    obtain ⟨rfl, -⟩ := h
    exact fun _ => nofun
  · refine ((mild_onError o attempt nonce fee ?_).runs h).1
    rintro m r rfl
    exact herr rfl

/-! ## The loop -/

/-- In a trace with one receipt, that receipt is found in one place. -/
theorem split_unique {s s' : SubmitResult} {r r' : NormalizedReceipt} {pre rest pre' post : Trace}
    (hpre : NoReceipt pre) (hrest : NoReceipt rest)
    (h : pre ++ receiptEvent s r :: rest = pre' ++ receiptEvent s' r' :: post) :
    r' = r ∧ post = rest := by
  obtain ⟨c, rfl, hc⟩ := split_append hpre h
  cases c with
  | nil =>
    obtain ⟨⟨⟩, rfl⟩ := List.cons_eq_cons.1 hc
    exact ⟨rfl, rfl⟩
  | cons ev c =>
    obtain ⟨-, rfl⟩ := List.cons_eq_cons.1 hc
    exact absurd (by simp) (hrest s' r')

theorem noReceipt_cons_elapsed {d : ℚ} {rest : Trace} (h : Quiet rest) :
    NoReceipt (⟨.elapsed, d⟩ :: rest) := by
  intro s r hmem
  exact h.noReceipt s r (by simpa using hmem)

/-- A receipt in time that ends the call. -/
theorem receiptFinal_and_inTime {o : SendOpts} {s : SubmitResult} {r : NormalizedReceipt}
    {pre rest : Trace} {d : ℚ} {res : Except Thrown NormalizedReceipt} (hpre : NoReceipt pre)
    (hrest : Quiet rest) (hd : d ≤ o.timeout.value)
    (hlog : ∀ line e, ⟨.log line, Except.error e⟩ ∉ rest) (hres : Reports r res) :
    ReceiptFinal (pre ++ receiptEvent s r :: ⟨.elapsed, d⟩ :: rest) res ∧
      InTime o (pre ++ receiptEvent s r :: ⟨.elapsed, d⟩ :: rest) := by
  constructor
  · intro pre' s' r' post h
    obtain ⟨rfl, rfl⟩ := split_unique hpre (noReceipt_cons_elapsed hrest) h
    exact ⟨fun ctx a hmem => hrest.not_signSend ctx a (by simpa using hmem), hres⟩
  · intro pre' s' r' post h
    obtain ⟨rfl, rfl⟩ := split_unique hpre (noReceipt_cons_elapsed hrest) h
    exact ⟨d, rest, rfl, hd, hlog⟩

/-- The loop, with attempts left, goes on with a submission. -/
theorem runs_attempts_succ {o : SendOpts} {left : ℕ} {attempt nonce : ℤ} {fee : FeeFields}
    {lastErr : Thrown} {t : Trace} {res : Except Thrown NormalizedReceipt}
    (h : (attempts o (left + 1) attempt nonce fee lastErr).run.Runs t res) :
    ∃ ctx a, ⟨.signSend ctx, a⟩ ∈ t := by
  obtain ⟨a, t', rfl, -⟩ : ∃ (a : Answer (.signSend ⟨nonce, fee, attempt⟩)) (t' : Trace),
    t = ⟨.signSend ⟨nonce, fee, attempt⟩, a⟩ :: t' ∧ _ := h
  exact ⟨_, a, List.mem_cons_self ..⟩

theorem not_reports_error {r : NormalizedReceipt} {e : Thrown}
    (he : ∀ m r, e ≠ .txFailed m r) : ¬ Reports r (.error e) := by
  unfold Reports
  split
  · exact nofun
  · exact fun ⟨m, h⟩ => he m r (Except.error.inj h)

/-- What is left of the call after an attempt that failed with `err`. -/
def goOn (o : SendOpts) (left : ℕ) (attempt nonce : ℤ) (fee : FeeFields) (err : Thrown) :
    Sync NormalizedReceipt := do
  let next ← onError o attempt nonce fee err
  attempts o left (attempt + 1) next.1 next.2 err

theorem runs_attempts {o : SendOpts} {left : ℕ} {attempt nonce : ℤ} {fee : FeeFields}
    {lastErr : Thrown} {t : Trace} {res : Except Thrown NormalizedReceipt}
    (h : (attempts o (left + 1) attempt nonce fee lastErr).run.Runs t res) :
    (∃ r, res = .ok r ∧ AttemptRun o t (.ok r)) ∨
      ∃ t₁ err t₂, t = t₁ ++ t₂ ∧ AttemptRun o t₁ (.error err) ∧
        (goOn o left attempt nonce fee err).run.Runs t₂ res := by
  obtain ⟨t₁, r, t₂, rfl, h₁, h₂⟩ := runs_observe_bind.1 h
  have hattempt := runs_submitAndConfirm h₁
  cases r with
  | ok r =>
    obtain ⟨rfl, rfl⟩ := h₂
    exact .inl ⟨r, rfl, by simpa using hattempt⟩
  | error err => exact .inr ⟨t₁, err, t₂, rfl, hattempt, h₂⟩

/-- A call that goes on after an attempt submits again or fails, not with a receipt. -/
theorem not_reports_of_goOn {o : SendOpts} {left : ℕ} {attempt nonce : ℤ} {fee : FeeFields}
    {err : Thrown} (herr : ∀ m r, err ≠ .txFailed m r) {t : Trace}
    {res : Except Thrown NormalizedReceipt} (h : (goOn o left attempt nonce fee err).run.Runs t res)
    (r : NormalizedReceipt) : (∃ ctx a, ⟨.signSend ctx, a⟩ ∈ t) ∨ ¬ Reports r res := by
  obtain ⟨t₁, next, t₂, rfl, h₁, h₂⟩ | ⟨e, rfl, h₁⟩ := runs_except_bind.1 h
  case inr =>
    have he := ((mild_onError o attempt nonce fee herr).runs h₁).2
    exact .inr (not_reports_error fun m r h => he m r (congrArg _ h))
  cases left with
  | zero =>
    obtain ⟨rfl, rfl⟩ := h₂
    exact .inr (not_reports_error fun _ _ => nofun)
  | succ left =>
    obtain ⟨ctx, a, hmem⟩ := runs_attempts_succ h₂
    exact .inl ⟨ctx, a, List.mem_append_right _ hmem⟩

/-- After a receipt that the attempt did not report, neither statement holds. -/
theorem not_receiptFinal_of_goOn {o : SendOpts} {left : ℕ} {attempt nonce : ℤ} {fee : FeeFields}
    {err : Thrown} (herr : ∀ m r, err ≠ .txFailed m r) {t : Trace}
    {res : Except Thrown NormalizedReceipt} (h : (goOn o left attempt nonce fee err).run.Runs t res)
    (pre rest : Trace) (s : SubmitResult) (r : NormalizedReceipt) :
    ¬ ReceiptFinal (pre ++ receiptEvent s r :: (rest ++ t)) res := by
  intro hf
  obtain ⟨hno, hrep⟩ := hf pre s r (rest ++ t) rfl
  obtain ⟨ctx, a, hmem⟩ | hnrep := not_reports_of_goOn herr h r
  · exact hno ctx a (List.mem_append_right _ hmem)
  · exact hnrep hrep

theorem receiptFinal_iff_attempts {o : SendOpts} {left : ℕ} {attempt nonce : ℤ} {fee : FeeFields}
    {lastErr : Thrown} {t : Trace} {res : Except Thrown NormalizedReceipt}
    (h : (attempts o left attempt nonce fee lastErr).run.Runs t res) :
    ReceiptFinal t res ↔ InTime o t := by
  induction left generalizing attempt nonce fee lastErr t res with
  | zero =>
    obtain ⟨rfl, rfl⟩ := h
    exact receiptFinal_iff_inTime_of_noReceipt fun _ _ => List.not_mem_nil
  | succ left ih =>
    obtain ⟨r, rfl, ha⟩ | ⟨t₁, err, t₂, rfl, ha, hgo⟩ := runs_attempts h
    · cases ha with
      | @confirmed pre s _ d rest hpre hd hr hrest hlog =>
        have hres : Reports r (.ok r) := by simp [Reports, hr]
        have hboth := receiptFinal_and_inTime (s := s) hpre hrest hd hlog hres
        exact iff_of_true hboth.1 hboth.2
    · cases ha with
      | failed hnone =>
        rw [receiptFinal_append hnone, inTime_append hnone]
        exact receiptFinal_iff_bind quiet_onError ih hgo
      | @late pre s r d _ hpre hd he =>
        rw [List.append_assoc]
        refine iff_of_false (not_receiptFinal_of_goOn he hgo pre [_] s r) fun hin => ?_
        obtain ⟨d', rest, hpost, hd', -⟩ := hin pre s r _ rfl
        obtain ⟨⟨⟩, -⟩ := List.cons_eq_cons.1 hpost
        exact hd'.not_gt hd
      | @reverted pre s r d rest m hpre hd hr hrest hlog =>
        obtain ⟨rfl, rfl⟩ : t₂ = [] ∧ .error (.txFailed m r) = res := by
          rwa [goOn, onError_txFailed rfl] at hgo
        rw [List.append_nil]
        have hres : Reports r (.error (.txFailed m r)) := by simp [Reports, hr]
        have hboth := receiptFinal_and_inTime (s := s) hpre hrest hd hlog hres
        exact iff_of_true hboth.1 hboth.2
      | @raised pre s r d rest e line hpre hr hrest hlog =>
        rw [List.append_assoc]
        have he : ∀ m r, Thrown.foreign e ≠ .txFailed m r := fun _ _ => nofun
        refine iff_of_false (not_receiptFinal_of_goOn he hgo pre (_ :: rest) s r) fun hin => ?_
        obtain ⟨d', rest', hpost, -, hlog'⟩ := hin pre s r _ rfl
        obtain ⟨-, rfl⟩ := List.cons_eq_cons.1 hpost
        exact hlog' line e (List.mem_append_left _ hlog)

/-! ## The call -/

theorem mild_guardIdempotency (o : SendOpts) : Mild (guardIdempotency o) := by
  unfold guardIdempotency
  split
  · refine mild_bind (mild_perform trivial result_ne_txFailed) fun sent => ?_
    split
    · exact mild_throw fun _ _ => nofun
    · exact mild_pure ()
  · exact mild_pure ()

theorem mild_guardBreaker (o : SendOpts) : Mild (guardBreaker o) := by
  unfold guardBreaker
  split
  · refine mild_perform trivial fun a => ?_
    cases a <;> exact fun _ _ => nofun
  · exact mild_fromExcept fun _ _ => nofun

/-- **Once `wait` has returned a receipt, the call ends with it and submits nothing more, exactly
in the runs where every attempt with a receipt was in time and no logger raised after one.** -/
theorem receiptFinal_iff (opts : Option SendOpts) {t : Trace}
    {res : Except Thrown NormalizedReceipt} (hrun : (sendWithRetry opts).run.Runs t res) :
    ReceiptFinal t res ↔ InTime (opts.getD {}) t := by
  unfold sendWithRetry at hrun
  dsimp only at hrun
  split at hrun
  · obtain ⟨rfl, -⟩ := hrun
    exact receiptFinal_iff_inTime_of_noReceipt fun _ _ => List.not_mem_nil
  split at hrun
  · obtain ⟨rfl, -⟩ := hrun
    exact receiptFinal_iff_inTime_of_noReceipt fun _ _ => List.not_mem_nil
  refine receiptFinal_iff_bind (fun h => ((mild_guardIdempotency _).runs h).1) (fun h => ?_) hrun
  refine receiptFinal_iff_bind (fun h => ((mild_guardBreaker _).runs h).1) (fun h => ?_) h
  have hfetch : Mild (perform .fetchState Called.result) := mild_perform trivial result_ne_txFailed
  refine receiptFinal_iff_bind (fun h => (hfetch.runs h).1) (fun h => ?_) h
  refine receiptFinal_iff_bind
    (fun h => ((mild_fromExcept (initialFee_ne_txFailed _ _)).runs h).1) (fun h => ?_) h
  exact receiptFinal_iff_attempts h

/-- A first attempt confirmed in time. -/
theorem receiptFinal_iff_confirmed :
    ∃ (t : Trace) (r : NormalizedReceipt),
      (sendWithRetry (some { bumpFactor := 2 })).run.Runs t (.ok r) ∧
        (ReceiptFinal t (.ok r) ↔ InTime { bumpFactor := 2 } t) := by
  have hrun : (sendWithRetry (some { bumpFactor := 2 })).run.Runs
      [⟨.fetchState, .ok ⟨7, { gasPrice := some 100 }⟩⟩,
        ⟨.signSend ⟨7, { gasPrice := some 100 }, 1⟩, .ok ⟨"0xa"⟩⟩,
        ⟨.log (.sent 1 5 7 "0xa"), .ok ()⟩,
        ⟨.wait ⟨"0xa"⟩, .ok ⟨.number 1, some "0xa"⟩⟩,
        ⟨.elapsed, (3 : ℚ)⟩,
        ⟨.log (.confirmed 1 "0xa"), .ok ()⟩] (.ok ⟨.number 1, some "0xa"⟩) := by
    iterate 6 refine .ask ?_
    exact ⟨rfl, rfl⟩
  exact ⟨_, _, hrun, receiptFinal_iff (some { bumpFactor := 2 }) hrun⟩

/-- The receipt of the first attempt is a success, and comes 30 seconds late: it is dropped, and
the attempt is repeated. -/
theorem exists_not_receiptFinal :
    ∃ (o : SendOpts) (t : Trace) (res : Except Thrown NormalizedReceipt),
      1 < o.bumpFactor ∧ 1 ≤ o.maxAttempts ∧ (sendWithRetry (some o)).run.Runs t res ∧
        ¬ ReceiptFinal t res := by
  refine ⟨{ bumpFactor := 2 }, [⟨.fetchState, .ok ⟨7, { gasPrice := some 100 }⟩⟩,
        ⟨.signSend ⟨7, { gasPrice := some 100 }, 1⟩, .ok ⟨"0xa"⟩⟩,
        ⟨.log (.sent 1 5 7 "0xa"), .ok ()⟩,
        ⟨.wait ⟨"0xa"⟩, .ok ⟨.number 1, some "0xa"⟩⟩,
        ⟨.elapsed, (150 : ℚ)⟩,
        ⟨.log (.failed 1 "attempt 1 exceeded timeout of 120.0s" ?delay), .ok ()⟩,
        ⟨.sleep ?delay, .ok ()⟩,
        ⟨.signSend ⟨7, ?fee, 2⟩, .error ⟨"unauthorized", false⟩⟩],
    .error (.nonRetryable "non-retryable on-chain error on attempt 2: unauthorized"
      (.foreign ⟨"unauthorized", false⟩)), by norm_num, by norm_num, ?run, fun h => ?no⟩
  case run =>
    iterate 8 refine .ask ?_
    exact ⟨rfl, rfl⟩
  case no =>
    exact (h [_, _, _] ⟨"0xa"⟩ ⟨.number 1, some "0xa"⟩ _ rfl).1
      ⟨7, _, 2⟩ (.error ⟨"unauthorized", false⟩) (.tail _ (.tail _ (.tail _ (.head _))))

end Resilience.Onchain.Python
