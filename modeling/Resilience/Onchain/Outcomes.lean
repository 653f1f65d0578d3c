import Resilience.Onchain.Attempts
import Resilience.Onchain.Breaker

/-!
# Outcomes of the TypeScript client

What a call of `sendWithRetry` comes to, whatever its callbacks do. The loop runs through attempts
with the numbers 1, 2, …; an attempt ends the call with its receipt, ends it with an error, or is
followed by another one, with the nonce of the latest state (`Course`). What holds of all courses
holds of all calls (`outcome`).
-/

namespace Resilience.Onchain.TypeScript

open Prog

/-! ## Reading a trace -/

/-- The answers of the `fetchState` calls, in order. -/
def fetches (t : Trace) : List (Called StateResult) :=
  t.filterMap fun
    | ⟨.fetchState, r⟩ => some r
    | _ => none

/-- The answer of the latest `fetchState` call. -/
def latest (t : Trace) : Option (Called StateResult) := (fetches t).getLast?

/-- No submission, and no receipt that is not a success. -/
def Passing : Event Request Answer → Prop
  | ⟨.signSend _, _⟩ => False
  | ⟨.wait _, .settled (.ok receipt)⟩ => isReceiptSuccess receipt = true
  | _ => True

theorem latest_append (t u : Trace) : latest (t ++ u) = (latest u).or (latest t) := by
  unfold latest fetches
  rw [List.filterMap_append, List.getLast?_append]

theorem latest_of_later {t : Trace} (h : ∀ ev ∈ t, ev.1.Later) : latest t = none := by
  have hnil : fetches t = [] := by
    refine List.filterMap_eq_nil_iff.2 fun ev hev => ?_
    have hlater := h ev hev
    obtain ⟨e, r⟩ := ev
    cases e with
    | fetchState => exact absurd hlater id
    | _ => rfl
  rw [latest, hnil, List.getLast?_nil]

theorem Quiet.passing {t : Trace} (h : Quiet t) : ∀ ev ∈ t, Passing ev := by
  intro ev hev
  have hquiet := h ev hev
  obtain ⟨e, r⟩ := ev
  cases e with
  | signSend ctx => exact hquiet
  | wait submitted => exact absurd hquiet id
  | _ => trivial

theorem submissions_of_passing {t : Trace} (h : ∀ ev ∈ t, Passing ev) : submissions t = [] := by
  refine List.filterMap_eq_nil_iff.2 fun ev hev => ?_
  have hpassing := h ev hev
  obtain ⟨e, r⟩ := ev
  cases e with
  | signSend ctx => exact absurd hpassing id
  | _ => rfl

/-! ## Courses -/

/-- The last attempt of a call. -/
inductive Ending (ctx : TxContext) : Trace → Except Thrown NormalizedReceipt → Prop
  | succeeded {submitted line receipt rest} (hsuccess : isReceiptSuccess receipt = true)
      (hquiet : Quiet rest) :
      Ending ctx (⟨.signSend ctx, .settled (.ok submitted)⟩ :: ⟨.log line, .ok ()⟩ ::
        ⟨.wait submitted, .settled (.ok receipt)⟩ :: rest) (.ok receipt)
  | reverted {submitted line receipt rest m} (hrevert : isReceiptSuccess receipt = false)
      (hquiet : Quiet rest) :
      Ending ctx (⟨.signSend ctx, .settled (.ok submitted)⟩ :: ⟨.log line, .ok ()⟩ ::
        ⟨.wait submitted, .settled (.ok receipt)⟩ :: rest) (.error (.txFailed m receipt))
  | failed {r body e} (hbody : ∀ ev ∈ body, Passing ev) :
      Ending ctx (⟨.signSend ctx, r⟩ :: body) (.error e)

/-- The course of the loop from an attempt on, with the number of attempts that are left, the number
of the attempt and the nonce. -/
inductive Course : ℕ → ℤ → ℤ → Trace → Except Thrown NormalizedReceipt → Prop
  | exhausted {attempt nonce e} : Course 0 attempt nonce [] (.error e)
  | last {left attempt nonce fee t res} (h : Ending ⟨nonce, fee, attempt⟩ t res) :
      Course (left + 1) attempt nonce t res
  | again {left attempt nonce fee r body nonce' t res} (hbody : ∀ ev ∈ body, Passing ev)
      (hnonce : latest body = none ∧ nonce' = nonce ∨
        ∃ st, latest body = some (.ok st) ∧ nonce' = st.nonce)
      (hrest : Course left (attempt + 1) nonce' t res) :
      Course (left + 1) attempt nonce (⟨.signSend ⟨nonce, fee, attempt⟩, r⟩ :: (body ++ t)) res

section Runs

variable {s : Settings} {attempt nonce : ℤ} {fee : FeeFields} {err : Thrown} {t : Trace}

/-- The verdict on a receipt. -/
theorem runs_confirm {receipt : NormalizedReceipt} {res : Except Thrown NormalizedReceipt}
    (h : (confirm s attempt receipt).run.Runs t res) :
    isReceiptSuccess receipt = true ∧ (res = .ok receipt ∨ ∃ e, res = .error e) ∨
      isReceiptSuccess receipt = false ∧ ∃ m, res = .error (.txFailed m receipt) := by
  unfold confirm at h
  split at h
  · rename_i hrevert
    obtain ⟨t₁, _, t₂, rfl, h₁, h₂⟩ | ⟨e, rfl, h₁⟩ := runs_except_bind.1 h
    · obtain ⟨-, rfl⟩ := h₂
      exact .inr ⟨by simpa using hrevert, _, rfl⟩
    · cases (runs_recordFailure h₁).1
  · rename_i hsuccess
    rw [Bool.not_eq_true', Bool.not_eq_false] at hsuccess
    refine .inl ⟨hsuccess, ?_⟩
    obtain ⟨t₁, _, t₂, rfl, h₁, h₂⟩ | ⟨e, rfl, h₁⟩ := runs_except_bind.1 h
    · obtain ⟨logged, t₃, rfl, h₃⟩ := runs_perform_bind.1 h₂
      cases logged with
      | error e => exact .inr ⟨_, h₃.2.symm⟩
      | ok _ => exact .inl h₃.2.symm
    · exact .inr ⟨e, rfl⟩

/-- A revert is thrown again. -/
theorem runs_onError_txFailed (htx : err.isTxFailedError = true)
    {res : Except Thrown (ℤ × FeeFields)} (h : (onError s attempt nonce fee err).run.Runs t res) :
    t = [] ∧ res = .error err := by
  rw [onError, if_pos htx] at h
  exact ⟨h.1, h.2.symm⟩

/-- Between two attempts nothing is submitted, and the nonce is that of the latest state. -/
theorem OnErrorRun.passing {res : Except Thrown (ℤ × FeeFields)}
    (h : OnErrorRun s attempt nonce fee err t res) :
    (∀ ev ∈ t, Passing ev) ∧ ∀ next, res = .ok next →
      (latest t = none ∧ next.1 = nonce ∨ ∃ st, latest t = some (.ok st) ∧ next.1 = st.nonce) := by
  cases h with
  | failed _ _ h =>
    obtain ⟨hquiet, -, hnext⟩ := runs_failAttempt h
    exact ⟨hquiet.passing, fun next hres =>
      .inl ⟨latest_of_later hquiet.later, (hnext next hres).1⟩⟩
  | @last line st _ u _ _ _ _ _ h =>
    obtain ⟨hquiet, -, hnext⟩ := runs_failAttempt h
    have hlatest : latest (⟨.log line, .ok ()⟩ :: ⟨.fetchState, .ok st⟩ :: u) = some (.ok st) := by
      have happend := latest_append [⟨.log line, .ok ()⟩, ⟨.fetchState, .ok st⟩] u
      rw [latest_of_later hquiet.later, Option.none_or] at happend
      exact happend
    refine ⟨?_, fun next hres => .inr ⟨st, hlatest, (hnext next hres).1⟩⟩
    exact List.forall_mem_cons.2 ⟨trivial, List.forall_mem_cons.2 ⟨trivial, hquiet.passing⟩⟩
  | @refreshed line st fee' ms =>
    refine ⟨?_, ?_⟩
    · simp [Passing]
    · rintro next ⟨⟩
      exact .inr ⟨st, rfl, rfl⟩
  | _ =>
    refine ⟨by simp [Passing], ?_⟩
    rintro next ⟨⟩

theorem course_attempts {left : ℕ} {res : Except Thrown NormalizedReceipt}
    (h : (attempts s left attempt nonce fee err).run.Runs t res) :
    Course left attempt nonce t res := by
  induction left generalizing attempt nonce fee err t with
  | zero =>
    obtain ⟨rfl, rfl⟩ := h
    exact .exhausted
  | succ left ih =>
    obtain ⟨t₁, r, t₂, rfl, h₁, h₂⟩ := runs_observe_bind.1 h
    have hshape := shape_submitAndConfirm h₁
    -- an attempt without a receipt that ends the call
    have hfailed {sent rest err'} (ht₁ : t₁ = ⟨.signSend ⟨nonce, fee, attempt⟩, sent⟩ :: rest)
        (hrest : ∀ ev ∈ rest, Passing ev) (hlater : ∀ ev ∈ rest, ev.1.Later)
        (hr : r = .error err') : Course (left + 1) attempt nonce (t₁ ++ t₂) res := by
      subst ht₁ hr
      obtain ⟨u₁, next, u₂, rfl, h₃, h₄⟩ | ⟨e, rfl, h₃⟩ := runs_except_bind.1 h₂
      · obtain ⟨hpassing, hnext⟩ := (runs_onError h₃).passing
        rw [List.cons_append, ← List.append_assoc]
        refine .again (List.forall_mem_append.2 ⟨hrest, hpassing⟩) ?_ (ih h₄)
        rw [latest_append, latest_of_later hlater, Option.or_none]
        exact hnext next rfl
      · have hpassing := (runs_onError h₃).passing.1
        exact .last (.failed (List.forall_mem_append.2 ⟨hrest, hpassing⟩))
    cases hshape with
    | unsent => exact hfailed rfl (List.forall_mem_nil _) (List.forall_mem_nil _) rfl
    | unlogged =>
      exact hfailed rfl (List.forall_mem_singleton.2 trivial) (List.forall_mem_singleton.2 trivial)
        rfl
    | @unconfirmed submitted line sent _ hsent =>
      refine hfailed rfl ?_ (by simp [Request.Later]) rfl
      rcases sent with (e | receipt) | -
      · simp [Passing]
      · cases hsent
      · simp [Passing]
    | confirmed hconfirm =>
      have hquiet := quiet_confirm hconfirm
      rcases runs_confirm hconfirm with ⟨hsuccess, rfl | ⟨e, rfl⟩⟩ | ⟨hrevert, m, rfl⟩
      · obtain ⟨rfl, rfl⟩ := h₂
        rw [List.append_nil]
        exact .last (.succeeded hsuccess hquiet)
      · refine hfailed rfl ?_ ?_ rfl
        · exact List.forall_mem_cons.2 ⟨trivial, List.forall_mem_cons.2 ⟨hsuccess, hquiet.passing⟩⟩
        · exact List.forall_mem_cons.2 ⟨trivial, List.forall_mem_cons.2 ⟨trivial, hquiet.later⟩⟩
      · obtain ⟨u₁, next, u₂, rfl, h₃, -⟩ | ⟨e, rfl, h₃⟩ := runs_except_bind.1 h₂
        · cases (runs_onError_txFailed rfl h₃).2
        · obtain ⟨rfl, he⟩ := runs_onError_txFailed rfl h₃
          obtain rfl := Except.error.inj he
          rw [List.append_nil]
          exact .last (.reverted hrevert hquiet)

end Runs

/-! ## What holds of all courses -/

section Courses

variable {left : ℕ} {attempt nonce : ℤ} {ctx : TxContext} {t pre post : Trace}
  {receipt : NormalizedReceipt} {res : Except Thrown NormalizedReceipt}

theorem Ending.submits (h : Ending ctx t res) :
    ∃ r rest, t = ⟨.signSend ctx, r⟩ :: rest ∧ submissions rest = [] := by
  cases h with
  | @succeeded _ _ _ rest _ hquiet =>
    have hnil : submissions rest = [] := submissions_of_later hquiet.later
    exact ⟨_, _, rfl, hnil⟩
  | @reverted _ _ _ rest _ _ hquiet =>
    have hnil : submissions rest = [] := submissions_of_later hquiet.later
    exact ⟨_, _, rfl, hnil⟩
  | failed hbody => exact ⟨_, _, rfl, submissions_of_passing hbody⟩

/-- The attempts are numbered in order, and there are no more than `left`. -/
theorem Course.numbered (h : Course left attempt nonce t res) :
    ∃ n ≤ left, (submissions t).map TxContext.attempt =
      (List.range n).map fun i : ℕ => attempt + i := by
  induction h with
  | exhausted => exact ⟨0, le_rfl, rfl⟩
  | last h =>
    obtain ⟨r, rest, rfl, hnil⟩ := h.submits
    refine ⟨1, by omega, ?_⟩
    show (_ :: submissions rest).map TxContext.attempt = _
    rw [hnil]
    simp
  | @again left attempt nonce fee r body nonce' t res hbody hnonce hrest ih =>
    obtain ⟨n, hn, hcount⟩ := ih
    refine ⟨n + 1, by omega, ?_⟩
    show (_ :: submissions (body ++ t)).map TxContext.attempt = _
    rw [submissions_append, submissions_of_passing hbody, List.nil_append, List.map_cons, hcount,
      List.range_succ_eq_map, List.map_cons, List.map_map, Nat.cast_zero, add_zero]
    refine congrArg (attempt :: ·) (List.map_congr_left fun i _ => ?_)
    show attempt + 1 + i = attempt + (i + 1 : ℕ)
    push_cast
    ring

theorem eq_of_submissions_nil {ctx' : TxContext} {r : Answer (.signSend ctx)}
    {r' : Answer (.signSend ctx')} {rest : Trace} (hrest : submissions rest = [])
    (ht : ⟨.signSend ctx', r'⟩ :: rest = pre ++ ⟨.signSend ctx, r⟩ :: post) :
    pre = [] ∧ ctx' = ctx := by
  cases pre with
  | nil =>
    obtain ⟨heq, -⟩ := List.cons.inj ht
    exact ⟨rfl, Request.signSend.inj (congrArg Sigma.fst heq)⟩
  | cons ev pre =>
    obtain ⟨-, htail⟩ := List.cons.inj ht
    rw [show rest = pre ++ ⟨.signSend ctx, r⟩ :: post from htail, submissions_append,
      List.append_eq_nil_iff] at hrest
    cases hrest.2

/-- Every submission has the nonce of the latest state. -/
theorem Course.pinned (h : Course left attempt nonce t res) {before : Trace} {st : StateResult}
    (hbefore : latest before = some (.ok st)) (hnonce : nonce = st.nonce)
    {r : Answer (.signSend ctx)} (ht : t = pre ++ ⟨.signSend ctx, r⟩ :: post) :
    ∃ st, latest (before ++ pre) = some (.ok st) ∧ ctx.nonce = st.nonce := by
  induction h generalizing before st pre with
  | exhausted => simp at ht
  | last h =>
    obtain ⟨r', rest, rfl, hnil⟩ := h.submits
    obtain ⟨rfl, rfl⟩ := eq_of_submissions_nil hnil ht
    exact ⟨st, by rwa [List.append_nil], hnonce⟩
  | @again left attempt nonce fee r' body nonce' t res hbody hnext hrest ih =>
    rw [← List.cons_append] at ht
    rcases append_eq_append_cons ht with ⟨c, hsplit, -⟩ | ⟨a, rfl, rfl⟩
    · obtain ⟨rfl, rfl⟩ := eq_of_submissions_nil (submissions_of_passing hbody) hsplit
      exact ⟨st, by rwa [List.append_nil], hnonce⟩
    · have hlatest : latest (before ++ ⟨.signSend ⟨nonce, fee, attempt⟩, r'⟩ :: body) =
          (latest body).or (latest before) := by
        have hcons : latest (⟨.signSend ⟨nonce, fee, attempt⟩, r'⟩ :: body) = latest body := rfl
        rw [latest_append, hcons]
      rw [← List.append_assoc]
      rcases hnext with ⟨hnone, rfl⟩ | ⟨st', hsome, rfl⟩
      · exact ih (by rw [hlatest, hnone, Option.none_or, hbefore]) hnonce rfl
      · exact ih (by rw [hlatest, hsome, Option.some_or]) rfl rfl

/-- A call that resolves does so with the receipt of its last submission, a success. -/
theorem Course.resolved (h : Course left attempt nonce t res) (hres : res = .ok receipt) :
    isReceiptSuccess receipt = true ∧ ∃ pre ctx submitted between post,
      t = pre ++ ⟨.signSend ctx, .settled (.ok submitted)⟩ :: between ++
        ⟨.wait submitted, .settled (.ok receipt)⟩ :: post ∧
      submissions between = [] ∧ submissions post = [] := by
  induction h with
  | exhausted => cases hres
  | last h =>
    cases h with
    | @succeeded submitted line receipt rest hsuccess hquiet =>
      obtain rfl := Except.ok.inj hres
      exact ⟨hsuccess, [], _, submitted, [⟨.log line, .ok ()⟩], rest, rfl, rfl,
        submissions_of_later hquiet.later⟩
    | _ => cases hres
  | @again left attempt nonce fee r body nonce' t res _ _ _ ih =>
    obtain ⟨hsuccess, pre, ctx, submitted, between, post, rfl, hbetween, hpost⟩ := ih hres
    refine ⟨hsuccess, ⟨.signSend ⟨nonce, fee, attempt⟩, r⟩ :: (body ++ pre), ctx, submitted,
      between, post, ?_, hbetween, hpost⟩
    simp

/-- After a receipt that is not a success, nothing is fetched or submitted, and the call rejects
with it. -/
theorem Course.reverted (h : Course left attempt nonce t res) {submitted : SubmitResult}
    (ht : t = pre ++ ⟨.wait submitted, .settled (.ok receipt)⟩ :: post)
    (hrevert : isReceiptSuccess receipt = false) :
    (∀ ev ∈ post, ev.1.Later) ∧ ∃ m, res = .error (.txFailed m receipt) := by
  have hpassing : ∀ {ctx : TxContext} {r : Answer (.signSend ctx)} {body pre post : Trace},
      (∀ ev ∈ body, Passing ev) →
        ⟨.signSend ctx, r⟩ :: body ≠ pre ++ ⟨.wait submitted, .settled (.ok receipt)⟩ :: post := by
    intro ctx r body pre post hbody hsplit
    cases pre with
    | nil => cases (List.cons.inj hsplit).1
    | cons ev pre =>
      obtain ⟨-, htail⟩ := List.cons.inj hsplit
      have hsuccess : isReceiptSuccess receipt = true :=
        hbody ⟨.wait submitted, .settled (.ok receipt)⟩ (htail ▸ List.mem_append_cons_self)
      exact absurd (hsuccess.symm.trans hrevert) (by decide)
  induction h generalizing pre with
  | exhausted => simp at ht
  | last h =>
    cases h with
    | succeeded hsuccess hquiet =>
      refine absurd ht (hpassing ?_)
      exact List.forall_mem_cons.2 ⟨trivial, List.forall_mem_cons.2 ⟨hsuccess, hquiet.passing⟩⟩
    | @reverted submitted' line receipt' rest m _ hquiet =>
      cases pre with
      | nil => cases (List.cons.inj ht).1
      | cons ev pre =>
        obtain ⟨-, htail⟩ := List.cons.inj ht
        have hlater : ∀ ev ∈ pre ++ ⟨.wait submitted, .settled (.ok receipt)⟩ :: post,
            ev.1.Later := by
          rw [← show _ = pre ++ _ from htail]
          exact List.forall_mem_cons.2 ⟨trivial, List.forall_mem_cons.2 ⟨trivial, hquiet.later⟩⟩
        have hmem : ⟨.wait submitted, .settled (.ok receipt)⟩ ∈
            pre ++ ⟨.wait submitted, .settled (.ok receipt)⟩ :: post := List.mem_append_cons_self
        rw [← show _ = pre ++ _ from htail] at hmem
        refine ⟨fun ev hev => hlater ev (List.mem_append_right _ (List.mem_cons_of_mem _ hev)), ?_⟩
        rcases List.mem_cons.1 hmem with heq | hmem
        · cases heq
        rcases List.mem_cons.1 hmem with heq | hmem
        · cases heq
          exact ⟨m, rfl⟩
        · exact absurd (hquiet _ hmem) id
    | failed hbody => exact absurd ht (hpassing hbody)
  | @again left attempt nonce fee r body nonce' t res hbody _ _ ih =>
    rw [← List.cons_append] at ht
    rcases append_eq_append_cons ht with ⟨c, hsplit, -⟩ | ⟨a, rfl, rfl⟩
    · exact absurd hsplit (hpassing hbody)
    · exact ih rfl

end Courses

/-! ## Outcomes -/

/-- The loop asks no guard. -/
theorem not_refusal_of_attempts {s : Settings} {left : ℕ} {attempt nonce : ℤ} {fee : FeeFields}
    {err : Thrown} {t : Trace} {res : Except Thrown NormalizedReceipt}
    (h : (attempts s left attempt nonce fee err).run.Runs t res) : ∀ ev ∈ t, ¬ Refusal ev := by
  have hloop : LoopKeeps (fun _ e => ¬ e.Guard) (fun m _ _ => m) fun _ : Unit => True :=
    fun e he _ _ => ⟨he, fun _ => trivial⟩
  have hsafe := keeps_attempts hloop s attempt nonce fee err left () trivial
  intro ev hev hrefusal
  obtain ⟨-, hguard⟩ := (hsafe.runs h).1 ev hev
  cases hrefusal <;> exact hguard trivial

/-- What a run of a call comes to. -/
structure Outcome (opts : SendWithRetryOpts) (t : Trace) (res : Except Thrown NormalizedReceipt) :
    Prop where
  /-- The submissions are numbered in order, and there are at most `maxAttempts`. -/
  numbered : ∃ n ≤ opts.settings.maxAttempts.toNat,
    (submissions t).map TxContext.attempt = (List.range n).map fun i : ℕ => (i : ℤ) + 1
  /-- Every submission has the nonce of the latest state. -/
  pinned : ∀ pre ctx r post, t = pre ++ ⟨.signSend ctx, r⟩ :: post →
    ∃ st, latest pre = some (.ok st) ∧ ctx.nonce = st.nonce
  /-- It resolves with the receipt of the last submission, a success. -/
  resolved : ∀ receipt, res = .ok receipt → isReceiptSuccess receipt = true ∧
    ∃ pre ctx submitted between post,
      t = pre ++ ⟨.signSend ctx, .settled (.ok submitted)⟩ :: between ++
        ⟨.wait submitted, .settled (.ok receipt)⟩ :: post ∧
      submissions between = [] ∧ submissions post = []
  /-- A receipt that is not a success ends it. -/
  reverted : ∀ pre submitted receipt post,
    t = pre ++ ⟨.wait submitted, .settled (.ok receipt)⟩ :: post →
    isReceiptSuccess receipt = false →
      (∀ ev ∈ post, ev.1.Later) ∧ ∃ e, res = .error e ∧ e.code = some "TX_FAILED"
  /-- A guard that refuses it keeps it from the chain. -/
  refused : (∃ ev ∈ t, Refusal ev) → ∀ ev ∈ t, ev.1.Later

/-- A request that is neither a submission nor a fetch is in what follows. -/
theorem exists_of_append_eq {pre u pre' post : Trace} {r : Called StateResult}
    {ev : Event Request Answer} (hpre : Quiet pre) (hev : ¬ ev.1.Quiet)
    (hne : ev.1 ≠ .fetchState) (h : pre ++ ⟨.fetchState, r⟩ :: u = pre' ++ ev :: post) :
    ∃ a, pre' = pre ++ ⟨.fetchState, r⟩ :: a ∧ u = a ++ ev :: post := by
  rcases append_eq_append_cons h with ⟨c, rfl, -⟩ | ⟨a, rfl, ha⟩
  · exact absurd (hpre ev List.mem_append_cons_self) hev
  · cases a with
    | nil =>
      obtain ⟨rfl, -⟩ := List.cons.inj ha
      exact absurd rfl hne
    | cons x a =>
      obtain ⟨rfl, rfl⟩ := List.cons.inj ha
      exact ⟨a, rfl, rfl⟩

/-- A call that fails before its first submission. -/
theorem outcome_unsubmitted (opts : SendWithRetryOpts) {t : Trace} {e : Thrown}
    (hidle : ∀ ev ∈ t, ev.1.Quiet ∨ ev.1 = .fetchState)
    (hrefused : (∃ ev ∈ t, Refusal ev) → ∀ ev ∈ t, ev.1.Later) : Outcome opts t (.error e) := by
  have hnone (ctx : TxContext) (r : Answer (.signSend ctx)) : ⟨.signSend ctx, r⟩ ∉ t := by
    intro hmem
    rcases hidle _ hmem with h | h
    · exact h
    · cases h
  refine ⟨⟨0, Nat.zero_le _, ?_⟩, ?_, nofun, ?_, hrefused⟩
  · have hnil : submissions t = [] := by
      refine List.filterMap_eq_nil_iff.2 fun ev hev => ?_
      obtain ⟨req, r⟩ := ev
      cases req with
      | signSend ctx => exact absurd hev (hnone ctx r)
      | _ => rfl
    rw [hnil]
    rfl
  · rintro pre ctx r post rfl
    exact absurd List.mem_append_cons_self (hnone ctx r)
  · rintro pre submitted receipt post rfl
    rcases hidle _ List.mem_append_cons_self with h | h
    · exact absurd h id
    · cases h

/-- A call submits at most `maxAttempts` times. -/
theorem length_submissions_le {opts : SendWithRetryOpts}
    (h : (sendWithRetry opts).run.Runs t res) :
    (submissions t).length ≤ opts.settings.maxAttempts.toNat := by
  rcases runs_sendWithRetry h with hidle | ⟨pre, st, fee, u, rfl, hquiet, -, -, -, hloop⟩
  · rw [hidle.1]
    exact Nat.zero_le _
  · obtain ⟨n, hn, hcount⟩ := (course_attempts hloop).numbered
    have hlength := congrArg List.length hcount
    rw [List.length_map, List.length_map, List.length_range] at hlength
    rw [submissions_append, submissions_of_later hquiet.later, List.nil_append]
    exact hlength.trans_le hn

/-- **What a call comes to.** Whatever the callbacks return, throw or leave pending until the timer
fires, in every run of a call: at most `maxAttempts` submissions, numbered from 1, each with the
nonce of the latest state; it resolves only with the receipt of its last submission, a success; a
receipt that is not a success ends it with `TX_FAILED`; and where a guard refuses it, the chain is
not asked. -/
theorem outcome (opts : SendWithRetryOpts) {t : Trace} {res : Except Thrown NormalizedReceipt}
    (hrun : (sendWithRetry opts).run.Runs t res) : Outcome opts t res := by
  cases shape_sendWithRetry hrun with
  | refused hquiet =>
    exact outcome_unsubmitted opts (fun ev hev => .inl (hquiet ev hev)) fun _ => hquiet.later
  | @unstarted pre r e hquiet hclear =>
    refine outcome_unsubmitted opts (fun ev hev => ?_) ?_
    · rcases List.mem_append.1 hev with hev | hev
      · exact .inl (hquiet ev hev)
      · obtain rfl := List.mem_singleton.1 hev
        exact .inr rfl
    · rintro ⟨ev, hev, hrefusal⟩
      rcases List.mem_append.1 hev with hev | hev
      · exact absurd hrefusal (hclear ev hev)
      · obtain rfl := List.mem_singleton.1 hev
        cases hrefusal
  | @started pre st fee u res hquiet hclear hfactor hmax hfee hloop =>
    have hcourse := course_attempts hloop
    have hsubmissions : submissions (pre ++ ⟨.fetchState, .ok st⟩ :: u) = submissions u := by
      rw [submissions_append, submissions_of_later hquiet.later]
      rfl
    have hlatest : latest (pre ++ [⟨.fetchState, .ok st⟩]) = some (.ok st) := by
      rw [latest_append]
      rfl
    refine ⟨?_, ?_, ?_, ?_, ?_⟩
    · obtain ⟨n, hn, hcount⟩ := hcourse.numbered
      refine ⟨n, hn, ?_⟩
      rw [hsubmissions, hcount]
      exact List.map_congr_left fun i _ => add_comm _ _
    · intro pre' ctx r post ht
      obtain ⟨a, rfl, ha⟩ := exists_of_append_eq hquiet id (by simp) ht
      have hpinned := hcourse.pinned hlatest rfl ha
      rwa [List.append_assoc, List.singleton_append] at hpinned
    · intro receipt hres
      obtain ⟨hsuccess, pre', ctx, submitted, between, post, rfl, hbetween, hpost⟩ :=
        hcourse.resolved hres
      refine ⟨hsuccess, pre ++ ⟨.fetchState, .ok st⟩ :: pre', ctx, submitted, between, post, ?_,
        hbetween, hpost⟩
      simp
    · intro pre' submitted receipt post ht hrevert
      obtain ⟨a, -, ha⟩ := exists_of_append_eq hquiet id (by simp) ht
      obtain ⟨hlater, m, rfl⟩ := hcourse.reverted ha hrevert
      exact ⟨hlater, _, rfl, rfl⟩
    · rintro ⟨ev, hev, hrefusal⟩
      rcases List.mem_append.1 hev with hev | hev
      · exact absurd hrefusal (hclear ev hev)
      · rcases List.mem_cons.1 hev with rfl | hev
        · cases hrefusal
        · exact absurd hrefusal (not_refusal_of_attempts hloop ev hev)

/-- The first submission is refused for its nonce; the second, with the nonce of a new state, is
confirmed and reverted. -/
theorem outcome_reverted :
    ∃ (t : Trace) (res : Except Thrown NormalizedReceipt),
      (sendWithRetry { bumpFactor := some 2 }).run.Runs t res ∧
        (submissions t).map TxContext.nonce = [7, 8] ∧ Outcome { bumpFactor := some 2 } t res := by
  have hrun : (sendWithRetry { bumpFactor := some 2 }).run.Runs
      [⟨.fetchState, .ok ⟨7, { gasPrice := some 100 }⟩⟩,
        ⟨.signSend ⟨7, { gasPrice := some 100 }, 1⟩, .settled (.error ⟨"nonce too low", false⟩)⟩,
        ⟨.log (.refreshing 1), .ok ()⟩,
        ⟨.fetchState, .ok ⟨8, { gasPrice := some 100 }⟩⟩,
        ⟨.sleep 1000, .ok ()⟩,
        ⟨.signSend ⟨8, { gasPrice := some 100 }, 2⟩, .settled (.ok ⟨"0xb"⟩)⟩,
        ⟨.log (.sent 2 5 8 "0xb"), .ok ()⟩,
        ⟨.wait ⟨"0xb"⟩, .settled (.ok ⟨.boolean false, some "0xb"⟩)⟩]
      (.error (.txFailed "tx confirmed but reverted (status=false)"
        ⟨.boolean false, some "0xb"⟩)) := by
    iterate 8 refine .ask ?_
    exact ⟨rfl, rfl⟩
  exact ⟨_, _, hrun, rfl, outcome { bumpFactor := some 2 } hrun⟩

end Resilience.Onchain.TypeScript
