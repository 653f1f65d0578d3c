import Resilience.Onchain.Outcomes
import Mathlib.Tactic.Common

/-!
# A chain under the TypeScript client

An account with a nonce, a mempool and mined transactions, as the world that answers
`sendWithRetry`. A transaction whose nonce is below the account's is refused with an error that
says `nonce too low`, any other enters the mempool; the chain mines one pooled transaction at the
account's nonce at a time, whenever it likes. A `wait` may reject at any moment, also when its
transaction is mined later, and the attempt's own timer may fire at any moment, also while
`signSend` has not broadcast yet.

The pinned nonce keeps one call to at most one mined transaction as long as the pin does not move
while one of its transactions is mined and an attempt is left (`ownMined_le_one`). The refresh after
`nonce too low` moves it without looking whether the transaction that landed is the call's own
(`exists_ownMined_eq_two`).
-/

namespace Resilience.Onchain

open TypeScript

/-- A transaction of the account: its nonce, and which `signSend` of the call it came from, if
any. -/
structure Tx where
  nonce : ℤ
  submission : Option ℕ
  deriving DecidableEq, Repr

structure Chain where
  /-- The account nonce. -/
  nonce : ℤ
  /-- The number of `signSend` calls made. -/
  submissions : ℕ := 0
  /-- The submissions under way, with the nonce of their context. -/
  sending : List (ℕ × ℤ) := []
  /-- The submissions whose broadcast was refused. -/
  refused : List ℕ := []
  pool : List Tx := []
  mined : List Tx := []
  deriving DecidableEq, Repr

namespace Chain

/-- The mined transactions that the call broadcast. -/
def ownMined (w : Chain) : List Tx := w.mined.filter (·.submission.isSome)

/-- Nothing on the chain comes from the call. -/
def Fresh (w : Chain) : Prop :=
  w.submissions = 0 ∧ w.sending = [] ∧ w.refused = [] ∧
    ∀ tx ∈ w.pool ++ w.mined, tx.submission = none

/-- The latest `signSend` call, the one the attempt waits on. -/
def current (w : Chain) : ℕ := w.submissions - 1

/-- What making a request does: `signSend` starts a submission. -/
def call : Request → Chain → Chain
  | .signSend ctx, w =>
    { w with
      submissions := w.submissions + 1
      sending := (w.submissions, ctx.nonce) :: w.sending }
  | _, w => w

/-- The chain mines `tx`. -/
def mine (w : Chain) (tx : Tx) : Chain :=
  { w with nonce := w.nonce + 1, pool := w.pool.erase tx, mined := tx :: w.mined }

theorem ownMined_mine (w : Chain) (tx : Tx) :
    (w.mine tx).ownMined = if tx.submission.isSome then tx :: w.ownMined else w.ownMined := by
  simp only [ownMined, mine, List.filter_cons]

/-- The answers the chain allows. -/
def Answers (w : Chain) : (e : Request) → Answer e → Prop
  | .fetchState, r => ∃ fee, r = .ok ⟨w.nonce, fee⟩
  | .signSend _, .settled (.ok _) => ∃ tx ∈ w.pool ++ w.mined, tx.submission = some w.current
  | .signSend _, .settled (.error e) =>
    w.current ∈ w.refused ∧ includes e.message.toList "nonce too low"
  | .wait _, .settled (.ok _) => ∃ tx ∈ w.mined, tx.submission = some w.current
  | _, _ => True

/-- What happens on its own. -/
inductive Tick : Chain → Chain → Prop
  | broadcast {w : Chain} {s : ℕ × ℤ} (hs : s ∈ w.sending) (hn : w.nonce ≤ s.2) :
    Tick w { w with sending := w.sending.erase s, pool := ⟨s.2, some s.1⟩ :: w.pool }
  | refuse {w : Chain} {s : ℕ × ℤ} (hs : s ∈ w.sending) (hn : s.2 < w.nonce) :
    Tick w { w with sending := w.sending.erase s, refused := s.1 :: w.refused }
  /-- Another sender of the account broadcasts. -/
  | foreign {w : Chain} {n : ℤ} (hn : w.nonce ≤ n) :
    Tick w { w with pool := ⟨n, none⟩ :: w.pool }
  | mine {w : Chain} {tx : Tx} (htx : tx ∈ w.pool) (hn : tx.nonce = w.nonce) :
    Tick w (w.mine tx)

/-- The chain as the world of `sendWithRetry`. -/
def world : World Request Answer Chain where
  call := call
  answers e r w w' := w.Answers e r ∧ w' = w
  tick := Tick

end Chain

/-- A call of `sendWithRetry` on a chain. -/
abbrev CallOn := Config Request Answer Chain (Except Thrown NormalizedReceipt)

/-- The call before its first request. -/
def CallOn.start (opts : SendWithRetryOpts) (w : Chain) : CallOn :=
  ⟨w, (sendWithRetry opts).run, false⟩

namespace CallOn

/-- If the step from `c` to `c'` answers `fetchState` while an attempt is left, no transaction of
the call is mined yet. -/
def FetchesUnmined (opts : SendWithRetryOpts) (c c' : CallOn) : Prop :=
  c.pending = some .fetchState → c'.waiting = false →
    (c.world.submissions : ℤ) < opts.settings.maxAttempts → c.world.ownMined = []

/-- Runs whose steps all satisfy `G`. -/
abbrev Run (G : CallOn → CallOn → Prop) : CallOn → CallOn → Prop :=
  Relation.ReflTransGen fun c c' => Config.Step Chain.world c c' ∧ G c c'

variable {G : CallOn → CallOn → Prop} {w w' : Chain} {e : Request}
  {k : Answer e → Prog Request Answer (Except Thrown NormalizedReceipt)} {c : CallOn}

theorem Run.call (hG : G ⟨w, .ask e k, false⟩ ⟨w.call e, .ask e k, true⟩)
    (h : Run G ⟨w.call e, .ask e k, true⟩ c) : Run G ⟨w, .ask e k, false⟩ c :=
  .head ⟨.call, hG⟩ h

theorem Run.answer (r : Answer e) (hr : w.Answers e r)
    (hG : G ⟨w, .ask e k, true⟩ ⟨w, k r, false⟩) (h : Run G ⟨w, k r, false⟩ c) :
    Run G ⟨w, .ask e k, true⟩ c :=
  .head ⟨.answer ⟨hr, rfl⟩, hG⟩ h

theorem Run.tick {p : Prog Request Answer (Except Thrown NormalizedReceipt)} {b : Bool}
    (ht : Chain.Tick w w') (hG : G ⟨w, p, b⟩ ⟨w', p, b⟩) (h : Run G ⟨w', p, b⟩ c) :
    Run G ⟨w, p, b⟩ c :=
  .head ⟨.tick ht, hG⟩ h

theorem Run.steps {c₀ : CallOn} (h : Run G c₀ c) :
    Relation.ReflTransGen (Config.Step Chain.world) c₀ c :=
  Relation.ReflTransGen.mono (fun _ _ h => h.1) _ _ h

end CallOn

/-! ## The nonce is pinned -/

/-- The monitor: the nonce of the last state fetched. -/
def pin : Option ℤ → (e : Request) → Answer e → Option ℤ
  | _, .fetchState, .ok st => some st.nonce
  | m, _, _ => m

/-- A submission carries the pinned nonce. -/
def Pinned (m : Option ℤ) : Request → Prop
  | .signSend ctx => m = some ctx.nonce
  | _ => True

section Pinned

variable (s : Settings) (attempt nonce : ℤ) (fee : FeeFields) {m : Option ℤ}

theorem keeps_recordFailure {I : Option ℤ → Prop} : Keeps Pinned pin I (recordFailure s) :=
  keeps_ite (fun _ => keeps_perform (fun _ _ => trivial) fun _ _ h => h) fun _ => keeps_fromExcept

theorem keeps_recordSuccess {I : Option ℤ → Prop} : Keeps Pinned pin I (recordSuccess s) :=
  keeps_ite (fun _ => keeps_perform (fun _ _ => trivial) fun _ _ h => h) fun _ => keeps_fromExcept

theorem keeps_confirm {I : Option ℤ → Prop} (receipt : NormalizedReceipt) :
    Keeps Pinned pin I (confirm s attempt receipt) :=
  keeps_ite (fun _ => keeps_bind (keeps_recordFailure s) fun _ => keeps_fromExcept) fun _ =>
    keeps_bind (keeps_recordSuccess s) fun _ =>
      keeps_bind (keeps_perform (fun _ _ => trivial) fun _ _ h => h) fun _ => keeps_fromExcept

theorem keeps_submitAndConfirm :
    Keeps Pinned pin (· = some nonce) (submitAndConfirm s attempt nonce fee) := by
  refine keeps_bind (keeps_perform (fun _ h => h) fun _ _ h => h) fun submitted => ?_
  refine keeps_bind (keeps_perform (fun _ _ => trivial) fun _ _ h => h) fun _ => ?_
  refine keeps_bind (keeps_perform (fun _ _ => trivial) fun _ _ h => h) fun receipt => ?_
  exact keeps_confirm s attempt receipt

/-- The nonce a `catch` block goes on with is the pinned one. -/
abbrev GoesOnPinned (m : Option ℤ) (r : Except Thrown (ℤ × FeeFields)) : Prop :=
  ∀ next, r = .ok next → m = some next.1

theorem safe_bumpAndSleep (err : Thrown) :
    (bumpAndSleep s attempt nonce fee err).run.Safe Pinned pin GoesOnPinned (some nonce) := by
  unfold bumpAndSleep
  split
  · refine keeps_fromExcept.bind_safe (fun fee => ?_) nofun
    refine (keeps_perform (fun _ _ => trivial) fun _ _ h => h).bind_safe (fun _ => ?_) nofun
    refine (keeps_perform (fun _ _ => trivial) fun _ _ h => h).bind_safe (fun _ => ?_) nofun
    rintro next ⟨⟩
    rfl
  · rintro next ⟨⟩
    rfl

theorem safe_failAttempt (err : Thrown) :
    (failAttempt s attempt nonce fee err).run.Safe Pinned pin GoesOnPinned (some nonce) := by
  refine (keeps_recordFailure s).bind_safe (fun _ => ?_) nofun
  split
  · nofun
  · exact safe_bumpAndSleep s attempt nonce fee err

theorem safe_onError (err : Thrown) :
    (onError s attempt nonce fee err).run.Safe Pinned pin GoesOnPinned (some nonce) := by
  unfold onError
  split
  · nofun
  split
  · refine (keeps_perform (fun _ _ => trivial) fun _ _ h => h).bind_safe (fun _ => ?_) nofun
    -- the refresh moves the pin
    refine safe_bind_of (fun m refreshed => m = some refreshed.nonce) ⟨trivial, ?_⟩ ?_ nofun
    · intro r refreshed hr
      rw [Called.result_eq_ok.1 hr]
      rfl
    rintro _ refreshed rfl
    refine keeps_fromExcept.bind_safe (fun fee => ?_) nofun
    split
    · refine (keeps_perform (fun _ _ => trivial) fun _ _ h => h).bind_safe (fun _ => ?_) nofun
      rintro next ⟨⟩
      rfl
    · exact safe_failAttempt s attempt refreshed.nonce fee err
  · exact safe_failAttempt s attempt nonce fee err

theorem safe_attempts (left : ℕ) (lastErr : Thrown) :
    (attempts s left attempt nonce fee lastErr).run.Safe Pinned pin (fun _ _ => True)
      (some nonce) := by
  induction left generalizing attempt nonce fee lastErr with
  | zero => trivial
  | succ left ih =>
    have htry : Keeps Pinned pin (· = some nonce)
        (observe (submitAndConfirm s attempt nonce fee)) :=
      fun m hm => safe_observe.2 (keeps_submitAndConfirm s attempt nonce fee m hm)
    refine htry.bind_safe (fun r => ?_) fun _ => trivial
    cases r with
    | ok receipt => trivial
    | error err =>
      refine safe_bind_of (fun m next => m = some next.1)
        (safe_onError s attempt nonce fee err) ?_ fun _ _ => trivial
      rintro _ next rfl
      exact ih _ _ _ _

theorem keeps_guardIdempotency (opts : SendWithRetryOpts) {I : Option ℤ → Prop} :
    Keeps Pinned pin I (guardIdempotency opts) := by
  unfold guardIdempotency
  split
  · exact keeps_bind (keeps_perform (fun _ _ => trivial) fun _ _ h => h) fun _ =>
      keeps_ite (fun _ => keeps_fromExcept) fun _ => keeps_fromExcept
  · exact keeps_fromExcept

theorem keeps_guardBreaker {I : Option ℤ → Prop} : Keeps Pinned pin I (guardBreaker s) :=
  keeps_ite (fun _ => keeps_perform (fun _ _ => trivial) fun _ _ h => h) fun _ => keeps_fromExcept

/-- **Every submission carries the nonce of the last state fetched.** -/
theorem safe_sendWithRetry (opts : SendWithRetryOpts) :
    (sendWithRetry opts).run.Safe Pinned pin (fun _ _ => True) none := by
  unfold sendWithRetry
  extract_lets s
  split
  · trivial
  split
  · trivial
  refine (keeps_guardIdempotency opts).bind_safe (fun _ => ?_) fun _ => trivial
  refine (keeps_guardBreaker s).bind_safe (fun _ => ?_) fun _ => trivial
  refine safe_bind_of (fun m state => m = some state.nonce) ⟨trivial, ?_⟩ ?_ fun _ _ => trivial
  · intro r state hr
    rw [Called.result_eq_ok.1 hr]
    rfl
  rintro _ state rfl
  refine keeps_fromExcept.bind_safe (fun fee => ?_) fun _ => trivial
  exact safe_attempts _ _ _ _ _ _

end Pinned

/-! ## The attempts that are left -/

section Budget

variable {e : Request} {k : Answer e → Prog Request Answer (Except Thrown NormalizedReceipt)}

/-- Some answers. -/
def anyAnswer : (e : Request) → Answer e
  | .alreadySent _ => .ok false
  | .assertClosed => .ok ()
  | .recordSuccess | .recordFailure => ()
  | .fetchState => .ok ⟨0, {}⟩
  | .signSend _ | .wait _ => .timedOut
  | .log _ | .sleep _ => .ok ()

/-- What is left of a call does not submit. -/
def Spent (p : Prog Request Answer (Except Thrown NormalizedReceipt)) : Prop :=
  ∀ t r, p.Runs t r → submissions t = []

theorem Spent.answer (h : Spent (.ask e k)) (r : Answer e) : Spent (k r) := by
  intro t res hrun
  have hnil := h _ _ (.ask hrun)
  rw [← List.singleton_append, submissions_append, List.append_eq_nil_iff] at hnil
  exact hnil.2

theorem Spent.call_eq (h : Spent (.ask e k)) (w : Chain) : w.call e = w := by
  cases e with
  | signSend ctx =>
    obtain ⟨t, res, hrun, -⟩ := Prog.exists_runs (k .timedOut) anyAnswer
    cases h _ _ (.ask hrun)
  | _ => rfl

/-- The submission that is waited on. -/
def CallOn.underWay (c : CallOn) : ℕ :=
  match c.pending with
  | some (.signSend _) => 1
  | _ => 0

theorem CallOn.underWay_eq_zero (w : Chain)
    (p : Prog Request Answer (Except Thrown NormalizedReceipt)) :
    CallOn.underWay ⟨w, p, false⟩ = 0 := by
  cases p <;> rfl

theorem CallOn.underWay_congr (w w' : Chain)
    (p : Prog Request Answer (Except Thrown NormalizedReceipt)) (b : Bool) :
    CallOn.underWay ⟨w, p, b⟩ = CallOn.underWay ⟨w', p, b⟩ := by
  cases p <;> cases b <;> rfl

/-- The call does not submit more than `n` times. -/
def CallOn.Budget (n : ℕ) (c : CallOn) : Prop :=
  ∀ t r, c.prog.Runs t r → (submissions t).length + c.world.submissions ≤ n + c.underWay

theorem Chain.Tick.submissions_eq {w w' : Chain} (h : Chain.Tick w w') :
    w'.submissions = w.submissions := by
  cases h <;> rfl

theorem CallOn.Budget.step {n : ℕ} {c c' : CallOn} (h : c.Budget n)
    (hstep : Config.Step Chain.world c c') : c'.Budget n := by
  cases hstep with
  | @call w e k =>
    intro t res hrun
    have hle : (submissions t).length + w.submissions ≤ n := h t res hrun
    cases e with
    | signSend ctx => exact Nat.succ_le_succ hle
    | _ => exact hle
  | @answer w w' e k r hr =>
    intro t res hrun
    obtain ⟨-, rfl⟩ := hr
    have hle := h _ _ (.ask hrun)
    rw [CallOn.underWay_eq_zero]
    cases e with
    | signSend ctx =>
      have hle : (submissions t).length + 1 + w'.submissions ≤ n + 1 := hle
      show (submissions t).length + w'.submissions ≤ n
      omega
    | _ => exact hle
  | @tick w w' p b ht =>
    intro t res hrun
    show (submissions t).length + w'.submissions ≤ _
    rw [ht.submissions_eq, CallOn.underWay_congr w' w]
    exact h t res hrun

theorem budget_of_run {opts : SendWithRetryOpts} {w : Chain} (hw : w.submissions = 0) {c : CallOn}
    (hrun : Relation.ReflTransGen (Config.Step Chain.world) (CallOn.start opts w) c) :
    c.Budget opts.settings.maxAttempts.toNat := by
  induction hrun with
  | refl =>
    intro t r hrun
    rw [CallOn.start, CallOn.underWay_eq_zero, hw]
    exact length_submissions_le hrun
  | tail _ hstep ih => exact ih.step hstep

end Budget

/-! ## One mined transaction -/

/-- A nonce of the call's transactions that are not mined: the pinned one, or one the account has
passed. -/
def OwnNonce (w : Chain) (m : Option ℤ) (n : ℤ) : Prop := n < w.nonce ∨ m = some n

/-- What holds throughout a call that fetches only while nothing of it is mined. -/
structure Inv (w : Chain) (m : Option ℤ) : Prop where
  sending : ∀ s ∈ w.sending, OwnNonce w m s.2
  pool : ∀ tx ∈ w.pool, tx.submission.isSome → OwnNonce w m tx.nonce
  pin_le : ∀ n, m = some n → n ≤ w.nonce
  /-- Once a transaction of the call is mined, the account has passed the pin. -/
  mined : w.ownMined = [] ∨ (w.ownMined.length = 1 ∧ ∀ n, m = some n → n < w.nonce)

theorem Inv.of_fresh {w : Chain} (h : w.Fresh) : Inv w none where
  sending := by simp [h.2.1]
  pool tx htx hs := by simp [h.2.2.2 tx (by simp [htx])] at hs
  pin_le := nofun
  mined := by
    refine .inl (List.filter_eq_nil_iff.2 fun tx htx => ?_)
    simp [h.2.2.2 tx (by simp [htx])]

theorem Inv.call {w : Chain} {m : Option ℤ} (h : Inv w m) {e : Request} (he : Pinned m e) :
    Inv (w.call e) m := by
  cases e with
  | signSend ctx =>
    refine ⟨fun s hs => ?_, h.pool, h.pin_le, h.mined⟩
    obtain rfl | hs := List.mem_cons.1 hs
    · exact .inr he
    · exact h.sending s hs
  | _ => exact h

theorem Inv.fetchState {w : Chain} {m : Option ℤ} (h : Inv w m) (hw : w.ownMined = []) :
    Inv w (some w.nonce) := by
  have hown : ∀ n, OwnNonce w m n → OwnNonce w (some w.nonce) n := by
    rintro n (hn | hn)
    · exact .inl hn
    · exact (h.pin_le n hn).lt_or_eq.imp id fun hn => by rw [hn]
  exact ⟨fun s hs => hown _ (h.sending s hs), fun tx htx hs => hown _ (h.pool tx htx hs),
    by simp, .inl hw⟩

theorem Inv.answer {w : Chain} {m : Option ℤ} (h : Inv w m) {e : Request} {r : Answer e}
    (hfetch : e = .fetchState → w.ownMined = []) (hr : w.Answers e r) : Inv w (pin m e r) := by
  cases e with
  | fetchState =>
    obtain ⟨fee, rfl⟩ := hr
    exact h.fetchState (hfetch rfl)
  | _ => exact h

/-- The nonces of the call's transactions stay passed or pinned while the account advances. -/
theorem OwnNonce.succ {w : Chain} {m : Option ℤ} {n : ℤ} (h : OwnNonce w m n) :
    n < w.nonce + 1 ∨ m = some n :=
  h.imp (fun h => by omega) id

theorem Inv.tick {w w' : Chain} {m : Option ℤ} (h : Inv w m) (ht : Chain.Tick w w') :
    Inv w' m := by
  cases ht with
  | @broadcast s hs hn =>
    refine ⟨fun s' hs' => h.sending s' (List.mem_of_mem_erase hs'), fun tx htx hown => ?_,
      h.pin_le, h.mined⟩
    obtain rfl | htx := List.mem_cons.1 htx
    · exact h.sending s hs
    · exact h.pool tx htx hown
  | refuse hs hn =>
    exact ⟨fun s' hs' => h.sending s' (List.mem_of_mem_erase hs'), h.pool, h.pin_le, h.mined⟩
  | foreign hn =>
    refine ⟨h.sending, fun tx htx hown => ?_, h.pin_le, h.mined⟩
    obtain rfl | htx := List.mem_cons.1 htx
    · simp at hown
    · exact h.pool tx htx hown
  | @mine tx htx hn =>
    refine ⟨fun s hs => (h.sending s hs).succ,
      fun tx' htx' hown => (h.pool tx' (List.mem_of_mem_erase htx') hown).succ,
      fun n hm => (h.pin_le n hm).trans (Int.le_add_one le_rfl), ?_⟩
    rw [Chain.ownMined_mine]
    split
    case isTrue hown =>
      -- the account is at the mined nonce, so that nonce is not passed but pinned
      have hpin : m = some w.nonce := by
        rcases h.pool tx htx hown with h' | h'
        · omega
        · rwa [hn] at h'
      have hnone : w.ownMined = [] := by
        rcases h.mined with h' | ⟨-, h'⟩
        · exact h'
        · exact absurd (h' _ hpin) (lt_irrefl _)
      exact .inr ⟨by simp [hnone], fun n hm => Int.lt_add_one_of_le (h.pin_le n hm)⟩
    case isFalse hown =>
      exact h.mined.imp id (And.imp id fun h' n hm => (h' n hm).trans (Int.lt_succ _))

/-- What is left of a call submits with the pinned nonce, or not at all. -/
def GoesOn (c : CallOn) (m : Option ℤ) : Prop :=
  c.prog.Safe Pinned pin (fun _ _ => True) m ∨ Spent c.prog

theorem goesOn_of_run {opts : SendWithRetryOpts} {w : Chain} (hw : w.Fresh) {c : CallOn}
    (hrun : CallOn.Run (CallOn.FetchesUnmined opts) (CallOn.start opts w) c) :
    ∃ m, Inv c.world m ∧ GoesOn c m := by
  induction hrun with
  | refl => exact ⟨none, .of_fresh hw, .inl (safe_sendWithRetry opts)⟩
  | @tail c c' hrun hstep ih =>
    obtain ⟨m, h, hgoes⟩ := ih
    obtain ⟨hstep, hG⟩ := hstep
    have hbudget := (budget_of_run hw.1 (CallOn.Run.steps hrun)).step hstep
    cases hstep with
    | @call w e k =>
      rcases hgoes with hsafe | hspent
      · exact ⟨m, h.call hsafe.1, .inl hsafe⟩
      · have hsame : Chain.world.call e w = w := hspent.call_eq w
        rw [hsame]
        exact ⟨m, h, .inr hspent⟩
    | @answer w w' e k r hr =>
      obtain ⟨hr, rfl⟩ := hr
      rcases hgoes with hsafe | hspent
      · by_cases hfetch : e = .fetchState → w'.ownMined = []
        · exact ⟨pin m e r, h.answer hfetch hr, .inl (hsafe.2 r)⟩
        · -- a refresh of the last attempt
          obtain ⟨rfl, hmined⟩ := Classical.not_imp.1 hfetch
          have hlast := mt (hG rfl rfl) hmined
          refine ⟨m, h, .inr fun t res hrun => List.length_eq_zero_iff.1 ?_⟩
          have hle := hbudget t res hrun
          rw [CallOn.underWay_eq_zero] at hle
          dsimp only at hle hlast
          omega
      · exact ⟨m, h, .inr (hspent.answer r)⟩
    | @tick w w' p b ht => exact ⟨m, h.tick ht, hgoes⟩

/-- **At most one transaction of a call is mined, as long as the call fetches the state only while
none is, or after its last attempt.** -/
theorem ownMined_le_one (opts : SendWithRetryOpts) (w : Chain) (hw : w.Fresh) (c : CallOn)
    (hrun : CallOn.Run (CallOn.FetchesUnmined opts) (CallOn.start opts w) c) :
    c.world.ownMined.length ≤ 1 := by
  obtain ⟨m, h, -⟩ := goesOn_of_run hw hrun
  rcases h.mined with h | ⟨h, -⟩
  · simp [h]
  · exact h.le

/-- Another sender's transaction is mined at nonce 7, so that the first attempt is refused; the
second one, at the nonce of the refresh, times out and is mined during the backoff; the third is
refused, and its refresh finds a transaction of the call mined. -/
theorem ownMined_le_one_refreshed :
    ∃ c : CallOn, c.world.mined = [⟨8, some 1⟩, ⟨7, none⟩] ∧ c.world.submissions = 3 ∧
      c.world.ownMined.length ≤ 1 := by
  refine ⟨?c, ?mined, ?submissions,
    ownMined_le_one { bumpFactor := some 2, maxAttempts := some 3 } { nonce := 7 }
      (by simp [Chain.Fresh]) ?c ?run⟩
  case run =>
    refine .call (nomatch ·) ?_
    refine .answer (.ok ⟨7, { gasPrice := some 100 }⟩) ⟨_, rfl⟩ (fun _ _ _ => rfl) ?_
    refine .tick (.foreign (n := 7) (by decide)) (nomatch ·) ?_
    refine .tick (.mine (List.mem_singleton_self _) (by decide)) (nomatch ·) ?_
    refine .call (nomatch ·) ?_
    refine .tick (.refuse (List.mem_singleton_self _) (by decide)) (nomatch ·) ?_
    refine .answer (.settled (.error ⟨"nonce too low", false⟩))
      ⟨List.mem_singleton_self _, by decide⟩ (nomatch ·) ?_
    refine .call (nomatch ·) ?_
    refine .answer (.ok ()) trivial (nomatch ·) ?_
    refine .call (nomatch ·) ?_
    refine .answer (.ok ⟨8, { gasPrice := some 100 }⟩) ⟨_, rfl⟩ (fun _ _ _ => rfl) ?_
    refine .call (nomatch ·) ?_
    refine .answer (.ok ()) trivial (nomatch ·) ?_
    -- the second attempt
    refine .call (nomatch ·) ?_
    refine .tick (.broadcast (List.mem_singleton_self _) (by decide)) (nomatch ·) ?_
    refine .answer .timedOut trivial (nomatch ·) ?_
    refine .call (nomatch ·) ?_
    refine .answer (.ok ()) trivial (nomatch ·) ?_
    refine .call (nomatch ·) ?_
    refine .tick (.mine (List.mem_singleton_self _) (by decide)) (nomatch ·) ?_
    refine .answer (.ok ()) trivial (nomatch ·) ?_
    -- the third one
    refine .call (nomatch ·) ?_
    refine .tick (.refuse (List.mem_singleton_self _) (by decide)) (nomatch ·) ?_
    refine .answer (.settled (.error ⟨"nonce too low", false⟩))
      ⟨List.mem_cons_self .., by decide⟩ (nomatch ·) ?_
    refine .call (nomatch ·) ?_
    refine .answer (.ok ()) trivial (nomatch ·) ?_
    refine .call (nomatch ·) ?_
    refine .answer (.ok ⟨9, { gasPrice := some 100 }⟩) ⟨_, rfl⟩ (fun _ _ hleft => ?_) ?_
    · exact absurd hleft (by decide)
    exact .refl
  case mined => rfl
  case submissions => rfl

/-- The first attempt broadcasts at nonce 7 and times out; its transaction is mined before the
second attempt, which is refused; the refresh takes that for another sender's transaction, and the
third attempt is mined at nonce 8. -/
theorem exists_ownMined_eq_two :
    ∃ (opts : SendWithRetryOpts) (w : Chain) (c : CallOn),
      w.Fresh ∧ 1 ≤ opts.settings.maxAttempts ∧
        Relation.ReflTransGen (Config.Step Chain.world) (CallOn.start opts w) c ∧
          c.world.ownMined.length = 2 := by
  refine ⟨{ bumpFactor := some 2 }, { nonce := 7 }, ?c, by simp [Chain.Fresh], by decide,
    CallOn.Run.steps (G := fun _ _ => True) ?run, ?mined⟩
  case run =>
    refine .call trivial ?_
    refine .answer (.ok ⟨7, { gasPrice := some 100 }⟩) ⟨_, rfl⟩ trivial ?_
    refine .call trivial ?_
    refine .tick (.broadcast (List.mem_singleton_self _) (by decide)) trivial ?_
    refine .answer (.settled (.ok ⟨"0xa"⟩)) ⟨_, List.mem_cons_self .., rfl⟩ trivial ?_
    refine .call trivial ?_
    refine .answer (.ok ()) trivial trivial ?_
    refine .call trivial ?_
    refine .answer .timedOut trivial trivial ?_
    -- the fee is bumped, and the transaction is mined during the backoff
    refine .call trivial ?_
    refine .answer (.ok ()) trivial trivial ?_
    refine .call trivial ?_
    refine .answer (.ok ()) trivial trivial ?_
    refine .tick (.mine (List.mem_singleton_self _) (by decide)) trivial ?_
    refine .call trivial ?_
    refine .tick (.refuse (List.mem_singleton_self _) (by decide)) trivial ?_
    refine .answer (.settled (.error ⟨"nonce too low", false⟩))
      ⟨List.mem_singleton_self _, by decide⟩ trivial ?_
    refine .call trivial ?_
    refine .answer (.ok ()) trivial trivial ?_
    refine .call trivial ?_
    refine .answer (.ok ⟨8, { gasPrice := some 100 }⟩) ⟨_, rfl⟩ trivial ?_
    refine .call trivial ?_
    refine .answer (.ok ()) trivial trivial ?_
    refine .call trivial ?_
    refine .tick (.broadcast (List.mem_singleton_self _) (by decide)) trivial ?_
    refine .tick (.mine (List.mem_singleton_self _) (by decide)) trivial ?_
    exact .refl
  case mined => rfl

end Resilience.Onchain
