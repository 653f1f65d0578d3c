import Resilience.Foundations.Handlers
import Resilience.Onchain.Attempts
import Resilience.Onchain.Breaker
import Resilience.Onchain.Python

/-!
# The two clients side by side

`sendWithRetry` and `send_with_retry` on hosts that meet them with the same outcomes. They go
through the same attempts, record the same in their breakers and end alike; only the fees can
differ, where a bump rounds the factor or divides a negative product. After 1024 attempts the Python
client cannot compute the next delay and raises, where the TypeScript client goes on. The clients
agree exactly when no fee is bumped that they bump differently, and none after so many attempts
(`parity_iff`).
-/

namespace Resilience.Onchain

/-! ## Fees -/

/-- A half that `Math.round` takes up and `round` down. -/
def Tie (q : ℚ) : Prop := q - ⌊q⌋ = 1 / 2 ∧ ⌊q⌋ % 2 = 0

instance (q : ℚ) : Decidable (Tie q) := inferInstanceAs (Decidable (_ ∧ _))

/-- Both clients bump the fee to the same number (`bumpsAlike_iff`): where they round the factor
alike, the division leaves no rest or is not of a negative number, and where they do not, the fee
is too low to matter. -/
def BumpsAlike (factor : ℚ) (v : ℤ) : Prop :=
  if Tie (factor * 1000) then
    if 0 ≤ v then v * ⌊factor * 1000⌋ % 1000 + v < 1000
    else -1000 < v * ⌊factor * 1000⌋ % 1000 + v ∧ v * ⌊factor * 1000⌋ % 1000 + v ≤ 0
  else 0 ≤ v ∨ 1000 ∣ v * TypeScript.mathRound (factor * 1000)

instance (factor : ℚ) (v : ℤ) : Decidable (BumpsAlike factor v) :=
  inferInstanceAs (Decidable (ite _ _ _))

/-- The fees of a submission are bumped alike. -/
def FeesAlike (factor : ℚ) (f : FeeFields) : Prop :=
  ∀ v, f.gasPrice = some v ∨ f.maxFeePerGas = some v ∨ f.maxPriorityFeePerGas = some v →
    BumpsAlike factor v

theorem pyRound_eq_floor_of_tie {q : ℚ} (h : Tie q) : Python.pyRound q = ⌊q⌋ := by
  unfold Python.pyRound
  dsimp only
  rw [if_neg (by rw [h.1]; exact lt_irrefl _), if_neg (by rw [h.1]; exact lt_irrefl _), if_pos h.2]

theorem mathRound_eq {q : ℚ} :
    TypeScript.mathRound q = if q - ⌊q⌋ < 1 / 2 then ⌊q⌋ else ⌊q⌋ + 1 := by
  have hle := Int.floor_le q
  have hlt := Int.lt_floor_add_one q
  unfold TypeScript.mathRound
  rw [Int.floor_eq_iff]
  split_ifs with h
  · constructor <;> linarith
  · push_cast
    constructor <;> linarith

theorem mathRound_eq_of_tie {q : ℚ} (h : Tie q) : TypeScript.mathRound q = ⌊q⌋ + 1 := by
  rw [mathRound_eq, if_neg (by rw [h.1]; exact lt_irrefl _)]

theorem mathRound_eq_pyRound {q : ℚ} (h : ¬ Tie q) : TypeScript.mathRound q = Python.pyRound q := by
  rw [mathRound_eq]
  unfold Python.pyRound
  dsimp only
  split_ifs with hlow hhigh heven
  · rfl
  · rfl
  · exact absurd ⟨le_antisymm (not_lt.1 hhigh) (not_lt.1 hlow), heven⟩ h
  · rfl

/-- The divisions agree on a number that is not negative, or that divides without a rest. -/
theorem tdiv_eq_fdiv_iff {m : ℤ} (hm : 0 < m) (v : ℤ) :
    (v * m).tdiv 1000 = (v * m).fdiv 1000 ↔ 0 ≤ v ∨ 1000 ∣ v * m := by
  have hsign : 0 ≤ v * m ↔ 0 ≤ v := mul_nonneg_iff_of_pos_right hm
  rw [← hsign, Int.tdiv_eq_ediv, Int.fdiv_eq_ediv_of_nonneg _ (by decide)]
  split_ifs with hcase
  · exact iff_of_true (add_zero _) hcase
  · refine iff_of_false (fun heq => ?_) hcase
    rw [Int.sign_eq_one_of_pos (by decide)] at heq
    omega

/-- The divisions agree on neighbours where the difference does not reach the next quotient. -/
theorem tdiv_succ_eq_fdiv_iff {n : ℤ} (hn : 0 ≤ n) (v : ℤ) :
    (v * (n + 1)).tdiv 1000 = (v * n).fdiv 1000 ↔
      if 0 ≤ v then v * n % 1000 + v < 1000
      else -1000 < v * n % 1000 + v ∧ v * n % 1000 + v ≤ 0 := by
  rw [mul_add, mul_one, Int.tdiv_eq_ediv, Int.fdiv_eq_ediv_of_nonneg _ (by decide)]
  split_ifs with hcase hv hv
  · omega
  · have hneg : v * n ≤ 0 := mul_nonpos_of_nonpos_of_nonneg (not_le.1 hv).le hn
    omega
  · have hnonneg : 0 ≤ v * n := mul_nonneg hv hn
    omega
  · rw [Int.sign_eq_one_of_pos (by decide)]
    omega

/-- **What is bumped alike.** -/
theorem bumpsAlike_iff {factor : ℚ} (hfactor : 1 < factor) (v : ℤ) :
    BumpsAlike factor v ↔ (v * TypeScript.mathRound (factor * 1000)).tdiv 1000 =
      (v * Python.pyRound (factor * 1000)).fdiv 1000 := by
  unfold BumpsAlike
  by_cases htie : Tie (factor * 1000)
  · have hn : 0 ≤ ⌊factor * 1000⌋ := Int.floor_nonneg.2 (by linarith)
    rw [if_pos htie, mathRound_eq_of_tie htie, pyRound_eq_floor_of_tie htie]
    exact (tdiv_succ_eq_fdiv_iff hn v).symm
  · have hm := TypeScript.mathRound_ge hfactor
    rw [if_neg htie, ← mathRound_eq_pyRound htie]
    exact (tdiv_eq_fdiv_iff (by omega) v).symm

/-- The fee mode in the Python client. -/
def modeName : TypeScript.FeeMode → String
  | .legacy => "legacy"
  | .eip1559 => "eip1559"

/-- The initial fee is the same, or the error has the same code. -/
theorem initialFee_alike (mode : TypeScript.FeeMode) (base : FeeFields) :
    (∃ fee, TypeScript.initialFee mode base = .ok fee ∧
        Python.initialFee (modeName mode) base = .ok fee) ∨
      ∃ e e', TypeScript.initialFee mode base = .error e ∧
        Python.initialFee (modeName mode) base = .error e' ∧ e.code = e'.code := by
  cases mode with
  | legacy =>
    have hmode : (modeName .legacy == "legacy") = true := rfl
    unfold TypeScript.initialFee Python.initialFee
    rw [if_pos hmode]
    cases base.gasPrice with
    | none => exact .inr ⟨_, _, rfl, rfl, rfl⟩
    | some v => exact .inl ⟨_, rfl, rfl⟩
  | eip1559 =>
    have hmode : (modeName .eip1559 == "legacy") = false := by decide
    unfold TypeScript.initialFee Python.initialFee
    rw [hmode]
    cases base.maxFeePerGas with
    | none => exact .inr ⟨_, _, rfl, rfl, rfl⟩
    | some v => exact .inl ⟨_, rfl, rfl⟩

open TypeScript in
theorem exists_bumpFee {mode : FeeMode} {fee : FeeFields} (h : Shaped mode fee) (factor : ℚ) :
    ∃ g g', bumpFee mode fee factor = .ok g ∧ Python.bumpFee (modeName mode) fee factor = .ok g' ∧
      Shaped mode g ∧ Shaped mode g' ∧ (1 < factor → (g = g' ↔ FeesAlike factor fee)) := by
  cases h with
  | legacy v =>
    refine ⟨_, _, rfl, rfl, .legacy _, .legacy _, fun hfactor => ?_⟩
    simp [FeesAlike, bumpsAlike_iff hfactor]
  | eip1559 v w =>
    refine ⟨_, _, rfl, rfl, .eip1559 _ _, .eip1559 _ _, fun hfactor => ?_⟩
    simp [FeesAlike, bumpsAlike_iff hfactor, or_imp, forall_and]

/-! ## Breakers -/

/-- The same breaker, with times in milliseconds and in seconds. -/
structure SameBreaker (b : TypeScript.CircuitBreaker) (b' : Python.CircuitBreaker) : Prop where
  threshold : b.threshold = b'.threshold
  cooldown : b.cooldownMs = 1000 * b'.cooldown
  failures : b.consecutiveFailures = b'.consecutiveFailures
  openedAt : b.openedAt = b'.openedAt.map (1000 * ·)

namespace SameBreaker

variable {b : TypeScript.CircuitBreaker} {b' : Python.CircuitBreaker}

theorem assertClosed (h : SameBreaker b b') (now : ℚ) :
    b.assertClosed (1000 * now) = b'.assertClosed now := by
  unfold TypeScript.CircuitBreaker.assertClosed Python.CircuitBreaker.assertClosed
  rw [h.openedAt, h.cooldown, h.failures]
  cases b'.openedAt with
  | none => rfl
  | some openedAt =>
    have hiff : (0 < 1000 * b'.cooldown ∧ 1000 * b'.cooldown ≤ 1000 * now - 1000 * openedAt) ↔
        0 < b'.cooldown ∧ b'.cooldown ≤ now - openedAt := by
      constructor
      · rintro ⟨hpos, hle⟩
        constructor <;> linarith
      · rintro ⟨hpos, hle⟩
        constructor <;> linarith
    simp only [Option.map_some, hiff]

theorem isOpen (h : SameBreaker b b') (now : ℚ) : b.isOpen (1000 * now) = b'.isOpen now := by
  have hclosed := h.assertClosed now
  unfold TypeScript.CircuitBreaker.isOpen Python.CircuitBreaker.isOpen
  generalize b.assertClosed (1000 * now) = r at hclosed ⊢
  subst hclosed
  cases b'.assertClosed now with
  | ok _ => rfl
  | error m => rfl

theorem recordSuccess (h : SameBreaker b b') : SameBreaker b.recordSuccess b'.recordSuccess :=
  ⟨h.threshold, h.cooldown, rfl, rfl⟩

theorem recordFailure (h : SameBreaker b b') (now : ℚ) :
    SameBreaker (b.recordFailure (1000 * now)) (b'.recordFailure now) := by
  refine ⟨h.threshold, h.cooldown, congrArg (· + 1) h.failures, ?_⟩
  have hiff : b.threshold ≤ ↑(b.consecutiveFailures + 1) ↔
      b'.threshold ≤ ↑(b'.consecutiveFailures + 1) := by
    rw [h.threshold, h.failures]
    norm_cast
  unfold TypeScript.CircuitBreaker.recordFailure Python.CircuitBreaker.recordFailure
  simp only [hiff, h.openedAt]
  split_ifs <;> rfl

end SameBreaker

/-! ## A common host -/

/-- What a call meets: the outcome of each call of a callback, in order, the time at each call of a
method of the breaker, in seconds, and how long the attempts take. -/
structure Script where
  alreadySent : Called Bool
  fetchState : ℕ → Called StateResult
  signSend : ℕ → Called SubmitResult
  wait : ℕ → Called NormalizedReceipt
  log : ℕ → Called Unit
  sleep : ℕ → Called Unit
  clock : ℕ → ℚ
  elapsed : ℕ → ℚ

/-- How often the callbacks and the breaker have been called. -/
structure Counts where
  fetchState : ℕ := 0
  signSend : ℕ := 0
  wait : ℕ := 0
  log : ℕ := 0
  sleep : ℕ := 0
  clock : ℕ := 0
  deriving DecidableEq

/-- What the callbacks see. -/
inductive Mark
  | fetched
  | submitted (ctx : TxContext)
  deriving DecidableEq

/-- The line announces a delay that Python cannot compute. -/
def LogLine.isLate : LogLine → Bool
  | .failed attempt _ _ => decide (1024 < attempt)
  | _ => false

/-- The breaker of a client, and what has been called; the marks stand latest first. `late` says
that the TypeScript client has announced a delay that the Python client cannot compute. -/
structure Host (B : Type) where
  breaker : B
  counts : Counts := {}
  marks : List Mark := []
  attempts : ℕ := 0
  late : Bool := false

/-- The result of a call, and what it leaves. -/
abbrev CallEnd (B : Type) := Except Thrown NormalizedReceipt × Host B

/-- A call of a callback: its answer goes by what has been called before. -/
def Host.call {B α : Type} (answer : Counts → α) (count : Counts → Counts)
    (see : List Mark → List Mark) (s : Host B) : α × Host B :=
  (answer s.counts, { s with counts := count s.counts, marks := see s.marks })

namespace Script

variable {B : Type} (script : Script)

def onFetchState : Host B → Called StateResult × Host B :=
  Host.call (script.fetchState ·.fetchState)
    (fun c => { c with fetchState := c.fetchState + 1 }) (.fetched :: ·)

def onSignSend (ctx : TxContext) : Host B → Called SubmitResult × Host B :=
  Host.call (script.signSend ·.signSend) (fun c => { c with signSend := c.signSend + 1 })
    (.submitted ctx :: ·)

def onWait : Host B → Called NormalizedReceipt × Host B :=
  Host.call (script.wait ·.wait) (fun c => { c with wait := c.wait + 1 }) id

def onLog : Host B → Called Unit × Host B :=
  Host.call (script.log ·.log) (fun c => { c with log := c.log + 1 }) id

def onSleep : Host B → Called Unit × Host B :=
  Host.call (script.sleep ·.sleep) (fun c => { c with sleep := c.sleep + 1 }) id

/-- A method of the breaker, at the next time. -/
def onBreaker {α : Type} (method : B → ℚ → α × B) (s : Host B) : α × Host B :=
  let (a, breaker) := method s.breaker (script.clock s.counts.clock)
  (a, { s with breaker, counts := { s.counts with clock := s.counts.clock + 1 } })

/-- The host of the TypeScript client, on a clock in milliseconds. No attempt exceeds its timeout.
-/
def typeScript :
    Handler TypeScript.Request TypeScript.Answer (Host TypeScript.CircuitBreaker)
  | .alreadySent _, s => (script.alreadySent, s)
  | .assertClosed, s => script.onBreaker (fun b now => (b.assertClosed (1000 * now), b)) s
  | .recordSuccess, s => script.onBreaker (fun b _ => ((), b.recordSuccess)) s
  | .recordFailure, s => script.onBreaker (fun b now => ((), b.recordFailure (1000 * now))) s
  | .fetchState, s => script.onFetchState s
  | .signSend ctx, s => let (r, s) := script.onSignSend ctx s; (.settled r, s)
  | .wait _, s => let (r, s) := script.onWait s; (.settled r, s)
  | .log line, s => script.onLog { s with late := s.late || line.isLate }
  | .sleep _, s => script.onSleep s

/-- The host of the Python client, on a clock in seconds. -/
def python : Handler Python.Request Python.Answer (Host Python.CircuitBreaker)
  | .alreadySent _, s => (script.alreadySent, s)
  | .assertClosed, s => script.onBreaker (fun b now => (b.assertClosed now, b)) s
  | .recordSuccess, s => script.onBreaker (fun b _ => ((), b.recordSuccess)) s
  | .recordFailure, s => script.onBreaker (fun b now => ((), b.recordFailure now)) s
  | .fetchState, s => script.onFetchState s
  | .signSend ctx, s => script.onSignSend ctx s
  | .wait _, s => script.onWait s
  | .elapsed, s => (script.elapsed s.attempts, { s with attempts := s.attempts + 1 })
  | .log _, s => script.onLog s
  | .sleep _, s => script.onSleep s

end Script

/-! ## Marks -/

/-- The contexts of the submissions, latest first. -/
def contexts (marks : List Mark) : List TxContext :=
  marks.filterMap fun
    | .submitted ctx => some ctx
    | .fetched => none

/-- Whenever a submission is followed by another one without a new state in between, its fees are
bumped alike, and there is a delay in Python. -/
def AllAlike (factor : ℚ) : List Mark → Prop
  | [] => True
  | .fetched :: marks => AllAlike factor marks
  | .submitted _ :: marks =>
    AllAlike factor marks ∧
      ∀ c rest, marks = .submitted c :: rest → FeesAlike factor c.fee ∧ c.attempt ≤ 1024

/-- The marks are the same as long as the bumps are alike, and differ from then on. -/
def SameMarks (factor : ℚ) (m m' : List Mark) : Prop :=
  (contexts m).length = (contexts m').length ∧
    (m = m' ∧ AllAlike factor m ∨ contexts m ≠ contexts m' ∧ ¬ AllAlike factor m)

/-- Where the fees of the next submissions come from: from a new state, or from a bump. -/
inductive Feeds (mode : TypeScript.FeeMode) (factor : ℚ) :
    List Mark → List Mark → FeeFields → FeeFields → Prop
  | fresh {m m' fee} (hshaped : TypeScript.Shaped mode fee) :
    Feeds mode factor (.fetched :: m) (.fetched :: m') fee fee
  | bumped {m m' c c' fee fee'} (hattempt : c.attempt ≤ 1024)
      (hshaped : TypeScript.Shaped mode c.fee)
      (hshaped' : TypeScript.Shaped mode c'.fee)
      (hfee : TypeScript.bumpFee mode c.fee factor = .ok fee)
      (hfee' : Python.bumpFee (modeName mode) c'.fee factor = .ok fee') :
      Feeds mode factor (.submitted c :: m) (.submitted c' :: m') fee fee'

section Marks

variable {mode : TypeScript.FeeMode} {factor : ℚ} {m m' : List Mark} {fee fee' : FeeFields}

theorem SameMarks.fetched (h : SameMarks factor m m') :
    SameMarks factor (.fetched :: m) (.fetched :: m') := by
  refine ⟨h.1, ?_⟩
  rcases h.2 with ⟨rfl, halike⟩ | ⟨hne, hnot⟩
  · exact .inl ⟨rfl, halike⟩
  · exact .inr ⟨hne, hnot⟩

theorem Feeds.shaped (h : Feeds mode factor m m' fee fee') :
    TypeScript.Shaped mode fee ∧ TypeScript.Shaped mode fee' := by
  cases h with
  | fresh hshaped => exact ⟨hshaped, hshaped⟩
  | bumped _ hshaped hshaped' hfee hfee' =>
    obtain ⟨g, -, hg, -, hgshaped, -, -⟩ := exists_bumpFee hshaped factor
    obtain ⟨-, g', -, hg', -, hgshaped', -⟩ := exists_bumpFee hshaped' factor
    obtain rfl := Except.ok.inj (hg.symm.trans hfee)
    obtain rfl := Except.ok.inj (hg'.symm.trans hfee')
    exact ⟨hgshaped, hgshaped'⟩

/-- **The next submission**: the marks differ from then on exactly when the bump was not alike. -/
theorem SameMarks.submitted (hfactor : 1 < factor) (h : SameMarks factor m m')
    (hfeeds : Feeds mode factor m m' fee fee') (nonce attempt : ℤ) :
    SameMarks factor (.submitted ⟨nonce, fee, attempt⟩ :: m)
      (.submitted ⟨nonce, fee', attempt⟩ :: m') := by
  refine ⟨congrArg (· + 1) h.1, ?_⟩
  rcases h.2 with ⟨rfl, halike⟩ | ⟨hne, hnot⟩
  · cases hfeeds with
    | fresh => exact .inl ⟨rfl, halike, nofun⟩
    | @bumped m m' c c' fee fee' hattempt hshaped hshaped' hfee hfee' =>
      obtain ⟨g, g', hg, hg', -, -, hiff⟩ := exists_bumpFee hshaped factor
      obtain rfl := Except.ok.inj (hg.symm.trans hfee)
      obtain rfl := Except.ok.inj (hg'.symm.trans hfee')
      by_cases hfees : FeesAlike factor c.fee
      · obtain rfl := (hiff hfactor).2 hfees
        refine .inl ⟨rfl, halike, ?_⟩
        rintro _ _ ⟨⟩
        exact ⟨hfees, hattempt⟩
      · refine .inr ⟨fun heq => hfees ((hiff hfactor).1 ?_), fun hall => hfees (hall.2 c m rfl).1⟩
        exact congrArg TxContext.fee (List.cons.inj heq).1
  · exact .inr ⟨fun heq => hne (List.cons.inj heq).2, fun hall => hnot hall.1⟩

end Marks

/-! ## Lockstep -/

/-- The options are the same; waiting times do not matter. -/
structure SameOptions (s : TypeScript.Settings) (o : Python.SendOpts) : Prop where
  maxAttempts : s.maxAttempts = o.maxAttempts
  feeMode : o.feeMode = modeName s.feeMode
  bumpFactor : s.bumpFactor = o.bumpFactor
  breaker : s.breaker = o.breaker

/-- Hosts that have answered the same, with marks in `P`. -/
structure InStep (factor : ℚ) (P : List Mark → List Mark → Prop)
    (s : Host TypeScript.CircuitBreaker) (s' : Host Python.CircuitBreaker) : Prop where
  breaker : SameBreaker s.breaker s'.breaker
  counts : s.counts = s'.counts
  late : s.late = false
  marks : SameMarks factor s.marks s'.marks
  related : P s.marks s'.marks

/-- What the `try` block of an attempt throws: a value from a callback, or a revert. -/
inductive Caught : Thrown → Thrown → Prop
  | foreign (err : Foreign) : Caught (.foreign err) (.foreign err)
  | txFailed (m m' : String) (receipt : NormalizedReceipt) :
    Caught (.txFailed m receipt) (.txFailed m' receipt)

theorem Caught.code {e e' : Thrown} (h : Caught e e') : e.code = e'.code := by
  cases h <;> rfl

section Lockstep

variable {script : Script} {factor : ℚ} {P : List Mark → List Mark → Prop}

/-- The same value, in step. -/
abbrev Returns (factor : ℚ) (P : List Mark → List Mark → Prop) {α : Type} (a a' : α)
    (s : Host TypeScript.CircuitBreaker) (s' : Host Python.CircuitBreaker) : Prop :=
  a = a' ∧ InStep factor P s s'

/-- Errors of an attempt, in step. -/
abbrev Throws (factor : ℚ) (P : List Mark → List Mark → Prop) (e e' : Thrown)
    (s : Host TypeScript.CircuitBreaker) (s' : Host Python.CircuitBreaker) : Prop :=
  Caught e e' ∧ InStep factor P s s'

/-- Errors that end the call, in step. -/
abbrev Rejects (factor : ℚ) (e e' : Thrown) (s : Host TypeScript.CircuitBreaker)
    (s' : Host Python.CircuitBreaker) : Prop :=
  e.code = e'.code ∧ InStep factor (fun _ _ => True) s s'

theorem InStep.mono {Q : List Mark → List Mark → Prop} {s : Host TypeScript.CircuitBreaker}
    {s' : Host Python.CircuitBreaker} (h : InStep factor P s s') (hPQ : ∀ m m', P m m' → Q m m') :
    InStep factor Q s s' :=
  ⟨h.breaker, h.counts, h.late, h.marks, hPQ _ _ h.related⟩

/-- After the same value, both go on with it. -/
theorem lockstep_then {α β β' : Type} {Φ : Host TypeScript.CircuitBreaker →
      Host Python.CircuitBreaker → Prop} {x : TypeScript.Async α} {y : Python.Sync α}
    {f : α → TypeScript.Async β} {g : α → Python.Sync β'}
    {W : Thrown → Thrown → Host TypeScript.CircuitBreaker → Host Python.CircuitBreaker → Prop}
    {C : Except Thrown β × Host TypeScript.CircuitBreaker →
      Except Thrown β' × Host Python.CircuitBreaker → Prop}
    (hxy : Lockstep script.typeScript script.python Φ x y (Outcomes (Returns factor P) W))
    (hfg : ∀ a, Lockstep script.typeScript script.python (InStep factor P) (f a) (g a) C)
    (hW : ∀ {e e' s s'}, W e e' s s' → C (.error e, s) (.error e', s')) :
    Lockstep script.typeScript script.python Φ (x >>= f) (y >>= g) C := by
  refine lockstep_bind hxy (fun a a' => ?_) hW
  rintro s s' ⟨rfl, h⟩
  exact hfg a s s' h

/-- A call of a callback. -/
theorem InStep.call {Q : List Mark → List Mark → Prop} {s : Host TypeScript.CircuitBreaker}
    {s' : Host Python.CircuitBreaker} (h : InStep factor P s s') {α : Type} (answer : Counts → α)
    (count : Counts → Counts) {see see' : List Mark → List Mark}
    (hmarks : SameMarks factor (see s.marks) (see' s'.marks))
    (hQ : Q (see s.marks) (see' s'.marks)) :
    (s.call answer count see).1 = (s'.call answer count see').1 ∧
      InStep factor Q (s.call answer count see).2 (s'.call answer count see').2 :=
  ⟨congrArg answer h.counts, h.breaker, congrArg count h.counts, h.late, hmarks, hQ⟩

/-- A method of the breaker. -/
theorem InStep.onBreaker {s : Host TypeScript.CircuitBreaker} {s' : Host Python.CircuitBreaker}
    (h : InStep factor P s s') {α : Type}
    {method : TypeScript.CircuitBreaker → ℚ → α × TypeScript.CircuitBreaker}
    {method' : Python.CircuitBreaker → ℚ → α × Python.CircuitBreaker}
    (hmethod : ∀ {b b'} now, SameBreaker b b' →
      (method b now).1 = (method' b' now).1 ∧ SameBreaker (method b now).2 (method' b' now).2) :
    (script.onBreaker method s).1 = (script.onBreaker method' s').1 ∧
      InStep factor P (script.onBreaker method s).2 (script.onBreaker method' s').2 := by
  have hclock : script.clock s.counts.clock = script.clock s'.counts.clock :=
    congrArg (script.clock ·.clock) h.counts
  obtain ⟨hanswer, hbreaker⟩ := hmethod (script.clock s'.counts.clock) h.breaker
  unfold Script.onBreaker
  rw [hclock]
  exact ⟨hanswer, hbreaker, congrArg (fun c : Counts => { c with clock := c.clock + 1 }) h.counts,
    h.late, h.marks, h.related⟩

theorem lockstep_called {Q : List Mark → List Mark → Prop} {α : Type} {e : TypeScript.Request}
    {e' : Python.Request} {f : TypeScript.Answer e → Except Thrown α}
    {f' : Python.Answer e' → Except Thrown α}
    (reply : Host TypeScript.CircuitBreaker → Called α × Host TypeScript.CircuitBreaker)
    (reply' : Host Python.CircuitBreaker → Called α × Host Python.CircuitBreaker)
    (hf : ∀ s, (f (script.typeScript e s).1, (script.typeScript e s).2) =
      ((reply s).1.result, (reply s).2))
    (hf' : ∀ s, (f' (script.python e' s).1, (script.python e' s).2) =
      ((reply' s).1.result, (reply' s).2))
    (hstep : ∀ s s', InStep factor P s s' →
      (reply s).1 = (reply' s').1 ∧ InStep factor Q (reply s).2 (reply' s').2) :
    Lockstep script.typeScript script.python (InStep factor P) (perform e f) (perform e' f')
      (Outcomes (Returns factor Q) (Throws factor Q)) := by
  refine lockstep_perform fun s s' h => ?_
  obtain ⟨hanswer, hnext⟩ := hstep s s' h
  rw [hf, hf', hanswer]
  cases (reply' s').1 with
  | ok a => exact .ok ⟨rfl, hnext⟩
  | error err => exact .error ⟨.foreign err, hnext⟩

theorem lockstep_log {line : LogLine} (hline : line.isLate = false) (line' : LogLine) :
    Lockstep script.typeScript script.python (InStep factor P) (TypeScript.log line)
      (Python.log line') (Outcomes (Returns factor P) (Throws factor P)) :=
  lockstep_called (fun s => script.onLog { s with late := s.late || line.isLate }) script.onLog
    (fun _ => rfl) (fun _ => rfl) fun h h' hin => by
      have hsame : { h with late := h.late || line.isLate } = h := by
        rw [hline, Bool.or_false]
      rw [hsame]
      exact hin.call _ _ hin.marks hin.related

theorem lockstep_sleep (ms seconds : ℚ) :
    Lockstep script.typeScript script.python (InStep factor P)
      (perform (.sleep ms) Called.result) (perform (.sleep seconds) Called.result)
      (Outcomes (Returns factor P) (Throws factor P)) :=
  lockstep_called script.onSleep script.onSleep (fun _ => rfl) (fun _ => rfl)
    fun _ _ h => h.call _ _ h.marks h.related

theorem lockstep_wait (submitted : SubmitResult) (ms : ℤ) (label : String) :
    Lockstep script.typeScript script.python (InStep factor P)
      (perform (.wait submitted) (TypeScript.Race.result ms label))
      (perform (.wait submitted) Called.result) (Outcomes (Returns factor P) (Throws factor P)) :=
  lockstep_called script.onWait script.onWait (fun _ => rfl) (fun _ => rfl)
    fun _ _ h => h.call _ _ h.marks h.related

/-- The next state: the marks are related anew. -/
theorem lockstep_fetchState {Q : List Mark → List Mark → Prop}
    (hQ : ∀ m m', Q (.fetched :: m) (.fetched :: m')) :
    Lockstep script.typeScript script.python (InStep factor P)
      (perform .fetchState Called.result) (perform .fetchState Called.result)
      (Outcomes (Returns factor Q) (Throws factor Q)) :=
  lockstep_called script.onFetchState script.onFetchState (fun _ => rfl) (fun _ => rfl)
    fun _ _ h => h.call _ _ h.marks.fetched (hQ _ _)

/-- The marks of an attempt: both have submitted, with these fees. -/
inductive Sent (mode : TypeScript.FeeMode) (attempt : ℤ) (fee fee' : FeeFields) :
    List Mark → List Mark → Prop
  | intro {m m'} (hshaped : TypeScript.Shaped mode fee) (hshaped' : TypeScript.Shaped mode fee')
    (nonce : ℤ) : Sent mode attempt fee fee' (.submitted ⟨nonce, fee, attempt⟩ :: m)
      (.submitted ⟨nonce, fee', attempt⟩ :: m')

theorem Sent.late {mode : TypeScript.FeeMode} {attempt : ℤ} {fee fee' : FeeFields}
    {m m' : List Mark} (h : Sent mode attempt fee fee' m m') (hattempt : 1024 < attempt) :
    ∃ c rest, m = .submitted c :: rest ∧ 1024 < c.attempt := by
  cases h
  exact ⟨_, _, rfl, hattempt⟩

theorem Sent.bumpFee {mode : TypeScript.FeeMode} {attempt : ℤ} {fee fee' : FeeFields}
    {m m' : List Mark} (h : Sent mode attempt fee fee' m m') (factor : ℚ) :
    ∃ g g', TypeScript.bumpFee mode fee factor = .ok g ∧
      Python.bumpFee (modeName mode) fee' factor = .ok g' ∧
        (attempt ≤ 1024 → Feeds mode factor m m' g g') := by
  cases h with
  | intro hshaped hshaped' nonce =>
    obtain ⟨g, -, hg, -, -, -, -⟩ := exists_bumpFee hshaped factor
    obtain ⟨-, g', -, hg', -, -, -⟩ := exists_bumpFee hshaped' factor
    exact ⟨g, g', hg, hg', fun hattempt => .bumped hattempt hshaped hshaped' hg hg'⟩

theorem lockstep_signSend (hfactor : 1 < factor) {mode : TypeScript.FeeMode}
    {fee fee' : FeeFields} (nonce attempt ms : ℤ) (label : String) :
    Lockstep script.typeScript script.python
      (InStep factor (Feeds mode factor · · fee fee'))
      (perform (.signSend ⟨nonce, fee, attempt⟩) (TypeScript.Race.result ms label))
      (perform (.signSend ⟨nonce, fee', attempt⟩) Called.result)
      (Outcomes (Returns factor (Sent mode attempt fee fee'))
        (Throws factor (Sent mode attempt fee fee'))) := by
  refine lockstep_called (script.onSignSend _) (script.onSignSend _) (fun _ => rfl) (fun _ => rfl)
    fun s s' h => ?_
  obtain ⟨hshaped, hshaped'⟩ := h.related.shaped
  exact h.call _ _ (h.marks.submitted hfactor h.related nonce attempt)
    (.intro hshaped hshaped' nonce)

variable {s : TypeScript.Settings} {o : Python.SendOpts}

theorem lockstep_recordFailure (hopts : SameOptions s o) {W : Thrown → Thrown →
    Host TypeScript.CircuitBreaker → Host Python.CircuitBreaker → Prop} :
    Lockstep script.typeScript script.python (InStep factor P) (TypeScript.recordFailure s)
      (Python.recordFailure o) (Outcomes (Returns factor P) W) := by
  unfold TypeScript.recordFailure Python.recordFailure
  rw [hopts.breaker]
  cases o.breaker with
  | false => exact fun s s' h => .ok ⟨rfl, h⟩
  | true =>
    exact lockstep_perform fun s s' h =>
      .ok ⟨rfl, (h.onBreaker fun now hb => ⟨rfl, hb.recordFailure now⟩).2⟩

theorem lockstep_recordSuccess (hopts : SameOptions s o) {W : Thrown → Thrown →
    Host TypeScript.CircuitBreaker → Host Python.CircuitBreaker → Prop} :
    Lockstep script.typeScript script.python (InStep factor P) (TypeScript.recordSuccess s)
      (Python.recordSuccess o) (Outcomes (Returns factor P) W) := by
  unfold TypeScript.recordSuccess Python.recordSuccess
  rw [hopts.breaker]
  cases o.breaker with
  | false => exact fun s s' h => .ok ⟨rfl, h⟩
  | true =>
    exact lockstep_perform fun s s' h =>
      .ok ⟨rfl, (h.onBreaker fun _ hb => ⟨rfl, hb.recordSuccess⟩).2⟩

theorem isReceiptSuccess_eq (receipt : NormalizedReceipt) :
    TypeScript.isReceiptSuccess receipt = Python.isReceiptSuccess receipt := by
  unfold TypeScript.isReceiptSuccess Python.isReceiptSuccess
  cases receipt.status <;> rfl

theorem isNonceTooLow_eq (err : Thrown) :
    TypeScript.isNonceTooLow err = Python.isNonceTooLow err := by
  unfold TypeScript.isNonceTooLow Python.isNonceTooLow
  simp only [List.any_cons, List.any_nil, Bool.or_false, Bool.or_assoc]

theorem lockstep_confirm (hopts : SameOptions s o) (attempt : ℤ) (receipt : NormalizedReceipt) :
    Lockstep script.typeScript script.python (InStep factor P)
      (TypeScript.confirm s attempt receipt) (Python.confirm o attempt receipt)
      (Outcomes (Returns factor P) (Throws factor P)) := by
  unfold TypeScript.confirm Python.confirm
  rw [isReceiptSuccess_eq]
  cases Python.isReceiptSuccess receipt with
  | false =>
    refine lockstep_then (lockstep_recordFailure hopts) (fun _ => ?_) .error
    exact fun _ _ h => .error ⟨.txFailed _ _ _, h⟩
  | true =>
    refine lockstep_then (lockstep_recordSuccess hopts) (fun _ => ?_) .error
    refine lockstep_then (lockstep_log rfl _) (fun _ => ?_) .error
    exact fun _ _ h => .ok ⟨rfl, h⟩

/-- No attempt exceeds the timeout. -/
def InTime (script : Script) (o : Python.SendOpts) : Prop :=
  ∀ k, script.elapsed k ≤ o.timeout.value

theorem lockstep_withTimeout (htime : InTime script o) {x : TypeScript.Async NormalizedReceipt}
    {op : Python.Sync NormalizedReceipt} {Φ : Host TypeScript.CircuitBreaker →
      Host Python.CircuitBreaker → Prop} (label : String)
    (hop : Lockstep script.typeScript script.python Φ x op
      (Outcomes (Returns factor P) (Throws factor P))) :
    Lockstep script.typeScript script.python Φ x (Python.withTimeout op o.timeout label)
      (Outcomes (Returns factor P) (Throws factor P)) := by
  intro s s' hs
  have hr := hop s s' hs
  unfold Python.withTimeout
  rw [handle_except_bind]
  generalize x.run.handle script.typeScript s = r at hr ⊢
  generalize op.run.handle script.python s' = r' at hr ⊢
  cases hr with
  | error hw => exact .error hw
  | @ok a a' t t' hv =>
    have hle : ¬ o.timeout.value < script.elapsed t'.attempts := not_lt.2 (htime _)
    simp only [handle_except_bind, handle_perform, Script.python, if_neg hle]
    exact .ok ⟨hv.1, hv.2.breaker, hv.2.counts, hv.2.late, hv.2.marks, hv.2.related⟩

theorem lockstep_submitAndConfirm (hopts : SameOptions s o) (htime : InTime script o)
    (hfactor : 1 < factor) {mode : TypeScript.FeeMode} {fee fee' : FeeFields} (attempt nonce : ℤ) :
    Lockstep script.typeScript script.python (InStep factor (Feeds mode factor · · fee fee'))
      (TypeScript.submitAndConfirm s attempt nonce fee)
      (Python.submitAndConfirm o attempt nonce fee')
      (Outcomes (Returns factor (Sent mode attempt fee fee'))
        (Throws factor (Sent mode attempt fee fee'))) := by
  have hop (label : String) : Lockstep script.typeScript script.python
      (InStep factor (Feeds mode factor · · fee fee'))
      (do
        let submitted ← perform (.signSend ⟨nonce, fee, attempt⟩)
          (TypeScript.Race.result s.timeoutMs label)
        TypeScript.log (.sent attempt s.maxAttempts nonce submitted.txHash)
        perform (.wait submitted) (TypeScript.Race.result s.timeoutMs label))
      (Python.submitAndWait o nonce fee' attempt)
      (Outcomes (Returns factor (Sent mode attempt fee fee'))
        (Throws factor (Sent mode attempt fee fee'))) := by
    refine lockstep_then (lockstep_signSend hfactor nonce attempt _ _) (fun submitted => ?_) .error
    refine lockstep_then (lockstep_log rfl _) (fun _ => ?_) .error
    exact lockstep_wait submitted _ _
  have hassoc : TypeScript.submitAndConfirm s attempt nonce fee = (do
      let submitted ← perform (.signSend ⟨nonce, fee, attempt⟩)
        (TypeScript.Race.result s.timeoutMs s!"attempt {attempt}")
      TypeScript.log (.sent attempt s.maxAttempts nonce submitted.txHash)
      perform (.wait submitted) (TypeScript.Race.result s.timeoutMs s!"attempt {attempt}")) >>=
        TypeScript.confirm s attempt := by
    simp only [TypeScript.submitAndConfirm, bind_assoc]
  rw [hassoc]
  exact lockstep_then (lockstep_withTimeout htime _ (hop _)) (lockstep_confirm hopts attempt) .error

/-- What an attempt that failed leaves for the next one. -/
def Goes (mode : TypeScript.FeeMode) (factor : ℚ) (more : Prop) (next next' : ℤ × FeeFields)
    (s : Host TypeScript.CircuitBreaker) (s' : Host Python.CircuitBreaker) : Prop :=
  next.1 = next'.1 ∧ InStep factor (fun m m' => more → Feeds mode factor m m' next.2 next'.2) s s'

theorem rejects {α α' : Type} {Φ : Host TypeScript.CircuitBreaker → Host Python.CircuitBreaker →
      Prop} {x : TypeScript.Async α} {y : Python.Sync α'}
    {V : α → α' → Host TypeScript.CircuitBreaker → Host Python.CircuitBreaker → Prop}
    (h : Lockstep script.typeScript script.python Φ x y (Outcomes V (Throws factor P))) :
    Lockstep script.typeScript script.python Φ x y (Outcomes V (Rejects factor)) :=
  h.mono (fun _ _ hs => hs) fun _ _ hr => hr.mono (fun _ _ _ _ hv => hv) fun _ _ _ _ hthrows =>
    ⟨hthrows.1.code, hthrows.2.mono fun _ _ _ => trivial⟩

/-- The TypeScript client has announced a delay that the Python client could not compute. -/
structure LateStep (factor : ℚ) (s : Host TypeScript.CircuitBreaker)
    (s' : Host Python.CircuitBreaker) : Prop where
  breaker : SameBreaker s.breaker s'.breaker
  marks : SameMarks factor s.marks s'.marks
  late : s.late = true
  sent : ∃ c rest, s.marks = .submitted c :: rest ∧ 1024 < c.attempt

/-- What a failed attempt comes to: the clients go on alike or end alike; or Python has raised for
want of a delay, and TypeScript goes on, or throws what the logger or `sleep` throws. -/
inductive Onward (mode : TypeScript.FeeMode) (factor : ℚ) (more : Prop)
    (r : Except Thrown (ℤ × FeeFields) × Host TypeScript.CircuitBreaker)
    (r' : Except Thrown (ℤ × FeeFields) × Host Python.CircuitBreaker) : Prop
  | alike (h : Outcomes (Goes mode factor more) (Rejects factor) r r')
  | late (hmore : more) (hstep : LateStep factor r.2 r'.2)
    (hr : (∃ next, r.1 = .ok next) ∨ ∃ err, r.1 = .error (.foreign err))
    (hr' : ∃ e, r'.1 = .error e ∧ e.code = none)

theorem Onward.error {mode : TypeScript.FeeMode} {more : Prop} {e e' : Thrown}
    {s : Host TypeScript.CircuitBreaker} {s' : Host Python.CircuitBreaker}
    (h : Rejects factor e e' s s') : Onward mode factor more (.error e, s) (.error e', s') :=
  .alike (.error h)

/-- The rest of the handler in TypeScript, where Python has raised. -/
theorem late_backoff {mode : TypeScript.FeeMode} {attempt : ℤ} {fee fee' : FeeFields}
    {h : Host TypeScript.CircuitBreaker} {h' : Host Python.CircuitBreaker}
    (hin : InStep factor (Sent mode attempt fee fee') h h') (hattempt : 1024 < attempt)
    (message : String) (delay ms : ℚ) (next : ℤ × FeeFields) {more : Prop} (hmore : more)
    {e : Thrown} (he : e.code = none) :
    Onward mode factor more
      ((do
        TypeScript.log (.failed attempt message delay)
        perform (.sleep ms) Called.result
        return next : TypeScript.Async _).run.handle script.typeScript h) (.error e, h') := by
  have hlate : (LogLine.failed attempt message delay).isLate = true := decide_eq_true hattempt
  have hstep : ∀ counts, LateStep factor
      { h with counts, late := h.late || (LogLine.failed attempt message delay).isLate } h' := by
    intro counts
    exact ⟨hin.breaker, hin.marks, by rw [hlate, Bool.or_true], hin.related.late hattempt⟩
  unfold TypeScript.log
  rw [handle_except_bind, handle_perform]
  cases hlog : script.log h.counts.log with
  | error err =>
    simp only [Script.typeScript, Script.onLog, Host.call, hlog]
    exact .late hmore (hstep _) (.inr ⟨err, rfl⟩) ⟨e, rfl, he⟩
  | ok u =>
    simp only [Script.typeScript, Script.onLog, Host.call, hlog, Called.result, Except.mapError,
      handle_except_bind, handle_perform]
    cases hsleep : script.sleep h.counts.sleep with
    | error err =>
      simp only [Script.onSleep, Host.call, hsleep]
      exact .late hmore (hstep _) (.inr ⟨err, rfl⟩) ⟨e, rfl, he⟩
    | ok u =>
      simp only [Script.onSleep, Host.call, hsleep]
      exact .late hmore (hstep _) (.inl ⟨next, rfl⟩) ⟨e, rfl, he⟩

theorem lockstep_bumpAndSleep (hopts : SameOptions s o) (attempt nonce : ℤ)
    {fee fee' : FeeFields} (err err' : Thrown)
    (hsent : attempt < s.maxAttempts → ∀ m m', P m m' → Sent s.feeMode attempt fee fee' m m') :
    Lockstep script.typeScript script.python (InStep o.bumpFactor P)
      (TypeScript.bumpAndSleep s attempt nonce fee err)
      (Python.bumpAndSleep o attempt nonce fee' err')
      (Onward s.feeMode o.bumpFactor (attempt < s.maxAttempts)) := by
  unfold TypeScript.bumpAndSleep Python.bumpAndSleep Python.backoffDelay
  rw [← hopts.maxAttempts, hopts.bumpFactor, hopts.feeMode]
  split_ifs with hlt hattempt
  · intro h h' hin
    have hsent' := hsent hlt _ _ hin.related
    obtain ⟨g, g', hg, hg', -⟩ := hsent'.bumpFee o.bumpFactor
    rw [hg, hg']
    exact late_backoff ⟨hin.breaker, hin.counts, hin.late, hin.marks, hsent'⟩ hattempt _ _ _ _ hlt
      rfl
  · intro h h' hin
    have hline : ∀ message delay, (LogLine.failed attempt message delay).isLate = false :=
      fun _ _ => decide_eq_false hattempt
    obtain ⟨g, g', hg, hg', hfeeds⟩ := (hsent hlt _ _ hin.related).bumpFee o.bumpFactor
    have hrest (line : LogLine) (hline : line.isLate = false) (line' : LogLine) (ms seconds : ℚ) :
        Lockstep script.typeScript script.python
        (InStep o.bumpFactor (Feeds s.feeMode o.bumpFactor · · g g'))
        (do
          TypeScript.log line
          perform (.sleep ms) Called.result
          return (nonce, g))
        (do
          Python.log line'
          perform (.sleep seconds) Called.result
          return (nonce, g'))
        (Outcomes (Goes s.feeMode o.bumpFactor (attempt < s.maxAttempts))
          (Rejects o.bumpFactor)) := by
      refine lockstep_then (rejects (lockstep_log hline _)) (fun _ => ?_) .error
      refine lockstep_then (rejects (lockstep_sleep _ _)) (fun _ => ?_) .error
      exact fun _ _ hs => .ok ⟨rfl, hs.mono fun _ _ hf _ => hf⟩
    rw [hg, hg']
    exact .alike (hrest _ (hline _ _) _ _ _ h h'
      ⟨hin.breaker, hin.counts, hin.late, hin.marks, hfeeds (not_lt.1 hattempt)⟩)
  · exact fun h h' hin => .alike (.ok ⟨rfl, hin.mono fun _ _ _ hlt' => absurd hlt' hlt⟩)

theorem lockstep_failAttempt (hopts : SameOptions s o) (attempt nonce : ℤ) {fee fee' : FeeFields}
    (err : Thrown)
    (hsent : attempt < s.maxAttempts → ∀ m m', P m m' → Sent s.feeMode attempt fee fee' m m') :
    Lockstep script.typeScript script.python (InStep o.bumpFactor P)
      (TypeScript.failAttempt s attempt nonce fee err)
      (Python.failAttempt o attempt nonce fee' err)
      (Onward s.feeMode o.bumpFactor (attempt < s.maxAttempts)) := by
  unfold TypeScript.failAttempt Python.failAttempt
  refine lockstep_then (lockstep_recordFailure hopts) (fun _ => ?_) Onward.error
  have hretry : TypeScript.isRetryable err = Python.isRetryable err := rfl
  rw [hretry]
  cases Python.isRetryable err with
  | false => exact fun _ _ h => .error ⟨rfl, h.mono fun _ _ _ => trivial⟩
  | true => exact lockstep_bumpAndSleep hopts attempt nonce err err hsent

/-- The initial fee of a state: the marks say that it is new. -/
theorem lockstep_initialFee (hopts : SameOptions s o) (base : FeeFields)
    {β β' : Type} {f : FeeFields → TypeScript.Async β} {g : FeeFields → Python.Sync β'}
    {C : Except Thrown β × Host TypeScript.CircuitBreaker →
      Except Thrown β' × Host Python.CircuitBreaker → Prop}
    (hfg : ∀ fee, TypeScript.Shaped s.feeMode fee →
      Lockstep script.typeScript script.python (InStep factor P) (f fee) (g fee) C)
    (hC : ∀ {e e' h h'}, Rejects factor e e' h h' → C (.error e, h) (.error e', h')) :
    Lockstep script.typeScript script.python (InStep factor P)
      (fromExcept (TypeScript.initialFee s.feeMode base) >>= f)
      (fromExcept (Python.initialFee o.feeMode base) >>= g) C := by
  rw [hopts.feeMode]
  rcases initialFee_alike s.feeMode base with ⟨fee, hfee, hfee'⟩ | ⟨e, e', he, he', hcode⟩
  · rw [hfee, hfee']
    exact hfg fee (TypeScript.shaped_initialFee hfee)
  · rw [he, he']
    exact fun _ _ h => hC ⟨hcode, h.mono fun _ _ _ => trivial⟩

/-- A state has just been fetched. -/
inductive Fetched : List Mark → List Mark → Prop
  | intro (m m' : List Mark) : Fetched (.fetched :: m) (.fetched :: m')

theorem Fetched.feeds {mode : TypeScript.FeeMode} {fee : FeeFields} {m m' : List Mark}
    (h : Fetched m m') (hshaped : TypeScript.Shaped mode fee) :
    Feeds mode factor m m' fee fee := by
  cases h
  exact .fresh hshaped

theorem lockstep_onError (script : Script) (hopts : SameOptions s o) (attempt nonce : ℤ)
    {fee fee' : FeeFields} {err err' : Thrown} (herr : Caught err err') :
    Lockstep script.typeScript script.python
      (InStep o.bumpFactor (Sent s.feeMode attempt fee fee'))
      (TypeScript.onError s attempt nonce fee err) (Python.onError o attempt nonce fee' err')
      (Onward s.feeMode o.bumpFactor (attempt < s.maxAttempts)) := by
  unfold TypeScript.onError Python.onError
  cases herr with
  | txFailed m m' receipt => exact fun _ _ h => .error ⟨rfl, h.mono fun _ _ _ => trivial⟩
  | foreign err =>
    rw [isNonceTooLow_eq]
    by_cases htx : (Thrown.foreign err).isTxFailedError = true
    · rw [if_pos htx, if_pos htx]
      exact fun _ _ h => .error ⟨rfl, h.mono fun _ _ _ => trivial⟩
    rw [if_neg htx, if_neg htx]
    by_cases hnonce : Python.isNonceTooLow (.foreign err) = true
    · rw [if_pos hnonce, if_pos hnonce]
      refine lockstep_then (rejects (lockstep_log rfl _)) (fun _ => ?_) Onward.error
      refine lockstep_then (rejects (lockstep_fetchState Fetched.intro)) (fun refreshed => ?_)
        Onward.error
      refine lockstep_initialFee hopts refreshed.fee (fun fee hshaped => ?_) Onward.error
      rw [← hopts.maxAttempts]
      by_cases hlt : attempt < s.maxAttempts
      · rw [if_pos hlt, if_pos hlt]
        refine lockstep_then (rejects (lockstep_sleep _ _)) (fun _ => ?_) Onward.error
        exact fun _ _ h => .alike (.ok ⟨rfl, h.mono fun _ _ hf _ => hf.feeds hshaped⟩)
      · rw [if_neg hlt, if_neg hlt]
        exact lockstep_failAttempt hopts attempt _ _ fun hlt' => absurd hlt' hlt
    · rw [if_neg hnonce, if_neg hnonce]
      exact lockstep_failAttempt hopts attempt nonce _ fun _ _ _ h => h

/-- How the calls end: alike; or TypeScript with what the logger or `sleep` throws, where Python has
raised for want of a delay; or after submissions that differ. -/
inductive Ends (factor : ℚ) (c : CallEnd TypeScript.CircuitBreaker)
    (c' : CallEnd Python.CircuitBreaker) : Prop
  | alike (h : Outcomes (Returns factor fun _ _ => True) (Rejects factor) c c')
  | late (hstep : LateStep factor c.2 c'.2) (hc : ∃ err, c.1 = .error (.foreign err))
    (hc' : ∃ e, c'.1 = .error e ∧ e.code = none)
  | apart (hcontexts : contexts c.2.marks ≠ contexts c'.2.marks)
    (hnot : ¬ AllAlike factor c.2.marks)

theorem Ends.error {e e' : Thrown} {h : Host TypeScript.CircuitBreaker}
    {h' : Host Python.CircuitBreaker} (hr : Rejects factor e e' h h') :
    Ends factor (.error e, h) (.error e', h') :=
  .alike (.error hr)

/-- More than `n` submissions, and not all bumps before were alike. -/
def Beyond (factor : ℚ) (n : ℕ) (h : Host TypeScript.CircuitBreaker) : Prop :=
  n < (contexts h.marks).length ∧ ¬ AllAlike factor h.marks

theorem beyond_keeps {n : ℕ} (e : TypeScript.Request) (h : Host TypeScript.CircuitBreaker)
    (hbeyond : Beyond factor n h) : Beyond factor n (script.typeScript e h).2 := by
  cases e with
  | fetchState => exact hbeyond
  | signSend ctx => exact ⟨Nat.lt_succ_of_lt hbeyond.1, fun hall => hbeyond.2 hall.1⟩
  | _ => exact hbeyond

/-- TypeScript goes on where Python has raised, and submits. -/
theorem LateStep.beyond {h : Host TypeScript.CircuitBreaker} {h' : Host Python.CircuitBreaker}
    (hlate : LateStep factor h h') (script : Script) (s : TypeScript.Settings) (left : ℕ)
    (attempt nonce : ℤ) (fee : FeeFields) (err : Thrown) :
    Beyond factor (contexts h'.marks).length
      ((TypeScript.attempts s (left + 1) attempt nonce fee err).run.handle
        script.typeScript h).2 := by
  obtain ⟨k, hk⟩ : ∃ k, (TypeScript.attempts s (left + 1) attempt nonce fee err).run =
      .ask (.signSend ⟨nonce, fee, attempt⟩) k := ⟨_, rfl⟩
  obtain ⟨c, rest, hmarks, hc⟩ := hlate.sent
  rw [hk, handle_ask]
  refine handle_keeps _ beyond_keeps _ ⟨?_, fun hall => ?_⟩
  · rw [← hlate.marks.1]
    exact Nat.lt_succ_self _
  · exact absurd (hall.2 c rest hmarks).2 (not_le.2 hc)

/-- **The loop.** -/
theorem lockstep_attempts (hopts : SameOptions s o) (htime : InTime script o)
    (hfactor : 1 < o.bumpFactor) {left : ℕ} {attempt : ℤ}
    (hleft : attempt + left = s.maxAttempts + 1) (nonce : ℤ) {fee fee' : FeeFields}
    (err err' : Thrown) :
    Lockstep script.typeScript script.python
      (InStep o.bumpFactor fun m m' => 0 < left → Feeds s.feeMode o.bumpFactor m m' fee fee')
      (TypeScript.attempts s left attempt nonce fee err)
      (Python.attempts o left attempt nonce fee' err') (Ends o.bumpFactor) := by
  induction left generalizing attempt nonce fee fee' err err' with
  | zero => exact fun _ _ h => .error ⟨rfl, h.mono fun _ _ _ => trivial⟩
  | succ left ih =>
    have htry : Lockstep script.typeScript script.python
        (InStep o.bumpFactor (Feeds s.feeMode o.bumpFactor · · fee fee'))
        (observe (TypeScript.submitAndConfirm s attempt nonce fee))
        (observe (Python.submitAndConfirm o attempt nonce fee'))
        (Outcomes _ (Rejects o.bumpFactor)) :=
      lockstep_observe (lockstep_submitAndConfirm hopts htime hfactor attempt nonce)
    intro h h' hin
    have hfeeds := hin.mono fun _ _ hf => hf left.succ_pos
    refine lockstep_bind htry (fun r r' => ?_) Ends.error h h' hfeeds
    intro h h' hr
    cases hr with
    | ok hv => exact .alike (.ok ⟨hv.1, hv.2.mono fun _ _ _ => trivial⟩)
    | @error e e' _ _ hw =>
      have hnext := lockstep_onError script hopts attempt nonce hw.1 h h' hw.2
      show Ends _
        ((TypeScript.onError s attempt nonce fee e >>= fun next =>
          TypeScript.attempts s left (attempt + 1) next.1 next.2 e).run.handle _ _)
        ((Python.onError o attempt nonce fee' e' >>= fun next =>
          Python.attempts o left (attempt + 1) next.1 next.2 e').run.handle _ _)
      rw [handle_except_bind, handle_except_bind]
      generalize (TypeScript.onError s attempt nonce fee e).run.handle script.typeScript h = r
        at hnext ⊢
      generalize (Python.onError o attempt nonce fee' e').run.handle script.python h' = r'
        at hnext ⊢
      cases hnext with
      | alike halike =>
        cases halike with
        | error hr => exact .error hr
        | @ok next next' t t' hgoes =>
          dsimp only
          rw [hgoes.1]
          refine ih (by push_cast at hleft; omega) next'.1 e e' t t'
            (hgoes.2.mono fun _ _ hf hpos => ?_)
          exact hf (by push_cast at hleft; omega)
      | late hmore hlate hr hr' =>
        obtain ⟨err', herr', hcode⟩ := hr'
        obtain ⟨_, t'⟩ := r'
        obtain rfl := herr'
        obtain ⟨res, t⟩ := r
        obtain ⟨next, rfl⟩ | ⟨err, rfl⟩ := hr
        · obtain ⟨left, rfl⟩ := Nat.exists_eq_succ_of_ne_zero
            (show left ≠ 0 by push_cast at hleft; omega)
          have hbeyond :=
            hlate.beyond script s left (attempt + 1) next.1 next.2 e
          exact .apart (fun heq => hbeyond.1.ne (congrArg _ heq.symm)) hbeyond.2
        · exact .late hlate ⟨err, rfl⟩ ⟨err', rfl, hcode⟩

end Lockstep

/-! ## Calls -/

/-- The same options for both clients. -/
structure SameOpts (opts : TypeScript.SendWithRetryOpts) (o : Python.SendOpts) : Prop where
  settings : SameOptions opts.settings o
  idempotencyKey : opts.idempotencyKey = o.idempotencyKey
  alreadySent : opts.alreadySent = o.alreadySent

def callTypeScript (script : Script) (opts : TypeScript.SendWithRetryOpts)
    (breaker : TypeScript.CircuitBreaker) : CallEnd TypeScript.CircuitBreaker :=
  (TypeScript.sendWithRetry opts).run.handle script.typeScript { breaker }

def callPython (script : Script) (o : Python.SendOpts) (breaker : Python.CircuitBreaker) :
    CallEnd Python.CircuitBreaker :=
  (Python.sendWithRetry (some o)).run.handle script.python { breaker }

/-- The same receipt, or errors with the same code. -/
def SameResult : Except Thrown NormalizedReceipt → Except Thrown NormalizedReceipt → Prop
  | .ok receipt, .ok receipt' => receipt = receipt'
  | .error e, .error e' => e.code = e'.code
  | _, _ => False

/-- The calls agree: in the contexts of their submissions, in what their breakers count and when
these are open, and in their results. -/
structure Agree (c : CallEnd TypeScript.CircuitBreaker) (c' : CallEnd Python.CircuitBreaker) :
    Prop where
  contexts : contexts c.2.marks = contexts c'.2.marks
  failures : c.2.breaker.consecutiveFailures = c'.2.breaker.consecutiveFailures
  isOpen : ∀ now, c.2.breaker.isOpen (1000 * now) = c'.2.breaker.isOpen now
  result : SameResult c.1 c'.1

section Calls

variable {script : Script} {factor : ℚ} {P : List Mark → List Mark → Prop}
  {opts : TypeScript.SendWithRetryOpts} {o : Python.SendOpts}

theorem lockstep_guardIdempotency (hopts : SameOpts opts o) :
    Lockstep script.typeScript script.python (InStep factor P) (TypeScript.guardIdempotency opts)
      (Python.guardIdempotency o) (Outcomes (Returns factor P) (Rejects factor)) := by
  unfold TypeScript.guardIdempotency Python.guardIdempotency
  rw [hopts.idempotencyKey, hopts.alreadySent]
  cases o.idempotencyKey with
  | none => exact fun _ _ h => .ok ⟨rfl, h⟩
  | some key =>
    cases o.alreadySent with
    | false => exact fun _ _ h => .ok ⟨rfl, h⟩
    | true =>
      have hcalled : Lockstep script.typeScript script.python (InStep factor P)
          (perform (.alreadySent key) Called.result) (perform (.alreadySent key) Called.result)
          (Outcomes (Returns factor P) (Throws factor P)) :=
        lockstep_called (fun s => (script.alreadySent, s)) (fun s => (script.alreadySent, s))
          (fun _ => rfl) (fun _ => rfl) fun _ _ h => ⟨rfl, h⟩
      refine lockstep_then (rejects hcalled) (fun sent => ?_) .error
      cases sent with
      | false => exact fun _ _ h => .ok ⟨rfl, h⟩
      | true => exact fun _ _ h => .error ⟨rfl, h.mono fun _ _ _ => trivial⟩

theorem lockstep_guardBreaker (hopts : SameOpts opts o) :
    Lockstep script.typeScript script.python (InStep factor P)
      (TypeScript.guardBreaker opts.settings) (Python.guardBreaker o)
      (Outcomes (Returns factor P) (Rejects factor)) := by
  unfold TypeScript.guardBreaker Python.guardBreaker
  rw [hopts.settings.breaker]
  cases o.breaker with
  | false => exact fun _ _ h => .ok ⟨rfl, h⟩
  | true =>
    refine lockstep_perform fun s s' h => ?_
    have hstep : (script.typeScript .assertClosed s).1 = (script.python .assertClosed s').1 ∧
        InStep factor P (script.typeScript .assertClosed s).2 (script.python .assertClosed s').2 :=
      h.onBreaker fun now hb => ⟨hb.assertClosed now, hb⟩
    obtain ⟨hanswer, hnext⟩ := hstep
    rw [hanswer]
    rcases (script.python .assertClosed s').1 with m | -
    · exact .error ⟨rfl, hnext.mono fun _ _ _ => trivial⟩
    · exact .ok ⟨rfl, hnext⟩

theorem lockstep_sendWithRetry (hopts : SameOpts opts o) (htime : InTime script o) :
    Lockstep script.typeScript script.python (InStep o.bumpFactor P)
      (TypeScript.sendWithRetry opts) (Python.sendWithRetry (some o)) (Ends o.bumpFactor) := by
  have hsame := hopts.settings
  unfold TypeScript.sendWithRetry Python.sendWithRetry
  extract_lets s o'
  have ho' : o' = o := rfl
  rw [ho', show s.bumpFactor = o.bumpFactor from hsame.bumpFactor,
    show s.maxAttempts = o.maxAttempts from hsame.maxAttempts]
  by_cases hfactor : o.bumpFactor ≤ 1
  · rw [if_pos hfactor, if_pos hfactor]
    exact fun _ _ h => .error ⟨rfl, h.mono fun _ _ _ => trivial⟩
  rw [if_neg hfactor, if_neg hfactor]
  by_cases hmax : o.maxAttempts < 1
  · rw [if_pos hmax, if_pos hmax]
    exact fun _ _ h => .error ⟨rfl, h.mono fun _ _ _ => trivial⟩
  rw [if_neg hmax, if_neg hmax]
  refine lockstep_then (lockstep_guardIdempotency hopts) (fun _ => ?_) Ends.error
  refine lockstep_then (lockstep_guardBreaker hopts) (fun _ => ?_) Ends.error
  refine lockstep_then (rejects (lockstep_fetchState Fetched.intro)) (fun state => ?_) Ends.error
  refine lockstep_initialFee hsame state.fee (fun fee hshaped => ?_) Ends.error
  have hleft : (1 : ℤ) + o.maxAttempts.toNat = s.maxAttempts + 1 := by
    rw [show s.maxAttempts = o.maxAttempts from hsame.maxAttempts]
    omega
  exact (lockstep_attempts hsame htime (not_le.1 hfactor) hleft state.nonce _ _).mono
    (fun _ _ h => h.mono fun _ _ hf _ => hf.feeds hshaped) fun _ _ h => h

end Calls

/-- The call ends with a `TxFailedError`, and its logger has announced a delay that Python cannot
compute. -/
def EndsLate (c : CallEnd TypeScript.CircuitBreaker) : Prop :=
  c.2.late = true ∧ ∃ e, c.1 = .error e ∧ e.isTxFailedError = true

/-- Calls that have the same marks, or none that are alike, agree when their results do. -/
theorem agree_iff_of_sameMarks {factor : ℚ} {c : CallEnd TypeScript.CircuitBreaker}
    {c' : CallEnd Python.CircuitBreaker} (hbreaker : SameBreaker c.2.breaker c'.2.breaker)
    (hmarks : SameMarks factor c.2.marks c'.2.marks) :
    Agree c c' ↔ AllAlike factor c.2.marks ∧ SameResult c.1 c'.1 := by
  rcases hmarks.2 with ⟨heq, halike⟩ | ⟨hne, hnot⟩
  · refine ⟨fun h => ⟨halike, h.result⟩, fun h => ?_⟩
    exact ⟨congrArg _ heq, hbreaker.failures, hbreaker.isOpen, h.2⟩
  · exact iff_of_false (fun h => hne h.contexts) fun h => hnot h.1

theorem Ends.agree_iff_allAlike {factor : ℚ} {c : CallEnd TypeScript.CircuitBreaker}
    {c' : CallEnd Python.CircuitBreaker} (h : Ends factor c c') :
    Agree c c' ↔ AllAlike factor c.2.marks ∧ ¬ EndsLate c := by
  cases h with
  | alike h =>
    obtain ⟨hresult, hin⟩ : SameResult c.1 c'.1 ∧ InStep factor (fun _ _ => True) c.2 c'.2 := by
      cases h with
      | ok h => exact h
      | error h => exact h
    rw [agree_iff_of_sameMarks hin.breaker hin.marks]
    refine and_congr_right fun _ => iff_of_true hresult fun hlate => ?_
    exact Bool.false_ne_true (hin.late.symm.trans hlate.1)
  | late hstep hc hc' =>
    obtain ⟨err, hc⟩ := hc
    obtain ⟨e, hc', hcode⟩ := hc'
    rw [agree_iff_of_sameMarks hstep.breaker hstep.marks, hc, hc']
    refine and_congr_right fun _ => ?_
    show (Thrown.foreign err).code = e.code ↔ _
    rw [hcode]
    cases htx : err.isTxFailedError with
    | true =>
      refine iff_of_false (by simp [Thrown.code, htx]) fun hnot => hnot ⟨hstep.late, _, hc, htx⟩
    | false =>
      refine iff_of_true (by simp [Thrown.code, htx]) ?_
      rintro ⟨-, e, he, htrue⟩
      obtain rfl := Except.error.inj (hc.symm.trans he)
      exact Bool.false_ne_true (htx.symm.trans htrue)
  | apart hcontexts hnot => exact iff_of_false (fun h => hcontexts h.contexts) fun h => hnot h.1

/-- **When the clients agree.** On the same options, breakers and outcomes, with no attempt over its
timeout, the calls agree exactly when in the TypeScript call every submission that is followed by
another one, without a new state in between, is one of the first 1024 and has fees that both clients
bump to the same number, and no `TxFailedError` of the logger or `sleep` ends it in a later backoff.
-/
theorem parity_iff {opts : TypeScript.SendWithRetryOpts} {o : Python.SendOpts}
    (hopts : SameOpts opts o) {b : TypeScript.CircuitBreaker} {b' : Python.CircuitBreaker}
    (hbreaker : SameBreaker b b') (script : Script)
    (htime : ∀ k, script.elapsed k ≤ o.timeout.value) :
    Agree (callTypeScript script opts b) (callPython script o b') ↔
      AllAlike o.bumpFactor (callTypeScript script opts b).2.marks ∧
        ¬ EndsLate (callTypeScript script opts b) := by
  have hstart : InStep o.bumpFactor (fun _ _ => True) (⟨b, {}, [], 0, false⟩ : Host _)
      (⟨b', {}, [], 0, false⟩ : Host _) :=
    ⟨hbreaker, rfl, rfl, ⟨rfl, .inl ⟨rfl, trivial⟩⟩, trivial⟩
  have hend := lockstep_sendWithRetry hopts htime _ _ hstart
  rw [callTypeScript, callPython]
  generalize (TypeScript.sendWithRetry opts).run.handle script.typeScript _ = c at hend ⊢
  generalize (Python.sendWithRetry (some o)).run.handle script.python _ = c' at hend ⊢
  exact hend.agree_iff_allAlike

/-- Every submission is dropped. -/
def dropping : Script where
  alreadySent := .ok false
  fetchState _ := .ok ⟨7, { gasPrice := some 1000 }⟩
  signSend _ := .error ⟨"dropped", false⟩
  wait _ := .error ⟨"dropped", false⟩
  log _ := .ok ()
  sleep _ := .ok ()
  clock _ := 0
  elapsed _ := 0

/-- A breaker that nothing has opened. -/
def closedTypeScript : TypeScript.CircuitBreaker :=
  ⟨3, 1000, 0, none, by decide, by decide⟩

def closedPython : Python.CircuitBreaker := ⟨3, 1, 0, none, by decide, by decide⟩

theorem sameBreaker_closed : SameBreaker closedTypeScript closedPython :=
  ⟨by decide, by decide +kernel, rfl, rfl⟩

theorem inTime_dropping (k : ℕ) : dropping.elapsed k ≤ 120 := Nat.cast_nonneg 120

theorem sameOpts_of_factor (factor : ℚ) :
    SameOpts { maxAttempts := some 2, bumpFactor := some factor, breaker := true }
      { maxAttempts := 2, bumpFactor := factor, breaker := true } :=
  ⟨⟨rfl, rfl, rfl, rfl⟩, rfl, rfl⟩

/-- Two attempts, the second with a fee that is bumped by an eighth. -/
theorem parity_iff_eighth :
    Agree (callTypeScript dropping
        { maxAttempts := some 2, bumpFactor := some (9 / 8), breaker := true } closedTypeScript)
      (callPython dropping { maxAttempts := 2, bumpFactor := 9 / 8, breaker := true }
        closedPython) := by
  refine (parity_iff (sameOpts_of_factor (9 / 8)) sameBreaker_closed dropping
    inTime_dropping).2 ⟨?_, fun hlate => ?_⟩
  swap
  · have hnot : (callTypeScript dropping
        { maxAttempts := some 2, bumpFactor := some (9 / 8), breaker := true }
          closedTypeScript).2.late = false := by
      decide +kernel
    exact Bool.false_ne_true (hnot.symm.trans hlate.1)
  have hmarks : (callTypeScript dropping
      { maxAttempts := some 2, bumpFactor := some (9 / 8), breaker := true }
        closedTypeScript).2.marks =
      [.submitted ⟨7, { gasPrice := some 1126 }, 2⟩, .submitted ⟨7, { gasPrice := some 1000 }, 1⟩,
        .fetched] := by
    decide +kernel
  rw [hmarks]
  refine ⟨⟨trivial, nofun⟩, ?_⟩
  rintro _ _ ⟨⟩
  refine ⟨?_, by decide⟩
  rintro v (h | h | h)
  · cases h
    decide +kernel
  · cases h
  · cases h

/-- With a factor of 1.0625, `Math.round` takes 1062.5 to 1063 and `round` to 1062. -/
theorem exists_not_parity : ¬ ∀ (opts : TypeScript.SendWithRetryOpts) (o : Python.SendOpts)
    (b : TypeScript.CircuitBreaker) (b' : Python.CircuitBreaker) (script : Script),
    SameOpts opts o → SameBreaker b b' → 1 < o.bumpFactor → 1 ≤ o.maxAttempts →
      (∀ k, script.elapsed k ≤ o.timeout.value) →
      Agree (callTypeScript script opts b) (callPython script o b') := by
  intro hall
  have hagree := hall _ _ _ _ dropping (sameOpts_of_factor (17 / 16)) sameBreaker_closed
    (by decide +kernel) (by decide) inTime_dropping
  have hne : contexts (callTypeScript dropping
        { maxAttempts := some 2, bumpFactor := some (17 / 16), breaker := true }
          closedTypeScript).2.marks ≠
      contexts (callPython dropping
        { maxAttempts := 2, bumpFactor := 17 / 16, breaker := true } closedPython).2.marks := by
    decide +kernel
  exact hne hagree.contexts

end Resilience.Onchain
