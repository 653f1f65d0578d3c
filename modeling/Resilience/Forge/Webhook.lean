import Resilience.Foundations.Interaction
import Resilience.TypeScript.Strings

/-!
# The webhook handler of a Forge app

`forge-core/src/webhook.js`. What the handler calls is asked for: the body of the request, the
secret, the expected signature, the verdict on the body and the store (`Call`). The callbacks may
throw and may return anything; of a value that is not a string we keep whether it is taken for true
and what `String` makes of it.

The handler compares the texts of both signatures, so that what is not a string may be taken for
one, and it skips a `validate` that is no function. It is fail-closed (`FailClosed`) exactly when
neither makes a difference (`failClosed_iff`).
-/

namespace Resilience.Forge

open Json TypeScript

/-- A JavaScript value. For one that is not a string: is it true, and what does `String` make of it;
`none` when that throws. -/
inductive Value
  | string (s : Units)
  | other (truthy : Bool) (text : Option Units)
  deriving DecidableEq

inductive Thrown
  | typeError (message : String)
  /-- What a callback threw. -/
  | callback
  deriving DecidableEq, Repr

namespace Value

def isTruthy : Value → Bool
  | .string s => !s.isEmpty
  | .other truthy _ => truthy

/-- `String(v)`. -/
def toText : Value → Except Thrown Units
  | .string s => .ok s
  | .other _ (some text) => .ok text
  | .other _ none => .error .callback

def undefined : Value := .other false (some (utf16 "undefined"))

end Value

/-! ## Comparing signatures -/

/-- `s.charCodeAt(i % s.length || 0)`, as an operand of `^`; of the empty string it is `NaN`. -/
def charCodeAt (s : Units) (i : ℕ) : BitVec 32 :=
  match s[i % s.length]? with
  | some c => BitVec.ofNat 32 c.val
  | none => 0#32

/-- `mismatch` after the loop. -/
def mismatch (a b : Units) : BitVec 32 :=
  (List.range (max a.length b.length)).foldl
    (fun mismatch i => mismatch ||| (charCodeAt a i ^^^ charCodeAt b i))
    (BitVec.ofNat 32 a.length ^^^ BitVec.ofNat 32 b.length)

def timingSafeEqual : Value → Value → Bool
  | .string a, .string b => mismatch a b == 0#32
  | _, _ => false

theorem foldl_or_eq_zero (f : ℕ → BitVec 32) (l : List ℕ) (m : BitVec 32) :
    l.foldl (fun m i => m ||| f i) m = 0#32 ↔ m = 0#32 ∧ ∀ i ∈ l, f i = 0#32 := by
  induction l generalizing m with
  | nil => simp
  | cons i l ih =>
    rw [List.foldl_cons, ih, List.forall_mem_cons, BitVec.or_eq_zero_iff, and_assoc]

theorem mismatch_eq_zero_iff {a b : Units} : mismatch a b = 0#32 ↔
    BitVec.ofNat 32 a.length = BitVec.ofNat 32 b.length ∧
      ∀ i < max a.length b.length, charCodeAt a i = charCodeAt b i := by
  rw [mismatch, foldl_or_eq_zero]
  simp only [List.mem_range]
  exact and_congr BitVec.xor_eq_zero_iff (forall₂_congr fun i _ => BitVec.xor_eq_zero_iff)

@[simp] theorem timingSafeEqual_string {a b : Units} :
    timingSafeEqual (.string a) (.string b) = true ↔ mismatch a b = 0#32 := by
  simp [timingSafeEqual]

theorem mismatch_self (s : Units) : mismatch s s = 0#32 :=
  mismatch_eq_zero_iff.2 ⟨rfl, fun _ _ => rfl⟩

/-- Among strings of the same length the comparison accepts equal ones only. -/
theorem eq_of_mismatch {a b : Units} (hlength : a.length = b.length) (h : mismatch a b = 0#32) :
    a = b := by
  obtain ⟨-, hcodes⟩ := mismatch_eq_zero_iff.1 h
  apply List.ext_getElem hlength
  intro i ha hb
  have hcode := hcodes i (by omega)
  rw [charCodeAt, charCodeAt, Nat.mod_eq_of_lt ha, Nat.mod_eq_of_lt hb,
    List.getElem?_eq_getElem ha, List.getElem?_eq_getElem hb] at hcode
  have hval := congrArg BitVec.toNat hcode
  simp only [BitVec.toNat_ofNat] at hval
  apply Fin.ext
  omega

/-- Strings of at least 2 ^ 32 units apart, the comparison accepts equal ones only. -/
theorem timingSafeEqual_iff {a b : Units} (ha : a.length < 2 ^ 32) (hb : b.length < 2 ^ 32) :
    timingSafeEqual (.string a) (.string b) = true ↔ a = b := by
  rw [timingSafeEqual_string]
  constructor
  · intro h
    have hlength := congrArg BitVec.toNat (mismatch_eq_zero_iff.1 h).1
    rw [BitVec.toNat_ofNat, BitVec.toNat_ofNat, Nat.mod_eq_of_lt ha, Nat.mod_eq_of_lt hb] at hlength
    exact eq_of_mismatch hlength h
  · rintro rfl
    exact mismatch_self a

/-! ## The handler -/

inductive Resolved
  | ok (secret : Units)
  | denied (status : ℕ) (reason : String)
  deriving DecidableEq

def resolveWebhookSecret : Value → Resolved
  | .string secret =>
    if trimmed secret = [] then .denied 503 "Server misconfigured: WEBHOOK_SECRET is not set"
    else .ok (trimmed secret)
  | .other _ _ => .denied 503 "Server misconfigured: WEBHOOK_SECRET is not set"

/-- `request.headers`: an object with a `get` method, any other object, or `null` or `undefined`. -/
inductive Headers
  | absent
  | getter (get : Units → Except Unit Value)
  | record (field : Units → Value)

structure WebhookRequest where
  method : Value
  headers : Headers

/-- What `validate` returns. -/
structure Verdict where
  ok : Bool
  status : Option ℕ := none
  reason : Option Units := none
  deriving DecidableEq

/-- An optional callback: `undefined` or `null`, a function, or anything else. -/
inductive Callback
  | absent
  | function
  | other
  deriving DecidableEq

/-- The `cfg` of `createWebhookHandler`: which of the callbacks are functions. -/
structure WebhookConfig where
  computeExpected : Bool := true
  store : Bool := true
  validate : Callback := .absent
  signatureHeader : Units := utf16 "x-webhook-signature"
  successMessage : Units := utf16 "Webhook processed"

/-- What the handler calls. -/
inductive Call (B : Type)
  /-- `request.json()`. -/
  | json
  | getSecret
  | computeExpected (secret : Units) (rawBody : Option Units) (body : B)
  | validate (body : B)
  | store (body : B)

/-- What a call returns, or that it throws; `store` may return a message. -/
abbrev Answer (B : Type) : Call B → Type
  | .json => Except Unit B
  | .getSecret => Except Unit Value
  | .computeExpected _ _ _ => Except Unit Value
  | .validate _ => Except Unit Verdict
  | .store _ => Except Unit (Option Units)

inductive WebhookResponse
  | fail (status : ℕ) (error : Units)
  | success (message : Units)
  deriving DecidableEq

section Handler

variable {B : Type}

abbrev Driver (B α : Type) := ExceptT Thrown (Prog (Call B) (Answer B)) α

abbrev Trace (B : Type) := List (Prog.Event (Call B) (Answer B))

/-- What a callback throws goes through. -/
def rethrow {α : Type} : Except Unit α → Except Thrown α := Except.mapError fun _ => .callback

inductive Auth
  | ok
  | denied (status : ℕ) (reason : String)
  deriving DecidableEq

/-- `computeExpected` is `none` when it is not a function. -/
def verifyWebhook (secret signature : Value) (computeExpected : Option (Units → Driver B Value)) :
    Driver B Auth :=
  match resolveWebhookSecret secret with
  | .denied status reason => return .denied status reason
  | .ok secret =>
    if !signature.isTruthy then return .denied 401 "Missing X-Webhook-Signature header"
    else match computeExpected with
      | none => throw (.typeError "verifyWebhook: computeExpected must be a function")
      | some computeExpected => do
        let expected ← computeExpected secret
        let signature ← fromExcept signature.toText
        let expected ← fromExcept expected.toText
        if !timingSafeEqual (.string signature) (.string expected) then
          return .denied 401 "Invalid webhook signature"
        else return .ok

/-- The signature that a request carries. -/
def WebhookRequest.signature (request : WebhookRequest) (header : Units) : Except Thrown Value :=
  match request.headers with
  | .absent => .ok .undefined
  | .getter get => rethrow (get header)
  | .record field => .ok (field header)

variable (stringify : B → Except Unit (Option Units)) (cfg : WebhookConfig)

/-- The handler, once the request is authenticated. -/
def process (body : B) : Driver B WebhookResponse := do
  let rejected ← if cfg.validate = .function then do
      let v ← perform (.validate body) rethrow
      pure (if v.ok then none else
        some (v.status.getD 400, v.reason.getD (utf16 "Invalid payload")))
    else pure none
  match rejected with
  | some (status, reason) => return .fail status reason
  | none =>
    let message ← perform (.store body) rethrow
    return .success (message.getD cfg.successMessage)

/-- The handler that `createWebhookHandler` returns; `stringify` is `JSON.stringify`. -/
def webhookHandler (request : WebhookRequest) : Driver B WebhookResponse :=
  if request.method ≠ .string (utf16 "POST") then return .fail 405 (utf16 "Method not allowed")
  else do
    let parsed ← perform .json fun r => .ok (r >>= fun body => (stringify body).map (body, ·))
    match parsed with
    | .error _ => return .fail 400 (utf16 "Invalid JSON body")
    | .ok (body, rawBody) =>
      let secret ← perform .getSecret rethrow
      let signature ← fromExcept (request.signature cfg.signatureHeader)
      let auth ← verifyWebhook secret signature
        (some fun secret => perform (.computeExpected secret rawBody body) rethrow)
      match auth with
      | .denied status reason => return .fail status (utf16 reason)
      | .ok => process cfg body

def createWebhookHandler : Except Thrown (WebhookRequest → Driver B WebhookResponse) :=
  if !cfg.computeExpected then
    .error (.typeError "createWebhookHandler: computeExpected must be a function")
  else if !cfg.store then .error (.typeError "createWebhookHandler: store must be a function")
  else .ok (webhookHandler stringify cfg)

/-! ## Runs -/

/-- The signature and what was computed have texts that pass the comparison. -/
def Matches (signature : Except Thrown Value) (computed : Except Unit Value) : Prop :=
  ∃ sig expected text, (signature >>= Value.toText) = .ok sig ∧ computed = .ok expected ∧
    expected.toText = .ok text ∧ mismatch sig text = 0#32

theorem resolveWebhookSecret_eq_ok {secret : Value} {s : Units}
    (h : resolveWebhookSecret secret = .ok s) :
    ∃ raw, secret = .string raw ∧ trimmed raw = s ∧ s ≠ [] := by
  cases secret with
  | other truthy text => simp [resolveWebhookSecret] at h
  | string raw =>
    rw [resolveWebhookSecret] at h
    split_ifs at h with hblank
    cases h
    exact ⟨raw, rfl, rfl, hblank⟩

/-- The comparison at the end of `verifyWebhook`. -/
theorem runs_compare {signature expected : Value} {t : Trace B} {r : Except Thrown Auth}
    (h : (do
      let signature ← fromExcept signature.toText
      let expected ← fromExcept expected.toText
      if !timingSafeEqual (.string signature) (.string expected) then
        return .denied 401 "Invalid webhook signature"
      else return .ok : Driver B Auth).run.Runs t r) :
    t = [] ∧ (r = .ok .ok ↔ Matches (.ok signature) (.ok expected)) := by
  replace h := runs_fromExcept_bind.1 h
  cases hsig : signature.toText with
  | error e =>
    rw [hsig] at h
    obtain ⟨rfl, rfl⟩ := h
    exact ⟨rfl, by simp [Matches, Bind.bind, Except.bind, hsig]⟩
  | ok sig =>
    rw [hsig] at h
    replace h := runs_fromExcept_bind.1 h
    cases htext : expected.toText with
    | error e =>
      rw [htext] at h
      obtain ⟨rfl, rfl⟩ := h
      exact ⟨rfl, by simp [Matches, htext]⟩
    | ok text =>
      rw [htext] at h
      dsimp only at h
      have hmatches : Matches (.ok signature) (.ok expected) ↔ mismatch sig text = 0#32 := by
        simp [Matches, Bind.bind, Except.bind, hsig, htext]
      rw [hmatches, ← timingSafeEqual_string]
      cases hequal : timingSafeEqual (.string sig) (.string text) <;> rw [hequal] at h <;>
        obtain ⟨rfl, rfl⟩ := h <;> simp

theorem runs_verifyWebhook {secret signature : Value} {rawBody : Option Units} {body : B}
    {t : Trace B} {r : Except Thrown Auth}
    (h : (verifyWebhook secret signature
      (some fun secret => perform (.computeExpected secret rawBody body) rethrow)).run.Runs t r) :
    (t = [] ∧ r ≠ .ok .ok) ∨ ∃ raw computed, secret = .string raw ∧ trimmed raw ≠ [] ∧
      t = [⟨.computeExpected (trimmed raw) rawBody body, computed⟩] ∧
      (r = .ok .ok ↔ Matches (.ok signature) computed) := by
  unfold verifyWebhook at h
  split at h
  · obtain ⟨rfl, rfl⟩ := h
    exact .inl ⟨rfl, by simp⟩
  · rename_i s hsecret
    obtain ⟨raw, rfl, rfl, hblank⟩ := resolveWebhookSecret_eq_ok hsecret
    split_ifs at h with htruthy
    · obtain ⟨rfl, rfl⟩ := h
      exact .inl ⟨rfl, by simp⟩
    · obtain ⟨computed, t', rfl, h₁⟩ := runs_perform_bind.1 h
      cases computed with
      | error e =>
        obtain ⟨rfl, rfl⟩ := h₁
        exact .inr ⟨raw, _, rfl, hblank, rfl, by simp [Matches]⟩
      | ok expected =>
        obtain ⟨rfl, hmatches⟩ := runs_compare h₁
        exact .inr ⟨raw, .ok expected, rfl, hblank, rfl, hmatches⟩

/-- `validate` accepts. -/
def Accepts (r : Except Unit Verdict) : Prop := ∃ v, r = .ok v ∧ v.ok = true

variable {cfg} in
theorem runs_process {body : B} {t : Trace B} {r : Except Thrown WebhookResponse}
    (h : (process cfg body).run.Runs t r) :
    (∃ verdict, cfg.validate = .function ∧ t = [⟨.validate body, verdict⟩] ∧ ¬ Accepts verdict) ∨
      (∃ verdict stored, cfg.validate = .function ∧
        t = [⟨.validate body, verdict⟩, ⟨.store body, stored⟩] ∧ Accepts verdict) ∨
      ∃ stored, cfg.validate ≠ .function ∧ t = [⟨.store body, stored⟩] := by
  unfold process at h
  by_cases hvalidate : cfg.validate = .function
  · rw [if_pos hvalidate] at h
    obtain ⟨verdict, t', rfl, h₁⟩ := runs_perform_bind.1 h
    cases verdict with
    | error e =>
      obtain ⟨rfl, -⟩ := h₁
      exact .inl ⟨_, hvalidate, rfl, by simp [Accepts]⟩
    | ok v =>
      cases hv : v.ok with
      | false =>
        have hreject : ¬ Accepts (.ok v) := by simp [Accepts, hv]
        simp only [rethrow, Except.mapError, hv] at h₁
        obtain ⟨rfl, -⟩ := h₁
        exact .inl ⟨_, hvalidate, rfl, hreject⟩
      | true =>
        simp only [rethrow, Except.mapError, hv] at h₁
        obtain ⟨stored, t'', rfl, h₂⟩ := runs_perform_bind.1 h₁
        refine .inr (.inl ⟨.ok v, stored, hvalidate, ?_, v, rfl, hv⟩)
        cases stored <;> rw [h₂.1]
  · rw [if_neg hvalidate] at h
    obtain ⟨stored, t', rfl, h₁⟩ := runs_perform_bind.1 h
    refine .inr (.inr ⟨stored, hvalidate, ?_⟩)
    cases stored <;> rw [h₁.1]

variable {stringify} in
theorem eq_ok_of_parsed {json : Except Unit B} {body : B} {rawBody : Option Units}
    (h : (json >>= fun body => (stringify body).map (body, ·)) = .ok (body, rawBody)) :
    json = .ok body := by
  cases json with
  | error e => cases h
  | ok body' =>
    change (stringify body').map (body', ·) = .ok (body, rawBody) at h
    cases hraw : stringify body' with
    | error e => simp [hraw, Except.map] at h
    | ok raw =>
      simp only [hraw, Except.map, Except.ok.injEq, Prod.mk.injEq] at h
      rw [h.1]

variable {stringify cfg} in
theorem runs_webhookHandler {request : WebhookRequest} {t : Trace B}
    {r : Except Thrown WebhookResponse}
    (h : (webhookHandler stringify cfg request).run.Runs t r) :
    (∀ ev ∈ t, ev.1 = .json ∨ ev.1 = .getSecret) ∨
      ∃ body raw rawBody computed u, request.method = .string (utf16 "POST") ∧ trimmed raw ≠ [] ∧
        t = ⟨.json, .ok body⟩ :: ⟨.getSecret, .ok (.string raw)⟩ ::
          ⟨.computeExpected (trimmed raw) rawBody body, computed⟩ :: u ∧
        ((¬ Matches (request.signature cfg.signatureHeader) computed ∧ u = []) ∨
          (Matches (request.signature cfg.signatureHeader) computed ∧
            ∃ r, (process cfg body).run.Runs u r)) := by
  unfold webhookHandler at h
  split_ifs at h with hmethod
  · obtain ⟨rfl, rfl⟩ := h
    exact .inl (by simp)
  rw [not_not] at hmethod
  obtain ⟨json, t₁, rfl, h₁⟩ := runs_perform_bind.1 h
  dsimp only at h₁
  split at h₁
  · obtain ⟨rfl, rfl⟩ := h₁
    exact .inl (by simp)
  rename_i body rawBody hparsed
  obtain rfl := eq_ok_of_parsed hparsed
  obtain ⟨secret, t₂, rfl, h₂⟩ := runs_perform_bind.1 h₁
  cases secret with
  | error e =>
    obtain ⟨rfl, rfl⟩ := h₂
    exact .inl (by simp)
  | ok secret =>
    replace h₂ := runs_fromExcept_bind.1 h₂
    cases hsignature : request.signature cfg.signatureHeader with
    | error e =>
      rw [hsignature] at h₂
      obtain ⟨rfl, rfl⟩ := h₂
      exact .inl (by simp)
    | ok signature =>
      rw [hsignature] at h₂
      obtain ⟨u, auth, v, rfl, hverify, hrest⟩ | ⟨e, rfl, hverify⟩ := runs_except_bind.1 h₂
      · rcases runs_verifyWebhook hverify with
          ⟨rfl, hdenied⟩ | ⟨raw, computed, rfl, hblank, rfl, hmatches⟩
        · cases auth with
          | ok => exact absurd rfl hdenied
          | denied status reason =>
            obtain ⟨rfl, -⟩ := hrest
            exact .inl (by simp)
        · refine .inr ⟨body, raw, rawBody, computed, v, hmethod, hblank, rfl, ?_⟩
          cases auth with
          | ok => exact .inr ⟨hmatches.1 rfl, r, hrest⟩
          | denied status reason =>
            exact .inl ⟨fun h => by simpa using hmatches.2 h, hrest.1⟩
      · rcases runs_verifyWebhook hverify with
          ⟨rfl, -⟩ | ⟨raw, computed, rfl, hblank, rfl, hmatches⟩
        · exact .inl (by simp)
        · refine .inr ⟨body, raw, rawBody, computed, [], hmethod, hblank, rfl, .inl ⟨?_, rfl⟩⟩
          exact fun h => by simpa using hmatches.2 h

/-- The bodies that are stored. -/
def stores (t : Trace B) : List B :=
  t.filterMap fun
    | ⟨.store body, _⟩ => some body
    | _ => none

/-- What has to be so before `body` is stored. -/
structure Authorized (cfg : WebhookConfig) (request : WebhookRequest) (t : Trace B) (body : B) :
    Prop where
  method : request.method = .string (utf16 "POST")
  parsed : ⟨.json, .ok body⟩ ∈ t
  authenticated : ∃ secret rawBody sig, ⟨.getSecret, .ok (.string secret)⟩ ∈ t ∧
    trimmed secret ≠ [] ∧ (request.signature cfg.signatureHeader >>= Value.toText) = .ok sig ∧
    sig ≠ [] ∧ ⟨.computeExpected (trimmed secret) rawBody body, .ok (.string sig)⟩ ∈ t
  validated : cfg.validate ≠ .absent → ∃ verdict, ⟨.validate body, verdict⟩ ∈ t ∧ Accepts verdict

/-- At most one body is stored, and only one that is authorized. -/
def FailClosed (cfg : WebhookConfig) (request : WebhookRequest) (t : Trace B) : Prop :=
  (stores t).length ≤ 1 ∧ ∀ body ∈ stores t, Authorized cfg request t body

/-- What `computeExpected` resolved to is a string, not empty and as long as the signature, and
`validate` is a function if it is given. -/
def Plain (cfg : WebhookConfig) (expected : Value) (sig : Units) : Prop :=
  (∃ s, expected = .string s ∧ s ≠ [] ∧ s.length = sig.length) ∧ cfg.validate ≠ .other

/-- Unless `validate` rejects the body: if the texts of the signature and of what `computeExpected`
resolved to pass the comparison, it is plain. -/
def Unambiguous (cfg : WebhookConfig) (request : WebhookRequest) (t : Trace B) : Prop :=
  (∀ body verdict, ⟨.validate body, verdict⟩ ∈ t → Accepts verdict) →
    ∀ secret rawBody body expected,
      ⟨.computeExpected secret rawBody body, .ok expected⟩ ∈ t → ∀ sig text,
        (request.signature cfg.signatureHeader >>= Value.toText) = .ok sig →
        expected.toText = .ok text → mismatch sig text = 0#32 → Plain cfg expected sig

section Authenticated

variable {cfg} {request : WebhookRequest} {body : B} {raw : Units} {rawBody : Option Units}
  {computed : Except Unit Value} {t u : Trace B}

theorem failClosed_of_stores_eq_nil (h : stores t = []) : FailClosed cfg request t := by
  simp [FailClosed, h]

/-- A run that gets as far as to compare the signatures. -/
theorem unambiguous_iff (hcomputed : ∀ secret rawBody body r,
      ⟨.computeExpected secret rawBody body, r⟩ ∉ u)
    (ht : t = ⟨.json, .ok body⟩ :: ⟨.getSecret, .ok (.string raw)⟩ ::
      ⟨.computeExpected (trimmed raw) rawBody body, computed⟩ :: u) :
    Unambiguous cfg request t ↔
      ((∀ body verdict, ⟨.validate body, verdict⟩ ∈ u → Accepts verdict) →
        ∀ expected sig text, computed = .ok expected →
          (request.signature cfg.signatureHeader >>= Value.toText) = .ok sig →
          expected.toText = .ok text → mismatch sig text = 0#32 → Plain cfg expected sig) := by
  subst ht
  have hverdicts : ∀ (body' : B) verdict, (⟨.validate body', verdict⟩ :
      Prog.Event (Call B) (Answer B)) ∈ ⟨.json, .ok body⟩ :: ⟨.getSecret, .ok (.string raw)⟩ ::
        ⟨.computeExpected (trimmed raw) rawBody body, computed⟩ :: u ↔
          ⟨.validate body', verdict⟩ ∈ u := by
    intro body' verdict
    simp
  unfold Unambiguous
  simp only [hverdicts]
  refine imp_congr_right fun _ => ?_
  constructor
  · intro h expected sig text hexpected
    exact h (trimmed raw) rawBody body expected (by simp [hexpected]) sig text
  · intro h secret rawBody' body' expected hmem sig text
    simp only [List.mem_cons, Sigma.mk.injEq, reduceCtorEq, false_and, false_or,
      Call.computeExpected.injEq] at hmem
    obtain ⟨⟨rfl, rfl, rfl⟩, hcomputed'⟩ | hmem := hmem
    · exact h expected sig text (eq_of_heq hcomputed').symm
    · exact absurd hmem (hcomputed secret rawBody' body' _)

/-- A run that stores the body. -/
theorem failClosed_iff_of_stores (hmethod : request.method = .string (utf16 "POST"))
    (hblank : trimmed raw ≠ [])
    (ht : t = ⟨.json, .ok body⟩ :: ⟨.getSecret, .ok (.string raw)⟩ ::
      ⟨.computeExpected (trimmed raw) rawBody body, computed⟩ :: u)
    (hcomputed : ∀ secret rawBody body r, ⟨.computeExpected secret rawBody body, r⟩ ∉ u)
    (hmatches : Matches (request.signature cfg.signatureHeader) computed)
    (haccepts : ∀ body verdict, ⟨.validate body, verdict⟩ ∈ u → Accepts verdict)
    (hvalidated : cfg.validate = .function ↔
      ∃ verdict, ⟨.validate body, verdict⟩ ∈ u ∧ Accepts verdict)
    (hstores : stores u = [body]) : FailClosed cfg request t ↔ Unambiguous cfg request t := by
  have hbodies : stores t = [body] := by
    rw [ht]
    exact hstores
  rw [unambiguous_iff hcomputed ht, FailClosed, hbodies]
  subst ht
  constructor
  · rintro ⟨-, hauthorized⟩ - expected sig text rfl hsig - -
    obtain ⟨-, -, ⟨secret, rawBody', sig', hsecret, -, hsig', hne, hmem⟩, hgiven⟩ :=
      hauthorized body (List.mem_singleton_self _)
    simp only [List.mem_cons, Sigma.mk.injEq, reduceCtorEq, false_and, false_or,
      Call.computeExpected.injEq] at hmem
    obtain ⟨-, heq⟩ | hmem := hmem
    · obtain rfl := Except.ok.inj (hsig.symm.trans hsig')
      refine ⟨⟨sig, (Except.ok.inj (eq_of_heq heq)).symm, hne, rfl⟩, fun hother => ?_⟩
      obtain ⟨verdict, hverdict, haccept⟩ := hgiven (by simp [hother])
      have hfunction := hvalidated.2 ⟨verdict, by simpa using hverdict, haccept⟩
      exact absurd (hother.symm.trans hfunction) (by simp)
    · exact absurd hmem (hcomputed _ _ _ _)
  · intro h
    refine ⟨le_rfl, fun body' hbody => ?_⟩
    rw [List.mem_singleton.1 hbody]
    obtain ⟨sig, expected, text, hsig, rfl, htext, hmismatch⟩ := hmatches
    obtain ⟨⟨s, rfl, hne, hlength⟩, hother⟩ :=
      h haccepts expected sig text rfl hsig htext hmismatch
    obtain rfl := Except.ok.inj htext
    obtain rfl := eq_of_mismatch hlength.symm hmismatch
    refine ⟨hmethod, by simp, ⟨raw, rawBody, sig, by simp, hblank, hsig, hne, by simp⟩, ?_⟩
    intro hgiven
    have hfunction : cfg.validate = .function := by
      cases hvalidate : cfg.validate with
      | absent => exact absurd hvalidate hgiven
      | function => rfl
      | other => exact absurd hvalidate hother
    obtain ⟨verdict, hmem, haccept⟩ := hvalidated.1 hfunction
    exact ⟨verdict, by simp [hmem], haccept⟩

end Authenticated

variable {stringify cfg} in
/-- **When the webhook handler is fail-closed.** -/
theorem failClosed_iff {handler : WebhookRequest → Driver B WebhookResponse}
    (hhandler : createWebhookHandler stringify cfg = .ok handler) {request : WebhookRequest}
    {t : Trace B} {r : Except Thrown WebhookResponse} (h : (handler request).run.Runs t r) :
    FailClosed cfg request t ↔ Unambiguous cfg request t := by
  unfold createWebhookHandler at hhandler
  split_ifs at hhandler
  obtain rfl := Except.ok.inj hhandler
  rcases runs_webhookHandler h with hearly |
    ⟨body, raw, rawBody, computed, u, hmethod, hblank, rfl, hrest⟩
  · refine iff_of_true (failClosed_of_stores_eq_nil ?_) ?_
    · refine List.filterMap_eq_nil_iff.2 fun ⟨call, answer⟩ hev => ?_
      obtain rfl | rfl := hearly _ hev <;> rfl
    · intro _ secret rawBody body expected hmem
      simpa using hearly _ hmem
  rcases hrest with ⟨hdiffer, rfl⟩ | ⟨hmatches, r', hprocess⟩
  · refine iff_of_true (failClosed_of_stores_eq_nil rfl) ?_
    rw [unambiguous_iff (by simp) rfl]
    rintro - expected sig text rfl hsig htext hmismatch
    exact absurd ⟨sig, expected, text, hsig, rfl, htext, hmismatch⟩ hdiffer
  rcases runs_process hprocess with ⟨verdict, hvalidate, rfl, hreject⟩ |
    ⟨verdict, stored, hvalidate, rfl, haccept⟩ | ⟨stored, hvalidate, rfl⟩
  · refine iff_of_true (failClosed_of_stores_eq_nil rfl) ?_
    rw [unambiguous_iff (by simp) rfl]
    intro haccepts
    exact absurd (haccepts body verdict (by simp)) hreject
  · apply failClosed_iff_of_stores hmethod hblank rfl (by simp) hmatches _ _ rfl
    · intro body' verdict' hmem
      simp only [List.mem_cons, Sigma.mk.injEq, Call.validate.injEq, reduceCtorEq, false_and,
        List.not_mem_nil, or_false] at hmem
      obtain ⟨rfl, heq⟩ := hmem
      exact eq_of_heq heq ▸ haccept
    · exact iff_of_true hvalidate ⟨verdict, by simp, haccept⟩
  · apply failClosed_iff_of_stores hmethod hblank rfl (by simp) hmatches _ _ rfl
    · simp
    · simp [hvalidate]

end Handler

/-- A `POST` request with a signature. -/
def post (signature : String) : WebhookRequest where
  method := .string (utf16 "POST")
  headers := .record fun _ => .string (utf16 signature)

/-- A request that gets as far as the store, with what `computeExpected` resolves to. -/
def storing (expected : Value) : Trace ℕ :=
  [⟨.json, .ok 1⟩, ⟨.getSecret, .ok (.string (utf16 " key "))⟩,
    ⟨.computeExpected (utf16 "key") (some (utf16 "1")) 1, .ok expected⟩, ⟨.store 1, .ok none⟩]

def stringifyOne (_ : ℕ) : Except Unit (Option Units) := .ok (some (utf16 "1"))

theorem runs_storing {signature : String} {expected : Value} (hne : utf16 signature ≠ [])
    (htext : expected.toText = .ok (utf16 signature)) :
    (webhookHandler stringifyOne {} (post signature)).run.Runs (storing expected)
      (.ok (.success (utf16 "Webhook processed"))) := by
  have hsecret : resolveWebhookSecret (.string (utf16 " key ")) = .ok (utf16 "key") := by decide
  have htruthy : ¬ (!(Value.string (utf16 signature)).isTruthy) = true := by
    simpa [Value.isTruthy] using hne
  have hequal : (!timingSafeEqual (.string (utf16 signature)) (.string (utf16 signature))) ≠
      true := by
    simp [mismatch_self]
  have hmethod : ¬ (post signature).method ≠ .string (utf16 "POST") := not_not.2 rfl
  have hverify : (verifyWebhook (.string (utf16 " key ")) (.string (utf16 signature))
      (some fun secret => perform (.computeExpected secret (some (utf16 "1")) 1) rethrow)).run.Runs
        [⟨.computeExpected (utf16 "key") (some (utf16 "1")) 1, .ok expected⟩] (.ok .ok) := by
    rw [verifyWebhook, hsecret]
    dsimp only
    rw [if_neg htruthy]
    refine runs_perform_bind.2 ⟨.ok expected, [], rfl, ?_⟩
    refine runs_fromExcept_bind.2 (runs_fromExcept_bind.2 ?_)
    rw [htext]
    dsimp only
    rw [if_neg hequal]
    exact ⟨rfl, rfl⟩
  rw [webhookHandler, if_neg hmethod]
  refine .ask (.ask (runs_fromExcept_bind.2 (runs_except_bind.2 ?_)))
  refine .inl ⟨_, .ok, _, rfl, hverify, ?_⟩
  exact .ask ⟨rfl, rfl⟩

theorem failClosed_iff_storing :
    ∃ handler, createWebhookHandler stringifyOne {} = .ok handler ∧
      (handler (post "ab")).run.Runs (storing (.string (utf16 "ab")))
        (.ok (.success (utf16 "Webhook processed"))) ∧
      (FailClosed {} (post "ab") (storing (.string (utf16 "ab"))) ↔
        Unambiguous {} (post "ab") (storing (.string (utf16 "ab")))) := by
  have h : (webhookHandler stringifyOne {} (post "ab")).run.Runs (storing (.string (utf16 "ab")))
      (.ok (.success (utf16 "Webhook processed"))) := runs_storing (by decide) rfl
  exact ⟨_, rfl, h, failClosed_iff rfl h⟩

/-- If `computeExpected` resolves to `undefined`, the signature `undefined` is accepted. -/
theorem exists_not_failClosed :
    ∃ handler, createWebhookHandler stringifyOne {} = .ok handler ∧
      (handler (post "undefined")).run.Runs (storing .undefined)
        (.ok (.success (utf16 "Webhook processed"))) ∧
      ¬ FailClosed {} (post "undefined") (storing .undefined) := by
  refine ⟨_, rfl, runs_storing (by decide) rfl, fun h => ?_⟩
  obtain ⟨-, -, ⟨secret, rawBody, sig, -, -, -, -, hmem⟩, -⟩ := h.2 1 (by simp [stores, storing])
  simp [storing, Value.undefined] at hmem

end Resilience.Forge
