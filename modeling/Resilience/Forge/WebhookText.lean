import Resilience.Forge.Webhook
import Resilience.TypeScript.Canonical

/-!
# The text that a webhook is signed for

The sender of a webhook signs the text that it transmits. The handler of `createWebhookHandler`
parses that text, and hands what `JSON.stringify` writes for it to `computeExpected`, under the name
`rawBody`. A signature is accepted when it is the same for both texts; with any function to sign,
it is when the text is one that `JSON.stringify` writes (`acceptsSigned_iff`).
-/

namespace Resilience.Forge

open Json TypeScript

section Signing

variable {ν : Type} (N : Numerals ν)

/-- `JSON.stringify` of a value that was parsed. -/
def stringifyBody (body : Doc ν) : Except Unit (Option Units) :=
  .ok (some (units (stringify N body)))

/-- `request.json()`, for a request that transmits `text`. -/
def parseBody (text : Units) : Except Unit (Doc ν) :=
  (parse N (codes text)).mapError fun _ => ()

variable (sign : Units → Units → Units) (secret text : Units)

/-- The answers where `text` is transmitted, `secret` is configured, and `computeExpected` signs
`rawBody`. -/
def Deployed (t : Trace (Doc ν)) : Prop :=
  (∀ answer, ⟨.json, answer⟩ ∈ t → answer = parseBody N text) ∧
  (∀ answer, ⟨.getSecret, answer⟩ ∈ t → answer = .ok (.string secret)) ∧
  ∀ key rawBody body answer, ⟨.computeExpected key (some rawBody) body, answer⟩ ∈ t →
    answer = .ok (.string (sign key rawBody))

/-- The signature check is passed: the handler goes on with the body. -/
def Passes {B : Type} (t : Trace B) : Prop :=
  ∃ ev ∈ t, ∃ body, ev.1 = .validate body ∨ ev.1 = .store body

/-- Every request with the right signature passes. -/
def AcceptsSigned (cfg : WebhookConfig)
    (handler : WebhookRequest → Driver (Doc ν) WebhookResponse) :
    Prop :=
  ∀ request t r, request.method = .string (utf16 "POST") →
    request.signature cfg.signatureHeader = .ok (.string (sign (trimmed secret) text)) →
    (handler request).run.Runs t r → Deployed N sign secret text t → Passes t

variable {N sign secret text} {cfg : WebhookConfig} {request : WebhookRequest}
  {t : Trace (Doc ν)} {r : Except Thrown WebhookResponse} {body : Doc ν}

theorem passes_of_process {B : Type} {cfg : WebhookConfig} {body : B} {t : Trace B}
    {r : Except Thrown WebhookResponse} (h : (process cfg body).run.Runs t r) : Passes t := by
  rcases runs_process h with ⟨verdict, -, rfl, -⟩ | ⟨verdict, stored, -, rfl, -⟩ | ⟨stored, -, rfl⟩
  · exact ⟨_, List.mem_cons_self, body, .inl rfl⟩
  · exact ⟨_, List.mem_cons_self, body, .inl rfl⟩
  · exact ⟨_, List.mem_cons_self, body, .inr rfl⟩

theorem resolveWebhookSecret_string (hsecret : trimmed secret ≠ []) :
    resolveWebhookSecret (.string secret) = .ok (trimmed secret) := if_neg hsecret

theorem matches_string {signature expected : Units} :
    Matches (.ok (.string signature)) (.ok (.string expected)) ↔
      mismatch signature expected = 0#32 := by
  constructor
  · rintro ⟨sig, value, text, hsig, hvalue, htext, hmatch⟩
    cases hsig
    cases hvalue
    cases htext
    exact hmatch
  · exact fun h => ⟨signature, _, expected, rfl, rfl, rfl, h⟩

/-- The check of a signature, with the answer of `computeExpected`, if it is asked. -/
theorem runs_verifyWebhook_string {B : Type} {signature : Units} {rawBody : Option Units} {body : B}
    {t : Trace B} {r : Except Thrown Auth} (hsecret : trimmed secret ≠ [])
    (h : (verifyWebhook (.string secret) (.string signature)
      (some fun secret => perform (.computeExpected secret rawBody body) rethrow)).run.Runs t r) :
    (signature = [] ∧ t = [] ∧ r ≠ .ok .ok) ∨ signature ≠ [] ∧ ∃ computed,
      t = [⟨.computeExpected (trimmed secret) rawBody body, computed⟩] ∧
        (r = .ok .ok ↔ Matches (.ok (.string signature)) computed) := by
  by_cases hempty : signature = []
  · subst hempty
    rw [verifyWebhook, resolveWebhookSecret_string hsecret] at h
    obtain ⟨rfl, rfl⟩ := h
    exact .inl ⟨rfl, rfl, by simp⟩
  · refine .inr ⟨hempty, ?_⟩
    obtain ⟨rfl, hdenied⟩ | ⟨raw, computed, hraw, -, rfl, hmatches⟩ := runs_verifyWebhook h
    · rw [verifyWebhook, resolveWebhookSecret_string hsecret] at h
      dsimp only at h
      rw [if_neg (by simpa [Value.isTruthy] using hempty)] at h
      obtain ⟨computed, t', ht, -⟩ := runs_perform_bind.1 h
      cases ht
    · cases hraw
      exact ⟨computed, rfl, hmatches⟩

theorem not_passes {B : Type} {t : Trace B} (h : ∀ ev ∈ t, ev.1 = .json ∨ ev.1 = .getSecret ∨
    ∃ key rawBody body, ev.1 = .computeExpected key rawBody body) : ¬ Passes t := by
  rintro ⟨⟨call, answer⟩, hev, body, hpass⟩
  obtain rfl | rfl | ⟨key, rawBody, body', rfl⟩ := h _ hev <;> simp at hpass

/-- A run on a signed request. -/
theorem passes_iff {signature : Units} (hmethod : request.method = .string (utf16 "POST"))
    (hsignature : request.signature cfg.signatureHeader = .ok (.string signature))
    (hsecret : trimmed secret ≠ []) (hbody : parse N (codes text) = .ok body)
    (hdeployed : Deployed N sign secret text t)
    (h : (webhookHandler (stringifyBody N) cfg request).run.Runs t r) :
    Passes t ↔ signature ≠ [] ∧
      mismatch signature (sign (trimmed secret) (units (stringify N body))) = 0#32 := by
  obtain ⟨hjson, hgetSecret, hcompute⟩ := hdeployed
  unfold webhookHandler at h
  rw [if_neg (not_not.2 hmethod)] at h
  obtain ⟨parsed, t₁, rfl, h₁⟩ := runs_perform_bind.1 h
  have hparsed : parsed = .ok body := by
    rw [hjson parsed List.mem_cons_self, parseBody, hbody]
    rfl
  subst hparsed
  obtain ⟨configured, t₂, rfl, h₂⟩ := runs_perform_bind.1 h₁
  obtain rfl : configured = .ok (.string secret) := hgetSecret configured (by simp)
  replace h₂ := runs_fromExcept_bind.1 h₂
  rw [hsignature] at h₂
  obtain ⟨t₃, auth, t₄, rfl, hverify, hrest⟩ | ⟨error, -, hverify⟩ := runs_except_bind.1 h₂
  · obtain ⟨rfl, rfl, hdenied⟩ | ⟨hne, computed, rfl, hmatches⟩ :=
      runs_verifyWebhook_string hsecret hverify
    · cases auth with
      | ok => exact absurd rfl hdenied
      | denied status reason =>
        obtain ⟨rfl, -⟩ := hrest
        exact iff_of_false (not_passes (by simp)) (by simp)
    · obtain rfl := hcompute _ _ _ computed (by simp)
      rw [matches_string] at hmatches
      cases auth with
      | ok =>
        obtain ⟨ev, hev, hpass⟩ := passes_of_process hrest
        exact iff_of_true ⟨ev, by simp [hev], hpass⟩ ⟨hne, hmatches.1 rfl⟩
      | denied status reason =>
        obtain ⟨rfl, -⟩ := hrest
        exact iff_of_false (not_passes (by simp)) fun hsigned => by simpa using hmatches.2 hsigned.2
  · obtain ⟨rfl, rfl, -⟩ | ⟨hne, computed, rfl, hmatches⟩ :=
      runs_verifyWebhook_string hsecret hverify
    · exact iff_of_false (not_passes (by simp)) (by simp)
    · obtain rfl := hcompute _ _ _ computed (by simp)
      rw [matches_string] at hmatches
      exact iff_of_false (not_passes (by simp)) fun hsigned => by simpa using hmatches.2 hsigned.2

/-- There is a run on the answers of a deployment. -/
theorem exists_deployed (N : Numerals ν) (sign : Units → Units → Units) (secret text : Units)
    (driver : Driver (Doc ν) WebhookResponse) :
    ∃ t r, driver.run.Runs t r ∧ Deployed N sign secret text t := by
  obtain ⟨t, r, hrun, ht⟩ := Prog.exists_runs driver.run fun
    | .json => parseBody N text
    | .getSecret => .ok (.string secret)
    | .computeExpected key rawBody _ => .ok (.string (sign key (rawBody.getD [])))
    | .validate _ => .ok { ok := true }
    | .store _ => .ok none
  exact ⟨t, r, hrun, fun answer h => ht _ h, fun answer h => ht _ h,
    fun key rawBody body answer h => ht _ h⟩

/-- A function signs the text and what `JSON.stringify` makes of it alike. -/
theorem acceptsSigned_iff_mismatch {handler : WebhookRequest → Driver (Doc ν) WebhookResponse}
    (hhandler : createWebhookHandler (stringifyBody N) cfg = .ok handler)
    (hsecret : trimmed secret ≠ []) (hbody : parse N (codes text) = .ok body) :
    AcceptsSigned N sign secret text cfg handler ↔ sign (trimmed secret) text ≠ [] ∧
      mismatch (sign (trimmed secret) text)
        (sign (trimmed secret) (units (stringify N body))) = 0#32 := by
  unfold createWebhookHandler at hhandler
  split_ifs at hhandler
  obtain rfl := Except.ok.inj hhandler
  constructor
  · intro h
    let request : WebhookRequest :=
      ⟨.string (utf16 "POST"), .record fun _ => .string (sign (trimmed secret) text)⟩
    obtain ⟨t, r, hrun, hdeployed⟩ := exists_deployed N sign secret text
      (webhookHandler (stringifyBody N) cfg request)
    exact (passes_iff rfl rfl hsecret hbody hdeployed hrun).1 (h request t r rfl rfl hrun hdeployed)
  · exact fun h request t r hmethod hsignature hrun hdeployed =>
      (passes_iff hmethod hsignature hsecret hbody hdeployed hrun).2 h

/-- The texts that `JSON.stringify` writes come back unchanged. -/
theorem stringify_eq_iff_exists {norm : ν → Option ν} (hN : N.Lawful norm)
    (hrep : N.Reprints norm) (hbody : parse N (codes text) = .ok body) :
    units (stringify N body) = text ↔ ∃ v : Doc ν, v.Within (fun _ => True) OwnKeys ∧
      codes text = stringify N v := by
  constructor
  · rintro rfl
    refine ⟨body, own_parse hbody, codes_units ?_⟩
    exact (hN.wellFormed_unitsCodec false body).lt
  · rintro ⟨v, hown, hv⟩
    rw [hv, parse_stringify hN hown] at hbody
    rw [← Except.ok.inj hbody, stringify_readBack hrep, ← hv, units_codes]

/-- **When a signed webhook is accepted.** With one function to sign: when the signature is not
empty, and the same for what `JSON.stringify` makes of the text. With any function: when the text is
one that `JSON.stringify` writes. -/
theorem acceptsSigned_iff {norm : ν → Option ν} (hN : N.Lawful norm) (hrep : N.Reprints norm)
    {handler : WebhookRequest → Driver (Doc ν) WebhookResponse}
    (hhandler : createWebhookHandler (stringifyBody N) cfg = .ok handler)
    (hsecret : trimmed secret ≠ []) (hbody : parse N (codes text) = .ok body) :
    (∀ sign, AcceptsSigned N sign secret text cfg handler ↔ sign (trimmed secret) text ≠ [] ∧
      mismatch (sign (trimmed secret) text)
        (sign (trimmed secret) (units (stringify N body))) = 0#32) ∧
    ((∀ sign, sign (trimmed secret) text ≠ [] → AcceptsSigned N sign secret text cfg handler) ↔
      ∃ v : Doc ν, v.Within (fun _ => True) OwnKeys ∧ codes text = stringify N v) := by
  refine ⟨fun sign => acceptsSigned_iff_mismatch hhandler hsecret hbody, ?_⟩
  rw [← stringify_eq_iff_exists hN hrep hbody]
  constructor
  · intro h
    -- A function that tells the text from all others.
    let sign : Units → Units → Units := fun _ x => if x = text then utf16 "a" else utf16 "b"
    have htext : sign (trimmed secret) text = utf16 "a" := if_pos rfl
    have hne : sign (trimmed secret) text ≠ [] := by
      rw [htext]
      decide
    have haccepts := h sign hne
    rw [acceptsSigned_iff_mismatch hhandler hsecret hbody, htext] at haccepts
    by_contra hdiffer
    rw [show sign (trimmed secret) (units (stringify N body)) = utf16 "b" from if_neg hdiffer]
      at haccepts
    exact absurd haccepts.2 (by decide)
  · intro h sign hsign
    rw [acceptsSigned_iff_mismatch hhandler hsecret hbody, h]
    exact ⟨hsign, mismatch_self _⟩

end Signing

/-- An object with a member, as `JSON.stringify` writes it. -/
theorem acceptsSigned_iff_compact :
    ∃ handler, createWebhookHandler (stringifyBody Numerals.integers) {} = .ok handler ∧
      AcceptsSigned Numerals.integers (· ++ ·) (utf16 " key ") (utf16 "\x7b\"a\":1\x7d") {}
        handler := by
  have hhandler : createWebhookHandler (stringifyBody Numerals.integers) {} =
      .ok (webhookHandler (stringifyBody Numerals.integers) {}) := rfl
  have hbody : parse Numerals.integers (codes (utf16 "\x7b\"a\":1\x7d")) =
      .ok (.obj [(utf16 "a", .num 1)]) := by decide +kernel
  have hsecret : trimmed (utf16 " key ") ≠ [] := by decide
  have hiff := acceptsSigned_iff Numerals.lawful_integers (Numerals.reprints_some _) hhandler
    hsecret hbody
  exact ⟨_, hhandler, (hiff.1 (· ++ ·)).2 ⟨(by decide), mismatch_self _⟩⟩

/-- A text with a space, which `JSON.stringify` does not write. -/
theorem exists_not_acceptsSigned :
    ∃ handler, createWebhookHandler (stringifyBody Numerals.integers) {} = .ok handler ∧
      parse Numerals.integers (codes (utf16 "[ ]")) = .ok (.arr []) ∧
      ¬ AcceptsSigned Numerals.integers (· ++ ·) (utf16 " key ") (utf16 "[ ]") {} handler := by
  have hbody : parse Numerals.integers (codes (utf16 "[ ]")) = .ok (.arr []) := rfl
  refine ⟨_, rfl, hbody, ?_⟩
  rw [acceptsSigned_iff_mismatch rfl (by decide) hbody]
  decide

end Resilience.Forge
