import Resilience.TypeScript.SafeFetch

/-!
# Where requests go

`safeFetch` over a `fetch` that follows redirects by itself (`WebPlatform.fetch`), as it does unless
the redirect mode says otherwise. The guard looks at the first host only: the hosts that are asked
are on the list exactly when the servers lead to no other (`contained_iff`).
-/

namespace Resilience.TypeScript

open Json

/-- A platform with the parts that `fetch` uses. -/
structure WebPlatform (U X : Type) extends Platform U X where
  /-- The URL of a `Location`, if it is one that can be fetched. -/
  locate : U → Units → Option U
  /-- What `fetch` rejects with on its own. -/
  networkError : X

inductive Redirect (U : Type)
  | none
  | opaqueRedirect
  | networkError
  | next (url : U)

/-- The statuses of redirects. -/
def isRedirectStatus (status : ℕ) : Bool := [301, 302, 303, 307, 308].contains status

namespace WebPlatform

variable {U X : Type} (web : WebPlatform U X)

/-- What becomes of a response to a request to `url`. -/
def redirect (mode : RedirectMode) (url : U) (response : Response) : Redirect U :=
  if !isRedirectStatus response.status then .none
  else
    match mode, response.location with
    | .error, _ => .networkError
    | .manual, _ => .opaqueRedirect
    | .follow, none => .none
    | .follow, some location =>
      match web.locate url location with
      | none => .networkError
      | some next => .next next

/-- The error for `stop`. -/
def stopError (signal : AttemptSignal X) : Stop X → Thrown X
  | .timeout => signal.timeout
  | .aborted reason => reason
  | .failed error => .other error

/-- A request, and what `onRedirect` does after it. -/
def fetchHop (mode : RedirectMode) (signal : AttemptSignal X) (url : U)
    (onRedirect : U → Fetching U X Response) : Fetching U X Response := do
  let stopped ← perform (.stopped url) .ok
  match stopped with
  | some stop => fromExcept (.error (stopError signal stop))
  | none => do
    let response ← perform (.send url) (·.mapError (stopError signal))
    match web.redirect mode url response with
    | .none => fromExcept (.ok response)
    | .opaqueRedirect => fromExcept (.ok { status := 0 })
    | .networkError => fromExcept (.error (.other web.networkError))
    | .next next => onRedirect next

/-- Follow redirects, at most as many as are left. -/
def followRedirects (mode : RedirectMode) (signal : AttemptSignal X) :
    ℕ → U → Fetching U X Response
  | 0, url => web.fetchHop mode signal url fun _ =>
    fromExcept (.error (.other web.networkError))
  | left + 1, url => web.fetchHop mode signal url (followRedirects mode signal left)

/-- `fetch`. -/
def fetch : FetchImpl U X := fun url redirect signal =>
  match signal.already with
  | some reason => fromExcept (.error reason)
  | none => web.followRedirects (redirect.getD .follow) signal 20 url

end WebPlatform

/-! ## Hops -/

section Hops

variable {U X : Type}

/-- What is asked and answered in a run. -/
abbrev Trace (U X : Type) := List (Prog.Event (Request U X) (Answer U X))

/-- The URLs that requests are sent to. -/
def sent (t : Trace U X) (url : U) : Prop := ∃ answer, ⟨.send url, answer⟩ ∈ t

variable (web : WebPlatform U X)

/-- A server leads to `url`: it redirects a request there, and the request to `url` is not
stopped. -/
def LeadsTo (mode : RedirectMode) (t : Trace U X) (url : U) : Prop :=
  ∃ (source : U) (response : Response), web.redirect mode source response = .next url ∧
    [⟨.send source, .ok response⟩, ⟨.stopped url, none⟩] <:+: t

/-- The requests of a trace go to `first`, or where a server leads to; and a request that is not
stopped is sent. -/
structure Hops (mode : RedirectMode) (first : U) (t : Trace U X) : Prop where
  leads : ∀ url, sent t url → url = first ∨ LeadsTo web mode t url
  departs : ∀ url, ⟨.stopped url, none⟩ ∈ t → sent t url

variable {web} {mode : RedirectMode} {first : U} {t t₁ t₂ : Trace U X}

theorem sent_append {url : U} : sent (t₁ ++ t₂) url ↔ sent t₁ url ∨ sent t₂ url := by
  simp only [sent, List.mem_append, exists_or]

theorem sent_hop {url url' : U} {answer : Except (Stop X) Response} :
    sent (⟨.stopped url, none⟩ :: ⟨.send url, answer⟩ :: t) url' ↔ url' = url ∨ sent t url' := by
  simp only [sent, List.mem_cons, Sigma.mk.injEq, Request.send.injEq, reduceCtorEq, false_and,
    false_or, exists_or]
  apply or_congr_left
  constructor
  · rintro ⟨_, rfl, -⟩
    rfl
  · rintro rfl
    exact ⟨answer, rfl, HEq.rfl⟩

theorem LeadsTo.mono {url : U} (h : LeadsTo web mode t₁ url) (ht : t₁ <:+: t) :
    LeadsTo web mode t url := by
  obtain ⟨source, response, hredirect, hpart⟩ := h
  exact ⟨source, response, hredirect, hpart.trans ht⟩

theorem composes_hops : Composes (Hops web mode first) where
  nil := ⟨by simp [sent], by simp⟩
  append := by
    intro t₁ t₂ h₁ h₂
    constructor
    · intro url hsent
      obtain hsent | hsent := sent_append.1 hsent
      · exact (h₁.leads url hsent).imp_right (·.mono (List.infix_append' [] t₁ t₂))
      · exact (h₂.leads url hsent).imp_right (·.mono (List.suffix_append t₁ t₂).isInfix)
    · intro url hmem
      obtain hmem | hmem := List.mem_append.1 hmem
      · exact sent_append.2 (.inl (h₁.departs url hmem))
      · exact sent_append.2 (.inr (h₂.departs url hmem))

/-- A chain of redirects from `url`: the last request is stopped, or it is sent and nothing
follows. -/
inductive Chain (web : WebPlatform U X) (mode : RedirectMode) : U → Trace U X → Prop
  | stopped (url : U) (stop : Stop X) : Chain web mode url [⟨.stopped url, some stop⟩]
  | last (url : U) (answer : Except (Stop X) Response) :
    Chain web mode url [⟨.stopped url, none⟩, ⟨.send url, answer⟩]
  | hop {url next : U} {response : Response} {t : Trace U X}
    (hredirect : web.redirect mode url response = .next next) (ht : Chain web mode next t) :
    Chain web mode url (⟨.stopped url, none⟩ :: ⟨.send url, .ok response⟩ :: t)

/-- The first event of a chain. -/
theorem Chain.head {url : U} (h : Chain web mode url t) :
    ∃ stopped t', t = ⟨.stopped url, stopped⟩ :: t' ∧ (stopped = none ∨ t' = []) := by
  cases h with
  | stopped url stop => exact ⟨some stop, [], rfl, .inr rfl⟩
  | last url answer => exact ⟨none, _, rfl, .inl rfl⟩
  | hop hredirect ht => exact ⟨none, _, rfl, .inl rfl⟩

theorem Chain.hops {url : U} (h : Chain web mode url t) : Hops web mode url t := by
  induction h with
  | stopped url stop => exact ⟨by simp [sent], by simp⟩
  | last url answer => exact ⟨by simp [sent], by simp [sent]⟩
  | @hop url next response t hredirect ht ih =>
    have hsuffix : t <:+ ⟨.stopped url, none⟩ :: ⟨.send url, .ok response⟩ :: t :=
      List.suffix_append [_, _] t
    constructor
    · intro url' hsent
      obtain rfl | hsent := sent_hop.1 hsent
      · exact .inl rfl
      · obtain rfl | hleads := ih.leads url' hsent
        · -- a request to `next` is sent, so the first one was not stopped
          obtain ⟨stopped, t', rfl, rfl | rfl⟩ := ht.head
          · exact .inr ⟨url, response, hredirect, ⟨[⟨.stopped url, none⟩], t', rfl⟩⟩
          · simp [sent] at hsent
        · exact .inr (hleads.mono hsuffix.isInfix)
    · intro url' hmem
      obtain rfl | hmem : url' = url ∨ ⟨.stopped url', none⟩ ∈ t := by simpa using hmem
      · exact sent_hop.2 (.inl rfl)
      · exact sent_hop.2 (.inr (ih.departs url' hmem))

theorem runs_fetchHop {signal : AttemptSignal X} {url : U}
    {onRedirect : U → Fetching U X Response} {r : Except (Thrown X) Response}
    (h : (web.fetchHop mode signal url onRedirect).run.Runs t r) :
    (∃ stop, t = [⟨.stopped url, some stop⟩]) ∨
      (∃ answer, t = [⟨.stopped url, none⟩, ⟨.send url, answer⟩]) ∨
      ∃ response next t', web.redirect mode url response = .next next ∧
        t = ⟨.stopped url, none⟩ :: ⟨.send url, .ok response⟩ :: t' ∧
        (onRedirect next).run.Runs t' r := by
  obtain ⟨stopped, t₁, rfl, h₁⟩ := runs_perform_bind.1 h
  cases stopped with
  | some stop =>
    obtain ⟨rfl, -⟩ := h₁
    exact .inl ⟨stop, rfl⟩
  | none =>
    obtain ⟨answer, t₂, rfl, h₂⟩ := runs_perform_bind.1 h₁
    cases answer with
    | error stop =>
      obtain ⟨rfl, -⟩ := h₂
      exact .inr (.inl ⟨.error stop, rfl⟩)
    | ok response =>
      dsimp only [Except.mapError] at h₂
      cases hredirect : web.redirect mode url response with
      | next next =>
        rw [hredirect] at h₂
        exact .inr (.inr ⟨response, next, t₂, hredirect, rfl, h₂⟩)
      | _ =>
        rw [hredirect] at h₂
        obtain ⟨rfl, -⟩ := h₂
        exact .inr (.inl ⟨.ok response, rfl⟩)

theorem chain_followRedirects {signal : AttemptSignal X} {left : ℕ} {url : U}
    {r : Except (Thrown X) Response}
    (h : (web.followRedirects mode signal left url).run.Runs t r) : Chain web mode url t := by
  induction left generalizing url t with
  | zero =>
    obtain ⟨stop, rfl⟩ | ⟨answer, rfl⟩ | ⟨response, next, t', -, rfl, hnext⟩ := runs_fetchHop h
    · exact .stopped url stop
    · exact .last url answer
    · obtain ⟨rfl, -⟩ := hnext
      exact .last url (.ok response)
  | succ left ih =>
    obtain ⟨stop, rfl⟩ | ⟨answer, rfl⟩ | ⟨response, next, t', hredirect, rfl, hnext⟩ :=
      runs_fetchHop h
    · exact .stopped url stop
    · exact .last url answer
    · exact .hop hredirect (ih hnext)

/-! ## Calls of `safeFetch` -/

theorem tracesIn_fetch {redirect : Option RedirectMode} {signal : AttemptSignal X} :
    TracesIn (Hops web (redirect.getD .follow) first) (web.fetch first redirect signal) := by
  unfold WebPlatform.fetch
  cases signal.already with
  | some reason => exact tracesIn_fromExcept composes_hops
  | none => exact fun _ _ h => (chain_followRedirects h).hops

variable {options : SafeFetchOptions U X}

/-- A request other than those of `fetch`. -/
theorem hops_single {e : Request U X} {answer : Answer U X e} (hsend : ∀ url, e ≠ .send url)
    (hstopped : ∀ url, e ≠ .stopped url) : Hops web mode first [⟨e, answer⟩] := by
  constructor
  · rintro url ⟨answer', hmem⟩
    rw [List.mem_singleton] at hmem
    cases hmem
    exact absurd rfl (hsend url)
  · intro url hmem
    rw [List.mem_singleton] at hmem
    cases hmem
    exact absurd rfl (hstopped url)

theorem tracesIn_other {α : Type} {e : Request U X} {f : Answer U X e → Except (Thrown X) α}
    (hsend : ∀ url, e ≠ .send url) (hstopped : ∀ url, e ≠ .stopped url) :
    TracesIn (Hops web mode first) (perform e f : Fetching U X α) :=
  tracesIn_perform fun _ => hops_single hsend hstopped

theorem tracesIn_callerAborted :
    TracesIn (Hops web mode first) (callerAborted options : Fetching U X _) := by
  unfold callerAborted
  split
  · refine tracesIn_bind composes_hops (tracesIn_other nofun nofun) fun aborted => ?_
    cases aborted
    · exact tracesIn_fromExcept composes_hops
    · exact tracesIn_other nofun nofun
  · exact tracesIn_fromExcept composes_hops

theorem tracesIn_attemptFetch : TracesIn (Hops web (options.redirect.getD .follow) first)
    (attemptFetch web.toPlatform options web.fetch first) := by
  unfold attemptFetch
  refine tracesIn_bind composes_hops tracesIn_callerAborted fun already => ?_
  refine tracesIn_bind composes_hops (tracesIn_observe ?_) fun outcome => ?_
  · refine tracesIn_bind composes_hops tracesIn_fetch fun response => ?_
    unfold checkStatus
    split <;> exact tracesIn_fromExcept composes_hops
  · cases outcome with
    | ok response => exact tracesIn_fromExcept composes_hops
    | error error =>
      refine tracesIn_bind composes_hops tracesIn_callerAborted fun aborted => ?_
      split <;> exact tracesIn_fromExcept composes_hops

theorem tracesIn_runtime : web.runtime.TracesIn (Hops web mode first) where
  random := tracesIn_other nofun nofun
  defaultSleep _ := tracesIn_other nofun nofun

theorem tracesIn_retryOptions : options.retryOptions.TracesIn (Hops web mode first) where
  shouldRetry := by
    rintro f ⟨rfl⟩ error attempt
    exact tracesIn_fromExcept composes_hops
  onRetry := by
    intro f hf info
    simp only [SafeFetchOptions.retryOptions] at hf
    split at hf <;> cases hf
    exact tracesIn_other nofun nofun
  sleep := by simp [SafeFetchOptions.retryOptions]
  random := by
    intro f hf
    simp only [SafeFetchOptions.retryOptions] at hf
    split at hf <;> cases hf
    exact tracesIn_other nofun nofun
  signal := by
    intro signal hsignal
    simp only [SafeFetchOptions.retryOptions] at hsignal
    split at hsignal <;> cases hsignal
    exact ⟨tracesIn_other nofun nofun, tracesIn_other nofun nofun⟩

theorem runs_checkHost {r : Except (Thrown X) Unit}
    (h : (checkHost web.toPlatform options first).run.Runs t r) :
    t = [] ∧ ∀ u, r = .ok u → ∀ allowHook,
      buildAllowlistHook web.toPlatform options.allowlist = some allowHook →
        allowHook first = .ok true := by
  unfold checkHost at h
  cases hhook : buildAllowlistHook web.toPlatform options.allowlist with
  | none =>
    rw [hhook] at h
    exact ⟨h.1, nofun⟩
  | some allowHook =>
    rw [hhook] at h
    replace h := runs_fromExcept_bind.1 h
    cases hallow : allowHook first with
    | error e =>
      rw [hallow] at h
      obtain ⟨rfl, rfl⟩ := h
      exact ⟨rfl, nofun⟩
    | ok allowed =>
      rw [hallow] at h
      cases allowed with
      | false =>
        obtain ⟨rfl, rfl⟩ := h
        exact ⟨rfl, nofun⟩
      | true =>
        obtain ⟨rfl, rfl⟩ := h
        refine ⟨rfl, ?_⟩
        rintro u - _ ⟨rfl⟩
        exact hallow

/-- A call sends nothing, or its requests go to an admitted URL and to where servers lead. -/
theorem hops_safeFetch {globalFetch : Option (FetchImpl U X)} {url : Url U} {fuel : ℕ}
    {r : Except (Thrown X) (Option Response)}
    (hfetch : ∀ f, (options.fetchImpl <|> globalFetch) = some f → f = web.fetch)
    (h : (safeFetch web.toPlatform options globalFetch url fuel).run.Runs t r) :
    t = [] ∨ ∃ first, (∀ allowHook,
      buildAllowlistHook web.toPlatform options.allowlist = some allowHook →
        allowHook first = .ok true) ∧ Hops web (options.redirect.getD .follow) first t := by
  unfold safeFetch at h
  cases hdoFetch : options.fetchImpl <|> globalFetch with
  | none =>
    rw [hdoFetch] at h
    exact .inl h.1
  | some doFetch =>
    obtain rfl := hfetch doFetch hdoFetch
    rw [hdoFetch] at h
    replace h := runs_fromExcept_bind.1 h
    split at h
    · obtain ⟨t₁, u, t₂, rfl, hhost, hretry⟩ | ⟨e, -, hhost⟩ := runs_except_bind.1 h
      · obtain ⟨rfl, hallow⟩ := runs_checkHost hhost
        exact .inr ⟨_, hallow u rfl, tracesIn_retry composes_hops tracesIn_runtime
          tracesIn_retryOptions (fun _ => tracesIn_attemptFetch) fuel _ _ hretry⟩
      · exact .inl (runs_checkHost hhost).1
    · exact .inl h.1

theorem LeadsTo.ne_nil {url : U} (h : LeadsTo web mode t url) : t ≠ [] := by
  rintro rfl
  obtain ⟨_, _, -, hpart⟩ := h
  simp at hpart

/-- An admitted URL is on the list. -/
theorem listed_of_admitted {allowlist : List Units}
    (hallowlist : options.allowlist = some (.hosts allowlist))
    (h : ∀ allowHook, buildAllowlistHook web.toPlatform options.allowlist = some allowHook →
      allowHook first = .ok true) : web.listed allowlist first = true := by
  rw [hallowlist] at h
  simpa using h _ rfl

/-- **Where requests go.** With a list of hosts, every request goes to a host of the list if and
only if the servers lead to no other. -/
theorem contained_iff {allowlist : List Units} {globalFetch : Option (FetchImpl U X)} {url : Url U}
    {fuel : ℕ} {r : Except (Thrown X) (Option Response)}
    (hallowlist : options.allowlist = some (.hosts allowlist)) (hredirect : options.redirect = none)
    (hfetch : ∀ f, (options.fetchImpl <|> globalFetch) = some f → f = web.fetch)
    (h : (safeFetch web.toPlatform options globalFetch url fuel).run.Runs t r) :
    (∀ url, sent t url → web.listed allowlist url = true) ↔
      ∀ url, LeadsTo web .follow t url → web.listed allowlist url = true := by
  obtain rfl | ⟨first, hadmitted, hhops⟩ := hops_safeFetch hfetch h
  · exact iff_of_true (by simp [sent]) fun url h => absurd rfl h.ne_nil
  · rw [hredirect, Option.getD_none] at hhops
    constructor
    · intro hsent url hleads
      obtain ⟨source, response, -, hpart⟩ := hleads
      exact hsent url (hhops.departs url (hpart.subset (by simp)))
    · intro hleads url hsent
      obtain rfl | hurl := hhops.leads url hsent
      · exact listed_of_admitted hallowlist hadmitted
      · exact hleads url hurl

end Hops

/-! ## A redirect -/

/-- URLs are their texts, in lower case, and a `Location` is a whole URL. -/
def textWeb : WebPlatform Units Unit where
  parse := .ok
  hostname url := (url.splitOn (toUnit 0x2F)).getD 2 []
  toLowerCase text := text
  numberText _ := utf16 "10000"
  locate _ := some
  networkError := ()

def apiOptions : SafeFetchOptions Units Unit where
  allowlist := some (.hosts [utf16 "api.example.com"])

def apiUrl : Units := utf16 "https://api.example.com/x"

/-- The server redirects the request to `location`. -/
def redirected (location : Units) : Trace Units Unit :=
  [⟨.stopped apiUrl, none⟩, ⟨.send apiUrl, .ok { status := 302, location }⟩,
    ⟨.stopped location, none⟩, ⟨.send location, .ok { status := 200 }⟩]

theorem runs_redirected (location : Units) :
    (safeFetch textWeb.toPlatform apiOptions (some textWeb.fetch) (.text apiUrl) 1).run.Runs
      (redirected location) (.ok (some { status := 200 })) := by
  have hhost : checkHost textWeb.toPlatform apiOptions apiUrl = fromExcept (.ok ()) := by
    have hlisted : textWeb.listed [utf16 "api.example.com"] apiUrl = true := by decide
    simp only [checkHost, apiOptions, buildAllowlistHook, hlisted]
    rfl
  have hattempt : (attemptFetch textWeb.toPlatform apiOptions textWeb.fetch apiUrl).run.Runs
      (redirected location) (.ok { status := 200 }) := by
    refine runs_fromExcept_bind.2 (runs_observe_bind.2
      ⟨redirected location, .ok { status := 200 }, [], by simp, ?_, rfl, rfl⟩)
    refine runs_except_bind_ok.2 ⟨redirected location, { status := 200 }, [], by simp, ?_, rfl, rfl⟩
    exact .ask (.ask (.ask (.ask ⟨rfl, rfl⟩)))
  refine runs_fromExcept_bind.2 ?_
  show (checkHost textWeb.toPlatform apiOptions apiUrl >>= fun _ => _).run.Runs _ _
  rw [hhost]
  exact runs_fromExcept_bind.2 (runs_retry_first rfl rfl hattempt)

theorem contained_iff_api :
    (∀ url, sent (redirected (utf16 "https://api.example.com/y")) url →
      textWeb.listed [utf16 "api.example.com"] url = true) ↔
    ∀ url, LeadsTo textWeb .follow (redirected (utf16 "https://api.example.com/y")) url →
      textWeb.listed [utf16 "api.example.com"] url = true := by
  have hfetch : ∀ f, (apiOptions.fetchImpl <|> some textWeb.fetch) = some f →
      f = textWeb.fetch := by
    rintro f ⟨rfl⟩
    rfl
  exact contained_iff rfl rfl hfetch (runs_redirected _)

/-- A server on the list leads to one that is not. -/
theorem exists_not_contained : ∃ location url,
    (safeFetch textWeb.toPlatform apiOptions (some textWeb.fetch) (.text apiUrl) 1).run.Runs
      (redirected location) (.ok (some { status := 200 })) ∧
    sent (redirected location) url ∧ textWeb.listed [utf16 "api.example.com"] url = false := by
  let location := utf16 "http://169.254.169.254/latest/meta-data/"
  have hsent : sent (redirected location) location := ⟨.ok { status := 200 }, by simp [redirected]⟩
  exact ⟨location, location, runs_redirected location, hsent, by decide⟩

end Resilience.TypeScript
