import Resilience.Foundations.Json.Numerals
import Resilience.Foundations.Runs
import Resilience.TypeScript.Guards
import Mathlib.Data.Nat.Cast.Order.Ring

/-!
# The proxy guard

`typescript/src/proxyGuard.ts`. SHA-256, and the text of a number in a template, are parameters
(`ProxyEnv`); the environment variable is read at each call.

The limiters are kept under the configuration, so that the limit holds for the calls with a
configuration, and calls that are refused before the limiter change nothing
(`unauthenticated_and_limited`). The client address is the hop that the outermost trusted proxy saw,
whatever the client wrote before it (`clientIp_append`).
-/

namespace Resilience.TypeScript

open Json SlidingWindow

/-- The platform. -/
structure ProxyEnv (D : Type) where
  /-- `createHash("sha256").update(s).digest()`. -/
  sha256 : Units → D
  /-- `${n}`. -/
  numberText : ℚ → Units

/-- `GuardProxyOptions`, with the identity of the limiter. -/
structure GuardProxyOptions (Ref : Type) where
  secret : Option Units := none
  secretHeader : Option String := none
  rateLimit : Option RateLimitOptions := none
  limiter : Option Ref := none
  ipHeaders : Option (List String) := none
  trustedProxyCount : Option ℚ := none

def defaultSecretHeader : String := "x-proxy-secret"

def defaultIpHeaders : List String := ["x-forwarded-for", "x-real-ip"]

/-- It begins with `x-forwarded-`, in any case. -/
def isHopListHeader (header : String) : Bool :=
  (header.toList.take 12).map Char.toLower == "x-forwarded-".toList

/-- `hops[i]`: only an index that is a whole number finds one. -/
def hopAt (hops : List Units) (i : ℚ) : Option Units :=
  if i.isInt ∧ 0 ≤ i then hops[i.num.toNat]? else none

def comma : Fin 0x10000 := toUnit 0x2C

/-- The hops of a header value, blank ones dropped. -/
def hopsOf (value : Units) : List Units :=
  ((value.splitOn comma).map trimmed).filter (!·.isEmpty)

/-- The loop of `clientIp`. -/
def selectClient (req : HttpRequest) (trustedProxyCount : ℚ) : List String → Units
  | [] => utf16 "unknown"
  | header :: ipHeaders =>
    let value := (req.header header).getD []
    if value.isEmpty then selectClient req trustedProxyCount ipHeaders
    else
      let hops := hopsOf value
      let client :=
        if isHopListHeader header then hopAt hops (hops.length - trustedProxyCount)
        else hopAt hops (hops.length - 1)
      match client with
      | some client =>
        if client.isEmpty then selectClient req trustedProxyCount ipHeaders else client
      | none => selectClient req trustedProxyCount ipHeaders

def clientIp (req : HttpRequest) (ipHeaders : List String) (trustedProxyCount : ℚ) : Units :=
  if trustedProxyCount ≤ 0 then utf16 "unknown" else selectClient req trustedProxyCount ipHeaders

/-! ## What trusted proxies append -/

/-- What a trusted proxy appends to the header: the address that it saw, after a comma and blanks
where the header has a value. -/
structure TrustedHop where
  blanks : Units
  address : Units
  all_isSpaceUnit : blanks.all isSpaceUnit = true
  address_ne_nil : address ≠ []
  comma_notMem : comma ∉ address
  trimmed_address : trimmed address = address

/-- The header after the hop. -/
def TrustedHop.append (value : Option Units) (hop : TrustedHop) : Option Units :=
  match value with
  | none => some hop.address
  | some value => some (value ++ comma :: (hop.blanks ++ hop.address))

theorem hopsOf_append_comma (v w : Units) : hopsOf (v ++ comma :: w) = hopsOf v ++ hopsOf w := by
  unfold hopsOf
  rw [List.splitOn_append_cons_self, List.map_append, List.filter_append]

theorem TrustedHop.hopsOf_address (hop : TrustedHop) {blanks : Units}
    (h : blanks.all isSpaceUnit = true) : hopsOf (blanks ++ hop.address) = [hop.address] := by
  rw [List.all_eq_true] at h
  have hcomma : comma ∉ blanks ++ hop.address := by
    intro hmem
    rcases List.mem_append.1 hmem with hmem | hmem
    · have hspace := h comma hmem
      revert hspace
      decide
    · exact hop.comma_notMem hmem
  have htrim : trimmed (blanks ++ hop.address) = hop.address := by
    rw [trimmed, trim, List.dropWhile_append_of_pos h]
    exact hop.trimmed_address
  have hne : (!hop.address.isEmpty) = true := by
    rw [Bool.not_eq_true', List.isEmpty_eq_false_iff]
    exact hop.address_ne_nil
  unfold hopsOf
  rw [List.splitOn_eq_singleton hcomma, List.map_singleton, htrim, List.filter_singleton, hne]
  rfl

/-- A trusted hop is the last one, whatever the header was. -/
theorem TrustedHop.hopsOf_append (value : Option Units) (hop : TrustedHop) :
    hopsOf ((hop.append value).getD []) = hopsOf (value.getD []) ++ [hop.address] := by
  cases value with
  | none => exact hop.hopsOf_address List.all_nil
  | some value =>
    rw [append, Option.getD_some, hopsOf_append_comma, hop.hopsOf_address hop.all_isSpaceUnit,
      Option.getD_some]

theorem hopsOf_foldl_append (value : Option Units) (hops : List TrustedHop) :
    hopsOf ((hops.foldl TrustedHop.append value).getD []) =
      hopsOf (value.getD []) ++ hops.map TrustedHop.address := by
  induction hops generalizing value with
  | nil => rw [List.foldl_nil, List.map_nil, List.append_nil]
  | cons hop hops ih =>
    rw [List.foldl_cons, ih, hop.hopsOf_append, List.map_cons, List.append_assoc,
      List.singleton_append]

theorem hopAt_sub (l r : List Units) (a : Units) :
    hopAt (l ++ a :: r) ((l ++ a :: r).length - (r.length + 1 : ℕ)) = some a := by
  have hindex : (((l ++ a :: r).length : ℚ) - (r.length + 1 : ℕ)) = (l.length : ℤ) := by
    rw [List.length_append, List.length_cons]
    push_cast
    ring
  have hint : ((l.length : ℤ) : ℚ).isInt = true := by
    rw [Rat.isInt, Rat.den_intCast, beq_self_eq_true]
  rw [hopAt, hindex, if_pos ⟨hint, by positivity⟩]
  simp

/-- **The client address cannot be spoofed**: with as many trusted proxies as are counted, it is the
address that the outermost one saw, whatever the client wrote in the header. -/
theorem clientIp_append (req : HttpRequest) (value : Option Units) (hop : TrustedHop)
    (hops : List TrustedHop)
    (h : req.header "x-forwarded-for" = (hop :: hops).foldl TrustedHop.append value) :
    clientIp req defaultIpHeaders (hops.length + 1 : ℕ) = hop.address := by
  have hhops := hopsOf_foldl_append value (hop :: hops)
  rw [← h, List.map_cons] at hhops
  have hne : ((req.header "x-forwarded-for").getD []).isEmpty = false := by
    rw [List.isEmpty_eq_false_iff]
    intro hnil
    rw [hnil] at hhops
    have hlen := congrArg List.length hhops
    rw [List.length_append] at hlen
    change 0 = _ at hlen
    simp at hlen
  have hat := hopAt_sub (hopsOf (value.getD [])) (hops.map TrustedHop.address) hop.address
  rw [List.length_map] at hat
  have haddress : hop.address.isEmpty = false := List.isEmpty_eq_false_iff.2 hop.address_ne_nil
  have hlist : isHopListHeader "x-forwarded-for" = true := by decide +kernel
  have hpos : ¬ ((hops.length + 1 : ℕ) : ℚ) ≤ 0 := by
    rw [Nat.cast_nonpos]
    omega
  rw [clientIp, if_neg hpos, defaultIpHeaders, selectClient]
  simp only [hne, hlist, hhops, hat, haddress, if_true, Bool.false_eq_true, if_false]

inductive ProxyGuardResult
  | ok (clientIp : Units)
  | denied (d : Denial)
  deriving DecidableEq

section Guard

variable {Ref D : Type} (env : ProxyEnv D)

/-- The key of `resolveLimiter`. -/
def limiterKey (rateLimit : RateLimitOptions) : Units :=
  env.numberText rateLimit.limit ++ utf16 "|" ++ env.numberText rateLimit.windowMs

/-- The unit that separates the numbers in a key. -/
def bar : Fin 0x10000 := toUnit 0x7C

theorem limiterKey_injective {env : ProxyEnv D} (htext : Function.Injective env.numberText)
    (hbar : ∀ q, bar ∉ env.numberText q) : Function.Injective (limiterKey env) := by
  intro config config' h
  have hsplit : env.numberText config.limit ++ bar :: env.numberText config.windowMs =
      env.numberText config'.limit ++ bar :: env.numberText config'.windowMs := by
    have hunit : utf16 "|" = [bar] := by decide
    simpa only [limiterKey, hunit, List.append_assoc, List.singleton_append] using h
  rw [List.append_cons_inj_of_notMem (hbar _) (hbar _)] at hsplit
  obtain ⟨hlimit, -, hwindow⟩ := hsplit
  cases config
  cases config'
  rw [RateLimitOptions.mk.injEq]
  exact ⟨htext hlimit, htext hwindow⟩

variable [DecidableEq Ref] [DecidableEq D]

def secretsMatch (provided expected : Units) : Bool :=
  env.sha256 provided == env.sha256 expected

/-- `processSecret` is `process.env.PROXY_API_SECRET` at the call; numbers are rounded by `fl`. -/
def checkProxyRequestIn (fl : ℚ → ℚ) (s : Limiters Units Ref) (processSecret : Option Units)
    (req : HttpRequest) (options : GuardProxyOptions Ref) (now later : ℚ) :
    Except String (ProxyGuardResult × Limiters Units Ref) :=
  let expected := (options.secret <|> processSecret).getD []
  if expected.isEmpty then
    .ok (.denied ⟨503, "Server misconfigured: proxy secret is not set", none⟩, s)
  else
    let provided := (req.header (options.secretHeader.getD defaultSecretHeader)).getD []
    if provided.isEmpty || !secretsMatch env provided expected then
      .ok (.denied ⟨401, "Unauthorized", none⟩, s)
    else do
      let ip := clientIp req (options.ipHeaders.getD defaultIpHeaders)
        (options.trustedProxyCount.getD 1)
      let key := (options.rateLimit.map (limiterKey env)).getD []
      match ← s.checkLimitIn fl key options.limiter options.rateLimit ip now later with
      | (some retryAfterMs, s) =>
        return (.denied ⟨429, "Too Many Requests", some retryAfterMs⟩, s)
      | (none, s) => return (.ok ip, s)

def guardProxyRequestIn (fl : ℚ → ℚ) (s : Limiters Units Ref) (processSecret : Option Units)
    (req : HttpRequest) (options : GuardProxyOptions Ref) (now later : ℚ) :
    Except String (Option HttpResponse × Limiters Units Ref) := do
  match ← checkProxyRequestIn env fl s processSecret req options now later with
  | (.ok _, s) => return (none, s)
  | (.denied d, s) => return (some (d.responseIn fl), s)

/-- `checkProxyRequestIn` on exact numbers. -/
def checkProxyRequest (s : Limiters Units Ref) (processSecret : Option Units) (req : HttpRequest)
    (options : GuardProxyOptions Ref) (now later : ℚ) :
    Except String (ProxyGuardResult × Limiters Units Ref) :=
  checkProxyRequestIn env id s processSecret req options now later

end Guard

/-! ## Sequences of calls -/

/-- A call, with the secret in the environment and its readings of the clock. -/
structure ProxyCall (Ref : Type) where
  processSecret : Option Units
  req : HttpRequest
  options : GuardProxyOptions Ref
  now : ℚ
  later : ℚ

/-- The call was refused before the limiter, with 401 or 503. -/
def Unauthenticated (r : Except String ProxyGuardResult) : Prop :=
  ∃ d, r = .ok (.denied d) ∧ (d.status = 401 ∨ d.status = 503)

namespace ProxyCall

variable {Ref D : Type} [DecidableEq Ref] [DecidableEq D] (env : ProxyEnv D)

/-- The answer, or the error thrown, and the limiters after the call. -/
def run (c : ProxyCall Ref) (s : Limiters Units Ref) :
    Except String ProxyGuardResult × Limiters Units Ref :=
  match checkProxyRequest env s c.processSecret c.req c.options c.now c.later with
  | .ok (r, s') => (.ok r, s')
  | .error e => (.error e, s)

def answers : Limiters Units Ref → List (ProxyCall Ref) → List (Except String ProxyGuardResult)
  | _, [] => []
  | s, c :: calls => (c.run env s).1 :: answers (c.run env s).2 calls

/-- The times of the calls with the configuration that are answered `ok` for the client. -/
def granted (config : RateLimitOptions) (ip : Units) :
    Limiters Units Ref → List (ProxyCall Ref) → List ℚ
  | _, [] => []
  | s, c :: calls =>
    let rest := granted config ip (c.run env s).2 calls
    if c.options.limiter = none ∧ c.options.rateLimit = some config ∧
        (c.run env s).1 = .ok (.ok ip) then c.now :: rest
    else rest

/-- The client address of a call. -/
def ip (c : ProxyCall Ref) : Units :=
  clientIp c.req (c.options.ipHeaders.getD defaultIpHeaders) (c.options.trustedProxyCount.getD 1)

/-- The key of the limiter of a call. -/
def key (c : ProxyCall Ref) : Units := (c.options.rateLimit.map (limiterKey env)).getD []

variable {env} {c : ProxyCall Ref} {s : Limiters Units Ref}

/-- A call changes nothing, or the limiter answers it. -/
theorem run_cases (env : ProxyEnv D) (c : ProxyCall Ref) (s : Limiters Units Ref) :
    (c.run env s).2 = s ∧ (Unauthenticated (c.run env s).1 ∨ ∃ e, (c.run env s).1 = .error e) ∨
      ∃ refusal, s.checkLimit (c.key env) c.options.limiter c.options.rateLimit c.ip c.now c.later =
          .ok (refusal, (c.run env s).2) ∧
        (refusal = none ∧ (c.run env s).1 = .ok (.ok c.ip) ∨
          ∃ ms, refusal = some ms ∧
            (c.run env s).1 = .ok (.denied ⟨429, "Too Many Requests", some ms⟩)) := by
  unfold run checkProxyRequest checkProxyRequestIn
  dsimp only [Limiters.checkLimitIn_id]
  split_ifs
  · exact .inl ⟨rfl, .inl ⟨_, rfl, .inr rfl⟩⟩
  · exact .inl ⟨rfl, .inl ⟨_, rfl, .inl rfl⟩⟩
  · rw [key, ip]
    rcases s.checkLimit ((c.options.rateLimit.map (limiterKey env)).getD []) c.options.limiter
      c.options.rateLimit (clientIp c.req (c.options.ipHeaders.getD defaultIpHeaders)
        (c.options.trustedProxyCount.getD 1)) c.now c.later with e | ⟨_ | ms, s'⟩
    · exact .inl ⟨rfl, .inr ⟨e, rfl⟩⟩
    · exact .inr ⟨none, rfl, .inl ⟨rfl, rfl⟩⟩
    · exact .inr ⟨some ms, rfl, .inr ⟨ms, rfl, rfl⟩⟩

/-- **Unauthenticated calls change nothing.** -/
theorem run_unauthenticated (h : Unauthenticated (c.run env s).1) : (c.run env s).2 = s := by
  rcases run_cases env c s with ⟨hsame, -⟩ | ⟨refusal, -, ⟨-, hok⟩ | ⟨ms, -, hdenied⟩⟩
  · exact hsame
  · obtain ⟨d, hd, -⟩ := h
    rw [hok] at hd
    cases hd
  · obtain ⟨d, hd, hstatus⟩ := h
    rw [hdenied] at hd
    cases hd
    simp at hstatus

/-- Deleting unauthenticated calls leaves the answers of the others. -/
theorem answers_deleted (s : Limiters Units Ref) (calls : List (ProxyCall Ref × Bool))
    (h : ∀ x ∈ calls.zip (answers env s (calls.map Prod.fst)), x.1.2 = false →
      Unauthenticated x.2) :
    answers env s ((calls.filter Prod.snd).map Prod.fst) =
      ((calls.zip (answers env s (calls.map Prod.fst))).filter (·.1.2)).map Prod.snd := by
  induction calls generalizing s with
  | nil => rfl
  | cons x calls ih =>
    obtain ⟨c, keep⟩ := x
    rw [List.map_cons, answers, List.zip_cons_cons] at h ⊢
    obtain ⟨hfirst, hrest⟩ := List.forall_mem_cons.1 h
    cases keep with
    | true => exact congrArg ((c.run env s).1 :: ·) (ih _ hrest)
    | false =>
      have hsame := run_unauthenticated (hfirst rfl)
      rw [hsame] at hrest ⊢
      exact ih s hrest

/-! ## Quotas -/

theorem granted_cons (config : RateLimitOptions) (ip : Units) (s : Limiters Units Ref)
    (c : ProxyCall Ref) (calls : List (ProxyCall Ref)) :
    granted env config ip s (c :: calls) =
      (if c.options.limiter = none ∧ c.options.rateLimit = some config ∧
          (c.run env s).1 = .ok (.ok ip) then [c.now] else []) ++
        granted env config ip (c.run env s).2 calls := by
  rw [granted]
  split_ifs <;> rfl

/-- The calls for a configuration and a client, among all others. -/
theorem atMost_granted (hkey : Function.Injective (limiterKey env)) {config : RateLimitOptions}
    {n : ℕ} (hn : config.limit = n) (ip : Units) {calls : List (ProxyCall Ref)} {times : List ℚ}
    {before : ℚ} (hclock : (before :: calls.map (·.now)).Pairwise (· ≤ ·))
    (htracks : s.Tracks (limiterKey env config) config ip times before)
    (h : AtMost config.windowMs n times) :
    AtMost config.windowMs n (times ++ granted env config ip s calls) := by
  induction calls generalizing s times before with
  | nil => rwa [granted, List.append_nil]
  | cons c calls ih =>
    rw [List.map_cons] at hclock
    obtain ⟨hbefore, hclock⟩ := List.pairwise_cons.1 hclock
    have hle := hbefore c.now (List.mem_cons_self ..)
    rw [granted_cons, ← List.append_assoc]
    obtain ⟨hsame, hanswer⟩ | ⟨refusal, hcheck, hanswer⟩ := run_cases env c s
    · have hnot : ¬ (c.options.limiter = none ∧ c.options.rateLimit = some config ∧
          (c.run env s).1 = .ok (.ok ip)) := by
        rintro ⟨-, -, hok⟩
        rw [hok] at hanswer
        rcases hanswer with ⟨d, hd, -⟩ | ⟨e, he⟩
        · cases hd
        · cases he
      rw [if_neg hnot, List.append_nil, hsame]
      exact ih hclock (htracks.mono hle) h
    by_cases hmine : c.options.limiter = none ∧ c.options.rateLimit = some config ∧ c.ip = ip
    · obtain ⟨hlimiter, hconfig, rfl⟩ := hmine
      rw [key, hlimiter, hconfig, Option.map_some, Option.getD_some] at hcheck
      obtain ⟨hroom, hafter⟩ := htracks.checkLimit hle hcheck
      rw [hn, Nat.cast_lt] at hroom
      rcases hanswer with ⟨rfl, hok⟩ | ⟨ms, rfl, hdenied⟩
      · rw [if_pos ⟨hlimiter, hconfig, hok⟩]
        exact ih hclock hafter (atMost_append h (hroom.1 rfl))
      · rw [if_neg fun hok => by simp [hdenied] at hok, List.append_nil]
        exact ih hclock hafter h
    · have hnot : ¬ (c.options.limiter = none ∧ c.options.rateLimit = some config ∧
          (c.run env s).1 = .ok (.ok ip)) := by
        rintro ⟨hlimiter, hconfig, hok⟩
        rcases hanswer with ⟨-, hok'⟩ | ⟨ms, -, hdenied⟩
        · simp only [hok, Except.ok.injEq, ProxyGuardResult.ok.injEq] at hok'
          exact hmine ⟨hlimiter, hconfig, hok'.symm⟩
        · simp [hdenied] at hok
      rw [if_neg hnot, List.append_nil]
      have hother := (htracks.mono hle).checkLimit_other hcheck
      refine ih hclock (hother fun config' hlimiter hconfig hsame => ?_) h
      rw [key, hconfig, Option.map_some, Option.getD_some] at hsame
      obtain rfl := hkey hsame
      exact ⟨rfl, fun heq => hmine ⟨hlimiter, hconfig, heq⟩⟩

/-! ## An environment -/

/-- Whole numbers as JavaScript writes them below 10^21, the others as fractions. -/
def fractionText (q : ℚ) : Text :=
  if q.den = 1 then printInt q.num else printInt q.num ++ 0x2F :: printNat q.den

theorem mem_fractionText {q : ℚ} {n : ℕ} (h : n ∈ fractionText q) : 0x2D ≤ n ∧ n ≤ 0x39 := by
  have hint : n ∈ printInt q.num → 0x2D ≤ n ∧ n ≤ 0x39 := by
    intro hn
    rcases mem_printInt hn with rfl | hn
    · decide
    · rw [isDigit_iff] at hn
      omega
  unfold fractionText at h
  split_ifs at h
  · exact hint h
  · rcases List.mem_append.1 h with h | h
    · exact hint h
    · rcases List.mem_cons.1 h with rfl | h
      · decide
      · have hn := isDigit_iff.1 (mem_printNat h)
        omega

theorem slash_notMem_printInt (n : ℤ) : 0x2F ∉ printInt n := by
  intro h
  rcases mem_printInt h with h | h
  · cases h
  · cases h

theorem slash_notMem_printNat (n : ℕ) : 0x2F ∉ printNat n := by
  intro h
  cases mem_printNat h

theorem fractionText_injective : Function.Injective fractionText := by
  have hint {m n : ℤ} (h : printInt m = printInt n) : m = n := by
    rw [← Option.some_inj, ← readInt_printInt, ← readInt_printInt, h]
  have hnat {m n : ℕ} (h : printNat m = printNat n) : m = n := by
    rw [← Option.some_inj, ← readNat_printNat, ← readNat_printNat, h]
  intro q r h
  unfold fractionText at h
  split_ifs at h with hq hr hr
  · exact Rat.ext (hint h) (hq.trans hr.symm)
  · exact absurd (h ▸ List.mem_append_right _ (List.mem_cons_self ..)) (slash_notMem_printInt q.num)
  · exact absurd (h ▸ List.mem_append_right _ (List.mem_cons_self ..)) (slash_notMem_printInt r.num)
  · rw [List.append_cons_inj_of_notMem (slash_notMem_printInt _) (slash_notMem_printNat _)] at h
    exact Rat.ext (hint h.1) (hnat h.2.2)

/-- SHA-256 on the secrets below, and numbers as fractions. -/
def fractions : ProxyEnv ℕ where
  sha256 s :=
    if s = utf16 "s3cret" then 0x1ec1c26b50d5d3c58d9583181af8076655fe00756bf7285940ba3670f99fcba0
    else if s = utf16 "wrong" then
      0x8810ad581e59f2bc3928b261707a71308f7e139eb04820366dc4d5c18d980225
    else 0
  numberText q := units (fractionText q)

theorem codes_units_fractionText (q : ℚ) : codes (units (fractionText q)) = fractionText q := by
  apply codes_units
  intro n hn
  have hle := (mem_fractionText hn).2
  omega

theorem fractions_injective : Function.Injective fractions.numberText := by
  intro q r h
  have hcodes := congrArg codes h
  rw [fractions, codes_units_fractionText, codes_units_fractionText] at hcodes
  exact fractionText_injective hcodes

theorem bar_notMem_fractions (q : ℚ) : bar ∉ fractions.numberText q := by
  intro h
  have hcode : (0x7C : ℕ) ∈ codes (units (fractionText q)) := List.mem_map_of_mem (f := Fin.val) h
  rw [codes_units_fractionText] at hcode
  have hle := (mem_fractionText hcode).2
  omega

/-- A request with a secret, and what the client and two proxies wrote in the header. -/
def request (secret : String) : HttpRequest where
  header name :=
    if name = "x-proxy-secret" then some (utf16 secret)
    else if name = "x-forwarded-for" then some (utf16 "6.6.6.6,, 203.0.113.7, 10.0.0.1")
    else if name = "x-real-ip" then some (utf16 "7.7.7.7")
    else none

/-- The request at a time, to a route of one call a minute behind two proxies. -/
def callAt (secret : String) (now : ℚ) : ProxyCall ℕ where
  processSecret := some (utf16 "s3cret")
  req := request secret
  options := { rateLimit := some ⟨1, 60000⟩, trustedProxyCount := some 2 }
  now
  later := now

/-! ## What the guard guarantees -/

/-- **Traffic without the secret costs no quota, and quotas do not mix.** Deleting calls that were
answered 401 or 503 leaves the answers of the others, and for a configuration with a whole limit and
a client address, at most `limit` calls are answered `ok` in each window. -/
theorem unauthenticated_and_limited (env : ProxyEnv D)
    (htext : Function.Injective env.numberText) (hbar : ∀ q, bar ∉ env.numberText q)
    (passed : Ref → SlidingWindowRateLimiter) :
    (∀ (s : Limiters Units Ref) (calls : List (ProxyCall Ref × Bool)),
      (∀ x ∈ calls.zip (answers env s (calls.map Prod.fst)), x.1.2 = false →
        Unauthenticated x.2) →
      answers env s ((calls.filter Prod.snd).map Prod.fst) =
        ((calls.zip (answers env s (calls.map Prod.fst))).filter (·.1.2)).map Prod.snd) ∧
    ∀ calls : List (ProxyCall Ref), (calls.map (·.now)).Pairwise (· ≤ ·) →
      ∀ (limit : ℕ) (windowMs : ℚ) (ip : Units) (a : ℚ),
        countFrom windowMs a (granted env ⟨limit, windowMs⟩ ip ⟨fun _ => none, passed⟩ calls) ≤
          limit := by
  refine ⟨answers_deleted, fun calls hclock limit windowMs ip a => ?_⟩
  obtain ⟨before, hbefore⟩ := Runs.exists_pairwise_cons hclock
  have hempty : Limiters.Tracks ⟨fun _ => none, passed⟩ (limiterKey env ⟨limit, windowMs⟩)
      ⟨limit, windowMs⟩ ip [] before := Limiters.tracks_of_none rfl
  exact atMost_granted (limiterKey_injective htext hbar) rfl ip hbefore hempty (atMost_nil limit) a

/-- A call with another secret, and two with the secret within a minute. -/
theorem unauthenticated_and_limited_attacker :
    ∃ l, SlidingWindowRateLimiter.create ⟨1, 60000⟩ = .ok l ∧
      answers fractions ⟨fun _ => none, fun _ : ℕ => l⟩ [callAt "s3cret" 10, callAt "s3cret" 20] =
        [.ok (.ok (utf16 "203.0.113.7")), .ok (.denied ⟨429, "Too Many Requests", some 59990⟩)] ∧
      countFrom 60000 0 (granted fractions ⟨1, 60000⟩ (utf16 "203.0.113.7")
        ⟨fun _ => none, fun _ : ℕ => l⟩
        [callAt "wrong" 0, callAt "s3cret" 10, callAt "s3cret" 20]) ≤ 1 := by
  let l : SlidingWindowRateLimiter := ⟨1, 60000, fun _ => [], le_rfl, by norm_num⟩
  let empty : Limiters Units ℕ := ⟨fun _ => none, fun _ => l⟩
  refine ⟨l, rfl, ?_⟩
  obtain ⟨hdeleted, hlimited⟩ :=
    unauthenticated_and_limited fractions fractions_injective bar_notMem_fractions empty.passed
  have hanswers : answers fractions empty
      [callAt "wrong" 0, callAt "s3cret" 10, callAt "s3cret" 20] =
        [.ok (.denied ⟨401, "Unauthorized", none⟩), .ok (.ok (utf16 "203.0.113.7")),
          .ok (.denied ⟨429, "Too Many Requests", some 59990⟩)] := by
    decide +kernel
  constructor
  · have hkept := hdeleted empty
      [(callAt "wrong" 0, false), (callAt "s3cret" 10, true), (callAt "s3cret" 20, true)]
    simp only [List.map_cons, List.map_nil, List.filter_cons, List.filter_nil, if_true,
      Bool.false_eq_true, if_false] at hkept
    rw [hanswers] at hkept
    refine (hkept fun x hx hfalse => ?_).trans rfl
    simp only [List.zip_cons_cons, List.zip_nil_right, List.mem_cons, List.not_mem_nil,
      or_false] at hx
    rcases hx with rfl | rfl | rfl
    · exact ⟨_, rfl, .inl rfl⟩
    · cases hfalse
    · cases hfalse
  · exact hlimited _ (by decide) 1 60000 _ 0

/-- **Whom a call is counted for.** With as many trusted proxies as are counted and the default
headers, the limiter is asked about the address that the outermost one saw, and the answer carries
that address. -/
theorem run_for_outermost (env : ProxyEnv D) (c : ProxyCall Ref) (value : Option Units)
    (hop : TrustedHop) (hops : List TrustedHop)
    (hheader : c.req.header "x-forwarded-for" = (hop :: hops).foldl TrustedHop.append value)
    (hcount : c.options.trustedProxyCount = some (hops.length + 1 : ℕ))
    (hdefault : c.options.ipHeaders = none) :
    clientIp c.req (c.options.ipHeaders.getD defaultIpHeaders)
        (c.options.trustedProxyCount.getD 1) = hop.address ∧
      ∀ s : Limiters Units Ref,
        (c.run env s).2 = s ∧
            (Unauthenticated (c.run env s).1 ∨ ∃ e, (c.run env s).1 = .error e) ∨
          ∃ refusal, s.checkLimit (c.key env) c.options.limiter c.options.rateLimit hop.address
                c.now c.later = .ok (refusal, (c.run env s).2) ∧
            (refusal = none ∧ (c.run env s).1 = .ok (.ok hop.address) ∨
              ∃ ms, refusal = some ms ∧
                (c.run env s).1 = .ok (.denied ⟨429, "Too Many Requests", some ms⟩)) := by
  have hip : c.ip = hop.address := by
    rw [ip, hdefault, hcount]
    exact clientIp_append c.req value hop hops hheader
  exact ⟨hip, fun s => hip ▸ run_cases env c s⟩

/-- The client wrote `6.6.6.6,`; its call is admitted under the address that the outer proxy saw. -/
theorem run_for_outermost_two :
    ∃ l, SlidingWindowRateLimiter.create ⟨1, 60000⟩ = .ok l ∧
      let empty : Limiters Units ℕ := ⟨fun _ => none, fun _ => l⟩
      let ran := (callAt "s3cret" 0).run fractions empty
      clientIp (request "s3cret") defaultIpHeaders 2 = utf16 "203.0.113.7" ∧
        ran.1 = .ok (.ok (utf16 "203.0.113.7")) ∧
        empty.checkLimit ((callAt "s3cret" 0).key fractions) none (some ⟨1, 60000⟩)
          (utf16 "203.0.113.7") 0 0 = .ok (none, ran.2) := by
  let l : SlidingWindowRateLimiter := ⟨1, 60000, fun _ => [], le_rfl, by norm_num⟩
  refine ⟨l, rfl, ?_⟩
  intro empty ran
  have hran : ran.1 = .ok (.ok (utf16 "203.0.113.7")) := by decide +kernel
  obtain ⟨hip, hrun⟩ := run_for_outermost fractions (callAt "s3cret" 0) (some (utf16 "6.6.6.6,"))
    ⟨utf16 " ", utf16 "203.0.113.7", by decide +kernel, by decide +kernel, by decide +kernel,
      by decide +kernel⟩
    [⟨utf16 " ", utf16 "10.0.0.1", by decide +kernel, by decide +kernel, by decide +kernel,
      by decide +kernel⟩]
    (by decide +kernel) (by decide +kernel) rfl
  refine ⟨hip, hran, ?_⟩
  rcases hrun empty with ⟨-, ⟨refused, hdenied, -⟩ | ⟨e, herror⟩⟩ |
    ⟨refusal, hcheck, ⟨rfl, -⟩ | ⟨ms, rfl, hdenied⟩⟩
  · cases hran.symm.trans hdenied
  · cases hran.symm.trans herror
  · exact hcheck
  · cases hran.symm.trans hdenied

end ProxyCall

end Resilience.TypeScript
