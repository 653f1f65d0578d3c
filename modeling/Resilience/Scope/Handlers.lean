import Resilience.Foundations.Fallible
import Resilience.Foundations.Subprograms
import Resilience.Scope.Athena

/-!
# The analysis handler

`validate_in_allowlist` of `scope_core/athena.py` and `BaseAnalysisHandler` of
`scope_core/handlers.py`, over the client of `Scope/Athena`. The hook `build_query` is answered from
outside, like Athena; what Python does with the values of a caller (membership in the allowlist,
`repr`, `str` of an exception) is a `Runtime`.

The allowlist stands between the caller and Athena: in every run, each query that is started comes
right from `build_query`, for an entity that was let through (`barrier_analyze`). The entities do
not disturb each other: those that are not let through ask nothing, and all the others are analysed
as if they were alone (`runs_analyze_iff_filter`).
-/

namespace Resilience.Scope

open Json

/-! ## The handler -/

/-- What Python does with entities `ι` and exceptions `Exn`. -/
structure Runtime (ι Exn : Type) where
  /-- `value in allowed_set`, which takes the hash of the value. -/
  contains : ι → Except Exn Bool
  /-- `{value!r}`. -/
  repr : ι → Except Exn Str
  /-- `str(exc)`. -/
  str : Exn → Except Exn Str
  /-- `isinstance(exc, Exception)`. -/
  isException : Exn → Bool
  /-- A number in an f-string. -/
  formatNumber : Number → Str

/-- The `event` of an invocation. -/
abbrev Event (δ : Type) := List (Str × δ)

inductive HandlerRequest (ι δ : Type)
  | athena (request : Request)
  | buildQuery (entity : ι) (event : Event δ)

abbrev HandlerAnswer (Exn : Type) {ι δ : Type} : HandlerRequest ι δ → Type
  | .athena request => Answer Exn request
  | .buildQuery _ _ => Except Exn (Str × List Str)

inductive AnalysisError (Exn : Type)
  | identifierError (message : Str)
  | athena (e : AthenaError Exn)
  | raised (e : Exn)

variable {ι δ Exn : Type}

abbrev HandlerProg (ι δ Exn α : Type) :=
  ExceptT (AnalysisError Exn) (Prog (HandlerRequest ι δ) (HandlerAnswer Exn)) α

abbrev HandlerEvent (ι δ Exn : Type) := Prog.Event (HandlerRequest ι δ) (HandlerAnswer Exn)

abbrev HandlerTrace (ι δ Exn : Type) := List (HandlerEvent ι δ Exn)

/-- A value of a result. -/
inductive ResultValue (ι : Type)
  | entity (entity : ι)
  | text (s : Str)
  | rows (rows : Option (List SafeAthenaClient.Record))

/-- A result, as a `dict`. -/
abbrev Result (ι : Type) := List (Str × ResultValue ι)

/-- `validate_in_allowlist`. -/
def validateInAllowlist (rt : Runtime ι Exn) (value : ι) (field : Str) :
    Except (AnalysisError Exn) ι :=
  match rt.contains value with
  | .error e => .error (.raised e)
  | .ok true => .ok value
  | .ok false =>
    match rt.repr value with
    | .ok repr =>
      .error (.identifierError (codePoints "Disallowed " ++ field ++ codePoints ": " ++ repr))
    | .error e => .error (.raised e)

/-- `str(exc)` in the handler of the loop, which other exceptions than `Exception` go through, and
which is not there yet while the query is polled. -/
def caught (rt : Runtime ι Exn) : AnalysisError Exn → Except (AnalysisError Exn) Str
  | .identifierError message => .ok message
  | .athena (.athenaQueryError message) => .ok message
  | .athena (.athenaTimeoutError queryExecutionId maxWait) =>
    .ok (codePoints "Athena query " ++ queryExecutionId ++ codePoints " did not finish within " ++
      rt.formatNumber maxWait ++ codePoints "s")
  | .athena .polling => .error (.athena .polling)
  | .athena (.raised e) | .raised e =>
    if rt.isException e then (rt.str e).mapError .raised else .error (.raised e)

structure BaseAnalysisHandler where
  client : SafeAthenaClient
  entityField : Str := codePoints "entity"

namespace BaseAnalysisHandler

variable (self : BaseAnalysisHandler) (rt : Runtime ι Exn)

/-- What `analyze_entity` returns. -/
def completed (entity : ι) (result : SafeAthenaClient.Execution) : Result ι :=
  assignAll [(self.entityField, .entity entity),
    (codePoints "query_execution_id", .text result.queryExecutionId),
    (codePoints "status", .text (codePoints "completed")),
    (codePoints "rows", .rows result.rows)]

/-- What `analyze` appends for an entity that raised. -/
def failed (entity : ι) (error : Str) : Result ι :=
  assignAll [(self.entityField, .entity entity),
    (codePoints "status", .text (codePoints "error")), (codePoints "error", .text error)]

def analyzeEntity (event : Event δ) (fuel : ℕ) (entity : ι) : HandlerProg ι δ Exn (Result ι) := do
  let _ ← fromExcept (validateInAllowlist rt entity self.entityField)
  let (query, parameters) ← perform (.buildQuery entity event) (·.mapError .raised)
  let result ← within HandlerRequest.athena AnalysisError.athena
    (self.client.execute query (some parameters) none true none 1000 fuel)
  fromExcept (.ok (self.completed entity result))

/-- The body of the loop of `analyze`. -/
def attempt (event : Event δ) (fuel : ℕ) (entity : ι) : HandlerProg ι δ Exn (Result ι) := do
  match ← observe (self.analyzeEntity rt event fuel entity) with
  | .ok result => fromExcept (.ok result)
  | .error exc =>
    let error ← fromExcept (caught rt exc)
    fromExcept (.ok (self.failed entity error))

def analyze (entities : List ι) (event : Option (Event δ)) (fuel : ℕ) :
    HandlerProg ι δ Exn (List (Result ι)) :=
  entities.mapM (self.attempt rt (event.getD []) fuel)

end BaseAnalysisHandler

/-! ## What reaches Athena -/

section Barrier

variable {self : BaseAnalysisHandler} {rt : Runtime ι Exn} {entities : List ι} {event : Event δ}
  {fuel : ℕ}

/-- A request to start a query. -/
def Request.IsStart : Request → Prop
  | .startQueryExecution _ => True
  | _ => False

/-- Nothing is started. -/
def Quiet (t : AthenaTrace Exn) : Prop := ∀ ev ∈ t, ¬ ev.1.IsStart

theorem composes_quiet : Composes (Quiet : AthenaTrace Exn → Prop) :=
  composes_forall_mem fun ev => ¬ Request.IsStart ev.1

/-- What holds of the requests that are made while polling holds of the loop. -/
theorem tracesIn_wait {P : AthenaTrace Exn → Prop} (hP : Composes P) {client : SafeAthenaClient}
    {qid : Str} {timeout interval : Option Number}
    (hstatus : ∀ r, P [⟨.getQueryExecution qid, r⟩]) (hclock : ∀ now, P [⟨.monotonic, now⟩])
    (hsleep : ∀ step r, P [⟨.sleep step, r⟩]) :
    TracesIn P (client.wait qid timeout interval fuel) := by
  have hpoll : ∀ maxWait step deadline, TracesIn P (SafeAthenaClient.poll qid maxWait step deadline
      fuel : AthenaProg Exn QueryState) := by
    intro maxWait step deadline
    induction fuel with
    | zero => exact tracesIn_fromExcept hP
    | succ fuel ih =>
      refine tracesIn_bind hP (tracesIn_perform hstatus) fun status => ?_
      split_ifs
      · exact tracesIn_fromExcept hP
      · exact tracesIn_fromExcept hP
      · refine tracesIn_bind hP (tracesIn_perform hclock) fun now => ?_
        split_ifs
        · exact tracesIn_fromExcept hP
        · exact tracesIn_bind hP (tracesIn_perform (hsleep step)) fun _ => ih
  exact tracesIn_bind hP (tracesIn_perform hclock) fun now => hpoll _ _ _

/-- Every execution starts one query, first. -/
theorem runs_execute_start {client : SafeAthenaClient} {query : Str}
    {parameters : Option (List Str)} {outputLocation : Option Str} {fetch : Bool}
    {timeout : Option Number} {maxResults : ℤ}
    {t : AthenaTrace Exn} {r : Except (AthenaError Exn) SafeAthenaClient.Execution}
    (h : (client.execute query parameters outputLocation fetch timeout maxResults fuel).run.Runs
      t r) :
    ∃ answer rest, t = ⟨.startQueryExecution ⟨query, client.database,
        client.locationOf outputLocation, SafeAthenaClient.executionParameters parameters⟩,
        answer⟩ :: rest ∧ Quiet rest := by
  obtain ⟨answer, rest, rfl, hrest⟩ := runs_perform_bind.1 h
  refine ⟨answer, rest, rfl, ?_⟩
  cases answer with
  | error e =>
    obtain ⟨rfl, -⟩ := hrest
    exact composes_quiet.nil
  | ok qid =>
    have hquiet : ∀ {request : Request}, ¬ request.IsStart →
        ∀ r : Answer Exn request, Quiet [⟨request, r⟩] :=
      fun hrequest _ => List.forall_mem_singleton.2 hrequest
    refine tracesIn_bind composes_quiet ?_ (fun state => ?_) _ _ hrest
    · exact tracesIn_wait composes_quiet (hquiet not_false) (hquiet not_false)
        fun step => hquiet not_false
    · split_ifs
      · refine tracesIn_bind composes_quiet ?_ fun rows => tracesIn_fromExcept composes_quiet
        exact tracesIn_bind composes_quiet (tracesIn_perform (hquiet not_false)) fun _ =>
          tracesIn_fromExcept composes_quiet
      · exact tracesIn_fromExcept composes_quiet

/-- An entity that was let through. -/
def Admitted (rt : Runtime ι Exn) (entities : List ι) (entity : ι) : Prop :=
  entity ∈ entities ∧ rt.contains entity = .ok true

/-- Queries are built for entities that were let through, and started right after they were built:
as they are, with their parameters apart. -/
structure Barrier (rt : Runtime ι Exn) (client : SafeAthenaClient) (entities : List ι)
    (event : Event δ) (t : HandlerTrace ι δ Exn) : Prop where
  built : ∀ entity event' answer, ⟨.buildQuery entity event', answer⟩ ∈ t →
    Admitted rt entities entity ∧ event' = event
  started : ∀ before kwargs answer after,
    t = before ++ ⟨.athena (.startQueryExecution kwargs), answer⟩ :: after →
    ∃ before' entity query parameters,
      before = before' ++ [⟨.buildQuery entity event, .ok (query, parameters)⟩] ∧
        kwargs = ⟨query, client.database, client.outputLocation,
          SafeAthenaClient.executionParameters (some parameters)⟩

theorem composes_barrier {client : SafeAthenaClient} :
    Composes (Barrier rt client entities event : HandlerTrace ι δ Exn → Prop) where
  nil := by
    constructor
    · exact fun entity event' answer h => absurd h List.not_mem_nil
    · intro before kwargs answer after h
      simp at h
  append := by
    intro t₁ t₂ h₁ h₂
    constructor
    · intro entity event' answer h
      obtain h | h := List.mem_append.1 h
      · exact h₁.built entity event' answer h
      · exact h₂.built entity event' answer h
    · intro before kwargs answer after h
      obtain ⟨middle, rfl, hmiddle⟩ | ⟨middle, rfl, hmiddle⟩ := List.append_eq_append_iff.1 h
      · obtain ⟨before', entity, query, parameters, rfl, hkwargs⟩ := h₂.started _ _ _ _ hmiddle
        exact ⟨t₁ ++ before', entity, query, parameters, by rw [List.append_assoc], hkwargs⟩
      · cases middle with
        | nil =>
          -- the second trace does not begin with a query
          obtain ⟨before', _, _, _, hnil, -⟩ := h₂.started [] _ _ _ hmiddle.symm
          simp at hnil
        | cons ev middle =>
          obtain ⟨rfl, -⟩ := List.cons.inj hmiddle
          exact h₁.started _ _ _ _ rfl

theorem barrier_of_execution {client : SafeAthenaClient} {entity : ι}
    (hentity : Admitted rt entities entity) {query : Str} {parameters : List Str}
    {answer : Except Exn Str} {rest : AthenaTrace Exn} (hrest : Quiet rest) :
    Barrier rt client entities event
      (⟨.buildQuery entity event, .ok (query, parameters)⟩ ::
        (⟨.startQueryExecution ⟨query, client.database, client.outputLocation,
            SafeAthenaClient.executionParameters (some parameters)⟩, answer⟩ :: rest).map
          (Prog.Event.embed HandlerRequest.athena) : HandlerTrace ι δ Exn) := by
  constructor
  · intro entity' event' answer' h
    obtain h | h := List.mem_cons.1 h
    · cases h
      exact ⟨hentity, rfl⟩
    · obtain ⟨ev, -, hev⟩ := List.mem_map.1 h
      cases congrArg Sigma.fst hev
  · intro before kwargs answer' after h
    cases before with
    | nil => cases congrArg Sigma.fst (List.cons.inj h).1
    | cons ev before =>
      obtain ⟨rfl, hexec⟩ := List.cons.inj h
      clear h
      cases before with
      | nil =>
        have hstart := congrArg Sigma.fst (List.cons.inj hexec).1
        have hkwargs := Request.startQueryExecution.inj (HandlerRequest.athena.inj hstart)
        exact ⟨[], entity, query, parameters, rfl, hkwargs.symm⟩
      | cons ev before =>
        -- nothing is started later
        have htail := (List.cons.inj hexec).2
        have hmem : (⟨.athena (.startQueryExecution kwargs), answer'⟩ : HandlerEvent ι δ Exn) ∈
            rest.map (Prog.Event.embed HandlerRequest.athena) := by
          rw [htail]
          exact List.mem_append_right before (List.mem_cons_self ..)
        obtain ⟨ev', hev', heq⟩ := List.mem_map.1 hmem
        have hstart : HandlerRequest.athena ev'.1 = .athena (.startQueryExecution kwargs) :=
          congrArg Sigma.fst heq
        have hquiet := hrest ev' hev'
        rw [HandlerRequest.athena.inj hstart] at hquiet
        exact absurd trivial hquiet

theorem barrier_of_build {client : SafeAthenaClient} {entity : ι}
    (hentity : Admitted rt entities entity) {answer : Except Exn (Str × List Str)} :
    Barrier rt client entities event
      ([⟨.buildQuery entity event, answer⟩] : HandlerTrace ι δ Exn) := by
  constructor
  · intro entity' event' answer' h
    cases List.mem_singleton.1 h
    exact ⟨hentity, rfl⟩
  · intro before kwargs answer' after h
    have hmem : (⟨.athena (.startQueryExecution kwargs), answer'⟩ : HandlerEvent ι δ Exn) ∈
        ([⟨.buildQuery entity event, answer⟩] : HandlerTrace ι δ Exn) := by
      rw [h]
      exact List.mem_append_right before (List.mem_cons_self ..)
    cases congrArg Sigma.fst (List.mem_singleton.1 hmem)

theorem contains_of_validateInAllowlist {entity value : ι} {field : Str}
    (h : validateInAllowlist rt entity field = .ok value) : rt.contains entity = .ok true := by
  unfold validateInAllowlist at h
  split at h
  · cases h
  · assumption
  · split at h <;> cases h

/-- What is asked for one entity. -/
theorem tracesIn_analyzeEntity {entity : ι} (hentity : entity ∈ entities) :
    TracesIn (Barrier rt self.client entities event)
      (self.analyzeEntity rt event fuel entity : HandlerProg ι δ Exn (Result ι)) := by
  intro t r h
  have hvalidated := runs_fromExcept_bind.1 h
  clear h
  cases hvalid : validateInAllowlist rt entity self.entityField with
  | error e =>
    rw [hvalid] at hvalidated
    obtain ⟨rfl, -⟩ := hvalidated
    exact composes_barrier.nil
  | ok value =>
    rw [hvalid] at hvalidated
    have hadmitted : Admitted rt entities entity :=
      ⟨hentity, contains_of_validateInAllowlist hvalid⟩
    obtain ⟨built, t', rfl, hbuilt⟩ := runs_perform_bind.1 hvalidated
    cases built with
    | error e =>
      obtain ⟨rfl, -⟩ := hbuilt
      exact barrier_of_build hadmitted
    | ok built =>
      obtain ⟨query, parameters⟩ := built
      have hexec : ∃ t'' r', t' = t''.map (Prog.Event.embed HandlerRequest.athena) ∧
          (self.client.execute query (some parameters) none true none 1000 fuel).run.Runs
            t'' r' := by
        obtain ⟨t₁, result, t₂, rfl, hwithin, ⟨rfl, -⟩⟩ | ⟨e, -, hwithin⟩ :=
          runs_except_bind.1 hbuilt
        · obtain ⟨t'', r', rfl, -, hrun⟩ := runs_within.1 hwithin
          exact ⟨t'', r', List.append_nil _, hrun⟩
        · obtain ⟨t'', r', rfl, -, hrun⟩ := runs_within.1 hwithin
          exact ⟨t'', r', rfl, hrun⟩
      obtain ⟨t'', r', rfl, hrun⟩ := hexec
      obtain ⟨answer, rest, rfl, hrest⟩ := runs_execute_start hrun
      exact barrier_of_execution hadmitted hrest

/-- **Only what was let through reaches Athena**: in every run of `analyze`, each query is started
right after it was built, for an entity of the list that is in the allowlist, and as it was built:
free text goes in parameters. -/
theorem barrier_analyze (self : BaseAnalysisHandler) (rt : Runtime ι Exn) (entities : List ι)
    (event : Option (Event δ)) (fuel : ℕ) (t : HandlerTrace ι δ Exn)
    (r : Except (AnalysisError Exn) (List (Result ι)))
    (h : (self.analyze rt entities event fuel).run.Runs t r) :
    Barrier rt self.client entities (event.getD []) t := by
  refine tracesIn_mapM composes_barrier (fun entity hentity => ?_) t r h
  refine tracesIn_bind composes_barrier (tracesIn_observe (tracesIn_analyzeEntity hentity)) ?_
  rintro (exc | result)
  · exact tracesIn_bind composes_barrier (tracesIn_fromExcept composes_barrier) fun _ =>
      tracesIn_fromExcept composes_barrier
  · exact tracesIn_fromExcept composes_barrier

/-- Strings, of which one is let through. -/
def wtiOnly : Runtime String String where
  contains code := .ok (code == "WTI")
  repr code := .ok (codePoints "'" ++ codePoints code ++ codePoints "'")
  str message := .ok (codePoints message)
  isException _ := true
  formatNumber _ := codePoints "120.0"

def dbHandler : BaseAnalysisHandler where
  client := dbClient
  entityField := codePoints "commodity_code"

def analyzeCodes (codes : List String) : HandlerProg String Unit String (List (Result String)) :=
  dbHandler.analyze wtiOnly codes none 1

/-- Athena finishes the only query at once, without rows. -/
theorem exists_runs_analyzeCodes :
    ∃ t results, (analyzeCodes ["WTI", "GOLD"]).run.Runs t (.ok results) :=
  ⟨_, _, .ok (codePoints "SELECT ?", [codePoints "WTI"]), _, rfl, .ok (codePoints "qid"), _, rfl,
    .finite 0, _, rfl, .ok ⟨.succeeded, none⟩, _, rfl, .ok ⟨none⟩, _, rfl, rfl, rfl⟩

theorem barrier_analyze_codes : ∃ t results,
    (analyzeCodes ["WTI", "GOLD"]).run.Runs t (.ok results) ∧
      Barrier wtiOnly dbClient ["WTI", "GOLD"] [] t := by
  obtain ⟨t, results, hrun⟩ := exists_runs_analyzeCodes
  exact ⟨t, results, hrun, barrier_analyze dbHandler wtiOnly ["WTI", "GOLD"] none 1 t _ hrun⟩

end Barrier

/-! ## The entities one by one -/

section Isolation

variable {self : BaseAnalysisHandler} {rt : Runtime ι Exn} {event : Event δ} {fuel : ℕ}
  {allowed : ι → Bool} {reprs : ι → Str}

/-- The allowlist says of every entity whether it is let through, and the others have a `repr`. -/
structure Decides (rt : Runtime ι Exn) (allowed : ι → Bool) (reprs : ι → Str) (entity : ι) :
    Prop where
  contains : rt.contains entity = .ok (allowed entity)
  repr : allowed entity = false → rt.repr entity = .ok (reprs entity)

namespace BaseAnalysisHandler

/-- The result of an entity that is not let through. -/
def disallowed (self : BaseAnalysisHandler) (reprs : ι → Str) (entity : ι) : Result ι :=
  self.failed entity
    (codePoints "Disallowed " ++ self.entityField ++ codePoints ": " ++ reprs entity)

/-- The results of the entities that are let through, with those of the others in between. -/
def merge (self : BaseAnalysisHandler) (allowed : ι → Bool) (reprs : ι → Str) :
    List ι → List (Result ι) → List (Result ι)
  | [], _ => []
  | entity :: entities, results =>
    if allowed entity then
      results.take 1 ++ merge self allowed reprs entities (results.drop 1)
    else self.disallowed reprs entity :: merge self allowed reprs entities results

end BaseAnalysisHandler

theorem runs_attempt_of_not_allowed {entity : ι} (hdecides : Decides rt allowed reprs entity)
    (hallowed : allowed entity = false) {t : HandlerTrace ι δ Exn}
    {r : Except (AnalysisError Exn) (Result ι)} :
    (self.attempt rt event fuel entity).run.Runs t r ↔
      t = [] ∧ r = .ok (self.disallowed reprs entity) := by
  have hvalid : validateInAllowlist rt entity self.entityField = .error (.identifierError
      (codePoints "Disallowed " ++ self.entityField ++ codePoints ": " ++ reprs entity)) := by
    rw [validateInAllowlist, hdecides.contains, hallowed]
    dsimp only
    rw [hdecides.repr hallowed]
  have hrun : self.attempt rt event fuel entity =
      (fromExcept (.ok (self.disallowed reprs entity)) : HandlerProg ι δ Exn (Result ι)) := by
    rw [BaseAnalysisHandler.attempt, BaseAnalysisHandler.analyzeEntity, hvalid]
    rfl
  rw [hrun, runs_fromExcept, eq_comm (a := r)]

/-- **Entities that are not let through change nothing for the others**: the runs on a list of
entities are the runs on those that are let through, with an error in the place of each other. -/
theorem runs_analyze_iff_filter (self : BaseAnalysisHandler) (rt : Runtime ι Exn)
    (allowed : ι → Bool) (reprs : ι → Str) (entities : List ι)
    (hdecides : ∀ entity ∈ entities, Decides rt allowed reprs entity)
    (event : Option (Event δ)) (fuel : ℕ) (t : HandlerTrace ι δ Exn)
    (r : Except (AnalysisError Exn) (List (Result ι))) :
    (self.analyze rt entities event fuel).run.Runs t r ↔
      ∃ r', (self.analyze rt (entities.filter allowed) event fuel).run.Runs t r' ∧
        r = r'.map (self.merge allowed reprs entities) := by
  unfold BaseAnalysisHandler.analyze
  induction entities generalizing t r with
  | nil =>
    rw [List.filter_nil, runs_mapM_nil]
    constructor
    · rintro ⟨rfl, rfl⟩
      exact ⟨_, ⟨rfl, rfl⟩, rfl⟩
    · rintro ⟨_, ⟨rfl, rfl⟩, rfl⟩
      exact ⟨rfl, rfl⟩
  | cons entity entities ih =>
    obtain ⟨hentity, hentities⟩ := List.forall_mem_cons.1 hdecides
    rw [runs_mapM_cons]
    cases hallowed : allowed entity with
    | false =>
      have hmerge : ∀ results, self.merge allowed reprs (entity :: entities) results =
          self.disallowed reprs entity :: self.merge allowed reprs entities results := by
        intro results
        rw [BaseAnalysisHandler.merge, hallowed, if_neg Bool.false_ne_true]
      rw [List.filter_cons_of_neg (by simp [hallowed])]
      simp only [runs_attempt_of_not_allowed hentity hallowed, ih hentities]
      constructor
      · rintro (⟨_, _, t, rfl, ⟨rfl, heq⟩, ⟨bs, rfl, r', hr', hbs⟩ | ⟨e, rfl, r', hr', he⟩⟩ |
          ⟨e, rfl, -, ⟨⟩⟩)
        · obtain ⟨results, rfl, rfl⟩ := map_eq_ok_iff.1 hbs.symm
          exact ⟨_, hr', by rw [Except.ok.inj heq]; simp [Except.map, hmerge]⟩
        · cases r' with
          | error e' => exact ⟨_, hr', he⟩
          | ok results => cases he
      · rintro ⟨r', hr', rfl⟩
        refine .inl ⟨[], _, t, rfl, ⟨rfl, rfl⟩, ?_⟩
        cases r' with
        | error e => exact .inr ⟨e, rfl, _, hr', rfl⟩
        | ok results => exact .inl ⟨_, congrArg Except.ok (hmerge results), _, hr', rfl⟩
    | true =>
      have hmerge : ∀ result results,
          self.merge allowed reprs (entity :: entities) (result :: results) =
            result :: self.merge allowed reprs entities results := by
        intro result results
        simp [BaseAnalysisHandler.merge, hallowed]
      rw [List.filter_cons_of_pos hallowed]
      simp only [runs_mapM_cons, ih hentities]
      constructor
      · rintro (⟨t₁, b, t₂, rfl, hb, ⟨bs, rfl, r', hr', hbs⟩ | ⟨e, rfl, r', hr', he⟩⟩ |
          ⟨e, rfl, herror⟩)
        · obtain ⟨results, rfl, rfl⟩ := map_eq_ok_iff.1 hbs.symm
          exact ⟨_, .inl ⟨t₁, b, t₂, rfl, hb, .inl ⟨_, rfl, hr'⟩⟩,
            congrArg Except.ok (hmerge b results).symm⟩
        · cases r' with
          | error e' => exact ⟨_, .inl ⟨t₁, b, t₂, rfl, hb, .inr ⟨e', rfl, hr'⟩⟩, he⟩
          | ok results => cases he
        · exact ⟨_, .inr ⟨e, rfl, herror⟩, rfl⟩
      · rintro ⟨_, ⟨t₁, b, t₂, rfl, hb, ⟨results, rfl, hr'⟩ | ⟨e, rfl, hr'⟩⟩ | ⟨e, rfl, herror⟩,
          rfl⟩
        · exact .inl ⟨t₁, b, t₂, rfl, hb, .inl ⟨_, congrArg Except.ok (hmerge b results), _, hr',
            rfl⟩⟩
        · exact .inl ⟨t₁, b, t₂, rfl, hb, .inr ⟨e, rfl, _, hr', rfl⟩⟩
        · exact .inr ⟨e, rfl, herror⟩

theorem runs_analyze_iff_filter_codes : ∃ t results r',
    (analyzeCodes ["WTI", "GOLD"]).run.Runs t (.ok results) ∧
      (analyzeCodes ["WTI"]).run.Runs t r' ∧
      .ok results = r'.map (dbHandler.merge (· == "WTI")
        (fun code => codePoints "'" ++ codePoints code ++ codePoints "'") ["WTI", "GOLD"]) := by
  obtain ⟨t, results, hrun⟩ := exists_runs_analyzeCodes
  obtain ⟨r', hrun', heq⟩ := (runs_analyze_iff_filter dbHandler wtiOnly (· == "WTI")
    (fun code => codePoints "'" ++ codePoints code ++ codePoints "'") ["WTI", "GOLD"]
    (fun _ _ => ⟨rfl, fun _ => rfl⟩) none 1 t _).1 hrun
  exact ⟨t, results, r', hrun, hrun', heq⟩

end Isolation

/-! ## What the results say -/

section Reports

variable {self : BaseAnalysisHandler} {rt : Runtime ι Exn} {event : Event δ} {fuel : ℕ}

/-- The page of results that is received. -/
def received : Prog.Event Request (Answer Exn) → Option QueryResults
  | ⟨.getQueryResults _ _, .ok page⟩ => some page
  | _ => none

/-- No results are received. -/
def Empty (t : AthenaTrace Exn) : Prop := t.filterMap received = []

theorem composes_empty : Composes (Empty : AthenaTrace Exn → Prop) where
  nil := rfl
  append h₁ h₂ := by rw [Empty, List.filterMap_append, h₁, h₂, List.append_nil]

/-- A result is only returned where the query has succeeded. -/
theorem succeeds_of_runs_poll {qid : Str} {maxWait step deadline : Number} {t : AthenaTrace Exn}
    {state : QueryState}
    (h : (SafeAthenaClient.poll qid maxWait step deadline fuel).run.Runs t (.ok state)) :
    Succeeds t := by
  induction fuel generalizing t with
  | zero => cases h.2
  | succ fuel ih =>
    obtain ⟨answer, t', rfl, hstatus⟩ := runs_perform_bind.1 h
    clear h
    cases answer with
    | error e => cases hstatus.2
    | ok status =>
      dsimp only [rethrow, Except.mapError] at hstatus
      split_ifs at hstatus with hterminal hfailed
      · cases hstatus.2
      · rw [not_not] at hfailed
        exact succeeds_cons.2 (.inl (congrArg some hfailed))
      · obtain ⟨now, t₁, rfl, hclock⟩ := runs_perform_bind.1 hstatus
        dsimp only at hclock
        split_ifs at hclock with hdeadline
        · cases hclock.2
        · obtain ⟨slept, t₂, rfl, hsleep⟩ := runs_perform_bind.1 hclock
          cases slept with
          | error e => cases hsleep.2
          | ok slept => simp [succeeds_cons, ih hsleep]

theorem succeeds_of_runs_wait {client : SafeAthenaClient} {qid : Str}
    {timeout interval : Option Number} {t : AthenaTrace Exn} {state : QueryState}
    (h : (client.wait qid timeout interval fuel).run.Runs t (.ok state)) :
    state = .succeeded ∧ Succeeds t := by
  obtain ⟨now, t', rfl, hpoll⟩ := runs_perform_bind.1 h
  refine ⟨?_, succeeds_cons.2 (.inr (succeeds_of_runs_poll hpoll))⟩
  obtain hstate | ⟨⟨e, he⟩, -⟩ := runs_poll hpoll
  · exact Except.ok.inj hstate
  · cases he

/-- Rows that are fetched are those of a page. -/
theorem runs_fetchRows_received {qid : Str} {maxResults : ℤ} {t : AthenaTrace Exn}
    {r : Except (AthenaError Exn) (List SafeAthenaClient.Record)}
    (h : (SafeAthenaClient.fetchRows qid maxResults).run.Runs t r) :
    (∃ page, r = .ok (SafeAthenaClient.recordsOf page) ∧ t.filterMap received = [page]) ∨
      (∃ e, r = .error e) ∧ t.filterMap received = [] := by
  obtain ⟨result, t', rfl, hresult⟩ := runs_perform_bind.1 h
  cases result with
  | error e =>
    obtain ⟨rfl, rfl⟩ := hresult
    exact .inr ⟨⟨_, rfl⟩, rfl⟩
  | ok page =>
    obtain ⟨rfl, rfl⟩ := hresult
    exact .inl ⟨page, rfl, rfl⟩

theorem received_start {kwargs : StartQueryExecution} {answer : Except Exn Str}
    {t : AthenaTrace Exn} :
    (⟨.startQueryExecution kwargs, answer⟩ :: t : AthenaTrace Exn).filterMap received =
      t.filterMap received := List.filterMap_cons_none rfl

/-- An execution returns the rows of the only page that it receives, after the query has succeeded;
when it raises it has received none. -/
theorem runs_execute_received {client : SafeAthenaClient} {query : Str}
    {parameters : Option (List Str)} {outputLocation : Option Str} {timeout : Option Number}
    {maxResults : ℤ} {t : AthenaTrace Exn}
    {r : Except (AthenaError Exn) SafeAthenaClient.Execution}
    (h : (client.execute query parameters outputLocation true timeout maxResults fuel).run.Runs
      t r) :
    (∃ qid page, r = .ok ⟨qid, .succeeded, some (SafeAthenaClient.recordsOf page)⟩ ∧
        Succeeds t ∧ t.filterMap received = [page]) ∨
      (∃ e, r = .error e) ∧ t.filterMap received = [] := by
  obtain ⟨answer, t', rfl, hstart⟩ := runs_perform_bind.1 h
  clear h
  cases answer with
  | error e =>
    obtain ⟨rfl, rfl⟩ := hstart
    exact .inr ⟨⟨_, rfl⟩, rfl⟩
  | ok qid =>
    have hempty : TracesIn Empty
        (client.wait qid timeout none fuel : AthenaProg Exn QueryState) :=
      tracesIn_wait composes_empty (fun _ => rfl) (fun _ => rfl) fun _ _ => rfl
    obtain ⟨t₁, state, t₂, rfl, hwait, hfetch⟩ | ⟨e, rfl, hwait⟩ := runs_except_bind.1 hstart
    · obtain ⟨rfl, hsucceeds⟩ := succeeds_of_runs_wait hwait
      rw [received_start, List.filterMap_append, hempty _ _ hwait, List.nil_append]
      obtain ⟨t₃, rows, t₄, rfl, hrows, ⟨rfl, rfl⟩⟩ | ⟨e, rfl, hrows⟩ := runs_except_bind.1 hfetch
      · rw [List.append_nil]
        obtain ⟨page, heq, hpage⟩ | ⟨⟨e, he⟩, -⟩ := runs_fetchRows_received hrows
        · refine .inl ⟨qid, page, by rw [Except.ok.inj heq], ?_, hpage⟩
          exact succeeds_cons.2 (.inr (succeeds_append.2 (.inl hsucceeds)))
        · cases he
      · obtain ⟨page, heq, -⟩ | ⟨-, hnone⟩ := runs_fetchRows_received hrows
        · cases heq
        · exact .inr ⟨⟨e, rfl⟩, hnone⟩
    · rw [received_start]
      exact .inr ⟨⟨e, rfl⟩, hempty _ _ hwait⟩

/-- What is asked of Athena. -/
def athenaEvent : HandlerEvent ι δ Exn → Option (Prog.Event Request (Answer Exn))
  | ⟨.athena request, answer⟩ => some ⟨request, answer⟩
  | ⟨.buildQuery _ _, _⟩ => none

theorem filterMap_athenaEvent_embed (t : AthenaTrace Exn) :
    (t.map (Prog.Event.embed HandlerRequest.athena) : HandlerTrace ι δ Exn).filterMap athenaEvent =
      t := by
  rw [List.filterMap_map]
  exact List.filterMap_some

/-- The keys that a result has besides the field of its entity. -/
def reservedFields : List Str :=
  [codePoints "query_execution_id", codePoints "status", codePoints "rows", codePoints "error"]

/-- The result is that of a query that has succeeded, with the rows of the only page. -/
structure Completed (entity : ι) (field : Str) (t : AthenaTrace Exn) (result : Result ι) :
    Prop where
  entity : lookup field result = some (.entity entity)
  status : lookup (codePoints "status") result = some (.text (codePoints "completed"))
  succeeds : Succeeds t
  rows : ∃ page, t.filterMap received = [page] ∧
    lookup (codePoints "rows") result = some (.rows (some (SafeAthenaClient.recordsOf page)))

/-- The result is that of an entity without rows. -/
structure Failed (entity : ι) (field : Str) (t : AthenaTrace Exn) (result : Result ι) : Prop where
  entity : lookup field result = some (.entity entity)
  status : lookup (codePoints "status") result = some (.text (codePoints "error"))
  error : ∃ message, lookup (codePoints "error") result = some (.text message)
  none : t.filterMap received = []

theorem runs_analyzeEntity_received {entity : ι} {t : HandlerTrace ι δ Exn}
    {r : Except (AnalysisError Exn) (Result ι)}
    (h : (self.analyzeEntity rt event fuel entity).run.Runs t r) :
    (∃ qid page, r = .ok (self.completed entity
        ⟨qid, .succeeded, some (SafeAthenaClient.recordsOf page)⟩) ∧
        Succeeds (t.filterMap athenaEvent) ∧
        (t.filterMap athenaEvent).filterMap received = [page]) ∨
      (∃ e, r = .error e) ∧ (t.filterMap athenaEvent).filterMap received = [] := by
  have hvalidated := runs_fromExcept_bind.1 h
  clear h
  cases hvalid : validateInAllowlist rt entity self.entityField with
  | error e =>
    rw [hvalid] at hvalidated
    obtain ⟨rfl, rfl⟩ := hvalidated
    exact .inr ⟨⟨e, rfl⟩, rfl⟩
  | ok value =>
    rw [hvalid] at hvalidated
    obtain ⟨built, t', rfl, hbuilt⟩ := runs_perform_bind.1 hvalidated
    cases built with
    | error e =>
      obtain ⟨rfl, rfl⟩ := hbuilt
      exact .inr ⟨⟨_, rfl⟩, rfl⟩
    | ok built =>
      obtain ⟨query, parameters⟩ := built
      rw [List.filterMap_cons_none rfl]
      obtain ⟨t₁, result, t₂, rfl, hwithin, ⟨rfl, rfl⟩⟩ | ⟨e, rfl, hwithin⟩ :=
        runs_except_bind.1 hbuilt
      · obtain ⟨t'', r', rfl, hr', hrun⟩ := runs_within.1 hwithin
        rw [List.append_nil, filterMap_athenaEvent_embed]
        obtain ⟨qid, page, rfl, hsucceeds, hpage⟩ | ⟨⟨e, rfl⟩, -⟩ := runs_execute_received hrun
        · exact .inl ⟨qid, page, by rw [Except.ok.inj hr'], hsucceeds, hpage⟩
        · cases hr'
      · obtain ⟨t'', r', rfl, hr', hrun⟩ := runs_within.1 hwithin
        rw [filterMap_athenaEvent_embed]
        obtain ⟨qid, page, rfl, -⟩ | ⟨-, hnone⟩ := runs_execute_received hrun
        · cases hr'
        · exact .inr ⟨⟨e, rfl⟩, hnone⟩

theorem ne_of_not_mem_reservedFields {field : Str} (hfield : field ∉ reservedFields) :
    field ≠ codePoints "query_execution_id" ∧ field ≠ codePoints "status" ∧
      field ≠ codePoints "rows" ∧ field ≠ codePoints "error" := by
  simpa [reservedFields] using hfield

theorem completed_completed (hfield : self.entityField ∉ reservedFields) {entity : ι} {qid : Str}
    {page : QueryResults} {t : AthenaTrace Exn} (hsucceeds : Succeeds t)
    (hpage : t.filterMap received = [page]) :
    Completed entity self.entityField t (self.completed entity
      ⟨qid, .succeeded, some (SafeAthenaClient.recordsOf page)⟩) := by
  obtain ⟨hqid, hstatus, hrows, -⟩ := ne_of_not_mem_reservedFields hfield
  have hrows' : codePoints "rows" ≠ codePoints "status" := by decide
  exact {
    entity := by
      simp [BaseAnalysisHandler.completed, assignAll, lookup_assign, hqid, hstatus, hrows]
    status := by simp [BaseAnalysisHandler.completed, assignAll, lookup_assign, hrows'.symm]
    succeeds := hsucceeds
    rows := ⟨page, hpage, by simp [BaseAnalysisHandler.completed, assignAll, lookup_assign]⟩ }

theorem failed_failed (hfield : self.entityField ∉ reservedFields) {entity : ι} {message : Str}
    {t : AthenaTrace Exn} (hnone : t.filterMap received = []) :
    Failed entity self.entityField t (self.failed entity message) := by
  obtain ⟨-, hstatus, -, herror⟩ := ne_of_not_mem_reservedFields hfield
  have hstatus' : codePoints "status" ≠ codePoints "error" := by decide
  exact {
    entity := by simp [BaseAnalysisHandler.failed, assignAll, lookup_assign, hstatus, herror]
    status := by simp [BaseAnalysisHandler.failed, assignAll, lookup_assign, hstatus']
    error := ⟨message, by simp [BaseAnalysisHandler.failed, assignAll, lookup_assign]⟩
    none := hnone }

theorem runs_attempt_reports (hfield : self.entityField ∉ reservedFields) {entity : ι}
    {t : HandlerTrace ι δ Exn} {result : Result ι}
    (h : (self.attempt rt event fuel entity).run.Runs t (.ok result)) :
    Completed entity self.entityField (t.filterMap athenaEvent) result ∨
      Failed entity self.entityField (t.filterMap athenaEvent) result := by
  obtain ⟨t₁, outcome, t₂, rfl, hentity, hresult⟩ := runs_observe_bind.1 h
  obtain ⟨qid, page, rfl, hsucceeds, hpage⟩ | ⟨⟨exc, rfl⟩, hnone⟩ :=
    runs_analyzeEntity_received hentity
  · obtain ⟨rfl, heq⟩ := hresult
    rw [List.append_nil, ← Except.ok.inj heq]
    exact .inl (completed_completed hfield hsucceeds hpage)
  · have hcaught := runs_fromExcept_bind.1 hresult
    cases hmessage : caught rt exc with
    | error e =>
      rw [hmessage] at hcaught
      cases hcaught.2
    | ok message =>
      rw [hmessage] at hcaught
      obtain ⟨rfl, heq⟩ := hcaught
      rw [List.append_nil, ← Except.ok.inj heq]
      exact .inr (failed_failed hfield hnone)

theorem runs_analyze_singleton {event : Option (Event δ)} {entity : ι} {t : HandlerTrace ι δ Exn}
    {result : Result ι} : (self.analyze rt [entity] event fuel).run.Runs t (.ok [result]) ↔
      (self.attempt rt (event.getD []) fuel entity).run.Runs t (.ok result) := by
  rw [BaseAnalysisHandler.analyze, runs_mapM_cons]
  simp only [runs_mapM_nil, Except.ok.injEq, List.cons.injEq, reduceCtorEq, false_and, and_false,
    exists_false, or_false]
  constructor
  · rintro ⟨t₁, b, t₂, rfl, hrun, bs, ⟨rfl, rfl⟩, rfl, -⟩
    rwa [List.append_nil]
  · exact fun hrun => ⟨t, result, [], (List.append_nil t).symm, hrun, [], ⟨rfl, rfl⟩, rfl, rfl⟩

/-- **Each entity gets a result of its own**: a run of `analyze` that returns is made of one run for
each entity, in order, as if the entity were alone. The result says which entity it is of, and is
`completed` only where the query has succeeded, with the rows of its page. -/
theorem reports_analyze (self : BaseAnalysisHandler) (hfield : self.entityField ∉ reservedFields)
    (rt : Runtime ι Exn) (entities : List ι) (event : Option (Event δ)) (fuel : ℕ)
    (t : HandlerTrace ι δ Exn) (results : List (Result ι)) :
    (self.analyze rt entities event fuel).run.Runs t (.ok results) ↔
      ∃ calls : List (Call (HandlerRequest ι δ) (HandlerAnswer Exn) ι (Result ι)),
        calls.map Call.arg = entities ∧ calls.flatMap Call.trace = t ∧
          calls.map Call.result = results ∧
          ∀ c ∈ calls, (self.analyze rt [c.arg] event fuel).run.Runs c.trace (.ok [c.result]) ∧
            (Completed c.arg self.entityField (c.trace.filterMap athenaEvent) c.result ∨
              Failed c.arg self.entityField (c.trace.filterMap athenaEvent) c.result) := by
  refine runs_mapM.trans (exists_congr fun calls => ?_)
  constructor
  · rintro ⟨hcalls, hargs, htrace, hresults⟩
    refine ⟨hargs, htrace, hresults, fun c hc => ?_⟩
    exact ⟨runs_analyze_singleton.2 (hcalls c hc), runs_attempt_reports hfield (hcalls c hc)⟩
  · rintro ⟨hargs, htrace, hresults, hcalls⟩
    exact ⟨fun c hc => runs_analyze_singleton.1 (hcalls c hc).1, hargs, htrace, hresults⟩

theorem reports_analyze_codes : ∃ (t : HandlerTrace String Unit String) (calls :
    List (Call (HandlerRequest String Unit) (HandlerAnswer String) String (Result String))),
      calls.map Call.arg = ["WTI", "GOLD"] ∧ calls.flatMap Call.trace = t ∧
        ∀ c ∈ calls,
          Completed c.arg (codePoints "commodity_code") (c.trace.filterMap athenaEvent) c.result ∨
            Failed c.arg (codePoints "commodity_code") (c.trace.filterMap athenaEvent)
              c.result := by
  obtain ⟨t, results, hrun⟩ := exists_runs_analyzeCodes
  obtain ⟨calls, hargs, htrace, -, hcalls⟩ :=
    (reports_analyze dbHandler (by decide) wtiOnly ["WTI", "GOLD"] none 1 t results).1 hrun
  exact ⟨t, calls, hargs, htrace, fun c hc => (hcalls c hc).2⟩

end Reports

end Resilience.Scope
