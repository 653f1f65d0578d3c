import Resilience.Foundations.Interaction
import Resilience.Foundations.Json.Members
import Resilience.Foundations.Numbers
import Resilience.Scope.Identifier

/-!
# Query results

`SafeAthenaClient` of `scope_core/athena.py`. What the client asks of Athena, of the clock and of
the sleep is answered from outside; what the boto3 client raises goes through.

A page of results starts with the header, which takes a row of it. So a query returns all its rows
when there are fewer than `max_results` (`returnsAll_iff`).
-/

namespace Resilience.Scope

open Json

/-! ## Athena -/

inductive QueryState
  | queued
  | running
  | succeeded
  | failed
  | cancelled
  deriving DecidableEq

def QueryState.text : QueryState → Str
  | queued => codePoints "QUEUED"
  | running => codePoints "RUNNING"
  | succeeded => codePoints "SUCCEEDED"
  | failed => codePoints "FAILED"
  | cancelled => codePoints "CANCELLED"

/-- `state in _TERMINAL`. -/
def QueryState.isTerminal : QueryState → Bool
  | succeeded | failed | cancelled => true
  | queued | running => false

structure Status where
  state : QueryState
  stateChangeReason : Option Str := none

/-- A cell: a missing value has no `VarCharValue`. -/
structure Datum where
  varCharValue : Option Str

structure Row where
  data : Option (List Datum)

structure ResultSet where
  rows : Option (List Row)

structure QueryResults where
  resultSet : Option ResultSet

structure StartQueryExecution where
  queryString : Str
  database : Str
  outputLocation : Str
  executionParameters : Option (List Str)

inductive Request
  | startQueryExecution (kwargs : StartQueryExecution)
  | getQueryExecution (queryExecutionId : Str)
  | getQueryResults (queryExecutionId : Str) (maxResults : ℤ)
  | monotonic
  | sleep (seconds : Number)

abbrev Answer (Exn : Type) : Request → Type
  | .startQueryExecution _ => Except Exn Str
  | .getQueryExecution _ => Except Exn Status
  | .getQueryResults _ _ => Except Exn QueryResults
  | .monotonic => Number
  | .sleep _ => Except Exn Unit

/-! ## The client -/

section Client

variable {Exn : Type}

inductive AthenaError (Exn : Type)
  | athenaQueryError (message : Str)
  /-- `Athena query {query_execution_id} did not finish within {max_wait}s`. -/
  | athenaTimeoutError (queryExecutionId : Str) (maxWait : Number)
  | raised (e : Exn)
  /-- Still polling when the fuel is used up. -/
  | polling

abbrev AthenaProg (Exn α : Type) := ExceptT (AthenaError Exn) (Prog Request (Answer Exn)) α

abbrev AthenaTrace (Exn : Type) := List (Prog.Event Request (Answer Exn))

structure SafeAthenaClient where
  database : Str
  outputLocation : Str
  pollTimeout : Number := .finite 120
  pollInterval : Number := .finite 1

def rethrow {α : Type} : Except Exn α → Except (AthenaError Exn) α := Except.mapError .raised

namespace SafeAthenaClient

variable (self : SafeAthenaClient)

/-- `output_location or self.output_location`. -/
def locationOf (outputLocation : Option Str) : Str :=
  match outputLocation with
  | some (c :: cs) => c :: cs
  | some [] | none => self.outputLocation

/-- The parameters, unless there are none. -/
def executionParameters (parameters : Option (List Str)) : Option (List Str) :=
  match parameters with
  | some (p :: ps) => some (p :: ps)
  | some [] | none => none

def start (query : Str) (outputLocation : Option Str) (parameters : Option (List Str)) :
    AthenaProg Exn Str :=
  perform (.startQueryExecution
    ⟨query, self.database, self.locationOf outputLocation, executionParameters parameters⟩) rethrow

/-- The loop of `wait`. -/
def poll (queryExecutionId : Str) (maxWait step deadline : Number) :
    ℕ → AthenaProg Exn QueryState
  | 0 => fromExcept (.error .polling)
  | fuel + 1 => do
    let status ← perform (.getQueryExecution queryExecutionId) rethrow
    if status.state.isTerminal then
      if status.state ≠ .succeeded then
        let reason := status.stateChangeReason.getD (codePoints "no reason given")
        fromExcept (.error (.athenaQueryError (codePoints "Athena query " ++ queryExecutionId ++
          codePoints " " ++ status.state.text ++ codePoints ": " ++ reason)))
      else fromExcept (.ok status.state)
    else
      let now ← perform .monotonic .ok
      if deadline.le now then fromExcept (.error (.athenaTimeoutError queryExecutionId maxWait))
      else
        perform (.sleep step) rethrow
        poll queryExecutionId maxWait step deadline fuel

def wait (queryExecutionId : Str) (timeout interval : Option Number) (fuel : ℕ) :
    AthenaProg Exn QueryState := do
  let maxWait := timeout.getD self.pollTimeout
  let step := interval.getD self.pollInterval
  let now ← perform .monotonic .ok
  poll queryExecutionId maxWait step (now.add maxWait) fuel

/-- A row as a `dict`, in the order of its keys. -/
abbrev Record := List (Str × Option Str)

/-- The names of the columns; a missing one is the empty string. -/
def headerOf (raw : Row) : List Str := (raw.data.getD []).map fun c => c.varCharValue.getD []

def cellsOf (raw : Row) : List (Option Str) := (raw.data.getD []).map Datum.varCharValue

/-- The rows after the header. -/
def recordsOf (result : QueryResults) : List Record :=
  match (result.resultSet.getD ⟨none⟩).rows.getD [] with
  | [] => []
  | raw :: raws => raws.map fun r => assignAll ((headerOf raw).zip (cellsOf r))

def fetchRows (queryExecutionId : Str) (maxResults : ℤ) : AthenaProg Exn (List Record) := do
  let result ← perform (.getQueryResults queryExecutionId maxResults) rethrow
  fromExcept (.ok (recordsOf result))

structure Execution where
  queryExecutionId : Str
  state : QueryState
  rows : Option (List Record)

def execute (query : Str) (parameters : Option (List Str)) (outputLocation : Option Str)
    (fetch : Bool) (timeout : Option Number) (maxResults : ℤ) (fuel : ℕ) :
    AthenaProg Exn Execution := do
  let qid ← self.start query outputLocation parameters
  let state ← self.wait qid timeout none fuel
  if fetch then
    let rows ← fetchRows qid maxResults
    fromExcept (.ok ⟨qid, state, some rows⟩)
  else fromExcept (.ok ⟨qid, state, none⟩)

end SafeAthenaClient

end Client

/-! ## Result sets -/

/-- A result set; a cell may be missing. -/
structure ResultTable where
  columns : List Str
  rows : List (List (Option Str))
  nodup : columns.Nodup
  width : ∀ cells ∈ rows, cells.length = columns.length

namespace ResultTable

variable (table : ResultTable)

/-- The header row, and the data rows. -/
def lines : List Row :=
  ⟨some (table.columns.map fun name => ⟨some name⟩)⟩ ::
    table.rows.map fun cells => ⟨some (cells.map Datum.mk)⟩

/-- The first rows of a result set. -/
def page (maxResults : ℤ) : QueryResults := ⟨some ⟨some (table.lines.take maxResults.toNat)⟩⟩

/-- The data rows, each with the name of its column for every cell. -/
def records : List SafeAthenaClient.Record := table.rows.map table.columns.zip

end ResultTable

section Runs

variable {Exn : Type}

/-- A page of results is one of the table. -/
def Serves (table : ResultTable) : Prog.Event Request (Answer Exn) → Prop
  | ⟨.getQueryResults _ maxResults, result⟩ => result = .ok (table.page maxResults)
  | _ => True

/-- The state that Athena reports. -/
def reported : Prog.Event Request (Answer Exn) → Option QueryState
  | ⟨.getQueryExecution _, .ok status⟩ => some status.state
  | _ => none

/-- Athena reports that the query has succeeded. -/
def Succeeds (t : AthenaTrace Exn) : Prop := .succeeded ∈ t.filterMap reported

/-- Whenever the query succeeds, `execute` returns all rows of the table. -/
def ReturnsAll (Exn : Type) (client : SafeAthenaClient) (query : Str)
    (parameters : Option (List Str)) (outputLocation : Option Str) (timeout : Option Number)
    (table : ResultTable) (maxResults : ℤ) : Prop :=
  ∀ (fuel : ℕ) (t : AthenaTrace Exn) (r : Except (AthenaError Exn) SafeAthenaClient.Execution),
    (client.execute query parameters outputLocation true timeout maxResults fuel).run.Runs t r →
    Succeeds t → (∀ ev ∈ t, Serves table ev) →
    ∃ qid, r = .ok ⟨qid, .succeeded, some table.records⟩

/-! ## Rows of a page -/

variable {table : ResultTable}

theorem headerOf_columns (columns : List Str) : SafeAthenaClient.headerOf
    ⟨some (columns.map fun name => ⟨some name⟩)⟩ = columns := by
  simp [SafeAthenaClient.headerOf, Function.comp_def]

theorem cellsOf_cells (cells : List (Option Str)) :
    SafeAthenaClient.cellsOf ⟨some (cells.map Datum.mk)⟩ = cells := by
  simp [SafeAthenaClient.cellsOf, Function.comp_def]

/-- The names of the columns are the keys of a record. -/
theorem nodup_keys {cells : List (Option Str)} (h : cells ∈ table.rows) :
    ((table.columns.zip cells).map Prod.fst).Nodup := by
  rw [List.map_fst_zip (table.width cells h).ge]
  exact table.nodup

theorem assignAll_zip {cells : List (Option Str)} (h : cells ∈ table.rows) :
    assignAll (table.columns.zip cells) = table.columns.zip cells :=
  assignAll_eq_self (nodup_keys h)

/-- The header takes a row of the page. -/
theorem recordsOf_page {maxResults : ℤ} (h : 1 ≤ maxResults) :
    SafeAthenaClient.recordsOf (table.page maxResults) =
      table.records.take (maxResults.toNat - 1) := by
  obtain ⟨m, hm⟩ : ∃ m, maxResults.toNat = m + 1 := ⟨maxResults.toNat - 1, by omega⟩
  simp only [SafeAthenaClient.recordsOf, ResultTable.page, ResultTable.lines, hm,
    Option.getD_some, List.take_succ_cons, headerOf_columns, Nat.add_sub_cancel,
    ResultTable.records, ← List.map_take, List.map_map]
  apply List.map_congr_left
  intro cells hcells
  rw [Function.comp_apply, cellsOf_cells, assignAll_zip (List.mem_of_mem_take hcells)]

/-! ## Runs of the client -/

variable {client : SafeAthenaClient} {qid : Str}

@[simp] theorem succeeds_nil : ¬ Succeeds ([] : AthenaTrace Exn) := List.not_mem_nil

theorem succeeds_append {t t' : AthenaTrace Exn} :
    Succeeds (t ++ t') ↔ Succeeds t ∨ Succeeds t' := by
  rw [Succeeds, List.filterMap_append, List.mem_append]
  rfl

theorem succeeds_cons {ev : Prog.Event Request (Answer Exn)} {t : AthenaTrace Exn} :
    Succeeds (ev :: t) ↔ reported ev = some .succeeded ∨ Succeeds t := by
  cases hev : reported ev <;> simp [Succeeds, hev, eq_comm]

/-- The loop ends where the query succeeds. -/
theorem runs_poll {maxWait step deadline : Number} {fuel : ℕ} {t : AthenaTrace Exn}
    {r : Except (AthenaError Exn) QueryState}
    (h : (SafeAthenaClient.poll qid maxWait step deadline fuel).run.Runs t r) :
    r = .ok .succeeded ∨ (∃ e, r = .error e) ∧ ¬ Succeeds t := by
  induction fuel generalizing t with
  | zero =>
    obtain ⟨rfl, rfl⟩ := h
    exact .inr ⟨⟨_, rfl⟩, succeeds_nil⟩
  | succ fuel ih =>
    rw [SafeAthenaClient.poll] at h
    obtain ⟨answer, t', rfl, hstatus⟩ := runs_perform_bind.1 h
    clear h
    cases answer with
    | error e =>
      obtain ⟨rfl, rfl⟩ := hstatus
      exact .inr ⟨⟨_, rfl⟩, by simp [succeeds_cons, reported]⟩
    | ok status =>
      dsimp only [rethrow, Except.mapError] at hstatus
      split_ifs at hstatus with hterminal hfailed
      · obtain ⟨rfl, rfl⟩ := hstatus
        exact .inr ⟨⟨_, rfl⟩, by simpa [succeeds_cons, reported] using hfailed⟩
      · obtain ⟨rfl, rfl⟩ := hstatus
        rw [not_not] at hfailed
        exact .inl (congrArg Except.ok hfailed)
      · have hstate : status.state ≠ .succeeded := by
          intro hstate
          rw [hstate] at hterminal
          exact hterminal rfl
        obtain ⟨now, t₁, rfl, hclock⟩ := runs_perform_bind.1 hstatus
        dsimp only at hclock
        split_ifs at hclock with hdeadline
        · obtain ⟨rfl, rfl⟩ := hclock
          exact .inr ⟨⟨_, rfl⟩, by simpa [succeeds_cons, reported] using hstate⟩
        · obtain ⟨slept, t₂, rfl, hsleep⟩ := runs_perform_bind.1 hclock
          cases slept with
          | error e =>
            obtain ⟨rfl, rfl⟩ := hsleep
            exact .inr ⟨⟨_, rfl⟩, by simpa [succeeds_cons, reported] using hstate⟩
          | ok slept =>
            refine (ih hsleep).imp_right fun hrest => ⟨hrest.1, ?_⟩
            simpa [succeeds_cons, reported, hstate] using hrest.2

variable {query : Str} {parameters : Option (List Str)} {outputLocation : Option Str}
  {timeout : Option Number} {maxResults : ℤ}

theorem runs_wait {interval : Option Number} {fuel : ℕ} {t : AthenaTrace Exn}
    {r : Except (AthenaError Exn) QueryState}
    (h : (client.wait qid timeout interval fuel).run.Runs t r) :
    r = .ok .succeeded ∨ (∃ e, r = .error e) ∧ ¬ Succeeds t := by
  obtain ⟨now, t', rfl, hpoll⟩ := runs_perform_bind.1 h
  exact (runs_poll hpoll).imp_right fun hfailed =>
    ⟨hfailed.1, by simpa [succeeds_cons, reported] using hfailed.2⟩

theorem runs_fetchRows {t : AthenaTrace Exn}
    {r : Except (AthenaError Exn) (List SafeAthenaClient.Record)}
    (h : (SafeAthenaClient.fetchRows qid maxResults).run.Runs t r) (hmax : 1 ≤ maxResults)
    (hserves : ∀ ev ∈ t, Serves table ev) :
    r = .ok (table.records.take (maxResults.toNat - 1)) := by
  obtain ⟨result, t', rfl, hresult⟩ := runs_perform_bind.1 h
  have hpage : result = .ok (table.page maxResults) := hserves _ (List.mem_cons_self ..)
  rw [hpage] at hresult
  obtain ⟨-, rfl⟩ := hresult
  rw [recordsOf_page hmax]

/-- What a run with a successful query returns. -/
theorem runs_execute {fuel : ℕ} {t : AthenaTrace Exn}
    {r : Except (AthenaError Exn) SafeAthenaClient.Execution}
    (h : (client.execute query parameters outputLocation true timeout maxResults fuel).run.Runs t r)
    (hmax : 1 ≤ maxResults) (hsucceeds : Succeeds t) (hserves : ∀ ev ∈ t, Serves table ev) :
    ∃ qid, r = .ok ⟨qid, .succeeded, some (table.records.take (maxResults.toNat - 1))⟩ := by
  obtain ⟨answer, t', rfl, hstart⟩ := runs_perform_bind.1 h
  clear h
  cases answer with
  | error e =>
    obtain ⟨rfl, rfl⟩ := hstart
    simp [succeeds_cons, reported] at hsucceeds
  | ok qid =>
    simp only [succeeds_cons, reported, reduceCtorEq, false_or] at hsucceeds
    obtain ⟨t₁, state, t₂, rfl, hwait, hfetch⟩ | ⟨e, rfl, hwait⟩ := runs_except_bind.1 hstart
    · obtain hstate | ⟨⟨e, he⟩, -⟩ := runs_wait hwait
      · obtain rfl : state = .succeeded := Except.ok.inj hstate
        have hpages : ∀ ev ∈ t₂, Serves table ev := fun ev hev => hserves ev (by simp [hev])
        obtain ⟨t₃, records, t₄, rfl, hresults, hreturn⟩ | ⟨e, rfl, hresults⟩ :=
          runs_except_bind.1 hfetch
        · have hrecords := runs_fetchRows hresults hmax fun ev hev => hpages ev (by simp [hev])
          obtain ⟨-, rfl⟩ := hreturn
          exact ⟨qid, by rw [Except.ok.inj hrecords]⟩
        · cases runs_fetchRows hresults hmax hpages
      · cases he
    · obtain hstate | ⟨-, hfailed⟩ := runs_wait hwait
      · cases hstate
      · exact absurd hsucceeds hfailed

/-! ## A run -/

/-- Athena is asked so often before the query has succeeded. -/
def pollTrace (qid : Str) (step : Number) (polls : List (Status × Number)) : AthenaTrace Exn :=
  polls.flatMap fun poll => [⟨.getQueryExecution qid, .ok poll.1⟩, ⟨.monotonic, poll.2⟩,
    ⟨.sleep step, .ok ()⟩]

theorem runs_poll_pollTrace {maxWait step deadline : Number} {polls : List (Status × Number)}
    {fuel : ℕ} (hfuel : polls.length < fuel)
    (hpolls : ∀ poll ∈ polls, poll.1.state.isTerminal = false ∧ deadline.le poll.2 = false)
    {status : Status} (hstatus : status.state = .succeeded) :
    (SafeAthenaClient.poll qid maxWait step deadline fuel).run.Runs
      (pollTrace qid step polls ++ [⟨.getQueryExecution qid, .ok status⟩])
      (.ok .succeeded : Except (AthenaError Exn) QueryState) := by
  induction polls generalizing fuel with
  | nil =>
    obtain ⟨fuel, rfl⟩ : ∃ n, fuel = n + 1 := ⟨fuel - 1, by simp at hfuel; omega⟩
    rw [SafeAthenaClient.poll]
    refine runs_perform_bind.2 ⟨.ok status, [], rfl, ?_⟩
    simp [rethrow, Except.mapError, hstatus, QueryState.isTerminal, runs_fromExcept]
  | cons poll polls ih =>
    obtain ⟨fuel, rfl⟩ : ∃ n, fuel = n + 1 := ⟨fuel - 1, by simp at hfuel; omega⟩
    obtain ⟨⟨hterminal, hdeadline⟩, hpolls⟩ := List.forall_mem_cons.1 hpolls
    rw [SafeAthenaClient.poll]
    refine runs_perform_bind.2 ⟨.ok poll.1, _, rfl, ?_⟩
    simp only [rethrow, Except.mapError, hterminal]
    refine runs_perform_bind.2 ⟨poll.2, _, rfl, ?_⟩
    simp only [hdeadline]
    refine runs_perform_bind.2 ⟨.ok (), _, rfl, ?_⟩
    exact ih (by simpa using hfuel) hpolls

theorem serves_pollTrace {step : Number} {polls : List (Status × Number)} :
    ∀ ev ∈ (pollTrace qid step polls : AthenaTrace Exn), Serves table ev := by
  intro ev hev
  obtain ⟨poll, -, hev⟩ := List.mem_flatMap.1 hev
  simp only [List.mem_cons, List.not_mem_nil, or_false] at hev
  obtain rfl | rfl | rfl := hev <;> trivial

/-- With enough fuel `execute` returns when Athena serves the table and the query succeeds in
time. -/
theorem exists_runs_execute (Exn : Type) (client : SafeAthenaClient) (query : Str)
    (parameters : Option (List Str)) (outputLocation : Option Str) (timeout : Option Number)
    (table : ResultTable) (maxResults : ℤ) (now : Number) {polls : List (Status × Number)}
    (hpolls : ∀ poll ∈ polls, poll.1.state.isTerminal = false ∧
      (now.add (timeout.getD client.pollTimeout)).le poll.2 = false)
    {fuel : ℕ} (hfuel : polls.length < fuel) :
    ∃ (t : AthenaTrace Exn) (r : Except (AthenaError Exn) SafeAthenaClient.Execution),
      (client.execute query parameters outputLocation true timeout maxResults fuel).run.Runs t r ∧
        Succeeds t ∧ ∀ ev ∈ t, Serves table ev := by
  have hwait : (client.wait [] timeout none fuel).run.Runs (⟨.monotonic, now⟩ ::
      (pollTrace [] client.pollInterval polls ++
        [⟨.getQueryExecution [], .ok ⟨.succeeded, none⟩⟩]))
      (.ok .succeeded : Except (AthenaError Exn) QueryState) :=
    runs_perform_bind.2 ⟨now, _, rfl, runs_poll_pollTrace hfuel hpolls rfl⟩
  have hresults : (SafeAthenaClient.fetchRows [] maxResults).run.Runs
      [⟨.getQueryResults [] maxResults, .ok (table.page maxResults)⟩]
      (.ok (SafeAthenaClient.recordsOf (table.page maxResults)) :
        Except (AthenaError Exn) (List SafeAthenaClient.Record)) :=
    runs_perform_bind.2 ⟨.ok (table.page maxResults), [], rfl, rfl, rfl⟩
  refine ⟨_, _, runs_perform_bind.2 ⟨.ok [], _, rfl, runs_except_bind.2 (.inl ⟨_, _, _, rfl, hwait,
    runs_except_bind.2 (.inl ⟨_, _, [], rfl, hresults, rfl, rfl⟩)⟩)⟩, ?_, ?_⟩
  · simp [succeeds_cons, succeeds_append, reported]
  · intro ev hev
    simp only [List.mem_cons, List.mem_append, List.not_mem_nil, or_false] at hev
    obtain rfl | (rfl | hev | rfl) | rfl := hev
    · trivial
    · trivial
    · exact serves_pollTrace ev hev
    · trivial
    · rfl

/-! ## All rows -/

theorem returnsAll_iff_take {client : SafeAthenaClient} {query : Str}
    {parameters : Option (List Str)} {outputLocation : Option Str} {timeout : Option Number}
    {table : ResultTable} {maxResults : ℤ} (hmax : 1 ≤ maxResults) :
    ReturnsAll Exn client query parameters outputLocation timeout table maxResults ↔
      table.records.take (maxResults.toNat - 1) = table.records := by
  constructor
  · intro h
    obtain ⟨t, r, hrun, hsucceeds, hserves⟩ := exists_runs_execute Exn client query parameters
      outputLocation timeout table maxResults .nan (List.forall_mem_nil _) zero_lt_one
    obtain ⟨qid, rfl⟩ := h _ t r hrun hsucceeds hserves
    obtain ⟨qid', heq⟩ := runs_execute hrun hmax hsucceeds hserves
    obtain ⟨-, -, hrecords⟩ := SafeAthenaClient.Execution.mk.inj (Except.ok.inj heq)
    exact (Option.some.inj hrecords).symm
  · intro htake fuel t r hrun hsucceeds hserves
    obtain ⟨qid, rfl⟩ := runs_execute hrun hmax hsucceeds hserves
    exact ⟨qid, by rw [htake]⟩

/-- **A successful query returns all its rows exactly where there are fewer than the limit.** -/
theorem returnsAll_iff (client : SafeAthenaClient) (query : Str) (parameters : Option (List Str))
    (outputLocation : Option Str) (timeout : Option Number) (table : ResultTable) {maxResults : ℤ}
    (hrows : 1 ≤ table.rows.length) (hmax : table.rows.length ≤ maxResults) :
    ReturnsAll Exn client query parameters outputLocation timeout table maxResults ↔
      table.rows.length < maxResults := by
  have hlength : table.records.length = table.rows.length := List.length_map _
  rw [returnsAll_iff_take (by omega), List.take_eq_self_iff, hlength]
  omega

theorem width_column (name : Str) (cells : List (Option Str)) :
    ∀ row ∈ cells.map fun cell => [cell], row.length = [name].length := by
  simp

/-- A table of one column. -/
def column (name : Str) (cells : List (Option Str)) : ResultTable where
  columns := [name]
  rows := cells.map fun cell => [cell]
  nodup := List.nodup_singleton name
  width := width_column name cells

def dbClient : SafeAthenaClient where
  database := codePoints "db"
  outputLocation := codePoints "s3://out/"

theorem returnsAll_column : ReturnsAll String dbClient (codePoints "SELECT 1") none none none
    (column (codePoints "x") [some (codePoints "1"), none]) 3 :=
  (returnsAll_iff dbClient _ none none none _ (by decide) (by decide)).2 (by decide)

/-- The last row is lost when the rows are as many as the limit. -/
theorem not_returnsAll_column : ¬ ReturnsAll String dbClient (codePoints "SELECT 1") none none none
    (column (codePoints "x") [some (codePoints "1"), none]) 2 := by
  intro h
  have htake := congrArg List.length ((returnsAll_iff_take (by decide)).1 h)
  exact absurd htake (by decide)

end Runs

end Resilience.Scope
