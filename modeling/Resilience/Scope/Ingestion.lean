import Resilience.Foundations.Interaction
import Resilience.Python.Objects

/-!
# The ingestion handler

The S3 writers and the response envelopes of `scope_core/utils.py`, and `BaseIngestionHandler` of
`scope_core/handlers.py`. The hooks `fetch_records` and `build_s3_key` are answered from outside,
like S3; a record that `json` cannot write comes with what `json.dumps` raises for it.

The response says what happened to the records (`handled`): status 200 is for a run that has put all
of them, in order, in the only object that it writes, or has found none; with any other outcome
nothing has been put.
-/

namespace Resilience.Scope

open Json Python

/-! ## The handler -/

/-- `str(exc)`, and `isinstance(exc, Exception)`. -/
structure Exceptions (Exn : Type) where
  str : Exn → Except Exn Units
  isException : Exn → Bool

/-- A record that is fetched: a dictionary that can be written, or what `json.dumps` raises. -/
inductive Fetched (ν Exn : Type)
  | serialisable (items : List (Key × Object ν))
  | unserialisable (e : Exn)

/-- The arguments of `put_object`. -/
structure PutObject where
  bucket : Units
  key : Units
  body : Text
  contentType : Option Units

inductive IngestRequest (ε : Type)
  | fetchRecords (event : ε)
  | buildS3Key (event : ε)
  | putObject (kwargs : PutObject)

abbrev IngestAnswer (ν Exn : Type) {ε : Type} : IngestRequest ε → Type
  | .fetchRecords _ => Except Exn (List (Fetched ν Exn))
  | .buildS3Key _ => Except Exn Units
  | .putObject _ => Except Exn Unit

variable {ν Exn ε : Type}

abbrev IngestProg (ν Exn ε α : Type) :=
  ExceptT Exn (Prog (IngestRequest ε) (IngestAnswer ν Exn)) α

abbrev IngestTrace (ν Exn ε : Type) := List (Prog.Event (IngestRequest ε) (IngestAnswer ν Exn))

/-- `f"s3://{bucket}/{key}"`. -/
def s3Uri (bucket key : Units) : Units := utf16 "s3://" ++ bucket ++ utf16 "/" ++ key

/-- `write_object_to_s3`; an empty content type is left out. -/
def writeObjectToS3 (bucket key : Units) (body : Text) (contentType : Option Units) :
    IngestProg ν Exn ε Units := do
  let contentType := match contentType with
    | some (c :: cs) => some (c :: cs)
    | some [] | none => none
  perform (.putObject ⟨bucket, key, body, contentType⟩) id
  fromExcept (.ok (s3Uri bucket key))

/-- `json.dumps(r)`. -/
def dumpRecord (N : Numerals ν) : Fetched ν Exn → Except Exn Text
  | .serialisable items => .ok (dumps N (Object.dict items).toDoc)
  | .unserialisable e => .error e

/-- `write_jsonl_to_s3`. -/
def writeJsonlToS3 (N : Numerals ν) (bucket key : Units) (records : List (Fetched ν Exn)) :
    IngestProg ν Exn ε Units := do
  let lines ← fromExcept (records.mapM (dumpRecord N))
  writeObjectToS3 bucket key ([0x0A].intercalate lines) (some (utf16 "application/json"))

structure Response where
  statusCode : ℕ
  body : Text

/-- `response_envelope`. -/
def responseEnvelope (N : Numerals ν) (statusCode : ℕ) (body : List (Units × Object ν)) :
    Response := ⟨statusCode, dumps N (Object.ofItems body).toDoc⟩

/-- `success_response`. -/
def successResponse (N : Numerals ν) (body : List (Units × Object ν)) : Response :=
  responseEnvelope N 200 body

/-- `error_response`. -/
def errorResponse (N : Numerals ν) (exns : Exceptions Exn) (error : Exn) (statusCode : ℕ) :
    Except Exn Response :=
  (exns.str error).map fun s => responseEnvelope N statusCode [(utf16 "error", .str s)]

/-- What `ingest` returns. -/
structure Ingested where
  recordsFetched : ℕ
  s3Path : Units

structure BaseIngestionHandler where
  bucket : Units

namespace BaseIngestionHandler

variable (self : BaseIngestionHandler) (N : Numerals ν)

def ingest (event : ε) : IngestProg ν Exn ε Ingested := do
  let records ← perform (.fetchRecords event) id
  if records.isEmpty then fromExcept (.ok ⟨records.length, []⟩)
  else
    let key ← perform (.buildS3Key event) id
    let s3Path ← writeJsonlToS3 N self.bucket key records
    fromExcept (.ok ⟨records.length, s3Path⟩)

/-- The result as a dictionary; `number` is the number for a count. -/
def result (number : ℕ → ν) (ingested : Ingested) : List (Units × Object ν) :=
  [(utf16 "status", .str (utf16 "completed")),
    (utf16 "records_fetched", .num (number ingested.recordsFetched)),
    (utf16 "s3_path", .str ingested.s3Path)]

def handle (number : ℕ → ν) (exns : Exceptions Exn) (event : ε) : IngestProg ν Exn ε Response := do
  match ← observe (self.ingest N event) with
  | .ok ingested => fromExcept (.ok (successResponse N (result number ingested)))
  | .error exc =>
    if exns.isException exc then fromExcept (errorResponse N exns exc 500)
    else fromExcept (.error exc)

end BaseIngestionHandler

/-! ## Lines of JSON -/

/-- The lines of a text that ends without a newline. -/
theorem splitlines_intercalate {ls : List Text} (hline : ∀ l ∈ ls, OneLine l)
    (hne : ∀ l ∈ ls, l ≠ []) : splitlines ([0x0A].intercalate ls) = ls := by
  induction ls with
  | nil => rfl
  | cons l ls ih =>
    obtain ⟨hl, hls⟩ := List.forall_mem_cons.1 hline
    obtain ⟨hlne, hlsne⟩ := List.forall_mem_cons.1 hne
    cases ls with
    | nil =>
      have hlast : l.getLast?.any isLineBreak = false := by
        obtain ⟨c, hc⟩ := Option.ne_none_iff_exists'.1 (List.getLast?_eq_none_iff.not.2 hlne)
        rw [hc]
        exact hl c (List.mem_of_getLast? hc)
      rw [List.intercalate_singleton, splitlines, splitInclusive_eq_singleton hlne hl]
      simp [hlast]
    | cons l' ls =>
      have hterm : Terminated isLineBreak (l ++ [0x0A]) := terminated_concat (by decide)
      rw [List.intercalate_cons_cons, splitlines, splitInclusive_append hterm,
        splitInclusive_line hl (by decide), List.map_append]
      show [_] ++ splitlines ([0x0A].intercalate (l' :: ls)) = _
      rw [ih hls hlsne]
      simp [isLineBreak]

/-- What JSON keeps of a value: its keys are strings, and of those that are written alike the last
counts. -/
def jsonOf (v : Object ν) : Doc ν := v.toDoc.transform id .num assignAll

/-- Records that were written as lines are read back line by line. -/
theorem loads_lines {N : Numerals ν} (hN : N.Lawful some) (dicts : List (List (Key × Object ν))) :
    (splitlines ([0x0A].intercalate
        (dicts.map fun items => dumps N (Object.dict items).toDoc))).map (loads N) =
      dicts.map fun items => .ok (jsonOf (.dict items)) := by
  rw [splitlines_intercalate, List.map_map]
  · exact List.map_congr_left fun items _ => loads_render hN true _
  · intro l hl
    obtain ⟨items, -, rfl⟩ := List.mem_map.1 hl
    exact oneLine_dumps hN _
  · intro l hl
    obtain ⟨items, -, rfl⟩ := List.mem_map.1 hl
    rw [dumps, Object.toDoc_dict, render_obj]
    exact List.cons_ne_nil _ _

theorem mapM_dumpRecord {N : Numerals ν} {records : List (Fetched ν Exn)} {lines : List Text}
    (h : records.mapM (dumpRecord N) = .ok lines) : ∃ dicts : List (List (Key × Object ν)),
      records = dicts.map .serialisable ∧
        lines = dicts.map fun items => dumps N (Object.dict items).toDoc := by
  rw [mapM_eq_ok_iff] at h
  induction records generalizing lines with
  | nil => exact ⟨[], rfl, List.map_eq_nil_iff.1 h.symm⟩
  | cons record records ih =>
    obtain ⟨line, rest, rfl, hline, hrest⟩ := List.map_eq_cons_iff.1 h.symm
    obtain ⟨dicts, rfl, rfl⟩ := ih hrest.symm
    cases record with
    | serialisable items => exact ⟨items :: dicts, rfl, by rw [Except.ok.inj hline]; rfl⟩
    | unserialisable e => cases hline

/-! ## What happens to the records -/

section Handled

variable {self : BaseIngestionHandler} {N : Numerals ν} {number : ℕ → ν} {exns : Exceptions Exn}
  {event : ε}

/-- The records that are fetched. -/
def fetchedOf : Prog.Event (IngestRequest ε) (IngestAnswer ν Exn) → Option (List (Fetched ν Exn))
  | ⟨.fetchRecords _, .ok records⟩ => some records
  | _ => none

/-- What is put, and what came of it. -/
def putOf : Prog.Event (IngestRequest ε) (IngestAnswer ν Exn) →
    Option (PutObject × Except Exn Unit)
  | ⟨.putObject kwargs, answer⟩ => some (kwargs, answer)
  | _ => none

/-- Nothing has been put, though there may have been one attempt. -/
def PutsNothing (t : IngestTrace ν Exn ε) : Prop :=
  t.filterMap putOf = [] ∨ ∃ kwargs e, t.filterMap putOf = [(kwargs, .error e)]

/-- All records have been put, in the only object that was written. -/
structure PutsAll (self : BaseIngestionHandler) (N : Numerals ν) (key : Units)
    (dicts : List (List (Key × Object ν))) (t : IngestTrace ν Exn ε) : Prop where
  fetched : t.filterMap fetchedOf = [dicts.map .serialisable]
  put : ∃ body, t.filterMap putOf =
      [(⟨self.bucket, key, body, some (utf16 "application/json")⟩, .ok ())] ∧
    (splitlines body).map (loads N) = dicts.map fun items => .ok (jsonOf (.dict items))

/-- JSON Lines are put at once, if every record can be written. -/
theorem runs_writeJsonlToS3 {bucket key : Units} {records : List (Fetched ν Exn)}
    {t : IngestTrace ν Exn ε} {r : Except Exn Units}
    (h : (writeJsonlToS3 N bucket key records).run.Runs t r) :
    (t = [] ∧ ∃ e, r = .error e) ∨
      ∃ lines answer, records.mapM (dumpRecord N) = .ok lines ∧
        t = [⟨.putObject ⟨bucket, key, [0x0A].intercalate lines, some (utf16 "application/json")⟩,
          answer⟩] ∧ r = answer.map fun _ => s3Uri bucket key := by
  have hwrite := runs_fromExcept_bind.1 h
  clear h
  cases hlines : records.mapM (dumpRecord N) with
  | error e =>
    rw [hlines] at hwrite
    exact .inl ⟨hwrite.1, e, hwrite.2.symm⟩
  | ok lines =>
    rw [hlines] at hwrite
    obtain ⟨answer, t', rfl, hput⟩ := runs_perform_bind.1 hwrite
    refine .inr ⟨lines, answer, rfl, ?_⟩
    cases answer with
    | error e =>
      obtain ⟨rfl, rfl⟩ := hput
      exact ⟨rfl, rfl⟩
    | ok answer =>
      obtain ⟨rfl, rfl⟩ := hput
      exact ⟨rfl, rfl⟩

theorem runs_ingest (hN : N.Lawful some) {t : IngestTrace ν Exn ε} {r : Except Exn Ingested}
    (h : (self.ingest N event).run.Runs t r) :
    (r = .ok ⟨0, []⟩ ∧ t.filterMap fetchedOf = [[]] ∧ t.filterMap putOf = []) ∨
      (∃ key dicts, dicts ≠ [] ∧ r = .ok ⟨dicts.length, s3Uri self.bucket key⟩ ∧
        PutsAll self N key dicts t) ∨
      (∃ e, r = .error e) ∧ PutsNothing t := by
  obtain ⟨fetched, t₁, rfl, hfetch⟩ := runs_perform_bind.1 h
  clear h
  cases fetched with
  | error e =>
    obtain ⟨rfl, rfl⟩ := hfetch
    exact .inr (.inr ⟨⟨e, rfl⟩, Or.inl rfl⟩)
  | ok records =>
    dsimp only [id] at hfetch
    split_ifs at hfetch with hempty
    · obtain rfl := List.isEmpty_iff.1 hempty
      obtain ⟨rfl, rfl⟩ := hfetch
      exact .inl ⟨rfl, rfl, rfl⟩
    · obtain ⟨key, t₂, rfl, hkey⟩ := runs_perform_bind.1 hfetch
      cases key with
      | error e =>
        obtain ⟨rfl, rfl⟩ := hkey
        exact .inr (.inr ⟨⟨e, rfl⟩, Or.inl rfl⟩)
      | ok key =>
        obtain ⟨t₃, uri, t₄, rfl, hwrite, ⟨rfl, rfl⟩⟩ | ⟨e, rfl, hwrite⟩ := runs_except_bind.1 hkey
        · obtain ⟨-, e, he⟩ | ⟨lines, answer, hlines, rfl, hr⟩ := runs_writeJsonlToS3 hwrite
          · cases he
          · obtain ⟨dicts, rfl, rfl⟩ := mapM_dumpRecord hlines
            cases answer with
            | error e => cases hr
            | ok answer =>
              refine .inr (.inl ⟨key, dicts, ?_, ?_, rfl, _, rfl, loads_lines hN dicts⟩)
              · rintro rfl
                exact hempty rfl
              · rw [Except.ok.inj hr, List.length_map]
        · obtain ⟨rfl, -⟩ | ⟨lines, answer, hlines, rfl, hr⟩ := runs_writeJsonlToS3 hwrite
          · exact .inr (.inr ⟨⟨e, rfl⟩, Or.inl rfl⟩)
          · cases answer with
            | error e' => exact .inr (.inr ⟨⟨e, rfl⟩, Or.inr ⟨_, e', rfl⟩⟩)
            | ok answer => cases hr

/-- What a run of `handle` has done, by its response. -/
inductive Handled (self : BaseIngestionHandler) (N : Numerals ν) (number : ℕ → ν) :
    IngestTrace ν Exn ε → Except Exn Response → Prop
  /-- There were no records. -/
  | nothing {t : IngestTrace ν Exn ε} {body : Text} (hfetched : t.filterMap fetchedOf = [[]])
    (hput : t.filterMap putOf = [])
    (hbody : loads N body = .ok (.obj [(utf16 "status", .str (utf16 "completed")),
      (utf16 "records_fetched", .num (number 0)), (utf16 "s3_path", .str [])])) :
    Handled self N number t (.ok ⟨200, body⟩)
  | stored {t : IngestTrace ν Exn ε} {body : Text} {key : Units}
    {dicts : List (List (Key × Object ν))} (hne : dicts ≠ []) (hputs : PutsAll self N key dicts t)
    (hbody : loads N body = .ok (.obj [(utf16 "status", .str (utf16 "completed")),
      (utf16 "records_fetched", .num (number dicts.length)),
      (utf16 "s3_path", .str (s3Uri self.bucket key))])) :
    Handled self N number t (.ok ⟨200, body⟩)
  | failed {t : IngestTrace ν Exn ε} {body : Text} {message : Units} (hputs : PutsNothing t)
    (hbody : loads N body = .ok (.obj [(utf16 "error", .str message)])) :
    Handled self N number t (.ok ⟨500, body⟩)
  | raised {t : IngestTrace ν Exn ε} (e : Exn) (hputs : PutsNothing t) :
    Handled self N number t (.error e)

/-- A body of plain values is read back as it is. -/
theorem loads_responseEnvelope (hN : N.Lawful some) (statusCode : ℕ)
    {body : List (Units × Object ν)} (hnodup : (body.map Prod.fst).Nodup)
    (hplain : ∀ m ∈ body, m.2.toDoc.Within (fun _ => True) List.Nodup) :
    loads N (responseEnvelope N statusCode body).body =
      .ok (.obj (body.map fun m => (m.1, m.2.toDoc))) := by
  rw [responseEnvelope, Object.toDoc_ofItems]
  refine loads_dumps hN ?_
  rw [within_obj, List.map_map]
  refine ⟨hnodup, fun m hm => ⟨trivial, ?_⟩⟩
  obtain ⟨m', hm', rfl⟩ := List.mem_map.1 hm
  exact hplain m' hm'

/-- **The response says what happened to the records.** Status 200 comes with all the records, in
order, in the only object that was put, and with their number and its URI, or with no records and
nothing put; after every other outcome, nothing has been put. -/
theorem handled (self : BaseIngestionHandler) (N : Numerals ν) (hN : N.Lawful some)
    (number : ℕ → ν) (exns : Exceptions Exn) (event : ε) (t : IngestTrace ν Exn ε)
    (r : Except Exn Response) (h : (self.handle N number exns event).run.Runs t r) :
    Handled self N number t r := by
  obtain ⟨t₁, outcome, t₂, rfl, hingest, hrespond⟩ := runs_observe_bind.1 h
  clear h
  have hsuccess : ∀ ingested : Ingested, loads N
      (successResponse N (BaseIngestionHandler.result number ingested)).body =
        .ok (.obj [(utf16 "status", .str (utf16 "completed")),
          (utf16 "records_fetched", .num (number ingested.recordsFetched)),
          (utf16 "s3_path", .str ingested.s3Path)]) := by
    intro ingested
    refine loads_responseEnvelope hN 200 ?_ ?_
    · exact (List.nodup_map_iff utf16_injective).2
        (show ["status", "records_fetched", "s3_path"].Nodup by decide)
    · simp only [BaseIngestionHandler.result, List.forall_mem_cons]
      exact ⟨trivial, trivial, trivial, List.forall_mem_nil _⟩
  obtain ⟨rfl, hfetched, hput⟩ | ⟨key, dicts, hne, rfl, hputs⟩ | ⟨⟨exc, rfl⟩, hputs⟩ :=
    runs_ingest hN hingest
  · obtain ⟨rfl, rfl⟩ := hrespond
    rw [List.append_nil]
    exact .nothing hfetched hput (hsuccess _)
  · obtain ⟨rfl, rfl⟩ := hrespond
    rw [List.append_nil]
    exact .stored hne hputs (hsuccess _)
  · dsimp only at hrespond
    split_ifs at hrespond with hexc
    · obtain ⟨rfl, rfl⟩ := hrespond
      rw [List.append_nil]
      cases hmessage : exns.str exc with
      | error e =>
        rw [errorResponse, hmessage]
        exact .raised e hputs
      | ok message =>
        rw [errorResponse, hmessage]
        exact .failed hputs (loads_responseEnvelope hN 500 (List.nodup_singleton _)
          (List.forall_mem_singleton.2 trivial))
    · obtain ⟨rfl, rfl⟩ := hrespond
      rw [List.append_nil]
      exact .raised exc hputs

def rawHandler : BaseIngestionHandler := ⟨utf16 "raw-bucket"⟩

def plainExceptions : Exceptions String where
  str message := .ok (utf16 message)
  isException _ := true

/-- One record is fetched, and put. -/
theorem handled_one : ∃ (t : IngestTrace ℤ String Unit) (r : Except String Response),
    Handled rawHandler Numerals.integers Int.ofNat t r := by
  obtain ⟨t, response, hrun⟩ : ∃ t response,
      (rawHandler.handle Numerals.integers Int.ofNat plainExceptions ()).run.Runs t response :=
    ⟨_, _, .ok [.serialisable [(.str (codePoints "a"), .num 1)]], _, rfl, .ok (utf16 "k.jsonl"), _,
      rfl, .ok (), _, rfl, rfl, rfl⟩
  exact ⟨t, response, handled rawHandler Numerals.integers Numerals.lawful_integers Int.ofNat
    plainExceptions () t response hrun⟩

end Handled

end Resilience.Scope
