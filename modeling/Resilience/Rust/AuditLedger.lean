import Resilience.Foundations.HashChain
import Resilience.Foundations.Hmac
import Resilience.Rust.FileLedger

/-!
# The audit ledger in Rust

`rust/src/audit.rs`: one JSON line for each record, chained by signatures. The message
authentication code is a parameter `hmac`, from a key and a message to the hexadecimal digest; paths
are taken as confined already, and the clock is an argument of `append`.

A record that is read back may differ from the one that was written, in a confidence that is not
finite, but signs the same payload (`signingPayload_written`). So the records of a file are a chain
in the sense of `Scheme`, the walk of `verify_ledger_under` is the walk over that chain
(`verifyRecords_eq`), and the results about chains are results about ledgers.
-/

namespace Resilience.Rust

variable {ν F : Type}

/-! ## Records -/

inductive AuditError
  | io
  | json
  deriving DecidableEq

/-- The fields that the caller supplies. -/
structure AuditRecordInput (ν F : Type) where
  event : String
  actor : String
  inputs : Option (Value ν) := none
  sources : Option (Value ν) := none
  confidence : Option F := none
  rationale : Option String := none
  ts : Option String := none

structure AuditRecord (ν F : Type) where
  ts : String
  event : String
  actor : String
  inputs : Value ν
  sources : Value ν
  confidence : Option F
  rationale : Option String
  prevSig : String
  sig : String

inductive VerifyResult
  | ok (count : ℕ)
  | tampered (tamperedIndex : ℕ) (reason : String)
  deriving DecidableEq

namespace AuditRecord

variable (S : SerdeJson ν F)

/-- The derived serializer; an `f64` that is not finite is written as `null`. -/
def toDoc (r : AuditRecord ν F) : Doc ν :=
  .obj ([("ts", .str r.ts), ("event", .str r.event), ("actor", .str r.actor),
      ("inputs", r.inputs.doc), ("sources", r.sources.doc)] ++
    (match r.confidence with
      | some c => [("confidence", (S.fromF64 c).elim .null .num)]
      | none => []) ++
    (match r.rationale with
      | some s => [("rationale", .str s)]
      | none => []) ++
    [("prev_sig", .str r.prevSig), ("sig", .str r.sig)])

/-- The fields of a record, each read from its document. -/
def ofFields (ts event actor inputs sources confidence rationale prevSig sig : Doc ν) :
    Option (AuditRecord ν F) := do
  let ts ← asString ts
  let event ← asString event
  let actor ← asString actor
  let confidence ← asOptionF64 S confidence
  let rationale ← asOptionString rationale
  let prevSig ← asString prevSig
  let sig ← asString sig
  return ⟨ts, event, actor, .ofDoc inputs, .ofDoc sources, confidence, rationale, prevSig, sig⟩

/-- The derived deserializer, which reads a struct from an object or from a sequence. -/
def ofDoc : Doc ν → Option (AuditRecord ν F)
  | .obj ms => do
    let ts ← required "ts" ms
    let event ← required "event" ms
    let actor ← required "actor" ms
    let inputs ← required "inputs" ms
    let sources ← required "sources" ms
    let confidence ← optional "confidence" ms
    let rationale ← optional "rationale" ms
    let prevSig ← required "prev_sig" ms
    let sig ← required "sig" ms
    ofFields S ts event actor inputs sources confidence rationale prevSig sig
  | .arr [ts, event, actor, inputs, sources, confidence, rationale, prevSig, sig] =>
    ofFields S ts event actor inputs sources confidence rationale prevSig sig
  | _ => none

/-- The line of the record. -/
def line (r : AuditRecord ν F) : List UInt8 := lineBytes (S.toString (r.toDoc S))

/-- The record as it is read back: without a confidence that is not finite. -/
def written (r : AuditRecord ν F) : AuditRecord ν F :=
  { r with confidence := r.confidence.filter fun c => (S.fromF64 c).isSome }

end AuditRecord

/-- `signing_payload`. -/
def signingPayload (S : SerdeJson ν F) (r : AuditRecord ν F) : Value ν :=
  .object ([("ts", .string r.ts), ("event", .string r.event), ("actor", .string r.actor),
      ("inputs", r.inputs), ("sources", r.sources)] ++
    (match r.confidence.bind S.fromF64 with
      | some n => [("confidence", .number n)]
      | none => []) ++
    (match r.rationale with
      | some s => [("rationale", .string s)]
      | none => []) ++
    [("prev_sig", .string r.prevSig)])

/-- The signature of a payload. -/
def signValue (S : SerdeJson ν F) (hmac : Hmac) (key : String) (v : Value ν) : String :=
  hmac (utf8 key.toList) (utf8 (S.toString v.doc))

def sign (S : SerdeJson ν F) (hmac : Hmac) (key : String) (r : AuditRecord ν F) : String :=
  signValue S hmac key (signingPayload S r)

/-! ## The ledger -/

/-- The loop of `read_records` over the lines of the file. -/
def readLines (S : SerdeJson ν F) : List (List UInt8) → Except AuditError (List (AuditRecord ν F))
  | [] => .ok []
  | line :: lines =>
    match decodeUtf8 line with
    | none => .error .io
    | some line =>
      if isBlank isWhitespace (stripNewline line) then readLines S lines
      else match (S.fromStr (stripNewline line)).bind (AuditRecord.ofDoc S) with
        | none => .error .json
        | some r => (readLines S lines).map (r :: ·)

/-- `read_records`; `none` is a file that does not exist. -/
def readRecords (S : SerdeJson ν F) :
    Option (List UInt8) → Except AuditError (List (AuditRecord ν F))
  | none => .ok []
  | some bytes => readLines S (splitInclusive isNewline bytes)

/-- The walk of `verify_ledger_under`: the index of the first broken record, and the reason. -/
def walk (S : SerdeJson ν F) (hmac : Hmac) (key : String) :
    ℕ → String → List (AuditRecord ν F) → Option (ℕ × String)
  | _, _, [] => none
  | i, prevSig, r :: rs =>
    if r.prevSig ≠ prevSig then some (i, s!"prev_sig mismatch: chain broken at line {i}")
    else if sign S hmac key r ≠ r.sig then some (i, s!"signature mismatch at line {i}")
    else walk S hmac key (i + 1) r.sig rs

def verifyRecords (S : SerdeJson ν F) (hmac : Hmac) (key : String) (rs : List (AuditRecord ν F)) :
    VerifyResult :=
  match walk S hmac key 0 "" rs with
  | none => .ok rs.length
  | some (i, reason) => .tampered i reason

/-- `verify_ledger_under`. -/
def verifyLedgerUnder (S : SerdeJson ν F) (hmac : Hmac) (file : Option (List UInt8))
    (key : String) : Except AuditError VerifyResult :=
  (readRecords S file).map (verifyRecords S hmac key)

structure AuditLedger where
  key : String
  lastSig : String
  deriving DecidableEq

namespace AuditLedger

/-- `AuditLedger::open_under`. -/
def openUnder (S : SerdeJson ν F) (file : Option (List UInt8)) (key : String) :
    Except AuditError AuditLedger :=
  (readRecords S file).map fun rs => ⟨key, (rs.getLast?.map (·.sig)).getD ""⟩

variable (S : SerdeJson ν F) (hmac : Hmac) (L : AuditLedger)

/-- The record before it is signed; `now` is the current time. -/
def unsigned (now : String) (input : AuditRecordInput ν F) : AuditRecord ν F where
  ts := input.ts.getD now
  event := input.event
  actor := input.actor
  inputs := input.inputs.getD .null
  sources := input.sources.getD .null
  confidence := input.confidence
  rationale := input.rationale
  prevSig := L.lastSig
  sig := ""

/-- The record that `append` signs and writes. -/
def record (now : String) (input : AuditRecordInput ν F) : AuditRecord ν F :=
  let r := L.unsigned now input
  { r with sig := sign S hmac L.key r }

/-- The ledger after `append` has returned a signature. -/
def appended (now : String) (input : AuditRecordInput ν F) : AuditLedger :=
  { L with lastSig := (L.record S hmac now input).sig }

/-- The records of successive appends. -/
def records (L : AuditLedger) : List (String × AuditRecordInput ν F) → List (AuditRecord ν F)
  | [] => []
  | (now, input) :: rest =>
    L.record S hmac now input :: records (L.appended S hmac now input) rest

end AuditLedger

/-! ## Records as a chain -/

/-- The `prev_sig` of a payload. -/
def payloadPrevSig (v : Value ν) : String :=
  match v.doc with
  | .obj ms => (((ms.find? (·.1 = "prev_sig")).map (·.2)).bind asString).getD ""
  | _ => ""

/-- The chain of a ledger with the key `key`. -/
def scheme (S : SerdeJson ν F) (hmac : Hmac) (key : String) : Scheme (Value ν) String where
  genesis := ""
  link := payloadPrevSig
  sign := signValue S hmac key

/-- A record, as its payload and its signature. -/
def AuditRecord.entry (S : SerdeJson ν F) (r : AuditRecord ν F) : Entry (Value ν) String :=
  ⟨signingPayload S r, r.sig⟩

theorem find?_mapInsert_self {α : Type} (k : String) (v : α) (ms : List (String × α)) :
    (mapInsert k v ms).find? (·.1 = k) = some (k, v) := by
  induction ms with
  | nil => simp [mapInsert]
  | cons m ms ih =>
    unfold mapInsert
    split_ifs with h₁ h₂
    · simp
    · simp
    · rw [List.find?_cons_of_neg (by simpa using Ne.symm h₂)]
      exact ih

@[simp] theorem payloadPrevSig_signingPayload (S : SerdeJson ν F) (r : AuditRecord ν F) :
    payloadPrevSig (signingPayload S r) = r.prevSig := by
  simp only [payloadPrevSig, signingPayload, Value.object, List.map_append, btreeMap,
    List.foldl_append, List.map_cons, List.map_nil, List.foldl_cons, List.foldl_nil]
  rw [find?_mapInsert_self]
  rfl

theorem sign_eq (S : SerdeJson ν F) (hmac : Hmac) (key : String) (r : AuditRecord ν F) :
    (scheme S hmac key).sign (r.entry S).payload = sign S hmac key r := rfl

theorem walk_eq (S : SerdeJson ν F) (hmac : Hmac) (key : String) (i : ℕ) (prevSig : String)
    (rs : List (AuditRecord ν F)) :
    (walk S hmac key i prevSig rs).map Prod.fst =
      ((scheme S hmac key).firstBroken prevSig (rs.map (·.entry S))).map (· + i) := by
  induction rs generalizing i prevSig with
  | nil => rfl
  | cons r rs ih =>
    have hlink : (scheme S hmac key).link (r.entry S).payload = r.prevSig :=
      payloadPrevSig_signingPayload S r
    have htag : (r.entry S).tag = r.sig := rfl
    rw [walk, List.map_cons, Scheme.firstBroken, hlink, sign_eq, htag]
    split_ifs
    · simp
    · simp
    · rw [ih, Option.map_map]
      congr 1
      funext n
      show n + (i + 1) = n + 1 + i
      omega

/-- The walk of `verify_ledger_under` is the walk over the chain. -/
theorem verifyRecords_eq (S : SerdeJson ν F) (hmac : Hmac) (key : String)
    (rs : List (AuditRecord ν F)) :
    match (scheme S hmac key).firstBroken "" (rs.map (·.entry S)) with
    | none => verifyRecords S hmac key rs = .ok rs.length
    | some i => ∃ reason, verifyRecords S hmac key rs = .tampered i reason := by
  have h := walk_eq S hmac key 0 "" rs
  unfold verifyRecords
  cases hwalk : walk S hmac key 0 "" rs with
  | none =>
    rw [hwalk, Option.map_none] at h
    rw [Option.map_eq_none_iff.1 h.symm]
  | some p =>
    rw [hwalk, Option.map_some] at h
    obtain ⟨i, hi, hp⟩ := Option.map_eq_some_iff.1 h.symm
    obtain ⟨j, reason⟩ := p
    obtain rfl : i = j := hp
    rw [hi]
    exact ⟨reason, rfl⟩

theorem verifyRecords_eq_ok_iff {S : SerdeJson ν F} {hmac : Hmac} {key : String}
    {rs : List (AuditRecord ν F)} {n : ℕ} :
    verifyRecords S hmac key rs = .ok n ↔
      rs.length = n ∧ (scheme S hmac key).Chained "" (rs.map (·.entry S)) := by
  have h := verifyRecords_eq S hmac key rs
  rw [← Scheme.firstBroken_eq_none_iff]
  cases hb : (scheme S hmac key).firstBroken "" (rs.map (·.entry S)) with
  | none =>
    rw [hb] at h
    simp [h]
  | some i =>
    rw [hb] at h
    obtain ⟨reason, h⟩ := h
    simp [h]

/-- The records of successive appends are a chain. -/
theorem chained_records (S : SerdeJson ν F) (hmac : Hmac) (L : AuditLedger)
    (inputs : List (String × AuditRecordInput ν F)) :
    (scheme S hmac L.key).Chained L.lastSig ((L.records S hmac inputs).map (·.entry S)) := by
  induction inputs generalizing L with
  | nil => trivial
  | cons p inputs ih =>
    obtain ⟨now, input⟩ := p
    refine ⟨?_, rfl, ih (L.appended S hmac now input)⟩
    exact payloadPrevSig_signingPayload S (L.record S hmac now input)

theorem scheme_sign_injective {S : SerdeJson ν F} {hmac : Hmac} {key : String}
    (hmac_ideal : hmac.Ideal (utf8 key.toList))
    (hprint : Function.Injective fun v : Value ν => S.toString v.doc) :
    Function.Injective (scheme S hmac key).sign :=
  fun _ _ h => hprint (utf8_injective (hmac_ideal.injective h))

/-! ## Reading back -/

section Reading

variable {S : SerdeJson ν F}

@[simp] theorem signingPayload_written (r : AuditRecord ν F) :
    signingPayload S (r.written S) = signingPayload S r := by
  have h : (r.written S).confidence.bind S.fromF64 = r.confidence.bind S.fromF64 := by
    unfold AuditRecord.written
    cases r.confidence with
    | none => rfl
    | some c => cases hc : S.fromF64 c <;> simp [Option.filter, hc]
  unfold signingPayload
  rw [h]
  rfl

@[simp] theorem AuditRecord.entry_written (r : AuditRecord ν F) :
    (r.written S).entry S = r.entry S := by
  rw [AuditRecord.entry, signingPayload_written]
  rfl

/-- The document of the record is read back, and its confidence as it was. -/
structure AuditRecord.ReadsBack (S : SerdeJson ν F) (r : AuditRecord ν F) : Prop where
  doc : S.fromStr (S.toString (r.toDoc S)) = some (r.toDoc S)
  confidence : ∀ c ∈ r.confidence, ∀ n, S.fromF64 c = some n → S.asF64 n = c

/-- The record of the input is read back, whatever the signatures in it. -/
def AuditRecordInput.ReadsBack (S : SerdeJson ν F) (now : String) (input : AuditRecordInput ν F) :
    Prop :=
  ∀ prevSig sig : String,
    AuditRecord.ReadsBack S { AuditLedger.unsigned ⟨"", prevSig⟩ now input with sig := sig }

theorem AuditRecordInput.readsBack_of_forall (hread : ∀ d, S.fromStr (S.toString d) = some d)
    (hnumber : ∀ x n, S.fromF64 x = some n → S.asF64 n = x) (now : String)
    (input : AuditRecordInput ν F) : input.ReadsBack S now :=
  fun _ _ => ⟨hread _, fun c _ n => hnumber c n⟩

theorem AuditRecordInput.readsBack_integers (now : String)
    (input : AuditRecordInput ℤ (Option ℤ)) : input.ReadsBack SerdeJson.integers now :=
  readsBack_of_forall SerdeJson.fromStr_integers (fun _ _ h => h.symm) now input

theorem AuditRecord.ReadsBack.ofDoc_toDoc {r : AuditRecord ν F} (h : r.ReadsBack S) :
    AuditRecord.ofDoc S (r.toDoc S) = some (r.written S) := by
  have hnumber := h.confidence
  clear h
  obtain ⟨ts, event, actor, inputs, sources, confidence, rationale, prevSig, sig⟩ := r
  have hread : AuditRecord.ofDoc S (AuditRecord.toDoc S
      ⟨ts, event, actor, inputs, sources, confidence, rationale, prevSig, sig⟩) =
      AuditRecord.ofFields S (.str ts) (.str event) (.str actor) inputs.doc sources.doc
        (confidence.elim .null fun c => (S.fromF64 c).elim .null .num) (rationale.elim .null .str)
        (.str prevSig) (.str sig) := by
    cases confidence <;> cases rationale <;> rfl
  have hconfidence : asOptionF64 S (confidence.elim .null fun c => (S.fromF64 c).elim .null .num) =
      some (confidence.filter fun c => (S.fromF64 c).isSome) := by
    cases confidence with
    | none => rfl
    | some c =>
      cases hc : S.fromF64 c with
      | none => simp [asOptionF64, Option.filter, hc]
      | some n => simp [asOptionF64, Option.filter, hc, hnumber c rfl n hc]
  have hrationale : asOptionString (rationale.elim (.null : Doc ν) .str) = some rationale := by
    cases rationale <;> rfl
  rw [hread, AuditRecord.ofFields, hconfidence, hrationale]
  simp [asString, AuditRecord.written]

theorem readLines_append {as bs : List (List UInt8)} :
    readLines S (as ++ bs) =
      (readLines S as).bind fun rs => (readLines S bs).map (rs ++ ·) := by
  induction as with
  | nil =>
    show readLines S bs = (readLines S bs).map ([] ++ ·)
    cases readLines S bs <;> rfl
  | cons a as ih =>
    rw [List.cons_append, readLines, readLines]
    split
    · rfl
    · split_ifs
      · exact ih
      · split
        · rfl
        · rw [ih]
          cases readLines S as with
          | error e => rfl
          | ok rs => cases readLines S bs <;> rfl

/-- The line of a record is read as that record. -/
theorem readLines_line (hS : S.Lawful) {r : AuditRecord ν F} (h : r.ReadsBack S) :
    readLines S (splitInclusive isNewline (r.line S)) = .ok [r.written S] := by
  obtain ⟨ms, hms⟩ : ∃ ms, r.toDoc S = .obj ms := ⟨_, rfl⟩
  have hread := h.doc
  have hdoc := h.ofDoc_toDoc
  have hblank : isBlank isWhitespace (S.toString (r.toDoc S)) = false := by
    obtain ⟨body, hbody, -⟩ := hS.toString_obj ms
    rw [hms, hbody]
    exact isBlank_cons (by decide)
  rw [hms] at hread hdoc hblank
  rw [AuditRecord.line, hms, splitInclusive_lineBytes (hS.newline_not_mem ms), readLines, lineBytes,
    decodeUtf8_utf8]
  dsimp only
  rw [stripNewline_concat (hS.getLast?_ne ms), hblank, hread, Option.bind_some, hdoc]
  rfl

/-- The file gives these records, and whatever comes next begins a new line. -/
structure Holds (S : SerdeJson ν F) (file : Option (List UInt8)) (rs : List (AuditRecord ν F)) :
    Prop where
  read : readRecords S file = .ok rs
  terminated : Terminated isNewline (file.getD [])

theorem holds_none : Holds S none [] := ⟨rfl, terminated_nil⟩

theorem Holds.append (hS : S.Lawful) {file : Option (List UInt8)} {rs : List (AuditRecord ν F)}
    (h : Holds S file rs) {r : AuditRecord ν F} (hr : r.ReadsBack S) :
    Holds S (some (file.getD [] ++ r.line S)) (rs ++ [r.written S]) := by
  have hread : readLines S (splitInclusive isNewline (file.getD [])) = .ok rs := by
    rw [← h.read]
    cases file <;> rfl
  constructor
  · rw [readRecords, splitInclusive_append h.terminated, readLines_append, hread]
    show (readLines S (splitInclusive isNewline (r.line S))).map (rs ++ ·) = _
    rw [readLines_line hS hr]
    rfl
  · exact terminated_append h.terminated (terminated_lineBytes _)

end Reading

/-! ## Tamper detection -/

/-- **Exact tamper detection.** Let `R` be the records of a ledger with the key `key`, and let the
file hold records `R'`, none of them forged. The file verifies when `R'` is a prefix of `R`, as far
as payloads and signatures go; otherwise it is found to be tampered with, right after what `R` and
`R'` begin with alike. -/
theorem verifyLedgerUnder_of_records [DecidableEq ν] (S : SerdeJson ν F) (hmac : Hmac)
    (key : String) (hprint : Function.Injective fun v : Value ν => S.toString v.doc)
    (hideal : hmac.Ideal (utf8 key.toList)) (inputs : List (String × AuditRecordInput ν F))
    (file : Option (List UInt8)) (R' : List (AuditRecord ν F))
    (hread : readRecords S file = .ok R')
    (hforge : ∀ r' ∈ R', r'.sig = sign S hmac key r' →
      ∃ r ∈ AuditLedger.records S hmac ⟨key, ""⟩ inputs, signingPayload S r = signingPayload S r') :
    let R := (AuditLedger.records S hmac ⟨key, ""⟩ inputs).map (·.entry S)
    (R'.map (·.entry S) <+: R → verifyLedgerUnder S hmac file key = .ok (.ok R'.length)) ∧
    (¬ R'.map (·.entry S) <+: R → ∃ reason, verifyLedgerUnder S hmac file key =
      .ok (.tampered (commonPrefix R (R'.map (·.entry S))).length reason)) := by
  intro R
  have hgen : ∀ v, (scheme S hmac key).sign v ≠ (scheme S hmac key).genesis :=
    fun v => hideal.ne_empty _
  have hR : (scheme S hmac key).Chained (scheme S hmac key).genesis R :=
    chained_records S hmac ⟨key, ""⟩ inputs
  have hsigned : ∀ e ∈ R'.map (·.entry S), (scheme S hmac key).sign e.payload = e.tag →
      ∃ r ∈ R, r.payload = e.payload := by
    intro e he htag
    obtain ⟨r', hr', rfl⟩ := List.mem_map.1 he
    obtain ⟨r, hr, hpayload⟩ := hforge r' hr' htag.symm
    exact ⟨r.entry S, List.mem_map_of_mem hr, hpayload⟩
  have hbroken :=
      Scheme.firstBroken_of_chained (scheme_sign_injective hideal hprint) hgen hR hsigned
  have hverify := verifyRecords_eq S hmac key R'
  have heq : verifyLedgerUnder S hmac file key = .ok (verifyRecords S hmac key R') := by
    rw [verifyLedgerUnder, hread]
    rfl
  rw [heq]
  constructor
  · intro hprefix
    rw [show (scheme S hmac key).firstBroken "" _ = _ from hbroken, if_pos hprefix] at hverify
    exact congrArg _ hverify
  · intro hprefix
    rw [show (scheme S hmac key).firstBroken "" _ = _ from hbroken, if_neg hprefix] at hverify
    obtain ⟨reason, hverify⟩ := hverify
    exact ⟨reason, congrArg _ hverify⟩

def sampleInput : AuditRecordInput ℤ (Option ℤ) := { event := "e", actor := "a" }

/-- The only line of a ledger is duplicated. -/
theorem verifyLedgerUnder_of_records_duplicate :
    ∃ (file : List UInt8) (reason : String),
      verifyLedgerUnder SerdeJson.integers Hmac.sample (some file) "k" =
        .ok (.tampered 1 reason) := by
  have hprint := Value.toString_injective SerdeJson.fromStr_integers
  have hinput := AuditRecordInput.readsBack_integers "t" sampleInput
  generalize hSdef : SerdeJson.integers = S at hprint hinput
  have hS : S.Lawful := hSdef ▸ SerdeJson.lawful_integers
  generalize hr : AuditLedger.record S Hmac.sample ⟨"k", ""⟩ "t" sampleInput = r
  have hback : r.ReadsBack S := hr ▸ hinput "" _
  have hR : AuditLedger.records S Hmac.sample ⟨"k", ""⟩ [("t", sampleInput)] = [r] := by
    rw [← hr]
    rfl
  obtain ⟨file, hholds⟩ : ∃ file, Holds S (some file) [r.written S, r.written S] :=
    ⟨_, (holds_none.append hS hback).append hS hback⟩
  have hR' : [r.written S, r.written S].map (·.entry S) = [r.entry S, r.entry S] := by simp
  have hforge : ∀ r' ∈ [r.written S, r.written S], r'.sig = sign S Hmac.sample "k" r' →
      ∃ r₀ ∈ AuditLedger.records S Hmac.sample ⟨"k", ""⟩ [("t", sampleInput)],
        signingPayload S r₀ = signingPayload S r' := by
    intro r' hr' _
    obtain rfl : r' = r.written S := by simpa using hr'
    exact ⟨r, by simp [hR], (signingPayload_written r).symm⟩
  have hverify := (verifyLedgerUnder_of_records S Hmac.sample "k" hprint (Hmac.ideal_sample _)
     [("t", sampleInput)] _ _ hholds.read hforge).2
  rw [hR, hR'] at hverify
  obtain ⟨reason, hreason⟩ := hverify fun h => by simpa using h.length_le
  exact ⟨file, reason, by simpa [commonPrefix] using hreason⟩

end Resilience.Rust
