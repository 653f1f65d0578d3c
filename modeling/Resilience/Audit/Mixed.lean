import Resilience.Audit.Verdicts
import Resilience.Audit.Writers

/-!
# Ledgers of different ports on one file

The ports sign alike so that a ledger can be shared between them. Here any number of instances, each
of its own port, are open on one file, and append and are opened again in any order; in the end one
of the ports verifies. A file that is not ASCII is outside this model (`AnyError.notAscii`), and no
run comes to one. Records have no confidence, and are nested no deeper than `serde_json` reads them.

Each port keeps the same chain in the file (`refines_port`), so what decides is again whether every
append is by an instance that has seen the whole file (`verifyMixed_iff`).
-/

namespace Resilience

open Json

/-! ## Instances of several ports -/

/-- The instance that makes the call. -/
def WriterOp.writer {I C : Type} : WriterOp I C → I
  | .sync i => i
  | .append i _ => i

namespace Port

section Family

variable {I File Ledger C E P T : Type} [DecidableEq I] {S : Scheme P T} {payload : C → T → P}
  {Takes : C → Prop} {Holds : File → List (Entry P T) → Prop} {Knows : Ledger → T → Prop}

/-- One call, by the port of the instance that makes it. -/
def stepAny (ports : I → Port File Ledger C E) (s : Fleet I File Ledger) (op : WriterOp I C) :
    Except E (Fleet I File Ledger) :=
  (ports op.writer).step s op

theorem Refines.runAny {ports : I → Port File Ledger C E}
    (h : ∀ i, (ports i).Refines S payload Takes Holds Knows) {s : Fleet I File Ledger}
    {shared : Shared I P T} (hsim : Simulates Holds Knows s shared) {ops : List (WriterOp I C)}
    (hops : ∀ op ∈ ops, op.All Takes) :
    ∃ s', ops.foldlM (stepAny ports) s = .ok s' ∧
      Simulates Holds Knows s' (shared.run S payload ops) := by
  induction ops generalizing s shared with
  | nil => exact ⟨s, rfl, hsim⟩
  | cons op ops ih =>
    obtain ⟨hop, hops⟩ := List.forall_mem_cons.1 hops
    obtain ⟨s', hstep, hsim'⟩ := (h op.writer).step hsim hop
    obtain ⟨s'', hrun, hsim''⟩ := ih hsim' hops
    refine ⟨s'', ?_, hsim''⟩
    rw [List.foldlM_cons, stepAny, hstep]
    exact hrun

/-- Ports that keep the same chain: whichever of them verifies, it counts all appends exactly when
every append was by an instance that had seen the whole file. -/
theorem Refines.verifyAny_iff {ports : I → Port File Ledger C E} {reader : Port File Ledger C E}
    (h : ∀ i, (ports i).Refines S payload Takes Holds Knows)
    (hreader : reader.Refines S payload Takes Holds Knows) (hinj : Function.Injective S.sign)
    (hgen : ∀ p, S.sign p ≠ S.genesis) (hlink : ∀ c t, S.link (payload c t) = t)
    {s : Fleet I File Ledger} (hfile : Holds s.file [])
    (hknows : ∀ i, Knows (s.ledgers i) S.genesis) {ops : List (WriterOp I C)}
    (hops : ∀ op ∈ ops, op.All Takes) :
    ∃ s' result, ops.foldlM (stepAny ports) s = .ok s' ∧ reader.verify s'.file = .ok result ∧
      (result = some (appends ops) ↔ Shared.SingleWriter Set.univ ops) := by
  let shared : Shared I P T := ⟨[], fun _ => S.genesis⟩
  have hsim : Simulates Holds Knows s shared := ⟨hfile, hknows⟩
  obtain ⟨s', hrun, hholds, -⟩ := Refines.runAny h hsim hops
  obtain ⟨result, hverify, hresult⟩ := hreader.verify hholds
  have hcached : Shared.Cached S Set.univ shared :=
    ⟨fun _ _ => rfl, fun i hi => absurd (Set.mem_univ i) hi⟩
  have hlen : (shared.run S payload ops).log.length = appends ops :=
    (length_run shared ops).trans (Nat.zero_add _)
  refine ⟨s', result, hrun, hverify, ?_⟩
  rw [← hlen, hresult]
  exact Shared.chained_run_iff hinj hgen (fun c t _ => hlink c t) hcached trivial ops

end Family

end Port

/-! ## What is appended -/

/-- The arguments of `append`, in the types of no port; `now` is the time of its clock. -/
structure CommonInput where
  now : String
  ts : Option String := none
  event : String
  actor : String
  inputs : Plain := ⟨.null, trivial⟩
  sources : Plain := ⟨.null, trivial⟩
  rationale : Option String := none

/-- The record that is appended after the signature `prevSig`. -/
def CommonInput.record (c : CommonInput) (prevSig : String) : CommonRecord where
  ts := c.ts.getD c.now
  event := c.event
  actor := c.actor
  inputs := c.inputs
  sources := c.sources
  rationale := c.rationale
  prevSig := prevSig

/-- Arguments whose record the ports sign alike. An empty `ts` counts as none in Python only. -/
structure PortableInput extends CommonInput where
  ts_ne : ts ≠ some ""
  portable : (toCommonInput.record "").doc.Within IsAscii Ordered
  shallow : (toCommonInput.record "").doc.depth ≤ maxDepth

namespace PortableInput

theorem nodup_python (v : Plain) :
    (v.1.transform utf16 number id).Within (fun _ => True) List.Nodup :=
  v.2.rename utf16_injective (fun _ => within_num _) fun _ h => ⟨h, List.Subset.refl _⟩

theorem own_typescript (v : Plain) :
    (v.1.transform utf16 number TypeScript.ownOrder).Within (fun _ => True) TypeScript.OwnKeys := by
  refine v.2.rename utf16_injective (fun _ => within_num _) fun ms h => ?_
  have hperm := sortMembers_perm TypeScript.indexRank ms
  exact ⟨⟨((hperm.map Prod.fst).nodup_iff).2 h, pairwise_sortMembers TypeScript.indexRank ms⟩,
    hperm.subset⟩

variable (c : PortableInput) {ν F : Type}

def rust (int : SafeInt → ν) : String × Rust.AuditRecordInput ν F :=
  (c.now, {
    event := c.event
    actor := c.actor
    inputs := some (.ofDoc (c.inputs.1.transform id (rustNumber int) id))
    sources := some (.ofDoc (c.sources.1.transform id (rustNumber int) id))
    rationale := c.rationale
    ts := c.ts })

def python : Units × Python.AuditRecordInput ℤ :=
  (utf16 c.now, {
    event := utf16 c.event
    actor := utf16 c.actor
    inputs := ⟨c.inputs.1.transform utf16 number id, nodup_python c.inputs⟩
    sources := ⟨c.sources.1.transform utf16 number id, nodup_python c.sources⟩
    rationale := c.rationale.map utf16
    ts := c.ts.map utf16 })

def typescript : Units × TypeScript.AuditRecordInput ℤ :=
  (utf16 c.now, {
    event := utf16 c.event
    actor := utf16 c.actor
    inputs := ⟨c.inputs.1.transform utf16 number TypeScript.ownOrder, own_typescript c.inputs⟩
    sources := ⟨c.sources.1.transform utf16 number TypeScript.ownOrder, own_typescript c.sources⟩
    rationale := c.rationale.map utf16
    ts := c.ts.map utf16 })

/-- The record is one that the ports sign alike after any signature in ASCII. -/
theorem portable_record {prevSig : String} (h : IsAscii prevSig) :
    (c.record prevSig).doc.Within IsAscii Ordered := by
  obtain ⟨htexts, hinputs, hsources, -⟩ := (CommonRecord.within_doc_iff _).1 c.portable
  exact (CommonRecord.within_doc_iff _).2 ⟨htexts, hinputs, hsources, h⟩

theorem depth_record (prevSig : String) : (c.record prevSig).doc.depth ≤ maxDepth := by
  have h := (CommonRecord.depth_doc_le_iff _).1 c.shallow
  exact (CommonRecord.depth_doc_le_iff _).2 h

end PortableInput

/-! ## The ports on bytes -/

inductive Language
  | rust
  | python
  | typescript
  deriving DecidableEq

/-- What there is for each language. -/
def Language.pick {α : Type} (rust python typescript : α) : Language → α
  | .rust => rust
  | .python => python
  | .typescript => typescript

/-- An open ledger of one of the ports. -/
inductive AnyLedger
  | rust (ledger : Rust.AuditLedger)
  | python (ledger : Python.AuditLedger ℤ)
  | typescript (ledger : TypeScript.AuditLedger ℤ)

inductive AnyError
  | notAscii
  | rust (error : Rust.AuditError)
  | python (error : Python.PyError)
  | typescript (error : TypeScript.JsError)
  deriving DecidableEq

/-- The text of the file, if it is ASCII. -/
def decoded (file : Option (List UInt8)) : Except AnyError (Option Text) :=
  match decodeAscii file with
  | some text => .ok text
  | none => .error .notAscii

section Ports

variable {ν F : Type} (S : Rust.SerdeJson ν F) (int : SafeInt → ν) (hmac : Hmac) (key : String)

/-- A ledger of the port is opened on the file. -/
def openAny (file : Option (List UInt8)) : Language → Except AnyError AnyLedger
  | .rust => do
    let ledger ← ((Rust.port S hmac key).openLedger file).mapError .rust
    return .rust ledger
  | .python => do
    let text ← decoded file
    let ledger ← ((Python.port Numerals.integers hmac key).openLedger text).mapError .python
    return .python ledger
  | .typescript => do
    let text ← decoded file
    let ledger ← ((TypeScript.port Numerals.integers hmac key).openLedger text).mapError .typescript
    return .typescript ledger

/-- The ledger appends: it does not look at the file, and writes one line at its end. -/
def appendAny (ledger : AnyLedger) (file : Option (List UInt8)) (c : PortableInput) :
    Except AnyError (AnyLedger × Option (List UInt8)) :=
  match ledger with
  | .rust ledger => do
    let (ledger, file) ←
      ((Rust.port S hmac key).append ledger file (c.rust int)).mapError .rust
    return (.rust ledger, file)
  | .python ledger => do
    let (ledger, line) ←
      ((Python.port Numerals.integers hmac key).append ledger none c.python).mapError .python
    return (.python ledger, some (file.getD [] ++ encodeUtf8 (line.getD [])))
  | .typescript ledger => do
    let (ledger, line) ←
      ((TypeScript.port Numerals.integers hmac key).append ledger none c.typescript).mapError
        .typescript
    return (.typescript ledger, some (file.getD [] ++ encodeUnits (line.getD [])))

/-- `verify` of the port. -/
def verifyAny (file : Option (List UInt8)) : Language → Except AnyError (Option ℕ)
  | .rust => ((Rust.port S hmac key).verify file).mapError .rust
  | .python => do
    let text ← decoded file
    ((Python.port Numerals.integers hmac key).verify text).mapError .python
  | .typescript => do
    let text ← decoded file
    ((TypeScript.port Numerals.integers hmac key).verify text).mapError .typescript

/-- The port of a language, on the bytes of a file. -/
def Language.port (language : Language) :
    Port (Option (List UInt8)) AnyLedger PortableInput AnyError where
  absent := none
  openLedger file := openAny S hmac key file language
  append := appendAny S int hmac key
  verify file := verifyAny S hmac key file language

/-- All instances are opened on the absent file; after the calls the port `reader` verifies it. -/
def verifyMixed {I : Type} [DecidableEq I] (language : I → Language) (reader : Language)
    (ops : List (WriterOp I PortableInput)) : Except AnyError (Option ℕ) := do
  let rust ← openAny S hmac key none .rust
  let python ← openAny S hmac key none .python
  let typescript ← openAny S hmac key none .typescript
  let s ← ops.foldlM (Port.stepAny fun i => (language i).port S int hmac key)
    { file := none, ledgers := fun i => (language i).pick rust python typescript }
  verifyAny S hmac key s.file reader

end Ports

/-! ## The chain in the file -/

/-- The file consists of lines with these entries. -/
def HoldsLines {ν F : Type} (S : Rust.SerdeJson ν F) (int : SafeInt → ν)
    (file : Option (List UInt8)) (es : List (Entry (Rust.Value ν) String)) : Prop :=
  ∃ lines, file.getD [] = fileBytes lines ∧ lines.map (fun l => l.2.entry S int) = es

/-- The last signature that the ledger knows. -/
def AnyLedger.LastIs (key t : String) : AnyLedger → Prop
  | .rust ledger => ledger = ⟨key, t⟩
  | .python ledger => ledger = ⟨key, tagValue t⟩
  | .typescript ledger => ledger = ⟨key, tagValue t⟩

section Reading

variable {ν F : Type} {S : Rust.SerdeJson ν F} {int : SafeInt → ν}
  {lines : List (Bool × SignedRecord)} (hmac : Hmac) (key : String)

/-- The last signature of the file. -/
def lastSig (lines : List (Bool × SignedRecord)) : String :=
  (lines.getLast?.map fun l => l.2.sig).getD ""

theorem lastTag_lines : lastTag "" (lines.map fun l => l.2.entry S int) = lastSig lines := by
  rw [lastTag_eq, List.map_map, List.getLast?_map]
  rfl

theorem isAscii_lastSig (lines : List (Bool × SignedRecord)) : IsAscii (lastSig lines) := by
  unfold lastSig
  cases lines.getLast? with
  | none => exact (isAscii_iff_all "").2 (by decide)
  | some l => exact l.2.ascii

/-- A ledger of any port, opened on the file, knows its last signature. -/
theorem openAny_eq (hS : S.Documented int) {file : Option (List UInt8)}
    (h : file.getD [] = fileBytes lines) (language : Language) :
    ∃ ledger, openAny S hmac key file language = .ok ledger ∧
      ledger.LastIs key (lastSig lines) := by
  obtain ⟨text, hdecode, htext⟩ := exists_decodeAscii h
  cases language with
  | rust =>
    have hopen : (Rust.port S hmac key).openLedger file =
        .ok ⟨key, lastSig lines⟩ := by
      show (Rust.readRecords S file).map _ = _
      rw [Rust.readRecords_fileBytes hS h]
      show Except.ok (Rust.AuditLedger.mk key _) = _
      rw [List.getLast?_map, Option.map_map]
      rfl
    refine ⟨.rust ⟨key, lastSig lines⟩, ?_, rfl⟩
    rw [openAny, hopen]
    rfl
  | python =>
    have hopen : (Python.port Numerals.integers hmac key).openLedger text =
        .ok ⟨key, tagValue (lastSig lines)⟩ := by
      show Python.AuditLedger.init Numerals.integers text key = _
      rw [Python.AuditLedger.init, Python.readRecords_fileText htext]
      dsimp only [bind, Except.bind]
      rw [List.getLast?_map, lastSig]
      cases lines.getLast? with
      | none => rfl
      | some l =>
        have hitem : Python.item "sig" l.2.python = .ok (tagValue l.2.sig) := by
          rw [Python.item, l.2.lookup_python.2]
        dsimp only [Option.map_some]
        rw [hitem]
        rfl
    refine ⟨.python ⟨key, tagValue (lastSig lines)⟩, ?_, rfl⟩
    rw [openAny, decoded, hdecode]
    dsimp only [bind, Except.bind]
    rw [hopen]
    rfl
  | typescript =>
    have hopen : (TypeScript.port Numerals.integers hmac key).openLedger text =
        .ok ⟨key, tagValue (lastSig lines)⟩ := by
      show TypeScript.AuditLedger.create Numerals.integers text key = _
      rw [(TypeScript.holds_fileText htext).create Numerals.lawful_integers key, lastTag_eq,
        List.map_map, List.map_map, List.getLast?_map, lastSig]
      cases lines.getLast? with
      | none => rfl
      | some l =>
        have htag := TypeScript.tag_entry Numerals.lawful_integers l.2.lookup_typescript.2
        exact congrArg (fun t => Except.ok (TypeScript.AuditLedger.mk key t)) htag
    refine ⟨.typescript ⟨key, tagValue (lastSig lines)⟩, ?_, rfl⟩
    rw [openAny, decoded, hdecode]
    dsimp only [bind, Except.bind]
    rw [hopen]
    rfl

/-- A count in a verdict. -/
def counted : Rust.VerifyResult → Option ℕ
  | .ok count => some count
  | .tampered _ _ => none

/-- `verify` of any port counts the lines of the verdict, or none. -/
theorem verifyAny_eq (hS : S.Documented int) {file : Option (List UInt8)}
    (h : file.getD [] = fileBytes lines) (language : Language) :
    verifyAny S hmac key file language = .ok (counted (verdict hmac key S int lines)) := by
  obtain ⟨text, hdecode, htext⟩ := exists_decodeAscii h
  cases language with
  | rust =>
    show ((Rust.verifyLedgerUnder S hmac file key).map _).mapError _ = _
    rw [verify_rust hmac key hS h]
    cases verdict hmac key S int lines <;> rfl
  | python =>
    rw [verifyAny, decoded, hdecode]
    show ((Python.verifyLedger Numerals.integers hmac text key).map _).mapError _ = _
    rw [verify_python hmac key hS htext]
    cases verdict hmac key S int lines <;> rfl
  | typescript =>
    rw [verifyAny, decoded, hdecode]
    show ((TypeScript.verifyLedger Numerals.integers hmac text key).map _).mapError _ = _
    rw [verify_typescript hmac key hS htext]
    cases verdict hmac key S int lines <;> rfl

/-- All lines are counted exactly when they are a chain. -/
theorem counted_verdict_iff :
    counted (verdict hmac key S int lines) = some lines.length ↔
      (Rust.scheme S hmac key).Chained "" (lines.map fun l => l.2.entry S int) := by
  have hok : verdict hmac key S int lines = .ok lines.length ↔ _ := Rust.verifyRecords_eq_ok_iff
  rw [List.length_map, List.map_map, and_iff_right rfl] at hok
  refine Iff.trans ?_ hok
  cases verdict hmac key S int lines <;> simp [counted]

end Reading

section Writing

variable {ν F : Type} {S : Rust.SerdeJson ν F} {int : SafeInt → ν}

/-- Members as a JavaScript object keeps them. -/
def ownArrangement : Arrangement String :=
  .sorted fun k => TypeScript.indexRank (utf16 k)

theorem transform_arranged_rust (v : Plain) :
    (v.1.arranged Rust.btreeArrangement).transform id (rustNumber int) id =
      (v.1.transform id (rustNumber int) id).transform id .num Rust.btreeMap := by
  have htwice : (v.1.transform id (rustNumber int) id).transform id .num Rust.btreeMap =
      v.1.transform id (rustNumber int) Rust.btreeMap := transform_transform (fun _ => rfl) v.1
  rw [htwice, CommonRecord.transform_btreeArrangement]

theorem transform_arranged_typescript (v : Plain) :
    (v.1.arranged ownArrangement).transform utf16 number id =
      v.1.transform utf16 number TypeScript.ownOrder :=
  arranged_transform ownArrangement (map_sortMembers TypeScript.indexRank utf16) v.1

/-- Rust writes the record with its objects sorted. -/
theorem line_rust (hS : S.PrintsIntegers int) (r : SignedRecord) :
    (r.rust int).line S = (r.arranged Rust.btreeArrangement).bytes false := by
  have hdoc : (r.rust int).toDoc S =
      (r.arranged Rust.btreeArrangement).written.transform id (rustNumber int) id := by
    rw [SignedRecord.written, transform_obj]
    simp only [CommonRecord.fields, SignedRecord.arranged, CommonRecord.arranged, List.map_append,
      List.map_cons, List.map_nil, transform_arranged_rust]
    rw [Rust.AuditRecord.toDoc, SignedRecord.rust, CommonRecord.rustRecord]
    cases r.rationale <;> rfl
  rw [Rust.AuditRecord.line, hdoc, hS]
  rfl

/-- `json.dumps` writes the record with spaces. -/
theorem dumps_python (r : SignedRecord) :
    Python.dumps Numerals.integers (.obj r.python) = r.text true := by
  rw [r.text_eq_ascii, Python.transform_written]
  rfl

/-- `JSON.stringify` writes the record with its array indices first. -/
theorem stringify_typescript (r : SignedRecord) :
    TypeScript.stringify Numerals.integers (.obj r.typescript) =
      (r.arranged ownArrangement).text false := by
  have hdoc : (r.arranged ownArrangement).written.transform utf16 number id =
      .obj r.typescript := by
    rw [SignedRecord.written, transform_obj, SignedRecord.typescript,
      CommonRecord.typescriptRecord]
    simp only [CommonRecord.fields, SignedRecord.arranged, CommonRecord.arranged, List.map_append,
      List.map_cons, List.map_nil, transform_arranged_typescript]
    cases r.rationale <;> rfl
  rw [SignedRecord.text_eq_units, hdoc]
  rfl

variable {hmac : Hmac} {key : String}

/-- The record of `c` after the signature `t`, signed. -/
def PortableInput.signed (S : Rust.SerdeJson ν F) (int : SafeInt → ν) (c : PortableInput)
    {t : String} (ht : IsAscii t) (hmac_ascii : ∀ msg, IsAscii (hmac (utf8 key.toList) msg)) :
    SignedRecord where
  toCommonRecord := c.record t
  sig := hmac (utf8 key.toList) ((c.record t).rustBytes S int)
  portable := c.portable_record ht
  shallow := c.depth_record t
  ascii := hmac_ascii _

variable (c : PortableInput) {t : String} (ht : IsAscii t)
  (hmac_ascii : ∀ msg, IsAscii (hmac (utf8 key.toList) msg)) (hS : S.PrintsIntegers int)

theorem record_rust :
    Rust.AuditLedger.record S hmac ⟨key, t⟩ c.now (c.rust int).2 =
      (c.signed S int ht hmac_ascii).rust int := rfl

theorem unsigned_python :
    Python.AuditLedger.unsigned ⟨key, tagValue t⟩ c.python.1 c.python.2 =
      (c.record t).pythonRecord := by
  have hts : ∀ s : String, s ≠ "" → ∃ u us, utf16 s = u :: us := by
    intro s hs
    exact List.exists_cons_of_ne_nil fun h => hs (utf16_injective (h : utf16 s = utf16 ""))
  have hne := c.ts_ne
  rw [Python.AuditLedger.unsigned, CommonRecord.pythonRecord, PortableInput.python,
    CommonInput.record]
  cases h : c.ts with
  | none =>
    cases c.rationale <;> rfl
  | some s =>
    obtain ⟨u, us, hu⟩ := hts s fun hs => hne (h.trans (congrArg some hs))
    dsimp only [Option.map_some, Option.getD_some]
    rw [hu]
    cases c.rationale <;> rfl

include hS in
theorem record_python :
    Python.AuditLedger.record Numerals.integers ⟨key, tagValue t⟩ hmac c.python.1 c.python.2 =
      (c.signed S int ht hmac_ascii).python := by
  rw [Python.AuditLedger.record, unsigned_python, Python.signPayload,
    CommonRecord.pythonBytes_record (c.portable_record ht) hS]
  rfl

theorem unsigned_typescript :
    TypeScript.AuditLedger.unsigned ⟨key, tagValue t⟩ c.typescript.1 c.typescript.2 =
      (c.record t).typescriptRecord := by
  rw [TypeScript.AuditLedger.unsigned, CommonRecord.typescriptRecord, PortableInput.typescript,
    CommonInput.record]
  cases c.ts <;> cases c.rationale <;> rfl

include hS in
theorem record_typescript :
    TypeScript.AuditLedger.record Numerals.integers ⟨key, tagValue t⟩ hmac c.typescript.1
      c.typescript.2 = (c.signed S int ht hmac_ascii).typescript := by
  rw [TypeScript.AuditLedger.record]
  dsimp only
  rw [unsigned_typescript, TypeScript.sign,
    CommonRecord.typescriptBytes_record (c.portable_record ht) hS]
  rfl

/-- The payload that is signed for `c` after the signature `t`. -/
def payloadOf (S : Rust.SerdeJson ν F) (int : SafeInt → ν) (c : PortableInput) (t : String) :
    Rust.Value ν :=
  Rust.signingPayload S ((c.record t).rustRecord int)

include ht hmac_ascii hS in
/-- The line that a ledger writes, whatever its port, has the entry that signs the payload. -/
theorem appendAny_eq {ledger : AnyLedger} (hlast : ledger.LastIs key t)
    (file : Option (List UInt8)) :
    ∃ ledger', ∃ line : Bool × SignedRecord,
      appendAny S int hmac key ledger file c =
        .ok (ledger', some (file.getD [] ++ line.2.bytes line.1)) ∧
      line.2.entry S int = (Rust.scheme S hmac key).entry (payloadOf S int c t) ∧
      ledger'.LastIs key ((Rust.scheme S hmac key).sign (payloadOf S int c t)) := by
  let r := c.signed S int ht hmac_ascii
  cases ledger with
  | rust ledger =>
    obtain rfl : ledger = ⟨key, t⟩ := hlast
    have happend : (Rust.port S hmac key).append ⟨key, t⟩ file (c.rust int) =
        .ok (⟨key, r.sig⟩,
          some (file.getD [] ++ (r.arranged Rust.btreeArrangement).bytes false)) := by
      rw [← line_rust hS, ← record_rust c ht hmac_ascii]
      rfl
    refine ⟨.rust ⟨key, r.sig⟩, (false, r.arranged Rust.btreeArrangement), ?_,
      r.entry_arranged S int Rust.btreeArrangement, rfl⟩
    rw [appendAny, happend]
    rfl
  | python ledger =>
    obtain rfl : ledger = ⟨key, tagValue t⟩ := hlast
    have happend : (Python.port Numerals.integers hmac key).append ⟨key, tagValue t⟩ none c.python =
        .ok (⟨key, tagValue r.sig⟩, some (r.text true ++ [0x0A])) := by
      show (Python.AuditLedger.append Numerals.integers ⟨key, tagValue t⟩ hmac none c.python.1
        c.python.2).map _ = _
      rw [Python.append_eq, Python.AuditLedger.appended, record_python c ht hmac_ascii hS,
        dumps_python, Python.get, r.lookup_python.2]
      rfl
    refine ⟨.python ⟨key, tagValue r.sig⟩, (true, r), ?_, rfl, rfl⟩
    rw [appendAny, happend]
    show Except.ok (_, some (file.getD [] ++ encodeUtf8 (r.text true ++ [0x0A]))) = _
    rw [← bytes_eq]
  | typescript ledger =>
    obtain rfl : ledger = ⟨key, tagValue t⟩ := hlast
    have hsig : TypeScript.sign Numerals.integers hmac key
        (TypeScript.AuditLedger.unsigned ⟨key, tagValue t⟩ c.typescript.1 c.typescript.2) =
          utf16 r.sig := by
      rw [unsigned_typescript, TypeScript.sign,
        CommonRecord.typescriptBytes_record (c.portable_record ht) hS]
      rfl
    have happend : (TypeScript.port Numerals.integers hmac key).append ⟨key, tagValue t⟩ none
        c.typescript = .ok (⟨key, tagValue r.sig⟩,
          some ((r.arranged ownArrangement).text false ++ [0x0A])) := by
      show Except.ok (TypeScript.AuditLedger.append Numerals.integers ⟨key, tagValue t⟩ hmac none
        c.typescript.1 c.typescript.2).2 = _
      rw [TypeScript.AuditLedger.append]
      dsimp only
      rw [hsig, record_typescript c ht hmac_ascii hS, stringify_typescript]
      rfl
    refine ⟨.typescript ⟨key, tagValue r.sig⟩, (false, r.arranged ownArrangement), ?_,
      r.entry_arranged S int ownArrangement, rfl⟩
    rw [appendAny, happend]
    show Except.ok (_, some (file.getD [] ++
      encodeUnits ((r.arranged ownArrangement).text false ++ [0x0A]))) = _
    rw [encodeUnits, joinSurrogates_ascii (ascii_line _ _), ← bytes_eq]

end Writing

/-! ## Any mix of ports -/

section Mixed

variable {hmac : Hmac} {key : String}

/-- Each port keeps the chain of Rust payloads in the file. -/
theorem refines_port {ν F : Type} {S : Rust.SerdeJson ν F} {int : SafeInt → ν}
    (hS : S.Documented int) (hmac_ascii : ∀ msg, IsAscii (hmac (utf8 key.toList) msg))
    (language : Language) :
    (language.port S int hmac key).Refines (Rust.scheme S hmac key) (payloadOf S int)
      (fun _ => True) (HoldsLines S int) (fun ledger t => IsAscii t ∧ ledger.LastIs key t) where
  absent := ⟨[], rfl, rfl⟩
  openLedger := by
    rintro file es ⟨lines, hfile, rfl⟩
    obtain ⟨ledger, hopen, hlast⟩ := openAny_eq hmac key hS hfile language
    have htag : lastTag "" (lines.map fun l => l.2.entry S int) = lastSig lines := lastTag_lines
    exact ⟨ledger, hopen, htag ▸ isAscii_lastSig lines, htag ▸ hlast⟩
  append := by
    rintro file es ledger t c - ⟨lines, hfile, rfl⟩ ⟨ht, hlast⟩
    obtain ⟨ledger', line, happend, hentry, hlast'⟩ :=
      appendAny_eq c ht hmac_ascii hS.prints hlast file
    refine ⟨ledger', _, happend, ⟨lines ++ [line], ?_, ?_⟩, hmac_ascii _, hlast'⟩
    · rw [Option.getD_some, hfile, fileBytes, fileBytes, List.flatMap_append,
        List.flatMap_singleton]
    · rw [List.map_append, List.map_singleton, hentry]
  verify := by
    rintro file es ⟨lines, hfile, rfl⟩
    rw [List.length_map]
    exact ⟨_, verifyAny_eq hmac key hS hfile language, counted_verdict_iff hmac key⟩

/-- **One ledger for all ports.** Let any number of instances, each of the Rust, Python or
TypeScript port, be open on one file, append content that the ports sign alike, and be opened again,
in any order. None of the calls fails, and each of the three ports counts all appends of the file
exactly when every append was by an instance that had seen the whole file. -/
theorem verifyMixed_iff {I ν F : Type} [DecidableEq I] (S : Rust.SerdeJson ν F)
    (int : SafeInt → ν) (hS : S.Documented int)
    (hprint : Function.Injective fun v : Rust.Value ν => S.toString v.doc)
    (hideal : hmac.Ideal (utf8 key.toList))
    (hmac_ascii : ∀ msg, IsAscii (hmac (utf8 key.toList) msg)) (language : I → Language)
    (reader : Language) (ops : List (WriterOp I PortableInput)) :
    ∃ result, verifyMixed S int hmac key language reader ops = .ok result ∧
      (result = some (appends ops) ↔ Shared.SingleWriter Set.univ ops) := by
  have hopen : ∀ l, ∃ ledger, openAny S hmac key none l = .ok ledger ∧
      ledger.LastIs key (lastSig []) := fun l => openAny_eq hmac key hS rfl l
  obtain ⟨rust, hrust, hlast₁⟩ := hopen .rust
  obtain ⟨python, hpython, hlast₂⟩ := hopen .python
  obtain ⟨typescript, htypescript, hlast₃⟩ := hopen .typescript
  have hlast : ∀ l : Language, (l.pick rust python typescript).LastIs key (lastSig []) := by
    intro l
    cases l with
    | rust => exact hlast₁
    | python => exact hlast₂
    | typescript => exact hlast₃
  have hinj := Rust.scheme_sign_injective hideal hprint
  have hlink : ∀ c t, (Rust.scheme S hmac key).link (payloadOf S int c t) = t :=
    fun c t => Rust.payloadPrevSig_signingPayload S ((c.record t).rustRecord int)
  obtain ⟨s, result, hrun, hverify, hresult⟩ := Port.Refines.verifyAny_iff
    (s := ⟨none, fun i => (language i).pick rust python typescript⟩)
    (fun i => refines_port hS hmac_ascii (language i)) (refines_port hS hmac_ascii reader) hinj
    (fun v => hideal.ne_empty _) hlink ⟨[], rfl, rfl⟩
    (fun i => ⟨isAscii_lastSig [], hlast (language i)⟩) fun op _ => op.all_true
  refine ⟨result, ?_, hresult⟩
  rw [verifyMixed, hrust, hpython, htypescript]
  dsimp only [bind, Except.bind]
  rw [hrun]
  exact hverify

/-- Bytes spelled in two letters each, behind a letter that is no hexadecimal digit. -/
def spellLetters (msg : List UInt8) : String :=
  String.ofList ('x' :: msg.flatMap fun b =>
    [Char.ofNat (0x61 + b.toNat / 16), Char.ofNat (0x61 + b.toNat % 16)])

/-- The digests of some messages; those of the others spell them out. -/
def Hmac.ofTable (table : List (List UInt8 × String)) : Hmac := fun _ msg =>
  (lookup msg table).getD (spellLetters msg)

theorem letter_toNat {n : ℕ} (h : n < 16) : (Char.ofNat (0x61 + n)).toNat = 0x61 + n :=
  toNat_ofNat (.inl (by omega))

theorem isAscii_spellLetters (msg : List UInt8) : IsAscii (spellLetters msg) := by
  intro c hc
  rw [spellLetters, String.toList_ofList] at hc
  rcases List.mem_cons.1 hc with rfl | hc
  · decide
  · obtain ⟨b, -, hc⟩ := List.mem_flatMap.1 hc
    have hb := b.toNat_lt
    simp only [List.mem_cons, List.not_mem_nil, or_false] at hc
    rcases hc with rfl | rfl
    · rw [letter_toNat (by omega)]
      omega
    · rw [letter_toNat (by omega)]
      omega

theorem spellLetters_injective : Function.Injective spellLetters := by
  intro m m' h
  have hchars := (List.cons.inj (String.ofList_injective h)).2
  clear h
  induction m generalizing m' with
  | nil => cases m' <;> simp_all
  | cons b m ih =>
    cases m' with
    | nil => simp at hchars
    | cons b' m' =>
      simp only [List.flatMap_cons, List.cons_append, List.nil_append, List.cons.injEq] at hchars
      obtain ⟨hhigh, hlow, hrest⟩ := hchars
      have hb := b.toNat_lt
      have hb' := b'.toNat_lt
      have hhigh := congrArg Char.toNat hhigh
      have hlow := congrArg Char.toNat hlow
      rw [letter_toNat (by omega), letter_toNat (by omega)] at hhigh hlow
      have hbyte : b = b' := UInt8.toNat.inj (by omega)
      rw [hbyte, ih hrest]

/-- Different digests that spell nothing out make an ideal code. -/
theorem Hmac.ideal_ofTable {table : List (List UInt8 × String)}
    (hnodup : (table.map Prod.snd).Nodup)
    (hdigest : ∀ m ∈ table, m.2 ≠ "" ∧ m.2.toList.head? ≠ some 'x') (key : List UInt8) :
    (Hmac.ofTable table).Ideal key := by
  have hspell : ∀ msg, (spellLetters msg).toList.head? = some 'x' := by
    intro msg
    rw [spellLetters, String.toList_ofList]
    rfl
  constructor
  · intro m m' h
    simp only [Hmac.ofTable] at h
    cases hm : lookup m table with
    | none =>
      cases hm' : lookup m' table with
      | none =>
        rw [hm, hm'] at h
        exact spellLetters_injective h
      | some d' =>
        rw [hm, hm'] at h
        exact absurd ((congrArg (fun s => s.toList.head?) h).symm.trans (hspell m))
          (hdigest _ (mem_of_lookup hm')).2
    | some d =>
      cases hm' : lookup m' table with
      | none =>
        rw [hm, hm'] at h
        exact absurd ((congrArg (fun s => s.toList.head?) h).trans (hspell m'))
          (hdigest _ (mem_of_lookup hm)).2
      | some d' =>
        rw [hm, hm'] at h
        have hsame := List.inj_on_of_nodup_map hnodup (mem_of_lookup hm) (mem_of_lookup hm') h
        exact congrArg Prod.fst hsame
  · intro msg h
    simp only [Hmac.ofTable] at h
    cases hm : lookup msg table with
    | none =>
      rw [hm] at h
      have hhead := hspell msg
      rw [show spellLetters msg = "" from h] at hhead
      simp at hhead
    | some d =>
      rw [hm] at h
      exact (hdigest _ (mem_of_lookup hm)).1 h

/-- HMAC-SHA256 under the key `k`, of the payloads of two records, one after the other. -/
def sampleDigests : List (List UInt8 × String) :=
  [(utf8 ("\x7b\"actor\":\"a\",\"event\":\"e\",\"inputs\":null,\"prev_sig\":\"\"," ++
      "\"sources\":null,\"ts\":\"t\"\x7d").toList,
    "e5e3697c86e8397243117c4c52945ff60cbed17d36ef87e04a0d647bf7d76639"),
  (utf8 ("\x7b\"actor\":\"a\",\"event\":\"e\",\"inputs\":null,\"prev_sig\":" ++
      "\"e5e3697c86e8397243117c4c52945ff60cbed17d36ef87e04a0d647bf7d76639\"," ++
      "\"sources\":null,\"ts\":\"t\"\x7d").toList,
    "45259e8250692b7694d39cad723163d3cb0ee4192161686298c85a4c6fc1c7c9")]

def sampleContent : CommonInput where
  now := "t"
  event := "e"
  actor := "a"

theorem ts_sampleContent : sampleContent.ts ≠ some "" := nofun

theorem portable_sampleContent : (sampleContent.record "").doc.Within IsAscii Ordered := by
  rw [CommonRecord.within_doc_iff]
  simp only [isAscii_iff_all]
  refine ⟨by decide, trivial, trivial, by decide⟩

theorem shallow_sampleContent : (sampleContent.record "").doc.depth ≤ maxDepth := by
  decide +kernel

def samplePortable : PortableInput :=
  ⟨sampleContent, ts_sampleContent, portable_sampleContent, shallow_sampleContent⟩

theorem ascii_sampleDigests (msg : List UInt8) :
    IsAscii (Hmac.ofTable sampleDigests (utf8 "k".toList) msg) := by
  have hascii : ∀ m ∈ sampleDigests, IsAscii m.2 := by
    simp only [isAscii_iff_all]
    decide +kernel
  unfold Hmac.ofTable
  cases hm : lookup msg sampleDigests with
  | none => exact isAscii_spellLetters msg
  | some d => exact hascii _ (mem_of_lookup hm)

theorem ideal_sampleDigests : (Hmac.ofTable sampleDigests).Ideal (utf8 "k".toList) :=
  Hmac.ideal_ofTable (by decide +kernel) (by decide +kernel) _

/-- Rust appends, Python is opened and appends, and TypeScript counts both. -/
theorem verifyMixed_iff_handover :
    verifyMixed Rust.SerdeJson.integers Subtype.val (Hmac.ofTable sampleDigests) "k"
      (fun i => if i then .python else .rust) .typescript (handover samplePortable) =
        .ok (some 2) :=
  eq_ok_of_exists (singleWriter_handover _)
    (verifyMixed_iff Rust.SerdeJson.integers Subtype.val Rust.SerdeJson.documented_integers
      (Rust.Value.toString_injective Rust.SerdeJson.fromStr_integers) ideal_sampleDigests
      ascii_sampleDigests _ _ _)

end Mixed

end Resilience
