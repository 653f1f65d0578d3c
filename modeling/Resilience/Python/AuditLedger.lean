import Resilience.Foundations.Fallible
import Resilience.Foundations.HashChain
import Resilience.Foundations.Hmac
import Resilience.Foundations.Json.Members
import Resilience.Foundations.Json.Numerals

/-!
# The audit ledger in Python

`python/src/cubiczan_resilience/audit_ledger.py`. Strings are sequences of UTF-16 code units, which
is what `json.dumps` writes of them; a file is a text of code points, as `read_text` decodes it.
Paths are taken as confined already, the key as resolved, and the clock is an argument of `append`.

Whether `verify_ledger` returns or raises is decided record by record, in `checkRecord`. The records
that `append` writes are read back as they were (`parseLines_lines`), and their payloads and
signatures are a chain (`chained_records`).
-/

namespace Resilience.Python

open Json

variable {ν : Type}

/-- A value that `json` reads or writes; a dictionary is the list of its items. -/
abbrev Doc (ν : Type) := Json Units ν

abbrev Items (ν : Type) := List (Units × Doc ν)

inductive PyError
  | jsonDecodeError
  | attributeError
  | typeError
  | keyError (key : String)
  deriving DecidableEq

/-! ## Strings and dictionaries -/

/-- What `str.strip` removes. -/
def isSpace (c : ℕ) : Bool :=
  (0x09 ≤ c && c ≤ 0x0D) || (0x1C ≤ c && c ≤ 0x20) || c == 0x85 || c == 0xA0 || c == 0x1680 ||
    (0x2000 ≤ c && c ≤ 0x200A) || c == 0x2028 || c == 0x2029 || c == 0x202F || c == 0x205F ||
    c == 0x3000

/-- Where `str.splitlines` cuts. -/
def isLineBreak (c : ℕ) : Bool :=
  (0x0A ≤ c && c ≤ 0x0D) || (0x1C ≤ c && c ≤ 0x1E) || c == 0x85 || c == 0x2028 || c == 0x2029

/-- What text files do to line ends when they are read. -/
def universalNewlines : Text → Text
  | [] => []
  | [c] => [if c = 0x0D then 0x0A else c]
  | c :: d :: rest =>
    if c = 0x0D then
      if d = 0x0A then 0x0A :: universalNewlines rest else 0x0A :: universalNewlines (d :: rest)
    else c :: universalNewlines (d :: rest)

/-- `str.splitlines`, for a text without carriage returns. -/
def splitlines (raw : Text) : List Text :=
  (splitInclusive isLineBreak raw).map fun l =>
    if l.getLast?.any isLineBreak then l.dropLast else l

/-- `d[k]`. -/
def item (k : String) (d : Items ν) : Except PyError (Doc ν) :=
  match lookup (utf16 k) d with
  | some v => .ok v
  | none => .error (.keyError k)

/-- `d.get(k)`. -/
def get (k : String) (d : Items ν) : Doc ν := (lookup (utf16 k) d).getD .null

/-- Strings are in the order of their code points. -/
def rank (s : Units) : List ℕ := joinSurrogates (codes s)

/-! ## json -/

variable (N : Numerals ν)

/-- `json.loads`: of a key that occurs twice the last value counts. -/
def loads (s : Text) : Except PyError (Doc ν) :=
  match parse N.reader s with
  | some v => .ok (v.transform id .num assignAll)
  | none => .error .jsonDecodeError

/-- `json.dumps`, with its default separators. -/
def dumps (v : Doc ν) : Text := render N.asciiCodec true v

/-- `canonical_json`. -/
def canonicalJson (v : Doc ν) : Text := render N.asciiCodec false (sortKeys rank v)

/-! ## Signatures -/

/-- The item `k`, unless it is missing or `None`. -/
def optionalItem (k : String) (record : Items ν) : Items ν :=
  match get k record with
  | .null => []
  | v => [(utf16 k, v)]

/-- The fields that `_signing_payload` takes without asking. -/
def signedFields : List String := ["ts", "event", "actor", "inputs", "sources", "prev_sig"]

/-- `_signing_payload`. -/
def signingPayload (record : Items ν) : Except PyError (Items ν) := do
  let payload ← signedFields.mapM fun k => (item k record).map fun v => (utf16 k, v)
  return payload ++ optionalItem "confidence" record ++ optionalItem "rationale" record

/-- The payload of a record that has all the fields. -/
def payloadOf (record : Items ν) : Items ν :=
  (signedFields.map fun k => (utf16 k, get k record)) ++ optionalItem "confidence" record ++
    optionalItem "rationale" record

/-- The signature of a payload. -/
def signPayload (hmac : Hmac) (key : String) (payload : Items ν) : Units :=
  utf16 (hmac (utf8 key.toList) (encodeUtf8 (canonicalJson N (.obj payload))))

/-- `_sign`. -/
def sign (hmac : Hmac) (key : String) (record : Items ν) : Except PyError Units :=
  (signingPayload record).map (signPayload N hmac key)

/-! ## The ledger -/

/-- The loop of `_parse_lines`. -/
def loadLines : List Text → Except PyError (List (Doc ν))
  | [] => .ok []
  | line :: lines =>
    if isBlank isSpace line then loadLines lines
    else do
      let record ← loads N line
      let records ← loadLines lines
      return record :: records

/-- `_parse_lines`. -/
def parseLines (raw : Text) : Except PyError (List (Doc ν)) := loadLines N (splitlines raw)

/-- `read_text` and `_parse_lines`; `none` is a file that does not exist. -/
def readRecords (file : Option Text) : Except PyError (List (Doc ν)) :=
  parseLines N (universalNewlines (file.getD []))

structure VerifyResult where
  ok : Bool
  count : ℕ := 0
  tamperedIndex : Option ℕ := none
  reason : Option String := none
  deriving DecidableEq

/-- The body of the loop of `verify_ledger`: a result, or the next `prev_sig`. -/
def checkRecord (hmac : Hmac) (key : String) [DecidableEq ν] (i : ℕ) (prevSig : Doc ν) :
    Doc ν → Except PyError (VerifyResult ⊕ Doc ν)
  | .obj record =>
    if get "prev_sig" record ≠ prevSig then
      .ok (.inl {
        ok := false
        tamperedIndex := some i
        reason := some s!"prev_sig mismatch: chain broken at line {i}" })
    else do
      let expected ← sign N hmac key record
      if .str expected ≠ get "sig" record then
        return .inl {
          ok := false
          tamperedIndex := some i
          reason := some s!"signature mismatch at line {i}" }
      else
        let sig ← item "sig" record
        return .inr sig
  | _ => .error .attributeError

/-- The loop of `verify_ledger`. -/
def walk (hmac : Hmac) (key : String) [DecidableEq ν] :
    ℕ → Doc ν → List (Doc ν) → Except PyError (Option VerifyResult)
  | _, _, [] => .ok none
  | i, prevSig, record :: records => do
    match ← checkRecord N hmac key i prevSig record with
    | .inl result => return some result
    | .inr sig => walk hmac key (i + 1) sig records

def verifyRecords (hmac : Hmac) (key : String) [DecidableEq ν] (records : List (Doc ν)) :
    Except PyError VerifyResult := do
  match ← walk N hmac key 0 (.str []) records with
  | some result => return result
  | none => return { ok := true, count := records.length }

/-- `verify_ledger`. -/
def verifyLedger (hmac : Hmac) (file : Option Text) (key : String) [DecidableEq ν] :
    Except PyError VerifyResult := do
  let records ← readRecords N file
  verifyRecords N hmac key records

/-- A value that a caller passes; its dictionaries have no duplicate keys. -/
structure Value (ν : Type) where
  doc : Doc ν
  nodup : doc.Within (fun _ => True) List.Nodup

def Value.none : Value ν := ⟨.null, trivial⟩

/-- The arguments of `append`. -/
structure AuditRecordInput (ν : Type) where
  event : Units
  actor : Units
  inputs : Value ν := .none
  sources : Value ν := .none
  confidence : Option ν := .none
  rationale : Option Units := .none
  ts : Option Units := .none

structure AuditLedger (ν : Type) where
  key : String
  lastSig : Doc ν

namespace AuditLedger

/-- `AuditLedger.__init__`. -/
def init (file : Option Text) (key : String) : Except PyError (AuditLedger ν) := do
  let records ← readRecords N file
  match records.getLast? with
  | none => return ⟨key, .str []⟩
  | some (.obj record) => return ⟨key, ← item "sig" record⟩
  | some _ => .error .typeError

variable (L : AuditLedger ν)

/-- The record before it is signed; `now` is the current time, and an empty `ts` counts as none. -/
def unsigned (now : Units) (input : AuditRecordInput ν) : Items ν :=
  [(utf16 "ts", .str (match input.ts with
      | some (c :: ts) => c :: ts
      | _ => now)),
    (utf16 "event", .str input.event), (utf16 "actor", .str input.actor),
    (utf16 "inputs", input.inputs.doc), (utf16 "sources", input.sources.doc)] ++
  (match input.confidence with
    | some c => [(utf16 "confidence", .num c)]
    | none => []) ++
  (match input.rationale with
    | some r => [(utf16 "rationale", .str r)]
    | none => []) ++
  [(utf16 "prev_sig", L.lastSig)]

/-- `AuditLedger.append`: the signature, the ledger and the file. -/
def append (hmac : Hmac) (file : Option Text) (now : Units) (input : AuditRecordInput ν) :
    Except PyError (Units × AuditLedger ν × Option Text) := do
  let record := L.unsigned now input
  let sig ← sign N hmac L.key record
  let record := record ++ [(utf16 "sig", .str sig)]
  return (sig, { L with lastSig := .str sig },
    some (file.getD [] ++ (dumps N (.obj record) ++ [0x0A])))

/-- The record that `append` writes. -/
def record (hmac : Hmac) (now : Units) (input : AuditRecordInput ν) : Items ν :=
  L.unsigned now input ++
    [(utf16 "sig", .str (signPayload N hmac L.key (payloadOf (L.unsigned now input))))]

/-- The ledger after `append`. -/
def appended (hmac : Hmac) (now : Units) (input : AuditRecordInput ν) : AuditLedger ν :=
  { L with lastSig := get "sig" (L.record N hmac now input) }

/-- The records of successive appends. -/
def records (hmac : Hmac) : AuditLedger ν → List (Units × AuditRecordInput ν) → List (Items ν)
  | _, [] => []
  | L, (now, input) :: rest =>
    L.record N hmac now input :: records hmac (L.appended N hmac now input) rest

end AuditLedger

/-! ## Lookups -/

def HasFields (record : Items ν) : Prop := ∀ k ∈ signedFields, (lookup (utf16 k) record).isSome

instance (record : Items ν) : Decidable (HasFields record) :=
  inferInstanceAs (Decidable (∀ k ∈ signedFields, _))

theorem mapM_item {ks : List String} {record : Items ν}
    (h : ∀ k ∈ ks, (lookup (utf16 k) record).isSome) :
    (ks.mapM fun k => (item k record).map fun v => (utf16 k, v)) =
      .ok (ks.map fun k => (utf16 k, get k record)) := by
  induction ks with
  | nil => rfl
  | cons k ks ih =>
    obtain ⟨hk, hks⟩ := List.forall_mem_cons.1 h
    obtain ⟨v, hv⟩ := Option.isSome_iff_exists.1 hk
    have hitem : item k record = .ok (get k record) := by
      rw [item, get, hv]
      rfl
    rw [List.mapM_cons, ih hks, hitem]
    rfl

theorem mapM_item_error {ks : List String} {record : Items ν}
    (h : ¬ ∀ k ∈ ks, (lookup (utf16 k) record).isSome) :
    ∃ k ∈ ks, (ks.mapM fun k => (item k record).map fun v => (utf16 k, v)) =
      .error (.keyError k) := by
  induction ks with
  | nil => exact absurd (fun k hk => absurd hk List.not_mem_nil) h
  | cons k ks ih =>
    by_cases hk : (lookup (utf16 k) record).isSome
    · obtain ⟨v, hv⟩ := Option.isSome_iff_exists.1 hk
      obtain ⟨k', hk', herror⟩ := ih fun hks => h (List.forall_mem_cons.2 ⟨hk, hks⟩)
      refine ⟨k', List.mem_cons_of_mem _ hk', ?_⟩
      rw [List.mapM_cons, herror, item, hv]
      rfl
    · refine ⟨k, List.mem_cons_self .., ?_⟩
      rw [List.mapM_cons, item, Option.not_isSome_iff_eq_none.1 hk]
      rfl

theorem signingPayload_of_hasFields {record : Items ν} (h : HasFields record) :
    signingPayload record = .ok (payloadOf record) := by
  rw [signingPayload, mapM_item h]
  rfl

theorem signingPayload_of_not_hasFields {record : Items ν} (h : ¬ HasFields record) :
    ∃ k ∈ signedFields, signingPayload record = .error (.keyError k) := by
  obtain ⟨k, hk, herror⟩ := mapM_item_error h
  refine ⟨k, hk, ?_⟩
  rw [signingPayload, herror]
  rfl

/-! ## Records as a chain -/

/-- The payload as it is signed. -/
def canonical (payload : Items ν) : Doc ν := sortKeys rank (.obj payload)

/-- The chain of a ledger with the key `key`: of canonical payloads, and signatures as values. -/
def scheme (hmac : Hmac) (key : String) : Scheme (Doc ν) (Doc ν) where
  genesis := .str []
  link
    | .obj payload => get "prev_sig" payload
    | _ => .null
  sign v := .str (utf16 (hmac (utf8 key.toList) (encodeUtf8 (render N.asciiCodec false v))))

/-- A record, as its canonical payload and its signature. -/
def entry (record : Items ν) : Entry (Doc ν) (Doc ν) :=
  ⟨canonical (payloadOf record), get "sig" record⟩

/-- The entry of a value that is a record. -/
def entryOf : Doc ν → Option (Entry (Doc ν) (Doc ν))
  | .obj record => if HasFields record then some (entry record) else none
  | _ => none

theorem sign_canonical (hmac : Hmac) (key : String) (payload : Items ν) :
    (scheme N hmac key).sign (canonical payload) = .str (signPayload N hmac key payload) := rfl

/-- The fields of a payload. -/
def payloadFields : List String := signedFields ++ ["confidence"] ++ ["rationale"]

theorem keys_optionalItem (k : String) (record : Items ν) :
    ((optionalItem k record).map Prod.fst).Sublist [utf16 k] := by
  unfold optionalItem
  split
  · exact List.nil_sublist _
  · exact List.Sublist.refl _

theorem nodup_payloadOf (record : Items ν) : ((payloadOf record).map Prod.fst).Nodup := by
  have hkeys : ((payloadOf record).map Prod.fst).Sublist (payloadFields.map utf16) := by
    simp only [payloadOf, payloadFields, List.map_append, List.map_map]
    refine ((List.Sublist.refl _).append ?_).append ?_
    · exact keys_optionalItem "confidence" record
    · exact keys_optionalItem "rationale" record
  exact hkeys.nodup ((List.nodup_map_iff utf16_injective).2 (by decide))

theorem get_optionalItem (k : String) (record : Items ν) :
    get k (optionalItem k record) = get k record := by
  unfold optionalItem
  split
  · rename_i h
    exact h.symm
  · rw [get, lookup_cons, if_pos rfl]
    rfl

theorem lookup_optionalItem_of_ne {k k' : String} (h : k' ≠ k) (record : Items ν) :
    lookup (utf16 k') (optionalItem k record) = none := by
  unfold optionalItem
  split
  · rfl
  · rw [lookup_cons, if_neg (utf16_injective.ne h)]
    rfl

theorem lookup_fields {ks : List String} (f : String → Doc ν) (k : String) :
    lookup (utf16 k) (ks.map fun k => (utf16 k, f k)) = if k ∈ ks then some (f k) else none := by
  induction ks with
  | nil => rfl
  | cons k' ks ih =>
    by_cases hk : k = k'
    · subst hk
      simp [lookup_cons]
    · simp [lookup_cons, hk, ih]

/-- The fields of a payload are those of the record. -/
theorem get_payloadOf (record : Items ν) {k : String} (hk : k ∈ payloadFields) :
    get k (payloadOf record) = get k record := by
  rw [get, payloadOf, lookup_append, lookup_append, lookup_fields]
  by_cases hsigned : k ∈ signedFields
  · rw [if_pos hsigned]
    rfl
  · rw [if_neg hsigned, Option.none_or]
    have hk : k = "confidence" ∨ k = "rationale" := by
      simpa [payloadFields, hsigned] using hk
    rcases hk with rfl | rfl
    · rw [lookup_optionalItem_of_ne (k := "rationale") (by decide), Option.or_none]
      exact get_optionalItem "confidence" record
    · rw [lookup_optionalItem_of_ne (k := "confidence") (by decide), Option.none_or]
      exact get_optionalItem "rationale" record

theorem get_canonical (record : Items ν) {k : String} (hk : k ∈ payloadFields) :
    ∃ items, canonical (payloadOf record) = .obj items ∧
      get k items = sortKeys rank (get k record) := by
  refine ⟨_, sortKeys_obj rank _, ?_⟩
  have hnodup :
      (((payloadOf record).map fun m => (m.1, sortKeys rank m.2)).map Prod.fst).Nodup := by
    rw [List.map_map]
    exact nodup_payloadOf record
  rw [get, lookup_sortMembers rank hnodup, lookup_map, ← get_payloadOf record hk, get]
  cases lookup (utf16 k) (payloadOf record) <;> rfl

theorem link_canonical (hmac : Hmac) (key : String) (record : Items ν) :
    (scheme N hmac key).link (canonical (payloadOf record)) =
      sortKeys rank (get "prev_sig" record) := by
  obtain ⟨items, hitems, hget⟩ := get_canonical record (show "prev_sig" ∈ payloadFields by decide)
  rw [hitems]
  exact hget

theorem sortKeys_eq_null {v : Doc ν} : sortKeys rank v = .null ↔ v = .null := by
  cases v with
  | arr xs => simp [sortKeys]
  | obj ms => simp [sortKeys_obj]
  | _ => simp [sortKeys]

/-- Two records sign the same when their fields have the same values, up to the order of items. -/
theorem canonical_eq_iff {record record' : Items ν} :
    canonical (payloadOf record) = canonical (payloadOf record') ↔
      ∀ k ∈ payloadFields, sortKeys rank (get k record) = sortKeys rank (get k record') := by
  constructor
  · intro h k hk
    obtain ⟨items, hitems, hget⟩ := get_canonical record hk
    obtain ⟨items', hitems', hget'⟩ := get_canonical record' hk
    rw [← hget, ← hget']
    rw [hitems, hitems'] at h
    rw [Json.obj.inj h]
  · intro h
    have hoptional : ∀ k ∈ payloadFields,
        (optionalItem k record).map (fun m => (m.1, sortKeys rank m.2)) =
          (optionalItem k record').map fun m => (m.1, sortKeys rank m.2) := by
      intro k hk
      have hnull : get k record = .null ↔ get k record' = .null := by
        rw [← sortKeys_eq_null, h k hk, sortKeys_eq_null]
      unfold optionalItem
      split <;> split
      · rfl
      · exact absurd (hnull.1 ‹_›) ‹_›
      · exact absurd (hnull.2 ‹_›) ‹_›
      · simp [h k hk]
    have hsigned : (signedFields.map fun k => (utf16 k, sortKeys rank (get k record))) =
        signedFields.map fun k => (utf16 k, sortKeys rank (get k record')) :=
      List.map_congr_left fun k hk => by rw [h k (by simp [payloadFields, hk])]
    rw [canonical, canonical, sortKeys_obj, sortKeys_obj]
    simp only [payloadOf, List.map_append, List.map_map]
    rw [hoptional "confidence" (by decide), hoptional "rationale" (by decide)]
    simp only [Function.comp_def, hsigned]

section Sign

variable {N} {hmac : Hmac} {key : String}

theorem sign_injective (hN : N.Lawful some) (hideal : hmac.Ideal (utf8 key.toList)) :
    Function.Injective (scheme N hmac key).sign := by
  intro v w h
  have hbytes := hideal.injective (utf16_injective (Json.str.inj h))
  have hvalid : ∀ v, ∀ c ∈ render N.asciiCodec false v, c.isValidChar := by
    intro v c hc
    have := hN.printable_asciiCodec false v c hc
    exact .inl (by omega)
  exact Lawful.render_injective hN.asciiCodec false (encodeUtf8_inj (hvalid v) (hvalid w) hbytes)

theorem sign_ne_genesis (hideal : hmac.Ideal (utf8 key.toList)) (v : Doc ν) :
    (scheme N hmac key).sign v ≠ (scheme N hmac key).genesis := by
  intro h
  have hempty : utf16 (hmac (utf8 key.toList) (encodeUtf8 (render N.asciiCodec false v))) =
      utf16 "" := Json.str.inj h
  exact hideal.ne_empty _ (utf16_injective hempty)

end Sign

/-! ## The records that are written -/

section Records

variable {N} {hmac : Hmac}

theorem hasFields_unsigned (L : AuditLedger ν) (now : Units) (input : AuditRecordInput ν) :
    HasFields (L.unsigned now input) := by
  intro k hk
  rw [AuditLedger.unsigned, lookup_append, lookup_append, lookup_append]
  simp only [signedFields, List.mem_cons, List.not_mem_nil, or_false] at hk
  rcases hk with rfl | rfl | rfl | rfl | rfl | rfl <;> simp [lookup_cons]

theorem get_prevSig_unsigned (L : AuditLedger ν) (now : Units) (input : AuditRecordInput ν) :
    get "prev_sig" (L.unsigned now input) = L.lastSig := by
  rw [get, AuditLedger.unsigned]
  cases input.confidence <;> cases input.rationale <;> simp [lookup_cons]

theorem lookup_sig_unsigned (L : AuditLedger ν) (now : Units) (input : AuditRecordInput ν) :
    lookup (utf16 "sig") (L.unsigned now input) = none := by
  rw [AuditLedger.unsigned]
  cases input.confidence <;> cases input.rationale <;> simp [lookup_cons]

theorem lookup_record_of_ne (L : AuditLedger ν) (now : Units) (input : AuditRecordInput ν)
    {k : String} (hk : k ≠ "sig") :
    lookup (utf16 k) (L.record N hmac now input) = lookup (utf16 k) (L.unsigned now input) := by
  rw [AuditLedger.record, lookup_append, lookup_cons, if_neg (utf16_injective.ne hk), lookup_nil,
    Option.or_none]

@[simp] theorem get_sig_record (L : AuditLedger ν) (now : Units) (input : AuditRecordInput ν) :
    get "sig" (L.record N hmac now input) =
      .str (signPayload N hmac L.key (payloadOf (L.unsigned now input))) := by
  rw [get, AuditLedger.record, lookup_append, lookup_sig_unsigned, lookup_cons, if_pos rfl]
  rfl

theorem hasFields_record (L : AuditLedger ν) (now : Units) (input : AuditRecordInput ν) :
    HasFields (L.record N hmac now input) := by
  intro k hk
  have hne : k ≠ "sig" := by
    rintro rfl
    exact absurd hk (by decide)
  rw [lookup_record_of_ne L now input hne]
  exact hasFields_unsigned L now input k hk

/-- The payload is the same with and without the signature. -/
theorem payloadOf_record (L : AuditLedger ν) (now : Units) (input : AuditRecordInput ν) :
    payloadOf (L.record N hmac now input) = payloadOf (L.unsigned now input) := by
  have hget : ∀ k ∈ payloadFields,
      get k (L.record N hmac now input) = get k (L.unsigned now input) := by
    intro k hk
    have hne : k ≠ "sig" := by
      rintro rfl
      exact absurd hk (by decide)
    rw [get, get, lookup_record_of_ne L now input hne]
  have hsigned : (signedFields.map fun k => (utf16 k, get k (L.record N hmac now input))) =
      signedFields.map fun k => (utf16 k, get k (L.unsigned now input)) :=
    List.map_congr_left fun k hk => by rw [hget k (by simp [payloadFields, hk])]
  rw [payloadOf, payloadOf, hsigned, optionalItem, optionalItem, hget "confidence" (by decide),
    optionalItem, optionalItem, hget "rationale" (by decide)]

/-- `append` succeeds, and writes its record. -/
theorem append_eq (L : AuditLedger ν) (file : Option Text) (now : Units)
    (input : AuditRecordInput ν) :
    L.append N hmac file now input =
      .ok (signPayload N hmac L.key (payloadOf (L.unsigned now input)),
        L.appended N hmac now input,
        some (file.getD [] ++ (dumps N (.obj (L.record N hmac now input)) ++ [0x0A]))) := by
  rw [AuditLedger.append, sign, signingPayload_of_hasFields (hasFields_unsigned L now input),
    AuditLedger.appended, get_sig_record]
  rfl

theorem entryOf_record (L : AuditLedger ν) (now : Units) (input : AuditRecordInput ν) :
    entryOf (.obj (L.record N hmac now input)) = some (entry (L.record N hmac now input)) :=
  if_pos (hasFields_record L now input)

/-- The records of successive appends are a chain. -/
theorem chained_records {L : AuditLedger ν} {s : Units} (hL : L.lastSig = .str s)
    (inputs : List (Units × AuditRecordInput ν)) :
    (scheme N hmac L.key).Chained L.lastSig ((L.records N hmac inputs).map entry) := by
  induction inputs generalizing L s with
  | nil => trivial
  | cons p inputs ih =>
    obtain ⟨now, input⟩ := p
    refine ⟨?_, ?_, ?_⟩
    · show (scheme N hmac L.key).link (canonical (payloadOf _)) = _
      rw [payloadOf_record, link_canonical, get_prevSig_unsigned, hL]
      rfl
    · show (scheme N hmac L.key).sign (canonical (payloadOf _)) = get "sig" _
      rw [payloadOf_record, sign_canonical, get_sig_record]
    · have hsig : (L.appended N hmac now input).lastSig = .str _ := get_sig_record L now input
      exact ih hsig

end Records

/-! ## Reading -/

/-- A text that `splitlines` does not cut. -/
def OneLine (l : Text) : Prop := ∀ c ∈ l, isLineBreak c = false

/-- Lines, each with a newline. -/
def unlines (ls : List Text) : Text := ls.flatMap (· ++ [0x0A])

theorem universalNewlines_eq_self {t : Text} (h : 0x0D ∉ t) : universalNewlines t = t := by
  fun_induction universalNewlines t with
  | case1 => rfl
  | case2 c => rw [if_neg fun hc => h (by simp [hc])]
  | case3 rest ih => exact absurd (List.mem_cons_self ..) h
  | case4 d rest hd ih => exact absurd (List.mem_cons_self ..) h
  | case5 c d rest hc ih => rw [ih fun hmem => h (List.mem_cons_of_mem _ hmem)]

theorem splitlines_unlines {ls : List Text} (h : ∀ l ∈ ls, OneLine l) :
    splitlines (unlines ls) = ls := by
  induction ls with
  | nil => rfl
  | cons l ls ih =>
    obtain ⟨hl, hls⟩ := List.forall_mem_cons.1 h
    have hterm : Terminated isLineBreak (l ++ [0x0A]) := terminated_concat (by decide)
    rw [unlines, List.flatMap_cons, splitlines, splitInclusive_append hterm,
      splitInclusive_line hl (by decide), List.map_append]
    show [_] ++ splitlines (unlines ls) = _
    rw [ih hls]
    simp [isLineBreak]

/-- The lines of a file that are not blank. -/
def recordLines (content : Text) : List Text :=
  (splitlines (universalNewlines content)).filter fun l => !isBlank isSpace l

theorem loadLines_eq_mapM (N : Numerals ν) (ls : List Text) :
    loadLines N ls = (ls.filter fun l => !isBlank isSpace l).mapM (loads N) := by
  induction ls with
  | nil => rfl
  | cons l ls ih =>
    rw [loadLines, ih]
    by_cases hl : isBlank isSpace l = true
    · rw [if_pos hl, List.filter_cons_of_neg (by simp [hl])]
    · rw [if_neg hl, List.filter_cons_of_pos (by simp [hl]), List.mapM_cons]

/-- The lines that are not blank are loaded one by one. -/
theorem readRecords_some (N : Numerals ν) (content : Text) :
    readRecords N (some content) = (recordLines content).mapM (loads N) :=
  loadLines_eq_mapM N _

theorem recordLines_unlines {ls : List Text} (hline : ∀ l ∈ ls, OneLine l)
    (hblank : ∀ l ∈ ls, isBlank isSpace l = false) : recordLines (unlines ls) = ls := by
  have hcr : 0x0D ∉ unlines ls := by
    intro hmem
    obtain ⟨l, hl, hc⟩ := List.mem_flatMap.1 hmem
    rcases List.mem_append.1 hc with hc | hc
    · exact absurd (hline l hl _ hc) (by decide)
    · exact absurd hc (by decide)
  rw [recordLines, universalNewlines_eq_self hcr, splitlines_unlines hline]
  exact List.filter_eq_self.2 fun l hl => by simp [hblank l hl]

theorem oneLine_dumps {N : Numerals ν} (hN : N.Lawful some) (v : Doc ν) : OneLine (dumps N v) := by
  intro c hc
  have hc := hN.printable_asciiCodec true v c hc
  unfold isLineBreak
  simp only [Bool.or_eq_false_iff, Bool.and_eq_false_iff, decide_eq_false_iff_not,
    beq_eq_false_iff_ne]
  omega

theorem isBlank_dumps (N : Numerals ν) (record : Items ν) :
    isBlank isSpace (dumps N (.obj record)) = false := by
  rw [dumps, render_obj]
  exact isBlank_cons (by decide)

/-- A text that is a JSON object is not blank. -/
theorem isBlank_of_loads {N : Numerals ν} {t : Text} {record : Items ν}
    (h : loads N t = .ok (.obj record)) : isBlank isSpace t = false := by
  unfold loads at h
  split at h
  · rename_i v hparse
    have hobj : ∃ ms, v = .obj ms := by
      cases v with
      | obj ms => exact ⟨ms, rfl⟩
      | arr xs =>
        rw [transform_arr] at h
        cases h
      | _ => cases h
    obtain ⟨ms, rfl⟩ := hobj
    rw [← Bool.not_eq_true, isBlank_iff]
    exact fun hblank => absurd (hblank _ (brace_mem_of_parse hparse)) (by decide)
  · cases h

/-- What is written is read back, with the last of several members of one key. -/
theorem loads_render {N : Numerals ν} (hN : N.Lawful some) (spaced : Bool) (v : Doc ν) :
    loads N (render N.asciiCodec spaced v) = .ok (v.transform id .num assignAll) := by
  have hparse : parse N.reader (render N.asciiCodec spaced v) = some (v.transform id .num id) :=
    hN.asciiCodec.parse_render spaced v
  rw [loads, hparse, transform_id]

theorem loads_dumps {N : Numerals ν} (hN : N.Lawful some) {v : Doc ν}
    (hv : v.Within (fun _ => True) List.Nodup) : loads N (dumps N v) = .ok v := by
  rw [dumps, loads_render hN]
  exact congrArg _ (hv.transform_eq_self fun ms hms => assignAll_eq_self hms)

/-- The record of a ledger has no duplicate keys, as far as its values have none. -/
theorem nodup_record {N : Numerals ν} {hmac : Hmac} {L : AuditLedger ν} {s : Units}
    (hL : L.lastSig = .str s) (now : Units) (input : AuditRecordInput ν) :
    (Json.obj (L.record N hmac now input)).Within (fun _ => True) List.Nodup := by
  rw [within_obj]
  constructor
  · have hkeys : ((L.record N hmac now input).map Prod.fst).Sublist
        (["ts", "event", "actor", "inputs", "sources", "confidence", "rationale", "prev_sig",
          "sig"].map utf16) := by
      rw [AuditLedger.record, AuditLedger.unsigned]
      cases input.confidence <;> cases input.rationale <;> simp
    exact hkeys.nodup ((List.nodup_map_iff utf16_injective).2 (by decide))
  · intro m hm
    refine ⟨trivial, ?_⟩
    rw [AuditLedger.record, AuditLedger.unsigned, hL] at hm
    simp only [List.mem_append, List.mem_cons, List.not_mem_nil, or_false] at hm
    rcases hm with ((((rfl | rfl | rfl | rfl | rfl) | hm) | hm) | rfl) | rfl
    · trivial
    · trivial
    · trivial
    · exact input.inputs.nodup
    · exact input.sources.nodup
    · split at hm
      · rw [List.mem_singleton.1 hm]
        trivial
      · exact absurd hm List.not_mem_nil
    · split at hm
      · rw [List.mem_singleton.1 hm]
        trivial
      · exact absurd hm List.not_mem_nil
    · trivial
    · trivial

end Resilience.Python
