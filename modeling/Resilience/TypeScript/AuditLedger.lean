import Resilience.Foundations.HashChain
import Resilience.Foundations.Hmac
import Resilience.Foundations.Json.Members
import Resilience.Foundations.Json.Numerals
import Resilience.TypeScript.Strings
import Mathlib.Order.WithBot

/-!
# The audit ledger in TypeScript

`typescript/src/auditLedger.ts`. Strings, and the text of a file as `readFileSync` decodes it, are
sequences of UTF-16 code units. Objects list their own properties in the order in which JavaScript
enumerates them: array indices first, by number, and then the other keys in the order in which they
were made. Paths are taken as confined already, the key as resolved, and the clock is an argument of
`append`.

Numbers may be written so that they are read back as others, or as `null`, but only as such that are
written alike (`Numerals.Lawful` and `Reprints`). So a record that is read back is signed alike
(`canonicalJson_readBack`), and the records that `append` writes are a chain (`scheme`).
-/

namespace Resilience.TypeScript

open Json

variable {ν : Type}

abbrev Doc (ν : Type) := Json Units ν

abbrev Members (ν : Type) := List (Units × Doc ν)

inductive JsError
  | syntaxError
  | typeError
  deriving DecidableEq

/-! ## Objects -/

/-- The number of a key that is an array index. -/
def arrayIndex (k : Units) : Option ℕ := (readNat (codes k)).filter (· < 2 ^ 32 - 1)

/-- Array indices come by number, and before all other keys. -/
def indexRank (k : Units) : WithTop ℕ := (arrayIndex k).elim ⊤ (↑)

/-- Properties in the order of `OwnPropertyKeys`. -/
def ownOrder {α : Type} (ms : List (Units × α)) : List (Units × α) := sortMembers indexRank ms

/-- The keys of an object, in their order. -/
def OwnKeys (ks : List Units) : Prop :=
  ks.Nodup ∧ ks.Pairwise fun k k' => indexRank k ≤ indexRank k'

/-- `obj[k]`: `none` is `undefined`. -/
def property (k : String) : Doc ν → Except JsError (Option (Doc ν))
  | .null => .error .typeError
  | .obj ms => .ok (lookup (utf16 k) ms)
  | _ => .ok none

/-! ## JSON -/

variable (N : Numerals ν)

/-- `JSON.parse`: of a key that occurs twice the last value counts. -/
def parse (s : Text) : Except JsError (Doc ν) :=
  match Json.parse N.reader s with
  | some v => .ok (v.transform id .num fun ms => ownOrder (assignAll ms))
  | none => .error .syntaxError

/-- `JSON.stringify`. -/
def stringify (v : Doc ν) : Text := render N.unitsCodec false v

/-- What the loop of `sortKeys` makes of an object: it assigns the properties in the order of their
keys, and an assignment to `__proto__` makes no property. -/
def reassigned {α : Type} (ms : List (Units × α)) : List (Units × α) :=
  ownOrder ((sortMembers codes ms).filter fun m => m.1 ≠ utf16 "__proto__")

/-- `sortKeys`. -/
def sortKeys (v : Doc ν) : Doc ν := v.transform id .num reassigned

/-- `canonicalJson`. -/
def canonicalJson (v : Doc ν) : Text := stringify N (sortKeys v)

/-! ## Signatures -/

/-- The fields of a payload. Those of a record are there, unless something else was parsed than a
record; `confidence` and `rationale` are there when they are not `undefined`. -/
def payloadFields : List String :=
  ["ts", "event", "actor", "inputs", "sources", "prev_sig", "confidence", "rationale"]

/-- `signingPayload`, without the properties that are `undefined`, which `JSON.stringify` omits. -/
def signingPayload (rec : Members ν) : Members ν :=
  payloadFields.filterMap fun k => (lookup (utf16 k) rec).map fun v => (utf16 k, v)

/-- `sign`. -/
def sign (hmac : Hmac) (key : String) (rec : Members ν) : Units :=
  utf16 (hmac (utf8 key.toList) (encodeUnits (canonicalJson N (.obj (signingPayload rec)))))

/-! ## The ledger -/

def isNewline (c : ℕ) : Bool := c == 0x0A

/-- The loop of `parseLines`, over the lines with their newlines. -/
def loadLines : List Text → Except JsError (List (Doc ν))
  | [] => .ok []
  | line :: lines =>
    let line := if line.getLast?.any isNewline then line.dropLast else line
    if isBlank isSpace line then loadLines lines
    else do
      let record ← parse N line
      let records ← loadLines lines
      return record :: records

/-- `parseLines`. -/
def parseLines (raw : Text) : Except JsError (List (Doc ν)) :=
  loadLines N (splitInclusive isNewline raw)

/-- `readFileSync` and `parseLines`; `none` is a file that does not exist. -/
def readRecords (file : Option Text) : Except JsError (List (Doc ν)) := parseLines N (file.getD [])

inductive VerifyResult
  | ok (count : ℕ)
  | tampered (tamperedIndex : ℕ) (reason : String)
  deriving DecidableEq

/-- The loop of `verifyLedger`: a failure, if there is one. -/
def walk (hmac : Hmac) (key : String) [DecidableEq ν] :
    ℕ → Doc ν → List (Doc ν) → Except JsError (Option VerifyResult)
  | _, _, [] => .ok none
  | i, prevSig, rec :: recs => do
    let prev ← property "prev_sig" rec
    if prev ≠ some prevSig then
      return some (.tampered i s!"prev_sig mismatch: chain broken at line {i}")
    else match rec with
      | .obj ms =>
        let expected : Doc ν := .str (sign N hmac key ms)
        if some expected ≠ lookup (utf16 "sig") ms then
          return some (.tampered i s!"signature mismatch at line {i}")
        else walk hmac key (i + 1) expected recs
      | _ => .error .typeError

/-- `verifyLedger`. -/
def verifyLedger (hmac : Hmac) (file : Option Text) (key : String) [DecidableEq ν] :
    Except JsError VerifyResult := do
  let records ← readRecords N file
  match ← walk N hmac key 0 (.str []) records with
  | some result => return result
  | none => return .ok records.length

/-- A value that a caller passes. -/
structure Value (ν : Type) where
  doc : Doc ν
  own : doc.Within (fun _ => True) OwnKeys

def Value.null : Value ν := ⟨.null, trivial⟩

structure AuditRecordInput (ν : Type) where
  event : Units
  actor : Units
  inputs : Value ν := .null
  sources : Value ν := .null
  confidence : Option ν := none
  rationale : Option Units := none
  ts : Option Units := none

structure AuditLedger (ν : Type) where
  key : String
  lastSig : Doc ν

namespace AuditLedger

/-- The constructor: `parseLines(..).at(-1)?.sig ?? ""`. -/
def create (file : Option Text) (key : String) : Except JsError (AuditLedger ν) := do
  let records ← readRecords N file
  match records.getLast? with
  | some (.obj ms) =>
    match lookup (utf16 "sig") ms with
    | none | some .null => return ⟨key, .str []⟩
    | some sig => return ⟨key, sig⟩
  | _ => return ⟨key, .str []⟩

variable (L : AuditLedger ν)

/-- The record before it is signed; `now` is the current time. -/
def unsigned (now : Units) (input : AuditRecordInput ν) : Members ν :=
  [(utf16 "ts", .str (input.ts.getD now)), (utf16 "event", .str input.event),
    (utf16 "actor", .str input.actor), (utf16 "inputs", input.inputs.doc),
    (utf16 "sources", input.sources.doc)] ++
  (match input.confidence with
    | some c => [(utf16 "confidence", .num c)]
    | none => []) ++
  (match input.rationale with
    | some r => [(utf16 "rationale", .str r)]
    | none => []) ++
  [(utf16 "prev_sig", L.lastSig)]

/-- The record that `append` writes. -/
def record (hmac : Hmac) (now : Units) (input : AuditRecordInput ν) : Members ν :=
  let unsigned := L.unsigned now input
  unsigned ++ [(utf16 "sig", .str (sign N hmac L.key unsigned))]

/-- `append`: the signature, the ledger and the file. -/
def append (hmac : Hmac) (file : Option Text) (now : Units) (input : AuditRecordInput ν) :
    Units × AuditLedger ν × Option Text :=
  let sig := sign N hmac L.key (L.unsigned now input)
  (sig, { L with lastSig := .str sig },
    some (file.getD [] ++ (stringify N (.obj (L.record N hmac now input)) ++ [0x0A])))

end AuditLedger

/-! ## Reading back -/

/-- The value that is read back: with other numbers, or `null` for them. -/
def readBack (norm : ν → Option ν) (v : Doc ν) : Doc ν :=
  v.transform id (fun n => (norm n).elim .null .num) id

section ReadBack

variable {N} {norm : ν → Option ν}

theorem ownOrder_assignAll {α : Type} {ms : List (Units × α)} (h : OwnKeys (ms.map Prod.fst)) :
    ownOrder (assignAll ms) = ms := by
  rw [assignAll_eq_self h.1]
  exact (sortMembers_eq_self indexRank).2 h.2

theorem own_readBack {v : Doc ν} (h : v.Within (fun _ => True) OwnKeys) :
    (readBack norm v).Within (fun _ => True) OwnKeys :=
  h.map_num fun n => by cases norm n <;> trivial

theorem parse_stringify (hN : N.Lawful norm) {v : Doc ν} (h : v.Within (fun _ => True) OwnKeys) :
    parse N (stringify N v) = .ok (readBack norm v) := by
  rw [parse, stringify, hN.unitsCodec.parse_render]
  exact congrArg _ ((own_readBack h).transform_eq_self fun _ => ownOrder_assignAll)

theorem reassigned_map {α β : Type} (f : α → β) (ms : List (Units × α)) :
    reassigned (ms.map fun m => (m.1, f m.2)) = (reassigned ms).map fun m => (m.1, f m.2) := by
  rw [reassigned, reassigned, ownOrder, ownOrder, sortMembers_map, List.filter_map, sortMembers_map]
  rfl

/-- The order of the properties does not matter. -/
theorem reassigned_congr {α : Type} {ms ns : List (Units × α)} (h : ms.Perm ns)
    (hnodup : (ms.map Prod.fst).Nodup) : reassigned ms = reassigned ns := by
  have hranks := (List.nodup_map_iff codes_injective).2 hnodup
  rw [List.map_map] at hranks
  rw [reassigned, reassigned, sortMembers_congr codes h hranks]

theorem readBack_obj (ms : Members ν) :
    readBack norm (.obj ms) = .obj (ms.map fun m => (m.1, readBack norm m.2)) :=
  transform_obj ..

theorem sortKeys_obj (ms : Members ν) :
    sortKeys (.obj ms) = .obj (reassigned (ms.map fun m => (m.1, sortKeys m.2))) :=
  transform_obj ..

theorem sortKeys_readBack (v : Doc ν) :
    sortKeys (readBack norm v) = readBack norm (sortKeys v) := by
  induction v using Json.ind with
  | num n =>
    show sortKeys ((norm n).elim .null .num) = (norm n).elim .null .num
    cases norm n <;> rfl
  | arr xs ih =>
    simp only [sortKeys, readBack, transform_arr, List.map_map, Json.arr.injEq]
    exact List.map_congr_left ih
  | obj ms ih =>
    rw [readBack_obj, sortKeys_obj, sortKeys_obj, readBack_obj, ← reassigned_map, List.map_map,
      List.map_map]
    congr 2
    exact List.map_congr_left fun m hm => Prod.ext rfl (ih m hm)
  | _ => rfl

theorem stringify_readBack (hrep : N.Reprints norm) (v : Doc ν) :
    stringify N (readBack norm v) = stringify N v := by
  have hprint :
      ∀ n, render N.unitsCodec false ((norm n).elim .null .num) = N.unitsCodec.print n := by
    intro n
    rw [show N.unitsCodec.print n = _ from (hrep n).symm]
    cases norm n <;> rfl
  have hv : v.Within (fun _ => True) fun _ => True := by
    induction v using Json.ind with
    | arr xs ih => exact (within_arr xs).2 ih
    | obj ms ih => exact (within_obj ms).2 ⟨trivial, fun m hm => ⟨trivial, ih m hm⟩⟩
    | _ => trivial
  exact render_transform (fun _ _ => rfl) hprint hv

/-- A value that was read back is signed like the value that was written. -/
theorem canonicalJson_readBack (hrep : N.Reprints norm) (v : Doc ν) :
    canonicalJson N (readBack norm v) = canonicalJson N v := by
  rw [canonicalJson, sortKeys_readBack, stringify_readBack hrep, canonicalJson]

theorem signingPayload_map (f : Doc ν → Doc ν) (rec : Members ν) :
    signingPayload (rec.map fun m => (m.1, f m.2)) =
      (signingPayload rec).map fun m => (m.1, f m.2) := by
  rw [signingPayload, signingPayload, List.map_filterMap]
  congr 1
  funext k
  rw [lookup_map]
  cases lookup (utf16 k) rec <;> rfl

theorem signingPayload_congr {rec rec' : Members ν}
    (h : ∀ k ∈ payloadFields, lookup (utf16 k) rec = lookup (utf16 k) rec') :
    signingPayload rec = signingPayload rec' :=
  List.filterMap_congr fun k hk => by rw [h k hk]

theorem lookup_signingPayload (rec : Members ν) {k : String} (hk : k ∈ payloadFields) :
    lookup (utf16 k) (signingPayload rec) = lookup (utf16 k) rec := by
  have hfields : ∀ ks : List String, lookup (utf16 k)
      (ks.filterMap fun k => (lookup (utf16 k) rec).map fun v => (utf16 k, v)) =
        if k ∈ ks then lookup (utf16 k) rec else none := by
    intro ks
    induction ks with
    | nil => rfl
    | cons k' ks ih =>
      by_cases heq : k = k'
      · subst heq
        cases hv : lookup (utf16 k) rec <;> simp [lookup_cons, hv, ih]
      · have hne : utf16 k ≠ utf16 k' := utf16_injective.ne heq
        cases hv : lookup (utf16 k') rec <;> simp [lookup_cons, hv, ih, heq, hne]
  rw [signingPayload, hfields, if_pos hk]

theorem nodup_signingPayload (rec : Members ν) : ((signingPayload rec).map Prod.fst).Nodup := by
  have hkeys : ∀ ks : List String,
      ((ks.filterMap fun k => (lookup (utf16 k) rec).map fun v => (utf16 k, v)).map
        Prod.fst).Sublist (ks.map utf16) := by
    intro ks
    induction ks with
    | nil => exact List.Sublist.refl _
    | cons k ks ih =>
      cases hv : lookup (utf16 k) rec with
      | none => simpa [hv] using ih.cons (utf16 k)
      | some v => simpa [hv] using ih
  exact (hkeys payloadFields).nodup ((List.nodup_map_iff utf16_injective).2 (by decide))

/-- Reassigning keeps all properties but `__proto__`. -/
theorem lookup_reassigned {α : Type} {ms : List (Units × α)} (h : (ms.map Prod.fst).Nodup)
    {k : Units} (hk : k ≠ utf16 "__proto__") : lookup k (reassigned ms) = lookup k ms := by
  have hsorted : ((sortMembers codes ms).map Prod.fst).Nodup :=
    ((sortMembers_perm codes ms).map Prod.fst).nodup_iff.2 h
  have hfilter : (((sortMembers codes ms).filter fun m => m.1 ≠ utf16 "__proto__").map
      Prod.fst).Nodup := hsorted.sublist ((List.filter_sublist ..).map Prod.fst)
  rw [reassigned, ownOrder, lookup_sortMembers indexRank hfilter]
  exact (lookup_filter (p := fun k => k ≠ utf16 "__proto__") (by simpa using hk) _).trans
    (lookup_sortMembers codes h k)

end ReadBack

/-! ## Records as a chain -/

/-- Texts that are signed. -/
abbrev Signed := { t : Text // WellFormed t }

section Chain

variable {N} {norm : ν → Option ν} (hN : N.Lawful norm)

/-- The text that is signed for a record. -/
def signed (rec : Members ν) : Signed :=
  ⟨canonicalJson N (.obj (signingPayload rec)), hN.wellFormed_unitsCodec false _⟩

/-- A record, as the text that is signed for it and its signature. -/
def entry (rec : Members ν) : Entry Signed (Doc ν) :=
  ⟨signed hN rec, (lookup (utf16 "sig") rec).getD .null⟩

variable (N)

/-- The chain of a ledger with the key `key`. -/
def scheme (hmac : Hmac) (key : String) : Scheme Signed (Doc ν) where
  genesis := .str []
  link t := match Json.parse N.reader t.1 with
    | some (.obj payload) => (lookup (utf16 "prev_sig") payload).getD .null
    | _ => .null
  sign t := .str (utf16 (hmac (utf8 key.toList) (encodeUnits t.1)))

variable {N} {hmac : Hmac} {key : String}

theorem sign_injective (hideal : hmac.Ideal (utf8 key.toList)) :
    Function.Injective (scheme N hmac key).sign := by
  intro t t' h
  have hbytes := hideal.injective (utf16_injective (Json.str.inj h))
  exact Subtype.ext (encodeUnits_inj t.2 t'.2 hbytes)

theorem sign_ne_genesis (hideal : hmac.Ideal (utf8 key.toList)) (t : Signed) :
    (scheme N hmac key).sign t ≠ (scheme N hmac key).genesis := by
  intro h
  have hempty : utf16 (hmac (utf8 key.toList) (encodeUnits t.1)) = utf16 "" := Json.str.inj h
  exact hideal.ne_empty _ (utf16_injective hempty)

/-- The text that is signed says the `prev_sig` of the record. -/
theorem link_signed {rec : Members ν} {s : Units}
    (h : lookup (utf16 "prev_sig") rec = some (.str s)) :
    (scheme N hmac key).link (signed hN rec) = .str s := by
  have hparse : Json.parse N.reader (signed hN rec).1 =
      some (readBack norm (sortKeys (.obj (signingPayload rec)))) :=
    hN.unitsCodec.parse_render false _
  have hnodup : (((signingPayload rec).map fun m => (m.1, sortKeys m.2)).map Prod.fst).Nodup := by
    rw [List.map_map]
    exact nodup_signingPayload rec
  have hlookup : lookup (utf16 "prev_sig")
      ((reassigned ((signingPayload rec).map fun m => (m.1, sortKeys m.2))).map
        fun m => (m.1, readBack norm m.2)) = some (.str s) := by
    rw [lookup_map, lookup_reassigned hnodup (by decide), lookup_map,
      lookup_signingPayload rec (by decide), h]
    rfl
  rw [scheme]
  dsimp only
  rw [hparse, sortKeys_obj, readBack_obj]
  dsimp only
  rw [hlookup]
  rfl

theorem link_entry {rec : Members ν} {s : Units}
    (h : lookup (utf16 "prev_sig") rec = some (.str s)) :
    (scheme N hmac key).link (entry hN rec).payload = .str s := link_signed hN h

theorem tag_entry {rec : Members ν} {s : Units} (h : lookup (utf16 "sig") rec = some (.str s)) :
    (entry hN rec).tag = .str s := by
  rw [entry, h]
  rfl

end Chain

/-! ## The records that are written -/

/-- A record that links to a signature and has one. -/
structure Linked (rec : Members ν) : Prop where
  prevSig : ∃ s, lookup (utf16 "prev_sig") rec = some (.str s)
  sig : ∃ s, lookup (utf16 "sig") rec = some (.str s)

section Records

variable {N} {hmac : Hmac} {norm : ν → Option ν} (L : AuditLedger ν) (now : Units)
  (input : AuditRecordInput ν)

theorem lookup_unsigned (L : AuditLedger ν) (now : Units) (input : AuditRecordInput ν) :
    lookup (utf16 "prev_sig") (L.unsigned now input) = some L.lastSig ∧
      lookup (utf16 "sig") (L.unsigned now input) = none := by
  rw [AuditLedger.unsigned]
  cases input.confidence <;> cases input.rationale <;> simp [lookup_cons]

theorem lookup_record_of_ne {k : String} (hk : k ≠ "sig") :
    lookup (utf16 k) (L.record N hmac now input) = lookup (utf16 k) (L.unsigned now input) := by
  rw [AuditLedger.record, lookup_append, lookup_cons, if_neg (utf16_injective.ne hk), lookup_nil,
    Option.or_none]

theorem lookup_sig_record :
    lookup (utf16 "sig") (L.record N hmac now input) =
      some (.str (sign N hmac L.key (L.unsigned now input))) := by
  rw [AuditLedger.record, lookup_append, (lookup_unsigned L now input).2, lookup_cons, if_pos rfl]
  rfl

/-- The record of a ledger is an object, as far as its values are. -/
theorem own_record {s : Units} (hL : L.lastSig = .str s) :
    (Json.obj (L.record N hmac now input)).Within (fun _ => True) OwnKeys := by
  have hkeys : ((L.record N hmac now input).map Prod.fst).Sublist
      (["ts", "event", "actor", "inputs", "sources", "confidence", "rationale", "prev_sig",
        "sig"].map utf16) := by
    rw [AuditLedger.record, AuditLedger.unsigned]
    cases input.confidence <;> cases input.rationale <;> simp
  rw [within_obj]
  refine ⟨⟨?_, ?_⟩, fun m hm => ⟨trivial, ?_⟩⟩
  · exact hkeys.nodup ((List.nodup_map_iff utf16_injective).2 (by decide))
  · exact List.Pairwise.sublist hkeys (by decide +kernel)
  · rw [AuditLedger.record, AuditLedger.unsigned, hL] at hm
    simp only [List.mem_append, List.mem_cons, List.not_mem_nil, or_false] at hm
    rcases hm with ((((rfl | rfl | rfl | rfl | rfl) | hm) | hm) | rfl) | rfl
    · trivial
    · trivial
    · trivial
    · exact input.inputs.own
    · exact input.sources.own
    · split at hm
      · rw [List.mem_singleton.1 hm]
        trivial
      · exact absurd hm List.not_mem_nil
    · split at hm
      · rw [List.mem_singleton.1 hm]
        trivial
      · exact absurd hm List.not_mem_nil
    · trivial
    · trivial

/-- The record as it is read back. -/
def stored (norm : ν → Option ν) (rec : Members ν) : Members ν :=
  rec.map fun m => (m.1, readBack norm m.2)

theorem lookup_stored (rec : Members ν) (k : Units) :
    lookup k (stored norm rec) = (lookup k rec).map (readBack norm) := lookup_map k _ rec

theorem linked_stored {s : Units} (hL : L.lastSig = .str s) :
    Linked (stored norm (L.record N hmac now input)) where
  prevSig := by
    refine ⟨s, ?_⟩
    rw [lookup_stored, lookup_record_of_ne L now input (by decide), (lookup_unsigned L now input).1,
      hL]
    rfl
  sig := ⟨_, by rw [lookup_stored, lookup_sig_record]; rfl⟩

/-- A record is read back with the payload and the signature that were signed. -/
theorem entry_stored (hN : N.Lawful norm) (hrep : N.Reprints norm) :
    entry hN (stored norm (L.record N hmac now input)) =
      (scheme N hmac L.key).entry (signed hN (L.unsigned now input)) := by
  have hsame : signingPayload (L.record N hmac now input) =
      signingPayload (L.unsigned now input) := by
    refine signingPayload_congr fun k hk => lookup_record_of_ne L now input ?_
    rintro rfl
    exact absurd hk (by decide)
  refine Entry.ext (Subtype.ext ?_) ?_
  · show canonicalJson N (.obj (signingPayload (stored norm _))) = _
    rw [stored, signingPayload_map, hsame, ← readBack_obj, canonicalJson_readBack hrep]
    rfl
  · show (lookup (utf16 "sig") (stored norm _)).getD .null = _
    rw [lookup_stored, lookup_sig_record]
    rfl

end Records

/-! ## The file -/

section File

variable {N} {hmac : Hmac} {norm : ν → Option ν}

theorem loadLines_append (as bs : List Text) :
    loadLines N (as ++ bs) = (do
      let xs ← loadLines N as
      let ys ← loadLines N bs
      return xs ++ ys) := by
  induction as with
  | nil =>
    show loadLines N bs = (loadLines N bs >>= fun ys => pure ([] ++ ys))
    cases loadLines N bs <;> rfl
  | cons a as ih =>
    rw [List.cons_append, loadLines, loadLines]
    generalize (if a.getLast?.any isNewline then a.dropLast else a) = l
    split_ifs
    · exact ih
    · cases parse N l with
      | error e => rfl
      | ok v =>
        rw [ih]
        cases loadLines N as with
        | error e => rfl
        | ok xs => cases loadLines N bs <;> rfl

/-- The file gives these records, and whatever comes next begins a new line. -/
structure Holds (N : Numerals ν) (file : Option Text) (recs : List (Members ν)) : Prop where
  read : readRecords N file = .ok (recs.map .obj)
  terminated : Terminated isNewline (file.getD [])
  linked : ∀ rec ∈ recs, Linked rec

theorem holds_none : Holds N none [] :=
  ⟨rfl, terminated_nil, fun _ h => absurd h List.not_mem_nil⟩

/-- The line of a record is read as that record. -/
theorem loadLines_line (hN : N.Lawful norm) {rec : Members ν}
    (h : (Json.obj rec).Within (fun _ => True) OwnKeys) :
    loadLines N (splitInclusive isNewline (stringify N (.obj rec) ++ [0x0A])) =
      .ok [.obj (stored norm rec)] := by
  have hline : ∀ c ∈ stringify N (.obj rec), isNewline c = false := by
    intro c hc
    have hge : ∀ c ∈ stringify N (.obj rec), 0x20 ≤ c :=
      forall_mem_render (fun _ _ => mem_quoteUnits) (fun n c hc => (hN.printable n c hc).1)
        (by decide) _
    have := hge c hc
    exact beq_false_of_ne (by omega)
  have hblank : isBlank isSpace (stringify N (.obj rec)) = false := by
    rw [stringify, render_obj]
    exact isBlank_cons (by decide)
  have hlast : (stringify N (.obj rec) ++ [0x0A]).getLast?.any isNewline = true := by
    rw [List.getLast?_concat]
    rfl
  rw [splitInclusive_line hline (by decide), loadLines, if_pos hlast, List.dropLast_concat, hblank,
    if_neg Bool.false_ne_true, parse_stringify hN h, readBack_obj]
  rfl

theorem Holds.append_line (hN : N.Lawful norm) {file : Option Text} {recs : List (Members ν)}
    (h : Holds N file recs) {rec : Members ν} (hown : (Json.obj rec).Within (fun _ => True) OwnKeys)
    (hlinked : Linked (stored norm rec)) :
    Holds N (some (file.getD [] ++ (stringify N (.obj rec) ++ [0x0A])))
      (recs ++ [stored norm rec]) := by
  have hread : loadLines N (splitInclusive isNewline (file.getD [])) = .ok (recs.map .obj) := h.read
  refine ⟨?_, ?_, ?_⟩
  · rw [readRecords, parseLines, Option.getD_some, splitInclusive_append h.terminated,
      loadLines_append, hread, loadLines_line hN hown, List.map_append]
    rfl
  · exact terminated_append h.terminated (terminated_concat (by decide))
  · intro rec' hrec'
    rcases List.mem_append.1 hrec' with hrec' | hrec'
    · exact h.linked rec' hrec'
    · exact List.mem_singleton.1 hrec' ▸ hlinked

theorem Holds.append (hN : N.Lawful norm) {file : Option Text} {recs : List (Members ν)}
    (h : Holds N file recs) {L : AuditLedger ν} {s : Units} (hL : L.lastSig = .str s) (now : Units)
    (input : AuditRecordInput ν) :
    Holds N (some (file.getD [] ++ (stringify N (.obj (L.record N hmac now input)) ++ [0x0A])))
      (recs ++ [stored norm (L.record N hmac now input)]) :=
  h.append_line hN (own_record L now input hL) (linked_stored L now input hL)

/-- The walk over linked records finds nothing exactly when they are a chain. -/
theorem walk_eq_none_iff [DecidableEq ν] (hN : N.Lawful norm) (hmac : Hmac) (key : String) (i : ℕ)
    {s : Units}
    {recs : List (Members ν)} (h : ∀ rec ∈ recs, Linked rec) :
    ∃ result, walk N hmac key i (.str s) (recs.map .obj) = .ok result ∧
      (result = none ∨ ∃ j reason, result = some (.tampered j reason)) ∧
      (result = none ↔ (scheme N hmac key).Chained (.str s) (recs.map (entry hN))) := by
  induction recs generalizing i s with
  | nil => exact ⟨none, rfl, .inl rfl, iff_of_true rfl trivial⟩
  | cons rec recs ih =>
    obtain ⟨⟨p, hp⟩, ⟨t, ht⟩⟩ := h rec (by simp)
    have hlink : (scheme N hmac key).link (entry hN rec).payload = .str p := link_entry hN hp
    have htag : (entry hN rec).tag = .str t := tag_entry hN ht
    have hsign : (scheme N hmac key).sign (entry hN rec).payload = .str (sign N hmac key rec) := rfl
    have hwalk : walk N hmac key i (.str s) ((rec :: recs).map .obj) =
        if some (.str p : Doc ν) ≠ some (.str s) then
          .ok (some (.tampered i s!"prev_sig mismatch: chain broken at line {i}"))
        else if some (.str (sign N hmac key rec) : Doc ν) ≠ some (.str t) then
          .ok (some (.tampered i s!"signature mismatch at line {i}"))
        else walk N hmac key (i + 1) (.str (sign N hmac key rec)) (recs.map .obj) := by
      have hproperty : property "prev_sig" (.obj rec) = .ok (some (.str p)) := congrArg _ hp
      rw [List.map_cons, walk, hproperty, ht]
      rfl
    rw [hwalk, List.map_cons, Scheme.chained_cons, hlink, hsign, htag]
    simp only [ne_eq, Option.some.injEq, Json.str.injEq, ite_not]
    by_cases hprev : p = s
    · by_cases hsig : sign N hmac key rec = t
      · obtain ⟨result, hrest, hresult, hchained⟩ :=
          ih (i + 1) (s := sign N hmac key rec) fun r hr => h r (by simp [hr])
        refine ⟨result, ?_, hresult, ?_⟩
        · rw [if_pos hprev, if_pos hsig, hrest]
        · rw [hchained]
          simp [hprev, hsig]
      · refine ⟨_, by rw [if_pos hprev, if_neg hsig], .inr ⟨_, _, rfl⟩, ?_⟩
        simp [hsig]
    · refine ⟨_, by rw [if_neg hprev], .inr ⟨_, _, rfl⟩, ?_⟩
      simp [hprev]

/-- The file verifies with all its records, or with a failure. -/
theorem Holds.verify [DecidableEq ν] (hN : N.Lawful norm) {file : Option Text}
    {recs : List (Members ν)} (h : Holds N file recs) (hmac : Hmac) (key : String) :
    ∃ result, verifyLedger N hmac file key = .ok result ∧
      (result = .ok recs.length ↔
        (scheme N hmac key).Chained (.str []) (recs.map (entry hN))) := by
  obtain ⟨result, hwalk, hcases, hchained⟩ := walk_eq_none_iff hN hmac key 0 (s := []) h.linked
  rw [verifyLedger, h.read]
  dsimp only [bind, Except.bind]
  rw [hwalk, ← hchained]
  rcases hcases with rfl | ⟨i, reason, rfl⟩
  · exact ⟨_, rfl, iff_of_true (by rw [List.length_map]) rfl⟩
  · exact ⟨_, rfl, iff_of_false (fun h => by cases h) fun h => by cases h⟩

end File

end Resilience.TypeScript
