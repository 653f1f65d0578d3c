import Resilience.Python.Objects
import Resilience.Python.Verify

/-!
# Runs of the audit ledger

One `AuditLedger` on a file that is absent at first, and the calls of `append` that return, with any
values that `json.dumps` takes. `append` signs what the caller passed and `verify` what it reads
back, so whether `verify` accepts the file is decided value by value (`verify_of_appends`): an
append whose values have keys in another order than their texts leaves a line that never verifies.
-/

namespace Resilience.Python

open Json

variable {ν : Type}

/-! ## The file -/

/-- A record that can be verified, and linked to. -/
structure Readable (r : Items ν) : Prop where
  fields : HasFields r
  sig : ∃ s, lookup (utf16 "sig") r = some (.str s)

/-- The file consists of one line for each of these records, of which the record is read. -/
structure Holds (N : Numerals ν) (file : Option Text) (rs : List (Items ν)) : Prop where
  lines : ∃ ls : List Text, file.getD [] = unlines ls ∧ (∀ l ∈ ls, OneLine l) ∧
    ls.map (loads N) = rs.map fun r => .ok (.obj r)
  readable : ∀ r ∈ rs, Readable r

theorem holds_none (N : Numerals ν) : Holds N none [] := ⟨⟨[], rfl, by simp, rfl⟩, by simp⟩

theorem readable_record {N : Numerals ν} {hmac : Hmac} {L : AuditLedger ν}
    (now : Units) (input : AuditRecordInput ν) : Readable (L.record N hmac now input) where
  fields := hasFields_record L now input
  sig := by
    rw [AuditLedger.record, lookup_append, lookup_sig_unsigned, lookup_cons, if_pos rfl]
    exact ⟨_, rfl⟩

namespace Holds

variable {N : Numerals ν} {file : Option Text} {rs : List (Items ν)} (h : Holds N file rs)
include h

theorem read : readRecords N file = .ok (rs.map .obj) := by
  have hfile : readRecords N file = readRecords N (some (file.getD [])) := by cases file <;> rfl
  obtain ⟨ls, hlines, hone, hloads⟩ := h.lines
  have hrecords : recordLines (file.getD []) = ls := by
    rw [hlines]
    refine recordLines_unlines hone fun l hl => ?_
    have hmem : loads N l ∈ rs.map fun r => Except.ok (Json.obj r) :=
      hloads ▸ List.mem_map_of_mem hl
    obtain ⟨r, -, hr⟩ := List.mem_map.1 hmem
    exact isBlank_of_loads hr.symm
  rw [hfile, readRecords_some, hrecords, mapM_eq_ok_iff, hloads, List.map_map]
  rfl

theorem append {line : Text} {r : Items ν} (hline : OneLine line)
    (hload : loads N line = .ok (.obj r)) (hr : Readable r) :
    Holds N (some (file.getD [] ++ (line ++ [0x0A]))) (rs ++ [r]) := by
  constructor
  · obtain ⟨ls, hlines, hone, hloads⟩ := h.lines
    refine ⟨ls ++ [line], ?_, ?_, ?_⟩
    · rw [Option.getD_some, hlines, unlines, unlines, List.flatMap_append, List.flatMap_singleton]
    · exact List.forall_mem_append.2 ⟨hone, List.forall_mem_singleton.2 hline⟩
    · rw [List.map_append, hloads, List.map_append, List.map_singleton, hload, List.map_singleton]
  · intro r' hr'
    rcases List.mem_append.1 hr' with hr' | hr'
    · exact h.readable r' hr'
    · exact List.mem_singleton.1 hr' ▸ hr

theorem lastTag : ∃ s, Resilience.lastTag (.str []) (rs.map entry) = .str s := by
  rw [lastTag_eq, List.getLast?_map, List.getLast?_map]
  cases hlast : rs.getLast? with
  | none => exact ⟨[], rfl⟩
  | some r =>
    obtain ⟨s, hs⟩ := (h.readable r (List.mem_of_getLast? hlast)).sig
    refine ⟨s, ?_⟩
    show get "sig" r = _
    rw [get, hs]
    rfl

theorem init (key : String) :
    AuditLedger.init N file key = .ok ⟨key, Resilience.lastTag (.str []) (rs.map entry)⟩ := by
  have hlast : (rs.map Json.obj).getLast? = rs.getLast?.map .obj := List.getLast?_map
  rw [AuditLedger.init, h.read, lastTag_eq, List.getLast?_map, List.getLast?_map]
  dsimp only [bind, Except.bind]
  rw [hlast]
  cases hr : rs.getLast? with
  | none => rfl
  | some r =>
    obtain ⟨s, hs⟩ := (h.readable r (List.mem_of_getLast? hr)).sig
    have hitem : item "sig" r = .ok (get "sig" r) := by
      rw [item, get, hs]
      rfl
    dsimp only [Option.map_some]
    rw [hitem]
    rfl

/-- The file verifies with all its records, or with none. -/
theorem verify (hmac : Hmac) (key : String) [DecidableEq ν] :
    ∃ result, verifyLedger N hmac file key = .ok result ∧
      (result = { ok := true, count := rs.length } ∨ result.ok = false) ∧
      (result.ok = true ↔ (scheme N hmac key).Chained (.str []) (rs.map entry)) := by
  obtain ⟨result, hwalk, hfails, hchained⟩ :=
    walk_eq_none_iff N hmac key 0 (s := []) fun r hr => (h.readable r hr).fields
  rw [verifyLedger, h.read]
  show ∃ result, verifyRecords N hmac key (rs.map .obj) = .ok result ∧ _
  rw [verifyRecords, hwalk]
  cases result with
  | none =>
    refine ⟨_, rfl, .inl ?_, iff_of_true rfl (hchained.1 rfl)⟩
    rw [List.length_map]
  | some result =>
    have hfalse := hfails result rfl
    refine ⟨result, rfl, .inr hfalse, iff_of_false (by simp [hfalse]) fun hc => ?_⟩
    cases hchained.2 hc

end Holds

/-! ## Appends of any values -/

structure ObjectInput (ν : Type) where
  event : Units
  actor : Units
  inputs : PyValue ν := .none
  sources : PyValue ν := .none
  confidence : Option ν := none
  rationale : Option Units := none
  ts : Option Units := none

/-- The item `k` of a record, unless it is missing or `None`. -/
def optionalObject (k : String) (record : List (Units × Object ν)) : List (Units × Object ν) :=
  match (lookup (utf16 k) record).getD .none with
  | .none => []
  | v => [(utf16 k, v)]

/-- `_signing_payload`. -/
def objectPayload (record : List (Units × Object ν)) :
    Except PyError (List (Units × Object ν)) := do
  let payload ← signedFields.mapM fun k => match lookup (utf16 k) record with
    | some v => .ok (utf16 k, v)
    | none => .error (.keyError k)
  return payload ++ optionalObject "confidence" record ++ optionalObject "rationale" record

/-- `_sign`. -/
def signObject (N : Numerals ν) (hmac : Hmac) (key : String) (record : List (Units × Object ν)) :
    Except PyError Units := do
  let payload ← objectPayload record
  let text ← (Object.ofItems payload).canonicalJson N
  return utf16 (hmac (utf8 key.toList) (encodeUtf8 text))

namespace AuditLedger

variable (N : Numerals ν) (L : AuditLedger ν)

/-- The record before it is signed; `now` is the current time, and an empty `ts` counts as none. -/
def unsignedObject (now : Units) (input : ObjectInput ν) : List (Units × Object ν) :=
  [(utf16 "ts", .str (match input.ts with
      | some (c :: ts) => c :: ts
      | _ => now)),
    (utf16 "event", .str input.event), (utf16 "actor", .str input.actor),
    (utf16 "inputs", input.inputs.object), (utf16 "sources", input.sources.object)] ++
  (match input.confidence with
    | some c => [(utf16 "confidence", .num c)]
    | none => []) ++
  (match input.rationale with
    | some r => [(utf16 "rationale", .str r)]
    | none => []) ++
  [(utf16 "prev_sig", .ofDoc L.lastSig)]

/-- `AuditLedger.append`: the signature, the ledger and the file. -/
def appendObject (hmac : Hmac) (file : Option Text) (now : Units) (input : ObjectInput ν) :
    Except PyError (Units × AuditLedger ν × Option Text) := do
  let record := L.unsignedObject now input
  let sig ← signObject N hmac L.key record
  let record := record ++ [(utf16 "sig", .str sig)]
  return (sig, { L with lastSig := .str sig },
    some (file.getD [] ++ (dumps N (Object.ofItems record).toDoc ++ [0x0A])))

/-- Successive appends, until one raises. -/
def appendAll (hmac : Hmac) :
    AuditLedger ν → Option Text → List (Units × ObjectInput ν) →
      Except PyError (AuditLedger ν × Option Text)
  | L, file, [] => .ok (L, file)
  | L, file, (now, input) :: inputs => do
    let (_, L, file) ← L.appendObject N hmac file now input
    appendAll hmac L file inputs

end AuditLedger

/-- All keys of the values of an append are in the order of their texts. -/
def ObjectInput.Alike (input : ObjectInput ν) : Prop :=
  input.inputs.object.Within Python.Alike ∧ input.sources.object.Within Python.Alike

/-! ## What is signed, and what is read back -/

section Signed

variable {N : Numerals ν} {hmac : Hmac} {L : AuditLedger ν} {s : Units} (hL : L.lastSig = .str s)
  (now : Units) (input : ObjectInput ν)

/-- The payload that is signed. -/
def AuditLedger.payload (L : AuditLedger ν) (now : Units) (input : ObjectInput ν) :
    List (Units × Object ν) :=
  let record := L.unsignedObject now input
  (signedFields.map fun k => (utf16 k, (lookup (utf16 k) record).getD .none)) ++
    optionalObject "confidence" record ++ optionalObject "rationale" record

theorem lookup_unsignedObject :
    lookup (utf16 "confidence") (L.unsignedObject now input) = input.confidence.map .num ∧
      lookup (utf16 "rationale") (L.unsignedObject now input) = input.rationale.map .str ∧
      lookup (utf16 "sig") (L.unsignedObject now input) = none := by
  rw [AuditLedger.unsignedObject]
  cases input.confidence <;> cases input.rationale <;> simp [lookup_cons]

theorem lookup_unsignedObject_signed {k : String} (hk : k ∈ signedFields) :
    ∃ v, lookup (utf16 k) (L.unsignedObject now input) = some v := by
  rw [AuditLedger.unsignedObject]
  simp only [signedFields, List.mem_cons, List.not_mem_nil, or_false] at hk
  cases input.confidence <;> cases input.rationale <;>
    rcases hk with rfl | rfl | rfl | rfl | rfl | rfl <;> simp [lookup_cons]

theorem objectPayload_unsigned :
    objectPayload (L.unsignedObject now input) = .ok (L.payload now input) := by
  have hmapM : (signedFields.mapM fun k => match lookup (utf16 k) (L.unsignedObject now input) with
      | some v => (.ok (utf16 k, v) : Except PyError (Units × Object ν))
      | none => .error (.keyError k)) = .ok (signedFields.map fun k =>
        (utf16 k, (lookup (utf16 k) (L.unsignedObject now input)).getD .none)) := by
    rw [mapM_eq_ok_iff, List.map_map]
    refine List.map_congr_left fun k hk => ?_
    obtain ⟨v, hv⟩ := lookup_unsignedObject_signed (L := L) now input hk
    rw [hv]
    exact congrArg (fun v => Except.ok (utf16 k, v)) (congrArg (·.getD .none) hv).symm
  rw [objectPayload, hmapM]
  rfl

theorem payload_perm : (L.payload now input).Perm (L.unsignedObject now input) := by
  obtain ⟨hconfidence, hrationale, -⟩ := lookup_unsignedObject (L := L) now input
  rw [AuditLedger.payload, optionalObject, optionalObject, hconfidence, hrationale]
  rw [AuditLedger.unsignedObject]
  cases input.confidence with
  | none =>
    cases input.rationale with
    | none => simp [signedFields, lookup_cons]
    | some r => simp [signedFields, lookup_cons, List.Perm.swap]
  | some c =>
    cases input.rationale with
    | none => simp [signedFields, lookup_cons, List.Perm.swap]
    | some r =>
      refine .append_left [_, _, _, _, _] ?_
      show ([_] ++ [_, _]).Perm ([_, _] ++ [_])
      exact List.perm_append_comm

theorem nodup_unsignedObject : ((L.unsignedObject now input).map Prod.fst).Nodup ∧
    utf16 "sig" ∉ (L.unsignedObject now input).map Prod.fst := by
  have hkeys : ((L.unsignedObject now input).map Prod.fst).Sublist
      (["ts", "event", "actor", "inputs", "sources", "confidence", "rationale", "prev_sig"].map
        utf16) := by
    rw [AuditLedger.unsignedObject]
    cases input.confidence <;> cases input.rationale <;> simp
  refine ⟨hkeys.nodup ((List.nodup_map_iff utf16_injective).2 (by decide)), fun hmem => ?_⟩
  exact absurd (hkeys.subset hmem) (by simp)

include hL

/-- The values of a record are those of the caller, apart from numbers and strings. -/
theorem forall_unsignedObject {p : Object ν → Prop} (hnum : ∀ n, p (.num n))
    (hstr : ∀ s, p (.str s)) :
    (∀ m ∈ L.unsignedObject now input, p m.2) ↔ p input.inputs.object ∧ p input.sources.object := by
  rw [AuditLedger.unsignedObject, hL]
  cases input.confidence <;> cases input.rationale <;> simp [hnum, hstr]

/-- The keys of a record, or of its payload, satisfy `p` when those of the caller's values do. -/
theorem within_payload {p : List Key → Prop}
    (hkeys : ∀ ks : List Units, ks.Nodup → p (ks.map fun k => .str (decodeUtf16 k))) :
    (Object.ofItems (L.payload now input)).Within p ↔
      input.inputs.object.Within p ∧ input.sources.object.Within p := by
  have hvalues := forall_unsignedObject hL now input (p := Object.Within p) (fun _ => trivial)
    fun _ => trivial
  have hperm := payload_perm (L := L) now input
  rw [Object.within_ofItems, ← hvalues]
  refine (and_iff_right (hkeys _ ?_)).trans (forall_congr' fun m => ?_)
  · exact (hperm.map Prod.fst).nodup_iff.2 (nodup_unsignedObject now input).1
  · rw [hperm.mem_iff]

omit hL

/-- What is read back of the record. -/
def AuditLedger.objectRecord (L : AuditLedger ν) (now : Units) (input : ObjectInput ν)
    (sig : Units) : Items ν :=
  let record := L.unsignedObject now input ++ [(utf16 "sig", .str sig)]
  record.map fun m => (m.1, m.2.loaded)

theorem loads_objectRecord (hN : N.Lawful some) (sig : Units) :
    loads N (dumps N (Object.ofItems
        (L.unsignedObject now input ++ [(utf16 "sig", .str sig)])).toDoc) =
      .ok (.obj (L.objectRecord now input sig)) := by
  obtain ⟨hnodup, hsig⟩ := nodup_unsignedObject (L := L) now input
  rw [dumps, loads_render hN, AuditLedger.objectRecord, ← Object.loaded_ofItems]
  · rfl
  · rw [List.map_append]
    exact hnodup.append (List.nodup_singleton _) (List.disjoint_singleton.2 hsig)

theorem get_loaded (k : String) (record : List (Units × Object ν)) :
    get k (record.map fun m => (m.1, m.2.loaded)) =
      ((lookup (utf16 k) record).getD .none).loaded := by
  rw [get, lookup_map]
  cases lookup (utf16 k) record <;> rfl

theorem loaded_eq_null {v : Object ν} : v.loaded = .null ↔ v = .none := by
  cases v with
  | none => exact iff_of_true rfl rfl
  | list xs => simp [Object.loaded_list]
  | tuple xs => simp [Object.loaded_tuple]
  | dict items => simp [Object.loaded_dict]
  | _ => exact iff_of_false (fun h => by cases h) fun h => by cases h

theorem optionalItem_loaded (k : String) (record : List (Units × Object ν)) :
    optionalItem k (record.map fun m => (m.1, m.2.loaded)) =
      (optionalObject k record).map fun m => (m.1, m.2.loaded) := by
  have hget := get_loaded k record
  rw [optionalItem, optionalObject]
  split
  · rename_i hnull
    rw [hnull, eq_comm, loaded_eq_null] at hget
    rw [hget]
    rfl
  · rename_i hnull
    split
    · rename_i hnone
      rw [hnone] at hget
      exact absurd hget hnull
    · rw [hget]
      rfl

/-- What is signed is the payload of what is read back, apart from the order of items. -/
theorem payloadOf_objectRecord (sig : Units) :
    payloadOf (L.objectRecord now input sig) =
      (L.payload now input).map fun m => (m.1, m.2.loaded) := by
  have hlookup : ∀ k ∈ payloadFields,
      lookup (utf16 k) (L.unsignedObject now input ++ [(utf16 "sig", .str sig)]) =
        lookup (utf16 k) (L.unsignedObject now input) := by
    intro k hk
    have hne : k ≠ "sig" := by
      rintro rfl
      exact absurd hk (by decide)
    rw [lookup_append, lookup_cons, if_neg (utf16_injective.ne hne), lookup_nil, Option.or_none]
  have hsigned : ∀ k ∈ signedFields, get k (L.objectRecord now input sig) =
      ((lookup (utf16 k) (L.unsignedObject now input)).getD .none).loaded := by
    intro k hk
    rw [AuditLedger.objectRecord, get_loaded, hlookup k (by simp [payloadFields, hk])]
  rw [payloadOf, AuditLedger.payload, List.map_append, List.map_append, List.map_map,
    List.map_congr_left fun k hk => congrArg (utf16 k, ·) (hsigned k hk),
    AuditLedger.objectRecord, optionalItem_loaded, optionalItem_loaded, optionalObject,
    optionalObject, hlookup "confidence" (by decide), hlookup "rationale" (by decide)]
  rfl

theorem readable_objectRecord (sig : Units) : Readable (L.objectRecord now input sig) where
  fields := by
    intro k hk
    obtain ⟨v, hv⟩ := lookup_unsignedObject_signed (L := L) now input hk
    rw [AuditLedger.objectRecord, lookup_map, lookup_append, hv]
    rfl
  sig := by
    refine ⟨sig, ?_⟩
    rw [AuditLedger.objectRecord, lookup_map, lookup_append, (lookup_unsignedObject now input).2.2,
      lookup_cons, if_pos rfl]
    rfl

/-- The signature that `append` computes. -/
def AuditLedger.objectSig (N : Numerals ν) (hmac : Hmac) (L : AuditLedger ν) (now : Units)
    (input : ObjectInput ν) : Units :=
  utf16 (hmac (utf8 L.key.toList)
    (encodeUtf8 (render N.asciiCodec false (Object.ofItems (L.payload now input)).sorted)))

/-- `append` returns exactly when all keys compare. -/
theorem appendObject_eq_ok_iff (file : Option Text) (sig : Units) (L' : AuditLedger ν)
    (file' : Option Text) :
    L.appendObject N hmac file now input = .ok (sig, L', file') ↔
      (Object.ofItems (L.payload now input)).Within Comparable ∧
        sig = L.objectSig N hmac now input ∧ L' = { L with lastSig := .str sig } ∧
        file' = some (file.getD [] ++ (dumps N (Object.ofItems
          (L.unsignedObject now input ++ [(utf16 "sig", .str sig)])).toDoc ++ [0x0A])) := by
  have hsorted := Object.sortedDoc_eq_ok_iff (v := Object.ofItems (L.payload now input))
  rw [AuditLedger.appendObject, signObject, objectPayload_unsigned]
  dsimp only [bind, Except.bind]
  rw [Object.canonicalJson]
  cases hdoc : (Object.ofItems (L.payload now input)).sortedDoc with
  | error e =>
    refine iff_of_false (fun h => by cases h) fun h => ?_
    rw [(hsorted _).2 ⟨h.1, rfl⟩] at hdoc
    cases hdoc
  | ok d =>
    obtain ⟨hcomparable, rfl⟩ := (hsorted d).1 hdoc
    show Except.ok (_, _, _) = .ok _ ↔ _
    rw [Except.ok.injEq, Prod.mk.injEq, Prod.mk.injEq, and_iff_right hcomparable]
    constructor
    · rintro ⟨rfl, rfl, rfl⟩
      exact ⟨rfl, rfl, rfl⟩
    · rintro ⟨rfl, rfl, rfl⟩
      exact ⟨rfl, rfl, rfl⟩

/-- What is read back of a record links to the signature before it, and has the right signature
exactly when all keys are in the order of their texts. -/
theorem entry_objectRecord (hN : N.Lawful some) (hideal : hmac.Ideal (utf8 L.key.toList))
    (hL : L.lastSig = .str s)
    (hcomparable : (Object.ofItems (L.payload now input)).Within Comparable) :
    let e := entry (L.objectRecord now input (L.objectSig N hmac now input))
    (scheme N hmac L.key).link e.payload = .str s ∧ e.tag = .str (L.objectSig N hmac now input) ∧
      ((scheme N hmac L.key).sign e.payload = e.tag ↔ input.Alike) := by
  have hpayload := payloadOf_objectRecord (L := L) now input (L.objectSig N hmac now input)
  have htag : get "sig" (L.objectRecord now input (L.objectSig N hmac now input)) =
      .str (L.objectSig N hmac now input) := by
    rw [AuditLedger.objectRecord, get_loaded, lookup_append, (lookup_unsignedObject now input).2.2,
      lookup_cons, if_pos rfl]
    rfl
  have hprev : get "prev_sig" (L.objectRecord now input (L.objectSig N hmac now input)) =
      .str s := by
    rw [AuditLedger.objectRecord, get_loaded, AuditLedger.unsignedObject, hL]
    cases input.confidence <;> cases input.rationale <;> simp [lookup_cons] <;> rfl
  refine ⟨?_, htag, ?_⟩
  · refine (link_canonical N hmac L.key _).trans ?_
    rw [hprev]
    rfl
  · have hdistinct := (within_payload hL now input fun _ => distinctKeys_decodeUtf16).2
      ⟨input.inputs.distinct, input.sources.distinct⟩
    have hkeys : ((L.payload now input).map Prod.fst).Nodup :=
      ((payload_perm now input).map Prod.fst).nodup_iff.2 (nodup_unsignedObject now input).1
    have hsig : Json.str (L.objectSig N hmac now input) =
        (scheme N hmac L.key).sign (Object.ofItems (L.payload now input)).sorted := rfl
    show (scheme N hmac L.key).sign (canonical (payloadOf _)) = get "sig" _ ↔ _
    rw [htag, hsig, (sign_injective hN hideal).eq_iff, canonical, hpayload,
      ← Object.loaded_ofItems hkeys, Object.sortKeys_loaded_eq_iff hdistinct hcomparable]
    exact within_payload hL now input fun ks _ => alike_decodeUtf16 ks

end Signed

/-- Values whose keys are in the order of their texts are appended. -/
theorem exists_appendAll (file : Option Text) {inputs : List (Units × ObjectInput ν)}
    (h : ∀ p ∈ inputs, p.2.Alike) (key : String) (s : Units) : ∃ L' file',
      AuditLedger.appendAll N hmac ⟨key, .str s⟩ file inputs = .ok (L', file') := by
  induction inputs generalizing file s with
  | nil => exact ⟨_, _, rfl⟩
  | cons p inputs ih =>
    obtain ⟨now, input⟩ := p
    obtain ⟨halike, hrest⟩ := List.forall_mem_cons.1 h
    have hcomparable : (Object.ofItems
        (AuditLedger.payload ⟨key, .str s⟩ now input)).Within Comparable := by
      refine (within_payload rfl now input fun ks _ => (alike_decodeUtf16 ks).1).2 ?_
      exact ⟨halike.1.mono fun _ h => h.1, halike.2.mono fun _ h => h.1⟩
    rw [AuditLedger.appendAll,
      (appendObject_eq_ok_iff now input file _ _ _).2 ⟨hcomparable, rfl, rfl, rfl⟩]
    exact ih _ hrest _

/-! ## Runs -/

section Runs

variable {N : Numerals ν} (hN : N.Lawful some) {hmac : Hmac} {key : String}
  (hideal : hmac.Ideal (utf8 key.toList))
include hN hideal

/-- Successive appends add one record each. These extend the chain exactly when all keys are in the
order of their texts. -/
theorem holds_appendAll {s : Units} {file : Option Text} {rs : List (Items ν)}
    (h : Holds N file rs) (hs : lastTag (.str []) (rs.map entry) = .str s)
    (inputs : List (Units × ObjectInput ν)) {L' : AuditLedger ν} {file' : Option Text}
    (hrun : AuditLedger.appendAll N hmac ⟨key, .str s⟩ file inputs = .ok (L', file')) :
    ∃ rs', Holds N file' rs' ∧ rs'.length = rs.length + inputs.length ∧
      ((scheme N hmac key).Chained (.str []) (rs'.map entry) ↔
        (scheme N hmac key).Chained (.str []) (rs.map entry) ∧ ∀ p ∈ inputs, p.2.Alike) := by
  induction inputs generalizing s file rs with
  | nil =>
    obtain ⟨rfl, rfl⟩ := Prod.mk.inj (Except.ok.inj hrun)
    exact ⟨rs, h, rfl, by simp⟩
  | cons p inputs ih =>
    obtain ⟨now, input⟩ := p
    rw [AuditLedger.appendAll] at hrun
    cases hstep : AuditLedger.appendObject N ⟨key, .str s⟩ hmac file now input with
    | error e =>
      rw [hstep] at hrun
      cases hrun
    | ok result =>
      obtain ⟨sig, L₁, file₁⟩ := result
      rw [hstep] at hrun
      obtain ⟨hcomparable, rfl, rfl, rfl⟩ := (appendObject_eq_ok_iff now input _ _ _ _).1 hstep
      obtain ⟨hlink, htag, hsign⟩ :=
        entry_objectRecord now input hN (L := ⟨key, .str s⟩) hideal rfl hcomparable
      have hread := h.append (oneLine_dumps hN _) (loads_objectRecord (L := ⟨key, .str s⟩) now input
        hN (AuditLedger.objectSig N hmac ⟨key, .str s⟩ now input))
        (readable_objectRecord now input _)
      obtain ⟨rs', hholds, hlen, hchained⟩ := ih hread (by
        rw [List.map_append]
        exact (lastTag_concat ..).trans htag) hrun
      refine ⟨rs', hholds, ?_, hchained.trans ?_⟩
      · rw [hlen, List.length_append, List.length_singleton, List.length_cons]
        omega
      · rw [List.map_append, List.map_singleton,
          Scheme.chained_concat_of_link (hlink.trans hs.symm), hsign, List.forall_mem_cons,
          and_assoc]

end Runs

/-- **What `append` accepts, and `verify` does not.** A value that a caller passes is signed like
what is read back for it exactly when in every dictionary, at any depth, the keys compare and are in
the order of their texts. The file of any appends that return on one ledger verifies, with their
number, exactly when this is so for all their values. -/
theorem verify_of_appends [DecidableEq ν] (N : Numerals ν) (hN : N.Lawful some) (hmac : Hmac)
    (key : String) (hideal : hmac.Ideal (utf8 key.toList)) :
    (∀ v : PyValue ν, v.object.canonicalJson N =
        (loads N (dumps N v.object.toDoc)).map (canonicalJson N) ↔ v.object.Within Alike) ∧
      ∀ inputs L file, AuditLedger.appendAll N hmac ⟨key, .str []⟩ none inputs = .ok (L, file) →
        (verifyLedger N hmac file key = .ok { ok := true, count := inputs.length } ↔
          ∀ p ∈ inputs, p.2.Alike) := by
  refine ⟨canonicalJson_loads_iff hN, fun inputs L file hrun => ?_⟩
  obtain ⟨rs, hholds, hlen, hchained⟩ := holds_appendAll hN hideal (holds_none N) rfl inputs hrun
  obtain ⟨result, hverify, hcases, hok⟩ := hholds.verify hmac key
  have hiff : result.ok = true ↔ ∀ p ∈ inputs, p.2.Alike :=
    hok.trans (hchained.trans (and_iff_right trivial))
  rw [hverify, Except.ok.injEq, ← hiff]
  rw [List.length_nil, Nat.zero_add] at hlen
  rcases hcases with rfl | hfalse
  · rw [hlen]
    exact iff_of_true rfl rfl
  · refine iff_of_false ?_ (by simp [hfalse])
    rintro rfl
    cases hfalse

/-- A dictionary with the keys `2` and `10`, in this order. -/
def sampleCounts : PyValue ℤ where
  object := .dict [(.int 2, .none), (.int 10, .none)]
  distinct := by
    rw [Object.within_dict]
    refine ⟨by decide +kernel, fun m hm => ?_⟩
    simp only [List.mem_cons, List.not_mem_nil, or_false] at hm
    rcases hm with rfl | rfl <;> trivial

def sampleCall : Units × ObjectInput ℤ :=
  (utf16 "t", { event := utf16 "e", actor := utf16 "a", inputs := sampleCounts })

/-- A dictionary of lists of dictionaries, whose keys are in the order of their texts. -/
def sampleNested : Object ℤ :=
  .dict [(.int 3, .none), (.int 2, .list [.dict [(.str (codePoints "b"), .num 1),
    (.str (codePoints "a"), .num 2)]])]

theorem within_sampleNested {p : List Key → Prop} (hint : p [.int 3, .int 2])
    (hstr : p [.str (codePoints "b"), .str (codePoints "a")]) : sampleNested.Within p := by
  refine (Object.within_dict _).2 ⟨hint, List.forall_mem_cons.2 ⟨trivial, ?_⟩⟩
  refine List.forall_mem_singleton.2 ((Object.within_list _).2 (List.forall_mem_singleton.2 ?_))
  exact (Object.within_dict _).2 ⟨hstr, by simp [Object.Within, Object.fold]⟩

/-- An append of values whose dictionaries have numbers and strings as keys. -/
theorem verify_of_appends_nested :
    ∃ (v : PyValue ℤ) (L : AuditLedger ℤ) (file : Option Text), v.object = sampleNested ∧
      AuditLedger.appendAll Numerals.integers Hmac.sample ⟨"k", .str []⟩ none
        [(utf16 "t", { event := utf16 "e", actor := utf16 "a", inputs := v }),
          (utf16 "u", { event := utf16 "f", actor := utf16 "a", sources := v })] = .ok (L, file) ∧
      verifyLedger Numerals.integers Hmac.sample file "k" = .ok { ok := true, count := 2 } := by
  let v : PyValue ℤ := ⟨sampleNested, within_sampleNested (by decide +kernel) (by decide +kernel)⟩
  have halike : v.object.Within Alike :=
    within_sampleNested (by decide +kernel) (by decide +kernel)
  have hinputs : ∀ p ∈ [(utf16 "t", ({ event := utf16 "e", actor := utf16 "a", inputs := v } :
      ObjectInput ℤ)), (utf16 "u", { event := utf16 "f", actor := utf16 "a", sources := v })],
      p.2.Alike := by
    intro p hp
    simp only [List.mem_cons, List.not_mem_nil, or_false] at hp
    rcases hp with rfl | rfl
    · exact ⟨halike, trivial⟩
    · exact ⟨trivial, halike⟩
  obtain ⟨L, file, hrun⟩ := exists_appendAll none hinputs "k" []
  exact ⟨v, L, file, rfl, hrun, ((verify_of_appends Numerals.integers Numerals.lawful_integers
    Hmac.sample "k" (Hmac.ideal_sample _)).2 _ L file hrun).2 hinputs⟩

/-- The dictionary is signed with `2` before `10`, and read back it is signed with `"10"` before
`"2"`: the ledger that it was appended to does not verify. -/
theorem exists_append_not_verified :
    ∃ (N : Numerals ℤ) (hmac : Hmac) (key : String) (v : PyValue ℤ) (p : Units × ObjectInput ℤ),
      N.Lawful some ∧ hmac.Ideal (utf8 key.toList) ∧ p.2.inputs = v ∧
        (v.object.canonicalJson N).toOption ≠
          (loads N (dumps N v.object.toDoc) >>= fun d => .ok (canonicalJson N d)).toOption ∧
        ∃ result, (AuditLedger.appendAll N hmac ⟨key, .str []⟩ none [p] >>= fun q =>
          verifyLedger N hmac q.2 key).toOption = some result ∧ result.ok = false := by
  refine ⟨Numerals.integers, Hmac.sample, "k", sampleCounts, sampleCall, Numerals.lawful_integers,
    Hmac.ideal_sample _, rfl, ?_, tampered 0 "signature mismatch at line 0", ?_, rfl⟩
  · decide +kernel
  · decide +kernel

end Resilience.Python
