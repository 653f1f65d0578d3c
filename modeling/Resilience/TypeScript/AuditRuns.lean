import Resilience.TypeScript.Values

/-!
# Runs of the audit ledger

One `AuditLedger` on a file that is absent at first, and the calls of `append` that return, with any
values that `JSON.stringify` serialises. `append` signs copies that `sortKeys` makes, and writes
what `JSON.stringify` makes of the values themselves; so whether `verify` accepts the file is
decided value by value (`verify_of_appends`).
-/

namespace Resilience.TypeScript

open Json

variable {ν : Type}

/-! ## Appends of any values -/

/-- A value that a caller passes. -/
structure Argument (ν : Type) where
  value : JsValue ν := .undefined
  own : value.Own

def Argument.undefined : Argument ν := ⟨.undefined, trivial⟩

/-- `v ?? null`. -/
def JsValue.orNull : JsValue ν → JsValue ν
  | .undefined => .null
  | v => v

structure ValueInput (ν : Type) where
  event : Units
  actor : Units
  inputs : Argument ν := .undefined
  sources : Argument ν := .undefined
  confidence : Option ν := none
  rationale : Option Units := none
  ts : Option Units := none

/-- The fields of a payload that are always assigned. -/
def assignedFields : List String := ["ts", "event", "actor", "inputs", "sources", "prev_sig"]

/-- The property `k`, unless it is `undefined`. -/
def optionalValue (k : String) (rec : List (Units × JsValue ν)) : List (Units × JsValue ν) :=
  match (lookup (utf16 k) rec).getD .undefined with
  | .undefined => []
  | v => [(utf16 k, v)]

/-- `signingPayload`. -/
def valuePayload (rec : List (Units × JsValue ν)) : List (Units × JsValue ν) :=
  (assignedFields.map fun k => (utf16 k, (lookup (utf16 k) rec).getD .undefined)) ++
    optionalValue "confidence" rec ++ optionalValue "rationale" rec

/-- `sign`; a digest of `undefined` is refused. -/
def signValue (N : Numerals ν) (hmac : Hmac) (key : String) (rec : List (Units × JsValue ν)) :
    Except JsError Units := do
  match ← (JsValue.object (valuePayload rec)).canonicalJson N with
  | some text => return utf16 (hmac (utf8 key.toList) (encodeUnits text))
  | none => .error .typeError

namespace AuditLedger

variable (N : Numerals ν) (L : AuditLedger ν)

/-- The record before it is signed; `now` is the current time. -/
def unsignedValue (now : Units) (input : ValueInput ν) : List (Units × JsValue ν) :=
  [(utf16 "ts", .str (input.ts.getD now)), (utf16 "event", .str input.event),
    (utf16 "actor", .str input.actor), (utf16 "inputs", input.inputs.value.orNull),
    (utf16 "sources", input.sources.value.orNull)] ++
  (match input.confidence with
    | some c => [(utf16 "confidence", .num c)]
    | none => []) ++
  (match input.rationale with
    | some r => [(utf16 "rationale", .str r)]
    | none => []) ++
  [(utf16 "prev_sig", .ofDoc L.lastSig)]

/-- `append`: the signature, the ledger and the file. -/
def appendValue (hmac : Hmac) (file : Option Text) (now : Units) (input : ValueInput ν) :
    Except JsError (Units × AuditLedger ν × Option Text) := do
  let unsigned := L.unsignedValue now input
  let sig ← signValue N hmac L.key unsigned
  let text ← (JsValue.object (unsigned ++ [(utf16 "sig", .str sig)])).stringify N
  return (sig, { L with lastSig := .str sig },
    some (file.getD [] ++ (text.getD (ascii "undefined") ++ [0x0A])))

/-- Successive appends, until one throws. -/
def appendAll (hmac : Hmac) :
    AuditLedger ν → Option Text → List (Units × ValueInput ν) →
      Except JsError (AuditLedger ν × Option Text)
  | L, file, [] => .ok (L, file)
  | L, file, (now, input) :: inputs => do
    let (_, L, file) ← L.appendValue N hmac file now input
    appendAll hmac L file inputs

end AuditLedger

/-- The values of an append are signed like what is read back for them. -/
def ValueInput.Alike (N : Numerals ν) (input : ValueInput ν) : Prop :=
  input.inputs.value.Alike N ∧ input.sources.value.Alike N

/-! ## What is written -/

theorem lookup_present {ms : List (Units × JsValue ν)} (h : (ms.map Prod.fst).Nodup) (k : Units) :
    lookup k (JsValue.present (ms.map fun m => (m.1, m.2.docOf))) =
      (lookup k ms).bind JsValue.docOf := by
  induction ms with
  | nil => rfl
  | cons m ms ih =>
    obtain ⟨hm, hms⟩ := List.nodup_cons.1 h
    have hcons : JsValue.present ((m :: ms).map fun m => (m.1, m.2.docOf)) =
        (m.2.docOf.map fun d => (m.1, d)).toList ++
          JsValue.present (ms.map fun m => (m.1, m.2.docOf)) := by
      rw [JsValue.present, List.map_cons, List.filterMap_cons]
      cases m.2.docOf <;> rfl
    rw [hcons, lookup_append, ih hms, lookup_cons]
    split_ifs with hk
    · have hnone : lookup k ms = none := by
        cases hl : lookup k ms with
        | none => rfl
        | some v => exact absurd (hk ▸ List.mem_map_of_mem (f := Prod.fst) (mem_of_lookup hl)) hm
      rw [hnone, Option.bind_some]
      cases m.2.docOf <;> simp [lookup_cons, hk]
    · cases m.2.docOf <;> simp [lookup_cons, hk]

section Written

variable {N : Numerals ν} {hmac : Hmac} {norm : ν → Option ν} {L : AuditLedger ν} {s : Units}
  (now : Units) (input : ValueInput ν)

/-- The record as `append` has it. -/
def AuditLedger.signedValue (L : AuditLedger ν) (now : Units) (input : ValueInput ν) (sig : Units) :
    List (Units × JsValue ν) := L.unsignedValue now input ++ [(utf16 "sig", .str sig)]

/-- What is written for the record. -/
def AuditLedger.valueRecord (L : AuditLedger ν) (now : Units) (input : ValueInput ν) (sig : Units) :
    Members ν := JsValue.present ((L.signedValue now input sig).map fun m => (m.1, m.2.docOf))

theorem valuePayload_unsigned : valuePayload (L.unsignedValue now input) =
    [(utf16 "ts", .str (input.ts.getD now)), (utf16 "event", .str input.event),
      (utf16 "actor", .str input.actor), (utf16 "inputs", input.inputs.value.orNull),
      (utf16 "sources", input.sources.value.orNull), (utf16 "prev_sig", .ofDoc L.lastSig)] ++
    (match input.confidence with
      | some c => [(utf16 "confidence", .num c)]
      | none => []) ++
    (match input.rationale with
      | some r => [(utf16 "rationale", .str r)]
      | none => []) := by
  rw [valuePayload, optionalValue, optionalValue, AuditLedger.unsignedValue]
  cases input.confidence <;> cases input.rationale <;> simp [assignedFields, lookup_cons]

theorem own_orNull (a : Argument ν) : a.value.orNull.Own := by
  unfold JsValue.orNull
  split
  · trivial
  · exact a.own

theorem alike_orNull (v : JsValue ν) : v.orNull.Alike N ↔ v.Alike N := by
  unfold JsValue.orNull
  split
  · exact iff_of_true (List.forall_mem_nil _) (List.forall_mem_nil _)
  · exact Iff.rfl

theorem keys_signedValue (sig : Units) : ((L.signedValue now input sig).map Prod.fst).Sublist
    (["ts", "event", "actor", "inputs", "sources", "confidence", "rationale", "prev_sig",
      "sig"].map utf16) := by
  rw [AuditLedger.signedValue, AuditLedger.unsignedValue]
  cases input.confidence <;> cases input.rationale <;> simp

theorem keys_payload : ((valuePayload (L.unsignedValue now input)).map Prod.fst).Sublist
    (payloadFields.map utf16) := by
  rw [valuePayload_unsigned]
  cases input.confidence <;> cases input.rationale <;> simp [payloadFields]

/-- The values of a record, and of its payload, are those of the caller, apart from numbers and
strings. -/
theorem forall_values {p : JsValue ν → Prop} (hnum : ∀ n, p (.num n)) (hstr : ∀ t, p (.str t))
    (hL : L.lastSig = .str s) (sig : Units) :
    ((∀ m ∈ valuePayload (L.unsignedValue now input), p m.2) ↔
        p input.inputs.value.orNull ∧ p input.sources.value.orNull) ∧
      ((∀ m ∈ L.signedValue now input sig, p m.2) ↔
        p input.inputs.value.orNull ∧ p input.sources.value.orNull) := by
  have hprev : p (.ofDoc (.str s)) := hstr s
  rw [valuePayload_unsigned, AuditLedger.signedValue, AuditLedger.unsignedValue, hL]
  cases input.confidence <;> cases input.rationale <;> simp [hnum, hstr, hprev]

theorem own_values (hL : L.lastSig = .str s) (sig : Units) :
    (JsValue.object (valuePayload (L.unsignedValue now input))).Own ∧
      (JsValue.object (L.signedValue now input sig)).Own := by
  obtain ⟨hpayload, hrecord⟩ := forall_values now input (p := JsValue.Own) (fun _ => trivial)
    (fun _ => trivial) hL sig
  have hown := And.intro (own_orNull input.inputs) (own_orNull input.sources)
  rw [JsValue.own_object, JsValue.own_object]
  refine ⟨⟨⟨?_, ?_⟩, hpayload.2 hown⟩, ⟨?_, ?_⟩, hrecord.2 hown⟩
  · exact (keys_payload now input).nodup ((List.nodup_map_iff utf16_injective).2 (by decide))
  · exact List.Pairwise.sublist (keys_payload now input) (by decide +kernel)
  · exact (keys_signedValue now input sig).nodup
      ((List.nodup_map_iff utf16_injective).2 (by decide))
  · exact List.Pairwise.sublist (keys_signedValue now input sig) (by decide +kernel)

/-- Only `inputs` and `sources` can have objects that are replaced. -/
theorem alike_payload (hL : L.lastSig = .str s) :
    (JsValue.object (valuePayload (L.unsignedValue now input))).Alike N ↔ input.Alike N := by
  have hkeys : ∀ m ∈ valuePayload (L.unsignedValue now input), m.1 ≠ utf16 "__proto__" := by
    intro m hm heq
    obtain ⟨k, hk, hkey⟩ :=
      List.mem_map.1 ((keys_payload now input).subset (List.mem_map_of_mem hm))
    rw [heq] at hkey
    exact absurd (utf16_injective hkey ▸ hk) (by decide)
  have hvalues := (forall_values now input (p := fun v => v.Alike N)
    (fun _ => List.forall_mem_nil _) (fun _ => List.forall_mem_nil _) hL []).1
  rw [alike_orNull, alike_orNull] at hvalues
  rw [ValueInput.Alike, ← hvalues, JsValue.Alike]
  simp only [JsValue.mem_hooks_object]
  constructor
  · exact fun h m hm hook hhook => h hook ⟨m, hm, hkeys m hm, hhook⟩
  · rintro h hook ⟨m, hm, -, hhook⟩
    exact h m hm hook hhook

theorem lookup_signedValue {k : String} (hk : k ≠ "sig") (sig : Units) :
    lookup (utf16 k) (L.signedValue now input sig) =
      lookup (utf16 k) (L.unsignedValue now input) := by
  rw [AuditLedger.signedValue, lookup_append, lookup_cons, if_neg (utf16_injective.ne hk),
    lookup_nil, Option.or_none]

theorem lookup_unsignedValue :
    lookup (utf16 "prev_sig") (L.unsignedValue now input) = some (.ofDoc L.lastSig) ∧
      lookup (utf16 "sig") (L.unsignedValue now input) = none := by
  rw [AuditLedger.unsignedValue]
  cases input.confidence <;> cases input.rationale <;> simp [lookup_cons]

theorem lookup_valueRecord (k : Units) (sig : Units) :
    lookup k (L.valueRecord now input sig) =
      (lookup k (L.signedValue now input sig)).bind JsValue.docOf :=
  lookup_present ((keys_signedValue now input sig).nodup
    ((List.nodup_map_iff utf16_injective).2 (by decide))) k

theorem present_append (as bs : List (Units × JsValue ν)) :
    JsValue.present ((as ++ bs).map fun m => (m.1, m.2.docOf)) =
      JsValue.present (as.map fun m => (m.1, m.2.docOf)) ++
        JsValue.present (bs.map fun m => (m.1, m.2.docOf)) := by
  rw [JsValue.present, List.map_append, List.filterMap_append]
  rfl

theorem docOf_getD (v : Option (JsValue ν)) : (v.getD .undefined).docOf = v.bind JsValue.docOf := by
  cases v <;> rfl

theorem present_optionalValue (k : String) (rec : List (Units × JsValue ν)) :
    JsValue.present ((optionalValue k rec).map fun m => (m.1, m.2.docOf)) =
      [k].filterMap fun k =>
        ((lookup (utf16 k) rec).bind JsValue.docOf).map fun d => (utf16 k, d) := by
  rw [optionalValue, List.filterMap_cons, ← docOf_getD]
  split
  · rename_i hnone
    rw [hnone]
    rfl
  · rename_i v _
    rw [JsValue.present, List.map_singleton, List.filterMap_cons]
    cases v.docOf <;> rfl

/-- What is written for the payload is the payload of what is written. -/
theorem present_payload (sig : Units) :
    JsValue.present ((valuePayload (L.unsignedValue now input)).map fun m => (m.1, m.2.docOf)) =
      signingPayload (L.valueRecord now input sig) := by
  have hlookup : ∀ k ∈ payloadFields,
      (lookup (utf16 k) (L.valueRecord now input sig)).map (fun v => (utf16 k, v)) =
        ((lookup (utf16 k) (L.unsignedValue now input)).bind JsValue.docOf).map
          fun v => (utf16 k, v) := by
    intro k hk
    rw [lookup_valueRecord, lookup_signedValue]
    rintro rfl
    exact absurd hk (by decide)
  have hassigned : JsValue.present ((assignedFields.map fun k =>
      (utf16 k, (lookup (utf16 k) (L.unsignedValue now input)).getD .undefined)).map
        fun m => (m.1, m.2.docOf)) = assignedFields.filterMap fun k =>
          ((lookup (utf16 k) (L.unsignedValue now input)).bind JsValue.docOf).map
            fun d => (utf16 k, d) := by
    rw [JsValue.present, List.map_map, List.filterMap_map]
    exact List.filterMap_congr fun k _ => congrArg _ (docOf_getD _)
  rw [signingPayload, List.filterMap_congr hlookup, valuePayload, present_append, present_append,
    hassigned, present_optionalValue, present_optionalValue, ← List.filterMap_append,
    ← List.filterMap_append]
  rfl

/-- What an `append` that returns has done. -/
theorem appendValue_eq_ok {file file' : Option Text} {sig : Units} {L' : AuditLedger ν}
    (h : L.appendValue N hmac file now input = .ok (sig, L', file')) :
    (∃ text, (JsValue.object (valuePayload (L.unsignedValue now input))).canonicalJson N =
        .ok (some text) ∧ sig = utf16 (hmac (utf8 L.key.toList) (encodeUnits text))) ∧
      (JsValue.object (L.signedValue now input sig)).serialize =
        .ok (some (.obj (L.valueRecord now input sig))) ∧
      L' = { L with lastSig := .str sig } ∧
      file' = some (file.getD [] ++
        (stringify N (.obj (L.valueRecord now input sig)) ++ [0x0A])) := by
  rw [AuditLedger.appendValue, signValue] at h
  cases hcanonical :
      (JsValue.object (valuePayload (L.unsignedValue now input))).canonicalJson N with
  | error e =>
    rw [hcanonical] at h
    cases h
  | ok text =>
    rw [hcanonical] at h
    cases text with
    | none => cases h
    | some text =>
      dsimp only [bind, Except.bind, pure, Except.pure] at h
      cases hrecord : (JsValue.object (L.signedValue now input
          (utf16 (hmac (utf8 L.key.toList) (encodeUnits text))))).stringify N with
      | error e =>
        rw [← AuditLedger.signedValue, hrecord] at h
        cases h
      | ok recordText =>
        rw [← AuditLedger.signedValue, hrecord] at h
        obtain ⟨rfl, hrest⟩ := Prod.mk.inj (Except.ok.inj h)
        obtain ⟨rfl, rfl⟩ := Prod.mk.inj hrest
        obtain ⟨o, ho, rfl⟩ := map_eq_ok_iff.1 hrecord
        obtain ⟨-, rfl⟩ := (JsValue.serialize_object_eq_ok_iff o).1 ho
        exact ⟨⟨text, rfl, rfl⟩, ho, rfl, rfl⟩

theorem serialize_payload (hL : L.lastSig = .str s) {sig : Units}
    (h : (JsValue.object (L.signedValue now input sig)).serialize =
      .ok (some (.obj (L.valueRecord now input sig)))) :
    (JsValue.object (valuePayload (L.unsignedValue now input))).serialize =
      .ok (some (.obj (signingPayload (L.valueRecord now input sig)))) := by
  obtain ⟨hpayload, hrecord⟩ := forall_values now input (p := JsValue.Serializes)
    (fun _ => ⟨_, rfl⟩) (fun _ => ⟨_, rfl⟩) hL sig
  rw [JsValue.serialize_object_eq_ok_iff, present_payload now input sig]
  exact ⟨hpayload.2 (hrecord.1 ((JsValue.serialize_object_eq_ok_iff _).1 h).1), rfl⟩

theorem wellFormed_canonicalJson (hN : N.Lawful norm) {v : JsValue ν} {text : Text}
    (h : v.canonicalJson N = .ok (some text)) : WellFormed text := by
  obtain ⟨o, -, ho⟩ := map_eq_ok_iff.1 h
  obtain ⟨d, -, rfl⟩ := Option.map_eq_some_iff.1 ho
  exact hN.wellFormed_unitsCodec false d

/-- The signature that is read back is that of what is read back exactly when the values of the
append are signed like what is read back for them. -/
theorem entry_valueRecord (hN : N.Lawful norm) (hrep : N.Reprints norm)
    (hideal : hmac.Ideal (utf8 L.key.toList)) (hL : L.lastSig = .str s) {file file' : Option Text}
    {sig : Units} {L' : AuditLedger ν}
    (h : L.appendValue N hmac file now input = .ok (sig, L', file')) :
    let read := stored norm (L.valueRecord now input sig)
    Linked read ∧ (scheme N hmac L.key).link (entry hN read).payload = .str s ∧
      (entry hN read).tag = .str sig ∧
      ((scheme N hmac L.key).sign (entry hN read).payload = (entry hN read).tag ↔
        input.Alike N) := by
  obtain ⟨⟨text, hcanonical, rfl⟩, hserialize, -, -⟩ := appendValue_eq_ok now input h
  generalize hsig : utf16 (hmac (utf8 L.key.toList) (encodeUnits text)) = sig at hserialize ⊢
  have hprev : lookup (utf16 "prev_sig") (stored norm (L.valueRecord now input sig)) =
      some (.str s) := by
    rw [lookup_stored, lookup_valueRecord, lookup_signedValue now input (by decide),
      (lookup_unsignedValue now input).1, hL]
    rfl
  have htag : lookup (utf16 "sig") (stored norm (L.valueRecord now input sig)) =
      some (.str sig) := by
    rw [lookup_stored, lookup_valueRecord, AuditLedger.signedValue, lookup_append,
      (lookup_unsignedValue now input).2, lookup_cons, if_pos rfl]
    rfl
  have htag' := tag_entry hN htag
  refine ⟨⟨⟨s, hprev⟩, ⟨sig, htag⟩⟩, link_entry hN hprev, htag', ?_⟩
  have hsigned : (signed hN (stored norm (L.valueRecord now input sig))).1 =
      canonicalJson N (.obj (signingPayload (L.valueRecord now input sig))) := by
    show canonicalJson N (.obj (signingPayload (stored norm _))) = _
    rw [stored, signingPayload_map, ← readBack_obj, canonicalJson_readBack hrep]
  have hpayload := serialize_payload now input hL hserialize
  have hown := (own_values now input hL sig).1
  have hsign : (scheme N hmac L.key).sign
      (entry hN (stored norm (L.valueRecord now input sig))).payload =
        .str (utf16 (hmac (utf8 L.key.toList) (encodeUnits
          (canonicalJson N (.obj (signingPayload (L.valueRecord now input sig))))))) := by
    rw [← hsigned]
    rfl
  rw [← alike_payload now input hL, ← JsValue.canonicalJson_eq_iff hN hrep hown hpayload,
    hcanonical, htag', hsign, Json.str.injEq, ← hsig, utf16_inj, hideal.injective.eq_iff,
    Except.ok.injEq, Option.some.injEq]
  refine ⟨fun heq => (encodeUnits_inj ?_ ?_ heq).symm, fun heq => by rw [← heq]⟩
  · exact hN.wellFormed_unitsCodec false _
  · exact wellFormed_canonicalJson hN hcanonical

end Written

/-! ## Runs -/

section Runs

variable {N : Numerals ν} {norm : ν → Option ν} (hN : N.Lawful norm) (hrep : N.Reprints norm)
  {hmac : Hmac} {key : String} (hideal : hmac.Ideal (utf8 key.toList))
include hrep hideal

/-- Successive appends add one record each. These extend the chain exactly when the values are
signed like what is read back for them. -/
theorem holds_appendAll {s : Units} {file : Option Text} {recs : List (Members ν)}
    (h : Holds N file recs) (hs : lastTag (.str []) (recs.map (entry hN)) = .str s)
    (inputs : List (Units × ValueInput ν)) {L' : AuditLedger ν} {file' : Option Text}
    (hrun : AuditLedger.appendAll N hmac ⟨key, .str s⟩ file inputs = .ok (L', file')) :
    ∃ recs', Holds N file' recs' ∧ recs'.length = recs.length + inputs.length ∧
      ((scheme N hmac key).Chained (.str []) (recs'.map (entry hN)) ↔
        (scheme N hmac key).Chained (.str []) (recs.map (entry hN)) ∧
          ∀ p ∈ inputs, p.2.Alike N) := by
  induction inputs generalizing s file recs with
  | nil =>
    obtain ⟨rfl, rfl⟩ := Prod.mk.inj (Except.ok.inj hrun)
    exact ⟨recs, h, rfl, by simp⟩
  | cons p inputs ih =>
    obtain ⟨now, input⟩ := p
    rw [AuditLedger.appendAll] at hrun
    cases hstep : AuditLedger.appendValue N ⟨key, .str s⟩ hmac file now input with
    | error e =>
      rw [hstep] at hrun
      cases hrun
    | ok result =>
      obtain ⟨sig, L₁, file₁⟩ := result
      rw [hstep] at hrun
      obtain ⟨hlinked, hlink, htag, hsign⟩ :=
        entry_valueRecord now input hN hrep (L := ⟨key, .str s⟩) hideal rfl hstep
      dsimp only at hlink hsign
      obtain ⟨-, hserialize, rfl, rfl⟩ := appendValue_eq_ok now input hstep
      have hown := own_values now input (L := ⟨key, .str s⟩) rfl sig
      have hheld := h.append_line hN ((JsValue.own_written hown.2).1 _ hserialize) hlinked
      obtain ⟨recs', hholds, hlen, hchained⟩ := ih hheld (by
        rw [List.map_append, List.map_singleton, lastTag_concat]
        exact htag) hrun
      refine ⟨recs', hholds, ?_, hchained.trans ?_⟩
      · rw [hlen, List.length_append, List.length_singleton, List.length_cons]
        omega
      · rw [List.map_append, List.map_singleton,
          Scheme.chained_concat_of_link (hlink.trans hs.symm), hsign, List.forall_mem_cons,
          and_assoc]

end Runs

/-- **What `append` accepts, and `verify` does not.** A value that a caller passes is signed like
what is read back for it exactly when every object in it that `JSON.stringify` replaces, by what its
`toJSON` returns, is written like the copy that `sortKeys` makes of it. The file of any appends that
return on one ledger verifies, with their number, exactly when this is so for all their values. -/
theorem verify_of_values [DecidableEq ν] (N : Numerals ν) (norm : ν → Option ν)
    (hN : N.Lawful norm) (hrep : N.Reprints norm) (hmac : Hmac) (key : String)
    (hideal : hmac.Ideal (utf8 key.toList)) :
    (∀ (v : Argument ν) text, v.value.stringify N = .ok (some text) →
        (v.value.canonicalJson N = (parse N text >>= fun w => (JsValue.ofDoc w).canonicalJson N) ↔
          v.value.Alike N)) ∧
      ∀ inputs L file, AuditLedger.appendAll N hmac ⟨key, .str []⟩ none inputs = .ok (L, file) →
        (verifyLedger N hmac file key = .ok (.ok inputs.length) ↔
          ∀ p ∈ inputs, p.2.Alike N) := by
  refine ⟨fun v text => JsValue.canonicalJson_parse_iff hN hrep v.own, fun inputs L file hrun => ?_⟩
  obtain ⟨recs, hholds, hlen, hchained⟩ :=
    holds_appendAll hN hrep hideal (holds_none (N := N)) rfl inputs hrun
  obtain ⟨result, hverify, hok⟩ := hholds.verify hN hmac key
  rw [List.length_nil, Nat.zero_add] at hlen
  rw [hverify, Except.ok.injEq, ← hlen, hok, hchained]
  exact and_iff_right trivial

/-- A `Date`: an object without properties of its own, whose `toJSON` returns a string. -/
def sampleDate : Argument ℤ where
  value := .hooked (.object []) (some (.str (utf16 "2024-01-01T00:00:00.000Z"))) none
  own := by
    rw [JsValue.own_hooked, JsValue.own_object]
    exact ⟨⟨⟨List.nodup_nil, List.Pairwise.nil⟩, List.forall_mem_nil _⟩,
      fun r hr => Option.some.inj hr ▸ trivial⟩

/-- An object with the key `b` before `a`, whose array has a place that is `undefined`, and with an
object that has a `toJSON` of its own. -/
def sampleValues : Argument ℤ where
  value := .object [
    (utf16 "b", .array [.num 2, .undefined]),
    (utf16 "a", .hooked (.object [(utf16 "toJSON", .func)]) (some (.str (utf16 "x")))
      (some (.str (utf16 "x")))),
    (utf16 "c", .undefined)]
  own := by
    have hkeys : OwnKeys [utf16 "b", utf16 "a", utf16 "c"] := ⟨by decide, by decide +kernel⟩
    have hnames : OwnKeys [utf16 "toJSON"] := ⟨List.nodup_singleton _, List.pairwise_singleton _ _⟩
    have hleaves : ((JsValue.num (2 : ℤ)).Own ∧ (JsValue.undefined : JsValue ℤ).Own) ∧
        ((JsValue.func : JsValue ℤ).Own ∧ (JsValue.str (utf16 "x") : JsValue ℤ).Own) ∧
          (JsValue.undefined : JsValue ℤ).Own :=
      ⟨⟨trivial, trivial⟩, ⟨trivial, trivial⟩, trivial⟩
    simpa [JsValue.own_object, JsValue.own_array, JsValue.own_hooked, hkeys, hnames] using hleaves

theorem alike_sampleValues : sampleValues.value.Alike Numerals.integers := by
  intro h hh
  have hhook : h = ⟨false, .object [(utf16 "toJSON", .func)], some (.str (utf16 "x")),
      some (.str (utf16 "x"))⟩ := List.mem_singleton.1 hh
  subst hhook
  intro o ho
  obtain rfl : some (.str (utf16 "x")) = o := Except.ok.inj ho
  exact ⟨_, rfl, rfl⟩

/-- Two appends, the second one of values that are `undefined`. -/
theorem verify_of_values_two :
    ∃ L file, AuditLedger.appendAll Numerals.integers Hmac.sample ⟨"k", .str []⟩ none
        [(utf16 "t", { event := utf16 "e", actor := utf16 "a", inputs := sampleValues }),
          (utf16 "t", { event := utf16 "f", actor := utf16 "a" })] = .ok (L, file) ∧
      verifyLedger Numerals.integers Hmac.sample file "k" = .ok (.ok 2) := by
  refine ⟨_, _, rfl, ?_⟩
  refine ((verify_of_values Numerals.integers some Numerals.lawful_integers
    (Numerals.reprints_some _) Hmac.sample "k" (Hmac.ideal_sample _)).2
      [(utf16 "t", { event := utf16 "e", actor := utf16 "a", inputs := sampleValues }),
        (utf16 "t", { event := utf16 "f", actor := utf16 "a" })] _ _ rfl).2 ?_
  intro p hp
  simp only [List.mem_cons, List.not_mem_nil, or_false] at hp
  obtain rfl | rfl := hp
  · exact ⟨alike_sampleValues, List.forall_mem_nil _⟩
  · exact ⟨List.forall_mem_nil _, List.forall_mem_nil _⟩

/-- A `Date` is signed as an object without properties, and read back as a string: the ledger that
it was appended to does not verify. -/
theorem exists_value_not_verified :
    ∃ (N : Numerals ℤ) (hmac : Hmac) (key : String) (v : Argument ℤ)
      (p : Units × ValueInput ℤ) (text : Text),
      N.Lawful some ∧ N.Reprints some ∧ hmac.Ideal (utf8 key.toList) ∧ p.2.inputs = v ∧
        (v.value.stringify N).toOption = some (some text) ∧
        (v.value.canonicalJson N).toOption ≠
          (parse N text >>= fun w => (JsValue.ofDoc w).canonicalJson N).toOption ∧
        (AuditLedger.appendAll N hmac ⟨key, .str []⟩ none [p] >>= fun q =>
          verifyLedger N hmac q.2 key).toOption =
            some (.tampered 0 "signature mismatch at line 0") := by
  refine ⟨Numerals.integers, Hmac.sample, "k", sampleDate,
    (utf16 "t", { event := utf16 "e", actor := utf16 "a", inputs := sampleDate }),
    ascii "\"2024-01-01T00:00:00.000Z\"", Numerals.lawful_integers, Numerals.reprints_some _,
    Hmac.ideal_sample _, rfl, ?_, ?_, ?_⟩
  · decide +kernel
  · decide +kernel
  · decide +kernel

end Resilience.TypeScript
