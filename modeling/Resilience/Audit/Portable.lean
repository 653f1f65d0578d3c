import Resilience.Audit.Canonical
import Resilience.Foundations.Json.Arrangement
import Resilience.Python.AuditRuns

/-!
# Records that every port can read

A `SignedRecord` has content for which the three ports sign the same bytes (`Within IsAscii
Ordered`) and which is nested no deeper than `serde_json` reads it, and its signature. Its line is
written without spaces or, as `json.dumps` does it, with spaces after the separators, and its
objects in any order of keys. Whatever port has written it, each port reads the line as that record
(`Rust.readRecords_fileBytes`, `Python.readRecords_fileText`, `TypeScript.holds_fileText`), and
makes of it the same entry of the chain.

Of `serde_json` only what it documents of integers is used (`Rust.SerdeJson.Documented`).
-/

namespace Resilience

open Json

namespace CommonRecord

/-- The members of the payload. -/
def fields (r : CommonRecord) : List (String × Json String SafeInt) :=
  [("ts", .str r.ts), ("event", .str r.event), ("actor", .str r.actor), ("inputs", r.inputs.1),
    ("sources", r.sources.1)] ++
  (match r.rationale with
    | some s => [("rationale", .str s)]
    | none => []) ++
  [("prev_sig", .str r.prevSig)]

theorem doc_eq (r : CommonRecord) : r.doc = .obj r.fields := rfl

/-- The record with its values arranged. -/
def arranged (A : Arrangement String) (r : CommonRecord) : CommonRecord where
  ts := r.ts
  event := r.event
  actor := r.actor
  inputs := ⟨r.inputs.1.arranged A, r.inputs.2.arranged A (fun _ _ h => h.nodup) r.inputs.2⟩
  sources := ⟨r.sources.1.arranged A, r.sources.2.arranged A (fun _ _ h => h.nodup) r.sources.2⟩
  rationale := r.rationale
  prevSig := r.prevSig

end CommonRecord

/-- What the condition asks of each field. -/
theorem CommonRecord.within_doc_iff (r : CommonRecord) :
    r.doc.Within IsAscii Ordered ↔
      (IsAscii r.ts ∧ IsAscii r.event ∧ IsAscii r.actor ∧ ∀ s ∈ r.rationale, IsAscii s) ∧
        r.inputs.1.Within IsAscii Ordered ∧ r.sources.1.Within IsAscii Ordered ∧
        IsAscii r.prevSig := by
  have hordered : Ordered ["ts", "event", "actor", "inputs", "sources", "prev_sig"] ∧
      Ordered ["ts", "event", "actor", "inputs", "sources", "rationale", "prev_sig"] := by
    decide +kernel
  have hkeys : ∀ k ∈ ["ts", "event", "actor", "inputs", "sources", "rationale", "prev_sig"],
      IsAscii k := by
    simp only [isAscii_iff_all]
    decide +kernel
  simp only [List.forall_mem_cons] at hkeys
  rw [doc_eq, fields, within_obj]
  cases r.rationale with
  | none => simp [hordered, hkeys, and_assoc]
  | some s =>
    simp [hordered, hkeys, and_assoc]
    exact fun _ _ _ =>
      ⟨fun ⟨hi, hs, hr, hp⟩ => ⟨hr, hi, hs, hp⟩, fun ⟨hr, hi, hs, hp⟩ => ⟨hi, hs, hr, hp⟩⟩

/-- How deep `serde_json` reads what is nested: its limit of 128 is not reached. -/
abbrev maxDepth : ℕ := 127

theorem CommonRecord.depth_doc_le_iff (r : CommonRecord) :
    r.doc.depth ≤ maxDepth ↔ r.inputs.1.depth ≤ 126 ∧ r.sources.1.depth ≤ 126 := by
  rw [doc_eq, fields, maxDepth, depth_obj_le]
  cases r.rationale <;> simp

/-- A record that the three ports sign alike, with its signature. -/
structure SignedRecord extends CommonRecord where
  sig : String
  portable : toCommonRecord.doc.Within IsAscii Ordered
  shallow : toCommonRecord.doc.depth ≤ maxDepth
  ascii : IsAscii sig

theorem Ordered.perm {ks ks' : List String} (h : List.Perm ks ks') (hks : Ordered ks) :
    Ordered ks' := by
  refine ⟨fun hmem => hks.1 (h.mem_iff.2 hmem), fun k hk k' hk' => ?_⟩
  exact hks.2 k (h.mem_iff.2 hk) k' (h.mem_iff.2 hk')

namespace SignedRecord

variable (r : SignedRecord) {ν F : Type}

/-- The record as it is written. -/
def written : Json String SafeInt := .obj (r.fields ++ [("sig", .str r.sig)])

def rust (int : SafeInt → ν) : Rust.AuditRecord ν F := { r.rustRecord int with sig := r.sig }

def python : Python.Items ℤ := r.pythonRecord ++ [(utf16 "sig", .str (utf16 r.sig))]

def typescript : TypeScript.Members ℤ := r.typescriptRecord ++ [(utf16 "sig", .str (utf16 r.sig))]

/-- The text of the record. -/
def text (spaced : Bool) : Text :=
  render Rust.SerdeJson.codec spaced (r.written.transform id number id)

/-- The entry of the record. -/
def entry (S : Rust.SerdeJson ν F) (int : SafeInt → ν) : Entry (Rust.Value ν) String :=
  (r.rust int).entry S

theorem within_arranged (A : Arrangement String) :
    (r.toCommonRecord.arranged A).doc.Within IsAscii Ordered := by
  have h := r.within_doc_iff.1 r.portable
  refine (CommonRecord.within_doc_iff _).2 ⟨h.1, ?_, ?_, h.2.2.2⟩
  · exact h.2.1.arranged A (fun _ _ => Ordered.perm) r.inputs.2
  · exact h.2.2.1.arranged A (fun _ _ => Ordered.perm) r.sources.2

theorem depth_arranged (A : Arrangement String) :
    (r.toCommonRecord.arranged A).doc.depth ≤ maxDepth := by
  have h := r.depth_doc_le_iff.1 r.shallow
  exact (CommonRecord.depth_doc_le_iff _).2
    ⟨depth_arranged_le A r.inputs.2 h.1, depth_arranged_le A r.sources.2 h.2⟩

/-- The record with its values arranged. -/
def arranged (A : Arrangement String) : SignedRecord where
  toCommonRecord := r.toCommonRecord.arranged A
  sig := r.sig
  portable := r.within_arranged A
  shallow := r.depth_arranged A
  ascii := r.ascii

end SignedRecord

/-! ## Entries -/

/-- A signature as a value. -/
def tagValue (s : String) : Json Units ℤ := .str (utf16 s)

theorem tagValue_injective : Function.Injective tagValue :=
  fun _ _ h => utf16_injective (Json.str.inj h)

namespace SignedRecord

variable (r : SignedRecord)

theorem lookup_python :
    lookup (utf16 "prev_sig") r.python = some (tagValue r.prevSig) ∧
      lookup (utf16 "sig") r.python = some (tagValue r.sig) := by
  rw [python, CommonRecord.pythonRecord]
  cases r.rationale <;> exact ⟨by simp [lookup_cons, tagValue], by simp [lookup_cons, tagValue]⟩

theorem lookup_typescript :
    lookup (utf16 "prev_sig") r.typescript = some (tagValue r.prevSig) ∧
      lookup (utf16 "sig") r.typescript = some (tagValue r.sig) := by
  rw [typescript, CommonRecord.typescriptRecord]
  cases r.rationale <;> exact ⟨by simp [lookup_cons, tagValue], by simp [lookup_cons, tagValue]⟩

end SignedRecord

section Entries

theorem btreeMap_congr {α : Type} (ms ns : List (String × α)) (h : List.Perm ms ns)
    (hnodup : (ms.map Prod.fst).Nodup) : Rust.btreeMap ms = Rust.btreeMap ns := by
  have hnodup' := ((h.map Prod.fst).nodup_iff).1 hnodup
  have hperm := ((Rust.btreeMap_perm hnodup).trans h).trans (Rust.btreeMap_perm hnodup').symm
  have hsorted : ∀ ms : List (String × α),
      ((Rust.btreeMap ms).map Prod.fst).Pairwise fun k k' => id k ≤ id k' :=
    fun ms => (Rust.sortedKeys_btreeMap ms).imp le_of_lt
  refine eq_of_perm_of_sorted id hperm ?_ (hsorted ms) (hsorted ns)
  exact (((Rust.btreeMap_perm hnodup).map Prod.fst).nodup_iff).2 hnodup

/-- What Rust makes of a record does not depend on the order of keys. -/
theorem transform_doc_arranged {ν' : Type} (f : SafeInt → Json String ν') (A : Arrangement String)
    (r : CommonRecord) :
    (r.arranged A).doc.transform id f Rust.btreeMap = r.doc.transform id f Rust.btreeMap := by
  have hvalue : ∀ v : Plain, (v.1.arranged A).transform id f Rust.btreeMap =
      v.1.transform id f Rust.btreeMap :=
    fun v => transform_arranged A Function.injective_id btreeMap_congr v.2
  have hfields : (r.arranged A).fields.map (fun m => (m.1, m.2.transform id f Rust.btreeMap)) =
      r.fields.map fun m => (m.1, m.2.transform id f Rust.btreeMap) := by
    simp only [CommonRecord.fields, CommonRecord.arranged, List.map_append, List.map_cons, hvalue]
  have hdoc : ∀ r : CommonRecord, r.doc.transform id f Rust.btreeMap =
      .obj (Rust.btreeMap (r.fields.map fun m => (m.1, m.2.transform id f Rust.btreeMap))) :=
    fun r => transform_obj ..
  rw [hdoc, hdoc, hfields]

namespace SignedRecord

variable (r : SignedRecord) {ν F : Type} (S : Rust.SerdeJson ν F) (int : SafeInt → ν)

theorem entry_eq : r.entry S int = ⟨Rust.signingPayload S (r.rustRecord int), r.sig⟩ := rfl

/-- The entry does not depend on the order of keys. -/
theorem entry_arranged (A : Arrangement String) : (r.arranged A).entry S int = r.entry S int := by
  rw [entry_eq, entry_eq]
  refine Entry.ext (Rust.Value.ext ?_) rfl
  rw [CommonRecord.signingPayload_rustRecord, CommonRecord.signingPayload_rustRecord]
  exact transform_doc_arranged _ A r.toCommonRecord

end SignedRecord

end Entries

/-! ## Texts -/

namespace SignedRecord

variable (r : SignedRecord)

theorem written_within : r.written.Within IsAscii fun _ => True := by
  have h := r.portable
  rw [CommonRecord.doc_eq, within_obj] at h
  rw [written, within_obj]
  refine ⟨trivial, fun m hm => ?_⟩
  rcases List.mem_append.1 hm with hm | hm
  · exact ⟨(h.2 m hm).1, (h.2 m hm).2.mono (fun _ h => h) fun _ _ => trivial⟩
  · rw [List.mem_singleton.1 hm]
    exact ⟨(isAscii_iff_all "sig").2 (by decide), r.ascii⟩

theorem depth_written : r.written.depth ≤ maxDepth := by
  have h := r.shallow
  rw [CommonRecord.doc_eq, maxDepth, depth_obj_le] at h
  rw [written, maxDepth, depth_obj_le]
  intro m hm
  rcases List.mem_append.1 hm with hm | hm
  · exact h m hm
  · rw [List.mem_singleton.1 hm]
    exact Nat.zero_le _

/-- The text is what `json.dumps` writes for the record, with or without spaces. -/
theorem text_eq_ascii (spaced : Bool) :
    r.text spaced =
      render Numerals.integers.asciiCodec spaced (r.written.transform utf16 number id) := by
  have hwithin : (r.written.transform id number id).Within IsAscii fun _ => True :=
    r.written_within.rebuild (fun _ h => h) (fun _ => within_num _) fun _ _ h => h
  have htwice : (r.written.transform id number id).transform utf16 .num id =
      r.written.transform utf16 number id := transform_transform (fun _ => rfl) _
  rw [← htwice]
  exact (render_transform (fun s => quoteAscii_utf16) (fun _ => rfl) hwithin).symm

/-- The text is what `JSON.stringify` writes for the record. -/
theorem text_eq_units :
    r.text false =
      render Numerals.integers.unitsCodec false (r.written.transform utf16 number id) := by
  have hwithin : (r.written.transform utf16 number id).Within
      (fun s => ∀ n ∈ codes s, n ≤ 0x7E) fun _ => True := by
    refine r.written_within.rebuild (fun s hs n hn => ?_) (fun _ => within_num _) fun _ _ h => h
    rw [codes_utf16_of_isAscii hs] at hn
    obtain ⟨c, hc, rfl⟩ := List.mem_map.1 hn
    exact hs c hc
  rw [text_eq_ascii]
  have hsame : render Numerals.integers.unitsCodec false
      ((r.written.transform utf16 number id).transform id .num id) =
        render Numerals.integers.asciiCodec false (r.written.transform utf16 number id) :=
    render_transform (fun s => quoteUnits_of_le) (fun _ => rfl) hwithin
  rw [← hsame, transform_id]

theorem printable_text (spaced : Bool) : ∀ c ∈ r.text spaced, 0x20 ≤ c ∧ c ≤ 0x7E := by
  rw [text_eq_ascii]
  exact Numerals.lawful_integers.printable_asciiCodec spaced _

theorem text_eq_cons (spaced : Bool) : ∃ t, r.text spaced = 0x7B :: t ++ [0x7D] := by
  rw [text, written, transform_obj, render_obj]
  exact ⟨_, rfl⟩

/-- The line of the record in the file. -/
def bytes (spaced : Bool) : List UInt8 := lineBytes ((r.text spaced).map Char.ofNat)

end SignedRecord

/-- The file of the records, each written with or without spaces. -/
def fileBytes (lines : List (Bool × SignedRecord)) : List UInt8 :=
  lines.flatMap fun l => l.2.bytes l.1

/-- The characters of a text of ASCII characters. -/
theorem chars_text {t : Text} (h : ∀ c ∈ t, 0x20 ≤ c ∧ c ≤ 0x7E) :
    (t.map Char.ofNat).map Char.toNat = t := by
  rw [List.map_map]
  refine (List.map_congr_left fun c hc => ?_).trans (List.map_id _)
  have := h c hc
  exact toNat_ofNat (.inl (by omega))

theorem char_not_mem {t : Text} (h : ∀ c ∈ t, 0x20 ≤ c ∧ c ≤ 0x7E) {c : Char}
    (hc : c.toNat < 0x20) : c ∉ t.map Char.ofNat := by
  intro hmem
  have hnat := List.mem_map_of_mem (f := Char.toNat) hmem
  rw [chars_text h] at hnat
  have := h _ hnat
  omega

/-! ## Rust -/

namespace Rust

variable {ν F : Type} {S : SerdeJson ν F} {int : SafeInt → ν}

/-- `serde_json`, of documents whose numbers are integers: it prints them, and reads back what is
not nested too deep, with or without spaces. -/
structure SerdeJson.Documented (S : SerdeJson ν F) (int : SafeInt → ν) : Prop where
  prints : S.PrintsIntegers int
  reads : ∀ (spaced : Bool) (d : Json String SafeInt), d.depth ≤ maxDepth →
    S.fromStr ((render SerdeJson.codec spaced (d.transform id number id)).map Char.ofNat) =
      some (d.transform id (rustNumber int) id)

theorem ofDoc_written (r : SignedRecord) :
    AuditRecord.ofDoc S (r.written.transform id (rustNumber int) id) = some (r.rust int) := by
  rw [SignedRecord.written, transform_obj, SignedRecord.rust]
  cases h : r.rationale with
  | none =>
    simp [CommonRecord.fields, h, AuditRecord.ofDoc, AuditRecord.ofFields, required, optional,
      field, asString, asOptionString, asOptionF64, CommonRecord.rustRecord]
  | some s =>
    simp [CommonRecord.fields, h, AuditRecord.ofDoc, AuditRecord.ofFields, required, optional,
      field, asString, asOptionString, asOptionF64, CommonRecord.rustRecord]

theorem readLines_bytes (hS : S.Documented int) (r : SignedRecord) (spaced : Bool) :
    readLines S (splitInclusive isNewline (r.bytes spaced)) = .ok [r.rust int] := by
  have hprintable := r.printable_text spaced
  have hnewline : '\n' ∉ (r.text spaced).map Char.ofNat := char_not_mem hprintable (by decide)
  have hreturn : ((r.text spaced).map Char.ofNat).getLast? ≠ some '\r' :=
    fun h => char_not_mem hprintable (by decide) (List.mem_of_getLast? h)
  have hblank : isBlank isWhitespace ((r.text spaced).map Char.ofNat) = false := by
    obtain ⟨t, ht⟩ := r.text_eq_cons spaced
    rw [ht, List.map_append, List.map_cons, List.cons_append]
    exact isBlank_cons (by decide)
  have hread : S.fromStr ((r.text spaced).map Char.ofNat) =
      some (r.written.transform id (rustNumber int) id) :=
    hS.reads spaced r.written r.depth_written
  rw [SignedRecord.bytes, splitInclusive_lineBytes hnewline, readLines, lineBytes, decodeUtf8_utf8]
  dsimp only
  rw [stripNewline_concat hreturn, hblank, hread, Option.bind_some, ofDoc_written]
  rfl

/-- Rust reads the records of the file. -/
theorem readRecords_fileBytes (hS : S.Documented int) {file : Option (List UInt8)}
    {lines : List (Bool × SignedRecord)} (h : file.getD [] = fileBytes lines) :
    readRecords S file = .ok (lines.map fun l => l.2.rust int) := by
  have hfile : readRecords S file = readLines S (splitInclusive isNewline (file.getD [])) := by
    cases file <;> rfl
  rw [hfile, h]
  clear hfile h
  induction lines with
  | nil => rfl
  | cons l lines ih =>
    have hterm : Terminated isNewline (l.2.bytes l.1) := terminated_lineBytes _
    rw [fileBytes, List.flatMap_cons, splitInclusive_append hterm, readLines_append,
      readLines_bytes hS]
    show (readLines _ (splitInclusive isNewline (fileBytes lines))).map _ = _
    rw [ih]
    rfl

theorem SerdeJson.documented_integers : SerdeJson.integers.Documented Subtype.val where
  prints := SerdeJson.printsIntegers_integers
  reads spaced d _ := by
    show Json.parse SerdeJson.reader (((render SerdeJson.codec spaced
      (d.transform id number id)).map Char.ofNat).map Char.toNat) = _
    have htwice : d.transform id (rustNumber Subtype.val) id = d.transform id number id := rfl
    rw [SerdeJson.toNat_ofNat_render, SerdeJson.lawful_codec.parse_render, transform_id, htwice]

end Rust

/-! ## Python -/

/-- The text of the file. -/
def fileText (lines : List (Bool × SignedRecord)) : Text :=
  lines.flatMap fun l => l.2.text l.1 ++ [0x0A]

theorem SignedRecord.nodup_written (r : SignedRecord) :
    r.written.Within (fun _ => True) List.Nodup := by
  have h := r.nodup_doc
  rw [CommonRecord.doc_eq, within_obj] at h
  rw [written, within_obj]
  constructor
  · rw [CommonRecord.fields]
    cases r.rationale with
    | none =>
      exact (by decide :
        ["ts", "event", "actor", "inputs", "sources", "prev_sig", "sig"].Nodup)
    | some s =>
      exact (by decide :
        ["ts", "event", "actor", "inputs", "sources", "rationale", "prev_sig", "sig"].Nodup)
  · intro m hm
    rcases List.mem_append.1 hm with hm | hm
    · exact h.2 m hm
    · rw [List.mem_singleton.1 hm]
      exact ⟨trivial, trivial⟩

namespace Python

theorem transform_written (r : SignedRecord) :
    r.written.transform utf16 number id = .obj r.python := by
  rw [SignedRecord.written, transform_obj, SignedRecord.python, CommonRecord.fields,
    CommonRecord.pythonRecord]
  cases r.rationale <;> rfl

theorem nodup_python (r : SignedRecord) :
    (Json.obj r.python).Within (fun _ => True) List.Nodup := by
  rw [← transform_written]
  exact r.nodup_written.rename utf16_injective (fun _ => within_num _) fun _ h =>
    ⟨h, List.Subset.refl _⟩

theorem loads_text (r : SignedRecord) (spaced : Bool) :
    loads Numerals.integers (r.text spaced) = .ok (.obj r.python) := by
  rw [r.text_eq_ascii, transform_written, loads_render Numerals.lawful_integers]
  exact congrArg _ ((nodup_python r).transform_eq_self fun _ => assignAll_eq_self)

/-- Python reads the records of the file. -/
theorem readRecords_fileText {file : Option Text} {lines : List (Bool × SignedRecord)}
    (h : file.getD [] = fileText lines) :
    readRecords Numerals.integers file = .ok (lines.map fun l => .obj l.2.python) := by
  have hfile : readRecords Numerals.integers file =
      readRecords Numerals.integers (some (file.getD [])) := by
    cases file <;> rfl
  have hunlines : fileText lines = unlines (lines.map fun l => l.2.text l.1) := by
    rw [unlines, List.flatMap_map]
    rfl
  have hlines : recordLines (fileText lines) = lines.map fun l => l.2.text l.1 := by
    rw [hunlines]
    apply recordLines_unlines
    · intro t ht c hc
      obtain ⟨l, -, rfl⟩ := List.mem_map.1 ht
      have := l.2.printable_text l.1 c hc
      unfold isLineBreak
      simp only [Bool.or_eq_false_iff, Bool.and_eq_false_iff, decide_eq_false_iff_not,
        beq_eq_false_iff_ne]
      omega
    · intro t ht
      obtain ⟨l, -, rfl⟩ := List.mem_map.1 ht
      exact isBlank_of_loads (loads_text l.2 l.1)
  rw [hfile, h, readRecords_some, hlines, mapM_eq_ok_iff, List.map_map, List.map_map]
  refine List.map_congr_left fun l _ => ?_
  rw [Function.comp_apply, loads_text, Function.comp_apply]

end Python

/-! ## TypeScript -/

namespace TypeScript

theorem fields_typescript (r : SignedRecord) :
    (r.fields ++ [("sig", Json.str r.sig)]).map
      (fun m : String × Json String SafeInt => (utf16 m.1, m.2.transform utf16 number ownOrder)) =
        r.typescript := by
  rw [SignedRecord.typescript, CommonRecord.fields, CommonRecord.typescriptRecord]
  cases r.rationale <;> rfl

theorem ownOrder_typescript (r : SignedRecord) : ownOrder r.typescript = r.typescript := by
  rw [ownOrder, sortMembers_eq_self, SignedRecord.typescript, CommonRecord.typescriptRecord]
  cases r.rationale with
  | none =>
    exact (by decide +kernel : (["ts", "event", "actor", "inputs", "sources", "prev_sig",
      "sig"].map utf16).Pairwise fun k k' => indexRank k ≤ indexRank k')
  | some s =>
    exact (by decide +kernel : (["ts", "event", "actor", "inputs", "sources", "rationale",
      "prev_sig", "sig"].map utf16).Pairwise fun k k' => indexRank k ≤ indexRank k')

theorem parse_text (r : SignedRecord) (spaced : Bool) :
    parse Numerals.integers (r.text spaced) = .ok (.obj r.typescript) := by
  have hparse : Json.parse Numerals.integers.reader (r.text spaced) =
      some ((r.written.transform utf16 number id).transform id .num id) := by
    rw [r.text_eq_ascii]
    exact Numerals.lawful_integers.asciiCodec.parse_render spaced _
  have hown : (r.written.transform utf16 number id).transform id .num
      (fun ms => ownOrder (assignAll ms)) = r.written.transform utf16 number ownOrder := by
    refine (transform_transform (fun _ => rfl) r.written).trans ?_
    exact transform_congr utf16_injective (fun ms h => congrArg ownOrder (assignAll_eq_self h))
      r.nodup_written
  have hobj : r.written.transform utf16 number ownOrder = .obj r.typescript := by
    rw [SignedRecord.written, transform_obj, fields_typescript, ownOrder_typescript]
  rw [parse, hparse, transform_id]
  dsimp only
  rw [hown, hobj]

theorem loadLines_text (r : SignedRecord) (spaced : Bool) :
    loadLines Numerals.integers (splitInclusive isNewline (r.text spaced ++ [0x0A])) =
      .ok [.obj r.typescript] := by
  have hline : ∀ c ∈ r.text spaced, isNewline c = false := by
    intro c hc
    have := r.printable_text spaced c hc
    exact beq_false_of_ne (by omega)
  have hblank : isBlank isSpace (r.text spaced) = false := by
    obtain ⟨t, ht⟩ := r.text_eq_cons spaced
    rw [ht, List.cons_append]
    exact isBlank_cons (by decide)
  have hlast : (r.text spaced ++ [0x0A]).getLast?.any isNewline = true := by
    rw [List.getLast?_concat]
    rfl
  rw [splitInclusive_line hline (by decide), loadLines, if_pos hlast, List.dropLast_concat, hblank,
    if_neg Bool.false_ne_true, parse_text]
  rfl

theorem linked_typescript (r : SignedRecord) : Linked r.typescript :=
  ⟨⟨_, r.lookup_typescript.1⟩, ⟨_, r.lookup_typescript.2⟩⟩

/-- TypeScript reads the records of the file. -/
theorem holds_fileText {file : Option Text} {lines : List (Bool × SignedRecord)}
    (h : file.getD [] = fileText lines) :
    Holds Numerals.integers file (lines.map fun l => l.2.typescript) := by
  have hterm : ∀ r : SignedRecord, ∀ spaced, Terminated isNewline (r.text spaced ++ [0x0A]) :=
    fun _ _ => terminated_concat (by decide)
  refine ⟨?_, ?_, ?_⟩
  · rw [readRecords, parseLines, h]
    clear h
    induction lines with
    | nil => rfl
    | cons l lines ih =>
      rw [fileText, List.flatMap_cons, splitInclusive_append (hterm l.2 l.1), loadLines_append,
        loadLines_text, ← fileText, ih]
      rfl
  · rw [h]
    clear h
    induction lines with
    | nil => exact terminated_nil
    | cons l lines ih => exact terminated_append (hterm l.2 l.1) ih
  · intro rec hrec
    obtain ⟨l, -, rfl⟩ := List.mem_map.1 hrec
    exact linked_typescript l.2

end TypeScript

/-! ## Signatures -/

namespace CommonRecord

variable {r : CommonRecord} (h : r.doc.Within IsAscii Ordered) {ν F : Type}
  {S : Rust.SerdeJson ν F} {int : SafeInt → ν} (hS : S.PrintsIntegers int)
include h hS

/-- Python signs the bytes that Rust signs. -/
theorem pythonBytes_record :
    encodeUtf8 (Python.canonicalJson Numerals.integers (.obj (Python.payloadOf r.pythonRecord))) =
      r.rustBytes S int := by
  have hascii : r.doc.Within IsAscii fun _ => True := h.mono (fun _ h => h) fun _ _ => trivial
  have hbytes := r.pythonBytes_eq
  rw [pythonBytes, Python.signingPayload_of_hasFields r.hasFields_pythonRecord] at hbytes
  rw [r.rustBytes_eq hS, ← render_pythonDoc r.nodup_doc hascii]
  exact Except.ok.inj hbytes

/-- So does TypeScript. -/
theorem typescriptBytes_record :
    encodeUnits (TypeScript.canonicalJson Numerals.integers
      (.obj (TypeScript.signingPayload r.typescriptRecord))) = r.rustBytes S int := by
  have hascii : r.doc.Within IsAscii fun _ => True := h.mono (fun _ h => h) fun _ _ => trivial
  rw [r.rustBytes_eq hS, ← render_pythonDoc r.nodup_doc hascii,
    ← (typescriptDoc_eq_iff r.nodup_doc hascii).2 h, ← encodeUnits_typescriptDoc hascii,
    ← r.typescriptBytes_eq]
  rfl

end CommonRecord

namespace SignedRecord

variable (r : SignedRecord) (hmac : Hmac) (key : String) {ν F : Type} {S : Rust.SerdeJson ν F}
  {int : SafeInt → ν} (hS : S.PrintsIntegers int)

theorem lookup_python_of_ne {k : String} (hk : k ≠ "sig") :
    lookup (utf16 k) r.python = lookup (utf16 k) r.pythonRecord := by
  rw [python, lookup_append, lookup_cons, if_neg (utf16_injective.ne hk), lookup_nil,
    Option.or_none]

theorem hasFields_python : Python.HasFields r.python := by
  intro k hk
  have hne : k ≠ "sig" := by
    rintro rfl
    exact absurd hk (by decide)
  rw [r.lookup_python_of_ne hne]
  exact r.hasFields_pythonRecord k hk

include hS in
theorem pythonBytes_python :
    encodeUtf8 (Python.canonicalJson Numerals.integers (.obj (Python.payloadOf r.python))) =
      r.rustBytes S int := by
  have hpayload : Python.canonical (Python.payloadOf r.python) =
      Python.canonical (Python.payloadOf r.pythonRecord) := by
    refine Python.canonical_eq_iff.2 fun k hk => ?_
    have hne : k ≠ "sig" := by
      rintro rfl
      exact absurd hk (by decide)
    rw [Python.get, Python.get, r.lookup_python_of_ne hne]
  rw [← CommonRecord.pythonBytes_record r.portable hS]
  exact congrArg (fun v => encodeUtf8 (render Numerals.integers.asciiCodec false v)) hpayload

include hS in
theorem typescriptBytes_typescript :
    encodeUnits (TypeScript.canonicalJson Numerals.integers
      (.obj (TypeScript.signingPayload r.typescript))) = r.rustBytes S int := by
  have hpayload : TypeScript.signingPayload r.typescript =
      TypeScript.signingPayload r.typescriptRecord := by
    refine TypeScript.signingPayload_congr fun k hk => ?_
    have hne : k ≠ "sig" := by
      rintro rfl
      exact absurd hk (by decide)
    rw [typescript, lookup_append, lookup_cons, if_neg (utf16_injective.ne hne), lookup_nil,
      Option.or_none]
  rw [hpayload, CommonRecord.typescriptBytes_record r.portable hS]

include hS in
/-- Python computes the signature that Rust computes. -/
theorem sign_python :
    Python.sign Numerals.integers hmac key r.python =
      .ok (utf16 (Rust.sign S hmac key (r.rust int))) := by
  rw [Python.sign, Python.signingPayload_of_hasFields r.hasFields_python]
  show Except.ok (Python.signPayload Numerals.integers hmac key (Python.payloadOf r.python)) = _
  rw [Python.signPayload, r.pythonBytes_python hS]
  rfl

include hS in
/-- So does TypeScript. -/
theorem sign_typescript :
    TypeScript.sign Numerals.integers hmac key r.typescript =
      utf16 (Rust.sign S hmac key (r.rust int)) := by
  rw [TypeScript.sign, r.typescriptBytes_typescript hS]
  rfl

end SignedRecord

end Resilience
