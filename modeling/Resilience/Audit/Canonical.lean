import Resilience.Foundations.Json.Arrangement
import Resilience.Python.AuditLedger
import Resilience.Rust.AuditLedger
import Resilience.TypeScript.Canonical

/-!
# The bytes that the three ports sign

One record, handed to each port in its own types, and the bytes over which each port computes the
signature. Values are JSON whose integers are exact in all three languages.

The encodings differ in two ways. Python escapes every character beyond `~`, the others none of
them; and JavaScript puts integer keys first and loses `__proto__`, the others sort by code points.
`canonical_bytes_eq_iff` says that these are the only ones.
-/

namespace Resilience

open Json

/-! ## Records -/

/-- The integers that a JavaScript number holds exactly. -/
abbrev SafeInt := { n : ℤ // n.natAbs < 2 ^ 53 }

/-- A JSON value; no object has a key twice. -/
abbrev Plain := { v : Json String SafeInt // v.Within (fun _ => True) List.Nodup }

/-- A record before it is signed, without `confidence`. -/
structure CommonRecord where
  ts : String
  event : String
  actor : String
  inputs : Plain
  sources : Plain
  rationale : Option String := none
  prevSig : String

def number {σ : Type} (n : SafeInt) : Json σ ℤ := .num n

/-- An integer, as a number of `serde_json`. -/
def rustNumber {ν : Type} (int : SafeInt → ν) (n : SafeInt) : Rust.Doc ν := .num (int n)

/-- `serde_json` prints what has no other numbers without spaces, in decimal, and with the escapes
that JSON prescribes. -/
def Rust.SerdeJson.PrintsIntegers {ν F : Type} (S : Rust.SerdeJson ν F) (int : SafeInt → ν) :
    Prop :=
  ∀ d : Json String SafeInt, S.toString (d.transform id (rustNumber int) id) =
    (render Rust.SerdeJson.codec false (d.transform id number id)).map Char.ofNat

theorem Rust.SerdeJson.printsIntegers_integers :
    Rust.SerdeJson.integers.PrintsIntegers Subtype.val := fun _ => rfl

namespace CommonRecord

variable (r : CommonRecord) {ν F : Type}

/-- The payload of the record. -/
def doc : Json String SafeInt :=
  .obj ([("ts", .str r.ts), ("event", .str r.event), ("actor", .str r.actor),
      ("inputs", r.inputs.1), ("sources", r.sources.1)] ++
    (match r.rationale with
      | some s => [("rationale", .str s)]
      | none => []) ++
    [("prev_sig", .str r.prevSig)])

def rustRecord (int : SafeInt → ν) : Rust.AuditRecord ν F where
  ts := r.ts
  event := r.event
  actor := r.actor
  inputs := .ofDoc (r.inputs.1.transform id (rustNumber int) id)
  sources := .ofDoc (r.sources.1.transform id (rustNumber int) id)
  confidence := none
  rationale := r.rationale
  prevSig := r.prevSig
  sig := ""

/-- What `sign` gives to the HMAC. -/
def rustBytes (S : Rust.SerdeJson ν F) (int : SafeInt → ν) : List UInt8 :=
  utf8 (S.toString (Rust.signingPayload S (r.rustRecord int)).doc)

def pythonRecord : Python.Items ℤ :=
  [(utf16 "ts", .str (utf16 r.ts)), (utf16 "event", .str (utf16 r.event)),
    (utf16 "actor", .str (utf16 r.actor)), (utf16 "inputs", r.inputs.1.transform utf16 number id),
    (utf16 "sources", r.sources.1.transform utf16 number id)] ++
  (match r.rationale with
    | some s => [(utf16 "rationale", .str (utf16 s))]
    | none => []) ++
  [(utf16 "prev_sig", .str (utf16 r.prevSig))]

/-- What `_sign` gives to the HMAC. -/
def pythonBytes : Except Python.PyError (List UInt8) :=
  (Python.signingPayload r.pythonRecord).map fun payload =>
    encodeUtf8 (Python.canonicalJson Numerals.integers (.obj payload))

def typescriptRecord : TypeScript.Members ℤ :=
  [(utf16 "ts", .str (utf16 r.ts)), (utf16 "event", .str (utf16 r.event)),
    (utf16 "actor", .str (utf16 r.actor)),
    (utf16 "inputs", r.inputs.1.transform utf16 number TypeScript.ownOrder),
    (utf16 "sources", r.sources.1.transform utf16 number TypeScript.ownOrder)] ++
  (match r.rationale with
    | some s => [(utf16 "rationale", .str (utf16 s))]
    | none => []) ++
  [(utf16 "prev_sig", .str (utf16 r.prevSig))]

/-- What `sign` gives to the HMAC. -/
def typescriptBytes : List UInt8 :=
  encodeUnits (TypeScript.canonicalJson Numerals.integers
    (.obj (TypeScript.signingPayload r.typescriptRecord)))

end CommonRecord

/-! ## Maps -/

namespace Rust

theorem mapInsert_map {α β : Type} (f : α → β) (k : String) (v : α) (ms : List (String × α)) :
    mapInsert k (f v) (ms.map fun m => (m.1, f m.2)) =
      (mapInsert k v ms).map fun m => (m.1, f m.2) := by
  induction ms with
  | nil => rfl
  | cons m ms ih =>
    rw [List.map_cons, mapInsert, mapInsert, ih]
    split_ifs <;> rfl

theorem btreeMap_map {α β : Type} (f : α → β) (ms : List (String × α)) :
    btreeMap (ms.map fun m => (m.1, f m.2)) =
      (btreeMap ms).map fun m => (m.1, f m.2) := by
  suffices ∀ acc : List (String × α),
      (ms.map fun m => (m.1, f m.2)).foldl (fun m kv => mapInsert kv.1 kv.2 m)
          (acc.map fun m => (m.1, f m.2)) =
        (ms.foldl (fun m kv => mapInsert kv.1 kv.2 m) acc).map fun m => (m.1, f m.2) from
    this []
  induction ms with
  | nil => exact fun acc => rfl
  | cons m ms ih =>
    intro acc
    rw [List.map_cons, List.foldl_cons, List.foldl_cons]
    dsimp only
    rw [mapInsert_map, ih]

/-- Members as a `BTreeMap` keeps them. -/
def btreeArrangement : Arrangement String where
  apply ms := btreeMap ms
  map_snd f ms := btreeMap_map f ms
  perm h := btreeMap_perm h

end Rust

/-! ## Canonical documents -/

/-- The document that Rust prints. -/
def rustDoc (v : Json String SafeInt) : Json String ℤ := v.transform id number Rust.btreeMap

/-- The document that Python prints. -/
def pythonDoc (v : Json String SafeInt) : Json Units ℤ :=
  sortKeys Python.rank (v.transform utf16 number id)

/-- The document that TypeScript prints. -/
def typescriptDoc (v : Json String SafeInt) : Json Units ℤ :=
  TypeScript.sortKeys (v.transform utf16 number TypeScript.ownOrder)

/-- No character beyond `~`. -/
def IsAscii (s : String) : Prop := ∀ c ∈ s.toList, c.toNat ≤ 0x7E

/-- The keys of an object, where array indices come first, and in order, as text too. -/
def Ordered (ks : List String) : Prop :=
  "__proto__" ∉ ks ∧ ∀ k ∈ ks, ∀ k' ∈ ks, k < k' →
    TypeScript.indexRank (utf16 k) ≤ TypeScript.indexRank (utf16 k')

instance (s : String) : Decidable (IsAscii s) := inferInstanceAs (Decidable (∀ c ∈ _, _))

instance (ks : List String) : Decidable (Ordered ks) := inferInstanceAs (Decidable (_ ∧ _))

section Order

theorem map_lt_map_iff {α β : Type} [LinearOrder α] [LinearOrder β] {f : α → β} (hf : StrictMono f)
    {as bs : List α} : as.map f < bs.map f ↔ as < bs := by
  induction as generalizing bs with
  | nil => cases bs <;> simp
  | cons a as ih =>
    cases bs with
    | nil => simp
    | cons b bs => simp [List.cons_lt_cons_iff, hf.lt_iff_lt, hf.injective.eq_iff, ih]

/-- Strings are ordered by their code points. -/
theorem rank_utf16_lt {s t : String} : Python.rank (utf16 s) < Python.rank (utf16 t) ↔ s < t := by
  have hmono : StrictMono Char.toNat := fun _ _ h => h
  rw [Python.rank, Python.rank, joinSurrogates_utf16, joinSurrogates_utf16, map_lt_map_iff hmono,
    String.lt_iff_toList_lt]

theorem rank_utf16_injective : Function.Injective fun s => Python.rank (utf16 s) := by
  intro s t h
  dsimp only at h
  rw [Python.rank, Python.rank, joinSurrogates_utf16, joinSurrogates_utf16] at h
  have hinj : Function.Injective Char.toNat := fun _ _ hc => Char.toNat_inj.1 hc
  exact String.toList_inj.1 (List.map_injective_iff.2 hinj h)

theorem codes_utf16_of_isAscii {s : String} (h : IsAscii s) :
    codes (utf16 s) = s.toList.map Char.toNat := by
  rw [codes_utf16, ← List.flatMap_map]
  apply flatMap_toUnits
  intro n hn
  obtain ⟨c, hc, rfl⟩ := List.mem_map.1 hn
  have := h c hc
  omega

theorem codes_eq_rank {s : String} (h : IsAscii s) : codes (utf16 s) = Python.rank (utf16 s) := by
  rw [codes_utf16_of_isAscii h, Python.rank, joinSurrogates_utf16]

end Order

section Documents

/-- Rust and Python print the same document. -/
theorem rustDoc_utf16 {v : Json String SafeInt} (h : v.Within (fun _ => True) List.Nodup) :
    (rustDoc v).transform utf16 .num id = pythonDoc v := by
  induction v using Json.ind with
  | arr xs ih =>
    rw [within_arr] at h
    simp only [rustDoc, pythonDoc, sortKeys, transform_arr, List.map_map, Json.arr.injEq]
    exact List.map_congr_left fun x hx => ih x hx (h x hx)
  | obj ms ih =>
    rw [within_obj] at h
    have hmembers : (ms.map fun m => (m.1, rustDoc m.2)).map
        (fun m => (utf16 m.1, m.2.transform utf16 .num id)) =
          (ms.map fun m => (utf16 m.1, m.2.transform utf16 number id)).map
            fun m => (m.1, sortKeys Python.rank m.2) := by
      rw [List.map_map, List.map_map]
      exact List.map_congr_left fun m hm => Prod.ext rfl (ih m hm (h.2 m hm).2)
    have hkeys : ((ms.map fun m => (m.1, rustDoc m.2)).map Prod.fst).Nodup := by
      rw [List.map_map]
      exact h.1
    have hperm := (Rust.btreeMap_perm hkeys).map
      fun m => (utf16 m.1, m.2.transform utf16 (.num : ℤ → Json Units ℤ) id)
    rw [hmembers] at hperm
    rw [pythonDoc, rustDoc, transform_obj, transform_obj, transform_obj, sortKeys_obj]
    refine congrArg Json.obj ?_
    apply eq_of_perm_of_sorted Python.rank (hperm.trans (sortMembers_perm Python.rank _).symm)
    · rw [List.map_map]
      have hnodup := ((Rust.btreeMap_perm hkeys).map Prod.fst).nodup_iff.2 hkeys
      have := (List.nodup_map_iff rank_utf16_injective).2 hnodup
      rwa [List.map_map] at this
    · rw [List.map_map, List.pairwise_map]
      have hsorted := Rust.sortedKeys_btreeMap (ms.map fun m => (m.1, rustDoc m.2))
      rw [Rust.SortedKeys, List.pairwise_map] at hsorted
      exact hsorted.imp fun hlt => (rank_utf16_lt.2 hlt).le
    · exact pairwise_sortMembers Python.rank _
  | _ => rfl

theorem nodup_utf16 {α : Type} {ms : List (String × Json String SafeInt)}
    (h : (ms.map Prod.fst).Nodup) (f : Json String SafeInt → α) :
    ((ms.map fun m => (utf16 m.1, f m.2)).map Prod.fst).Nodup := by
  have hnodup := (List.nodup_map_iff utf16_injective).2 h
  rw [List.map_map] at hnodup ⊢
  exact hnodup

/-- The members of an object that TypeScript prints. -/
theorem typescriptDoc_obj {ms : List (String × Json String SafeInt)} (h : (ms.map Prod.fst).Nodup) :
    typescriptDoc (.obj ms) =
      .obj (TypeScript.reassigned (ms.map fun m => (utf16 m.1, typescriptDoc m.2))) := by
  have hperm := sortMembers_perm TypeScript.indexRank
    (ms.map fun m => (utf16 m.1, typescriptDoc m.2))
  rw [typescriptDoc, transform_obj, TypeScript.sortKeys_obj, TypeScript.ownOrder, ← sortMembers_map,
    List.map_map]
  refine congrArg Json.obj (TypeScript.reassigned_congr hperm ?_)
  exact (hperm.map Prod.fst).nodup_iff.2 (nodup_utf16 h typescriptDoc)

/-- ASCII keys, as JavaScript strings. -/
theorem ordered_iff {ks : List String} (hascii : ∀ k ∈ ks, IsAscii k) :
    TypeScript.KeysOrderly (ks.map utf16) ↔ Ordered ks := by
  have hlt : ∀ k ∈ ks, ∀ k' ∈ ks, codes (utf16 k) < codes (utf16 k') ↔ k < k' := by
    intro k hk k' hk'
    rw [codes_eq_rank (hascii k hk), codes_eq_rank (hascii k' hk'), rank_utf16_lt]
  simp only [TypeScript.KeysOrderly, Ordered, List.mem_map_of_injective utf16_injective,
    List.forall_mem_map]
  refine and_congr_right fun _ => forall₂_congr fun k hk => forall₂_congr fun k' hk' => ?_
  rw [hlt k hk k' hk']

theorem reassigned_eq_iff {α : Type} {ms : List (String × Json String SafeInt)}
    (hnodup : (ms.map Prod.fst).Nodup) (hascii : ∀ m ∈ ms, IsAscii m.1)
    (f g : Json String SafeInt → α) :
    TypeScript.reassigned (ms.map fun m => (utf16 m.1, f m.2)) =
        sortMembers Python.rank (ms.map fun m => (utf16 m.1, g m.2)) ↔
      Ordered (ms.map Prod.fst) ∧ ∀ m ∈ ms, f m.2 = g m.2 := by
  have hsame : sortMembers Python.rank (ms.map fun m => (utf16 m.1, g m.2)) =
      sortMembers codes (ms.map fun m => (utf16 m.1, g m.2)) := by
    apply sortMembers_rank_congr
    intro m hm n hn
    obtain ⟨m', hm', rfl⟩ := List.mem_map.1 hm
    obtain ⟨n', hn', rfl⟩ := List.mem_map.1 hn
    rw [codes_eq_rank (hascii m' hm'), codes_eq_rank (hascii n' hn')]
  have hiff := TypeScript.reassigned_eq_sortMembers_iff (nodup_utf16 hnodup id) f g
  simp only [List.map_map, List.forall_mem_map] at hiff
  rw [hsame, ← ordered_iff (List.forall_mem_map.2 hascii), List.map_map]
  exact hiff

/-- TypeScript prints another document, when keys are out of order there. -/
theorem typescriptDoc_eq_iff {v : Json String SafeInt}
    (hnodup : v.Within (fun _ => True) List.Nodup)
    (hascii : v.Within IsAscii fun _ => True) :
    typescriptDoc v = pythonDoc v ↔ v.Within IsAscii Ordered := by
  induction v using Json.ind with
  | str s => exact iff_of_true rfl hascii
  | arr xs ih =>
    rw [within_arr] at hnodup hascii
    simp only [typescriptDoc, pythonDoc, TypeScript.sortKeys, sortKeys, transform_arr, List.map_map,
      Json.arr.injEq, List.map_inj_left, within_arr]
    exact forall₂_congr fun x hx => ih x hx (hnodup x hx) (hascii x hx)
  | obj ms ih =>
    rw [within_obj] at hnodup hascii
    have hmembers : ∀ m ∈ ms, typescriptDoc m.2 = pythonDoc m.2 ↔
        IsAscii m.1 ∧ m.2.Within IsAscii Ordered := by
      intro m hm
      rw [ih m hm (hnodup.2 m hm).2 (hascii.2 m hm).2]
      exact (and_iff_right (hascii.2 m hm).1).symm
    have hpython : pythonDoc (.obj ms) =
        .obj (sortMembers Python.rank (ms.map fun m => (utf16 m.1, pythonDoc m.2))) := by
      rw [pythonDoc, transform_obj, sortKeys_obj, id, List.map_map]
      rfl
    rw [typescriptDoc_obj hnodup.1, hpython, Json.obj.injEq, within_obj,
      reassigned_eq_iff hnodup.1 fun m hm => (hascii.2 m hm).1]
    exact and_congr_right fun _ => forall₂_congr hmembers
  | _ => exact iff_of_true rfl trivial

end Documents

/-! ## Texts -/

section Texts

theorem quoteAscii_utf16 {s : String} (h : IsAscii s) :
    quoteAscii (utf16 s) = quoteMinimal (s.toList.map Char.toNat) := by
  rw [quoteAscii, quoteMinimal, codes_utf16_of_isAscii h]
  refine List.flatMap_congr fun n hn => ?_
  obtain ⟨c, hc, rfl⟩ := List.mem_map.1 hn
  have := h c hc
  simp [escape, this]

theorem quoteUnits_of_le {s : Units} (h : ∀ n ∈ codes s, n ≤ 0x7E) :
    quoteUnits s = quoteAscii s := by
  rw [quoteUnits, quoteAscii]
  generalize codes s = t at h
  have hescape : ∀ n ≤ 0x7E, escapeUnit n = escape (fun n => 0x20 ≤ n && n ≤ 0x7E) n := by
    intro n hn
    have hhigh : isHigh n = false := by rw [← Bool.not_eq_true, isHigh_iff]; omega
    have hlow : isLow n = false := by rw [← Bool.not_eq_true, isLow_iff]; omega
    simp [escapeUnit, escape, hn, hhigh, hlow]
  have hwrite : writeUnits t = t.map (escape fun n => 0x20 ≤ n && n ≤ 0x7E) := by
    fun_induction writeUnits t with
    | case1 => rfl
    | case2 n => simp [hescape n (h n (by simp))]
    | case3 hi lo rest hpair ih =>
      have hhi := h hi (by simp)
      rw [Bool.and_eq_true, isHigh_iff] at hpair
      omega
    | case4 hi lo rest hpair ih =>
      rw [List.map_cons, ← ih fun n hn => h n (List.mem_cons_of_mem _ hn),
        hescape hi (h hi (by simp))]
  rw [hwrite, List.flatMap_def]

theorem isAscii_of_quoteMinimal {s : String}
    (h : ∀ c ∈ quoteMinimal (s.toList.map Char.toNat), c ≤ 0x7E) : IsAscii s := by
  intro c hc
  by_contra hlt
  have hshort : shortEscape c.toNat = none := by
    unfold shortEscape
    split_ifs <;> first | omega | rfl
  have hmem : c.toNat ∈ quoteMinimal (s.toList.map Char.toNat) := by
    refine List.mem_flatMap.2 ⟨c.toNat, List.mem_map_of_mem hc, ?_⟩
    rw [escape, hshort]
    have hraw : 0x20 ≤ c.toNat := by omega
    simp [hraw]
  exact hlt (h _ hmem)

theorem isAscii_of_rustDoc {v : Json String SafeInt} (hnodup : v.Within (fun _ => True) List.Nodup)
    (h : (rustDoc v).Within IsAscii fun _ => True) : v.Within IsAscii fun _ => True := by
  induction v using Json.ind with
  | str s => exact h
  | arr xs ih =>
    rw [rustDoc, transform_arr, within_arr] at h
    rw [within_arr] at hnodup ⊢
    exact fun x hx => ih x hx (hnodup x hx) (h _ (List.mem_map_of_mem hx))
  | obj ms ih =>
    rw [rustDoc, transform_obj, within_obj] at h
    rw [within_obj] at hnodup ⊢
    refine ⟨trivial, fun m hm => ?_⟩
    have hkeys : ((ms.map fun m => (id m.1, rustDoc m.2)).map Prod.fst).Nodup := by
      rw [List.map_map]
      exact hnodup.1
    have hmem := (Rust.btreeMap_perm hkeys).mem_iff.2 (List.mem_map_of_mem hm)
    exact ⟨(h.2 _ hmem).1, ih m hm (hnodup.2 m hm).2 (h.2 _ hmem).2⟩
  | _ => trivial

/-- Without characters beyond `~`, the texts of Rust and Python are the same. -/
theorem render_pythonDoc {v : Json String SafeInt} (hnodup : v.Within (fun _ => True) List.Nodup)
    (hascii : v.Within IsAscii fun _ => True) :
    render Numerals.integers.asciiCodec false (pythonDoc v) =
      render Rust.SerdeJson.codec false (rustDoc v) := by
  have hrust : (rustDoc v).Within IsAscii fun _ => True := by
    refine hascii.rebuild (fun _ h => h) (fun _ => within_num _) fun ms m hm => ?_
    exact Rust.mem_btreeMap hm
  rw [← rustDoc_utf16 hnodup]
  exact render_transform (fun s => quoteAscii_utf16) (fun _ => rfl) hrust

/-- Without characters beyond `~`, TypeScript writes a document as Python does. -/
theorem encodeUnits_typescriptDoc {v : Json String SafeInt}
    (hascii : v.Within IsAscii fun _ => True) :
    encodeUnits (render Numerals.integers.unitsCodec false (typescriptDoc v)) =
      encodeUtf8 (render Numerals.integers.asciiCodec false (typescriptDoc v)) := by
  have hparsed : (v.transform utf16 number TypeScript.ownOrder).Within
      (fun s => ∀ n ∈ codes s, n ≤ 0x7E) fun _ => True := by
    refine hascii.rebuild (fun s hs n hn => ?_) (fun _ => within_num _) fun ms m hm => ?_
    · rw [codes_utf16_of_isAscii hs] at hn
      obtain ⟨c, hc, rfl⟩ := List.mem_map.1 hn
      exact hs c hc
    · exact (sortMembers_perm TypeScript.indexRank ms).mem_iff.1 hm
  have hdoc : (typescriptDoc v).Within (fun s => ∀ n ∈ codes s, n ≤ 0x7E) fun _ => True := by
    refine hparsed.rebuild (fun _ h => h) (fun _ => within_num _) fun ms m hm => ?_
    have hm := (sortMembers_perm TypeScript.indexRank _).mem_iff.1 hm
    exact (sortMembers_perm codes ms).mem_iff.1 (List.mem_filter.1 hm).1
  have htext : render Numerals.integers.unitsCodec false ((typescriptDoc v).transform id .num id) =
      render Numerals.integers.asciiCodec false (typescriptDoc v) :=
    render_transform (fun s => quoteUnits_of_le) (fun _ => rfl) hdoc
  rw [transform_id] at htext
  have hjoin : ∀ t : Text, (∀ c ∈ t, 0x20 ≤ c ∧ c ≤ 0x7E) → joinSurrogates t = t := by
    intro t ht
    induction t with
    | nil => rfl
    | cons c t ih =>
      have hc := ht c (by simp)
      have hhigh : isHigh c = false := by rw [← Bool.not_eq_true, isHigh_iff]; omega
      rw [joinSurrogates_cons hhigh, ih fun c hc => ht c (List.mem_cons_of_mem _ hc)]
  rw [htext, encodeUnits, hjoin _ (Numerals.lawful_integers.printable_asciiCodec false _)]

end Texts

/-! ## Payloads -/

namespace CommonRecord

variable (r : CommonRecord)

theorem nodup_doc : r.doc.Within (fun _ => True) List.Nodup := by
  rw [doc, within_obj]
  refine ⟨?_, fun m hm => ⟨trivial, ?_⟩⟩
  · cases r.rationale with
    | none => exact (by decide : ["ts", "event", "actor", "inputs", "sources", "prev_sig"].Nodup)
    | some s =>
      exact (by decide :
        ["ts", "event", "actor", "inputs", "sources", "rationale", "prev_sig"].Nodup)
  · simp only [List.mem_append, List.mem_cons, List.not_mem_nil, or_false] at hm
    rcases hm with ((rfl | rfl | rfl | rfl | rfl) | hm) | rfl
    · trivial
    · trivial
    · trivial
    · exact r.inputs.2
    · exact r.sources.2
    · split at hm
      · rw [List.mem_singleton.1 hm]
        trivial
      · exact absurd hm List.not_mem_nil
    · trivial

theorem signingPayload_rustRecord (S : Rust.SerdeJson ν F) (int : SafeInt → ν) :
    (Rust.signingPayload S (r.rustRecord int)).doc =
      r.doc.transform id (rustNumber int) Rust.btreeMap := by
  have hvalue : ∀ v : Json String SafeInt,
      (v.transform id (rustNumber int) id).transform id .num Rust.btreeMap =
        v.transform id (rustNumber int) Rust.btreeMap :=
    fun v => transform_transform (fun _ => rfl) v
  rw [doc, transform_obj]
  cases hrationale : r.rationale <;>
    simp [Rust.signingPayload, Rust.Value.object, Rust.Value.string, Rust.Value.ofDoc, rustRecord,
      hvalue, hrationale]

theorem transform_btreeArrangement {ν' : Type} (f : SafeInt → Json String ν')
    (v : Json String SafeInt) :
    (v.arranged Rust.btreeArrangement).transform id f id = v.transform id f Rust.btreeMap := by
  refine arranged_transform Rust.btreeArrangement (fun ms => ?_) v
  show (Rust.btreeMap ms).map (fun m => m) = Rust.btreeMap (ms.map fun m => m)
  rw [List.map_id', List.map_id']

theorem rustBytes_eq {S : Rust.SerdeJson ν F} {int : SafeInt → ν} (hS : S.PrintsIntegers int) :
    r.rustBytes S int = encodeUtf8 (render Rust.SerdeJson.codec false (rustDoc r.doc)) := by
  rw [rustBytes, signingPayload_rustRecord, ← transform_btreeArrangement, hS,
    transform_btreeArrangement]
  rfl

theorem hasFields_pythonRecord : Python.HasFields r.pythonRecord := by
  intro k hk
  rw [pythonRecord, lookup_append, lookup_append]
  simp only [Python.signedFields, List.mem_cons, List.not_mem_nil, or_false] at hk
  rcases hk with rfl | rfl | rfl | rfl | rfl | rfl <;> simp [lookup_cons]

theorem payloadOf_pythonRecord : (Python.payloadOf r.pythonRecord).Perm r.pythonRecord := by
  cases h : r.rationale with
  | none =>
    simp [Python.payloadOf, Python.signedFields, Python.optionalItem, Python.get, pythonRecord, h,
      lookup_cons]
  | some s =>
    simp [Python.payloadOf, Python.signedFields, Python.optionalItem, Python.get, pythonRecord, h,
      lookup_cons, List.Perm.swap]

theorem signingPayload_typescriptRecord :
    (TypeScript.signingPayload r.typescriptRecord).Perm r.typescriptRecord := by
  cases h : r.rationale with
  | none =>
    simp [TypeScript.signingPayload, TypeScript.payloadFields, typescriptRecord, h, lookup_cons]
  | some s =>
    simp [TypeScript.signingPayload, TypeScript.payloadFields, typescriptRecord, h, lookup_cons,
      List.Perm.swap]

theorem pythonBytes_eq :
    r.pythonBytes =
      .ok (encodeUtf8 (render Numerals.integers.asciiCodec false (pythonDoc r.doc))) := by
  have hsorted :
      sortKeys Python.rank (.obj (Python.payloadOf r.pythonRecord)) = pythonDoc r.doc := by
    have hdoc : r.doc.transform utf16 number id = .obj r.pythonRecord := by
      rw [doc, transform_obj, pythonRecord]
      cases r.rationale <;> rfl
    rw [pythonDoc, hdoc, sortKeys_obj, sortKeys_obj]
    have hranks : (r.pythonRecord.map fun m => Python.rank m.1).Nodup := by
      have hkeys := (List.nodup_map_iff rank_utf16_injective).2 ((within_obj _).1 r.nodup_doc).1
      rw [pythonRecord]
      cases h : r.rationale <;> simpa [h] using hkeys
    refine congrArg Json.obj (sortMembers_congr _ (r.payloadOf_pythonRecord.map _) ?_)
    rw [List.map_map]
    exact ((r.payloadOf_pythonRecord.map _).nodup_iff).2 hranks
  rw [pythonBytes, Python.signingPayload_of_hasFields r.hasFields_pythonRecord, ← hsorted]
  rfl

theorem typescriptBytes_eq :
    r.typescriptBytes =
      encodeUnits (render Numerals.integers.unitsCodec false (typescriptDoc r.doc)) := by
  have hsorted : TypeScript.sortKeys (.obj (TypeScript.signingPayload r.typescriptRecord)) =
      typescriptDoc r.doc := by
    have hdoc : r.doc.transform utf16 number TypeScript.ownOrder =
        .obj (TypeScript.ownOrder r.typescriptRecord) := by
      rw [doc, transform_obj, typescriptRecord]
      cases r.rationale <;> rfl
    have hperm := r.signingPayload_typescriptRecord.trans
      (sortMembers_perm TypeScript.indexRank r.typescriptRecord).symm
    rw [typescriptDoc, hdoc, TypeScript.sortKeys_obj, TypeScript.sortKeys_obj]
    refine congrArg Json.obj (TypeScript.reassigned_congr (hperm.map _) ?_)
    rw [List.map_map]
    exact TypeScript.nodup_signingPayload r.typescriptRecord
  rw [typescriptBytes, TypeScript.canonicalJson, hsorted]
  rfl

end CommonRecord

/-- **When the ports sign the same bytes.** Exactly when no string has a character beyond `~`, no
object has a key `__proto__`, and in every object the keys that are array indices come first, and in
the order of their numbers, when all keys are ordered as text. -/
theorem canonical_bytes_eq_iff {ν F : Type} (S : Rust.SerdeJson ν F) (int : SafeInt → ν)
    (hS : S.PrintsIntegers int) (r : CommonRecord) :
    (r.pythonBytes = .ok r.typescriptBytes ∧ r.rustBytes S int = r.typescriptBytes) ↔
      r.doc.Within IsAscii Ordered := by
  have hnodup := r.nodup_doc
  have hcodec : ∀ c ∈ render Rust.SerdeJson.codec false (rustDoc r.doc), c.isValidChar :=
    fun c hc => (Rust.SerdeJson.codec_render false _ c hc).1
  have hprintable := Numerals.lawful_integers.printable_asciiCodec false
  have hvalid : ∀ v, ∀ c ∈ render Numerals.integers.asciiCodec false v, c.isValidChar :=
    fun v c hc => .inl (by have := hprintable v c hc; omega)
  rw [r.pythonBytes_eq, r.rustBytes_eq hS, r.typescriptBytes_eq, Except.ok.injEq]
  constructor
  · rintro ⟨hpython, hrust⟩
    have htext := encodeUtf8_inj hcodec (hvalid _) (hrust.trans hpython.symm)
    have hascii : r.doc.Within IsAscii fun _ => True := by
      apply isAscii_of_rustDoc hnodup
      have hquote : (rustDoc r.doc).Within
          (fun s => ∀ c ∈ Rust.SerdeJson.codec.quote s, c ≤ 0x7E) fun _ => True :=
        within_of_forall_mem_render fun c hc => (hprintable _ c (htext ▸ hc)).2
      exact hquote.mono (fun s => isAscii_of_quoteMinimal) fun _ h => h
    rw [encodeUnits_typescriptDoc hascii] at hpython
    rw [← typescriptDoc_eq_iff hnodup hascii]
    exact (Lawful.render_injective Numerals.lawful_integers.asciiCodec false
      (encodeUtf8_inj (hvalid _) (hvalid _) hpython)).symm
  · intro h
    have hascii : r.doc.Within IsAscii fun _ => True := h.mono (fun _ h => h) fun _ _ => trivial
    rw [encodeUnits_typescriptDoc hascii, (typescriptDoc_eq_iff hnodup hascii).2 h,
      render_pythonDoc hnodup hascii]
    exact ⟨rfl, rfl⟩

theorem isAscii_iff_all (s : String) :
    IsAscii s ↔ s.toList.all (fun c => c.toNat ≤ 0x7E) = true := by simp [IsAscii]

theorem three_lt : (3 : ℤ).natAbs < 2 ^ 53 := by decide

/-- An object whose keys are not in order. -/
def sampleObject : Json String SafeInt :=
  .obj [("n", .num ⟨3, three_lt⟩), ("10", .arr [.bool true, .str "x"])]

theorem nodup_sampleObject : sampleObject.Within (fun _ => True) List.Nodup := by
  simp [sampleObject]

def sampleRecord : CommonRecord where
  ts := "t"
  event := "e"
  actor := "a"
  inputs := ⟨sampleObject, nodup_sampleObject⟩
  sources := ⟨.null, trivial⟩
  prevSig := ""

theorem portable_sampleRecord : sampleRecord.doc.Within IsAscii Ordered := by
  have hordered : Ordered ["ts", "event", "actor", "inputs", "sources", "prev_sig"] ∧
      Ordered ["n", "10"] := by decide +kernel
  simp [CommonRecord.doc, sampleRecord, sampleObject, isAscii_iff_all, hordered]

theorem canonical_bytes_eq_iff_object :
    sampleRecord.pythonBytes = .ok sampleRecord.typescriptBytes ∧
      sampleRecord.rustBytes Rust.SerdeJson.integers Subtype.val =
        sampleRecord.typescriptBytes :=
  (canonical_bytes_eq_iff Rust.SerdeJson.integers Subtype.val
    Rust.SerdeJson.printsIntegers_integers sampleRecord).2 portable_sampleRecord

/-- An event with an accent is signed differently in Python. -/
theorem exists_canonical_bytes_ne :
    ∃ (S : Rust.SerdeJson ℤ (Option ℤ)) (int : SafeInt → ℤ) (r : CommonRecord),
      S.PrintsIntegers int ∧
        ¬ (r.pythonBytes = .ok r.typescriptBytes ∧ r.rustBytes S int = r.typescriptBytes) := by
  refine ⟨Rust.SerdeJson.integers, Subtype.val, {
    ts := "t"
    event := "é"
    actor := "a"
    inputs := ⟨.null, trivial⟩
    sources := ⟨.null, trivial⟩
    prevSig := "" }, Rust.SerdeJson.printsIntegers_integers, ?_⟩
  decide +kernel

end Resilience
