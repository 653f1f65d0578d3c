import Resilience.Foundations.Json.Members
import Resilience.Foundations.Json.Numerals

/-!
# serde_json

What the Rust crate uses of `serde_json`, as a parameter (`SerdeJson`): compact printing, parsing,
and the passage between `f64` and `Number`. Documents keep their members in the order in which they
are written; a `Value`, whose objects are `BTreeMap`s, is a document with sorted keys.

`SerdeJson.Lawful` is what holds of all documents and all strings: an object is printed on one line
between braces, and one with a single string in it is read back. Numbers and deep documents need not
be (a number may be read as its neighbour, and nesting is limited), so that of other documents it is
asked where it is used. `integers` is an instance whose numbers are integers, and which reads all
documents back.
-/

namespace Resilience.Rust

/-- A JSON document over the numbers `ν`. -/
abbrev Doc (ν : Type) := Json String ν

/-- `serde_json`, for numbers `ν` and floating-point numbers `F`. -/
structure SerdeJson (ν F : Type) where
  /-- `to_string`. -/
  toString : Doc ν → List Char
  /-- `from_str`, up to the choice of the type that is read. -/
  fromStr : List Char → Option (Doc ν)
  /-- `Number::from_f64`: `None` for a number that is not finite. -/
  fromF64 : F → Option ν
  /-- A number read as an `f64`. -/
  asF64 : ν → F

structure SerdeJson.Lawful {ν F : Type} (S : SerdeJson ν F) : Prop where
  fromStr_member : ∀ k s, S.fromStr (S.toString (.obj [(k, .str s)])) = some (.obj [(k, .str s)])
  toString_obj : ∀ ms, ∃ body, S.toString (.obj ms) = '{' :: body ++ ['}'] ∧ '\n' ∉ body

namespace SerdeJson.Lawful

variable {ν F : Type} {S : SerdeJson ν F} (hS : S.Lawful)
include hS

theorem newline_not_mem (ms : List (String × Doc ν)) : '\n' ∉ S.toString (.obj ms) := by
  obtain ⟨body, hbody, hnl⟩ := hS.toString_obj ms
  rw [hbody]
  simpa using hnl

theorem getLast?_ne (ms : List (String × Doc ν)) : (S.toString (.obj ms)).getLast? ≠ some '\r' := by
  obtain ⟨body, hbody, -⟩ := hS.toString_obj ms
  rw [hbody, List.getLast?_concat]
  decide

end SerdeJson.Lawful

/-! ## Maps and values -/

section Map

variable {σ α : Type} [LinearOrder σ]

/-- `BTreeMap::insert`. -/
def mapInsert (k : σ) (v : α) : List (σ × α) → List (σ × α)
  | [] => [(k, v)]
  | (k', v') :: ms =>
    if k < k' then (k, v) :: (k', v') :: ms
    else if k = k' then (k, v) :: ms
    else (k', v') :: mapInsert k v ms

/-- The map that the members make, inserted in order. -/
def btreeMap (ms : List (σ × α)) : List (σ × α) :=
  ms.foldl (fun m kv => mapInsert kv.1 kv.2 m) []

/-- The keys of a map. -/
def SortedKeys (ks : List σ) : Prop := ks.Pairwise (· < ·)

theorem mem_mapInsert {k : σ} {v : α} {ms : List (σ × α)} {m : σ × α} (h : m ∈ mapInsert k v ms) :
    m = (k, v) ∨ m ∈ ms := by
  induction ms with
  | nil => exact .inl (List.mem_singleton.1 h)
  | cons m' ms ih =>
    unfold mapInsert at h
    split_ifs at h
    · exact List.mem_cons.1 h
    · exact (List.mem_cons.1 h).imp id (List.mem_cons_of_mem _)
    · rcases List.mem_cons.1 h with rfl | h
      · exact .inr (List.mem_cons_self ..)
      · exact (ih h).imp id (List.mem_cons_of_mem _)

theorem mem_btreeMap {ms : List (σ × α)} {m : σ × α} (h : m ∈ btreeMap ms) : m ∈ ms := by
  suffices ∀ acc, m ∈ ms.foldl (fun m kv => mapInsert kv.1 kv.2 m) acc → m ∈ acc ∨ m ∈ ms from
    (this [] h).resolve_left List.not_mem_nil
  clear h
  induction ms with
  | nil => exact fun acc h => .inl h
  | cons m' ms ih =>
    intro acc h
    rcases ih _ h with h | h
    · rcases mem_mapInsert h with rfl | h
      · exact .inr (List.mem_cons_self ..)
      · exact .inl h
    · exact .inr (List.mem_cons_of_mem _ h)

theorem sortedKeys_mapInsert {k : σ} {v : α} {ms : List (σ × α)}
    (h : SortedKeys (ms.map Prod.fst)) :
    SortedKeys ((mapInsert k v ms).map Prod.fst) := by
  induction ms with
  | nil => exact List.pairwise_singleton ..
  | cons m ms ih =>
    obtain ⟨hm, hms⟩ := List.pairwise_cons.1 h
    unfold mapInsert
    split_ifs with h₁ h₂
    · refine List.pairwise_cons.2 ⟨fun k' hk' => ?_, h⟩
      rcases List.mem_cons.1 hk' with rfl | hk'
      · exact h₁
      · exact h₁.trans (hm k' hk')
    · exact List.pairwise_cons.2 ⟨fun k' hk' => h₂ ▸ hm k' hk', hms⟩
    · refine List.pairwise_cons.2 ⟨fun k' hk' => ?_, ih hms⟩
      obtain ⟨m', hm', rfl⟩ := List.mem_map.1 hk'
      rcases mem_mapInsert hm' with rfl | hm'
      · exact (not_lt.1 h₁).lt_of_ne (Ne.symm h₂)
      · exact hm _ (List.mem_map_of_mem hm')

theorem sortedKeys_btreeMap (ms : List (σ × α)) : SortedKeys ((btreeMap ms).map Prod.fst) := by
  suffices ∀ acc : List (σ × α), SortedKeys (acc.map Prod.fst) →
      SortedKeys ((ms.foldl (fun m kv => mapInsert kv.1 kv.2 m) acc).map Prod.fst) from
    this [] List.Pairwise.nil
  induction ms with
  | nil => exact fun acc h => h
  | cons m ms ih => exact fun acc h => ih _ (sortedKeys_mapInsert h)

theorem mapInsert_perm {k : σ} {v : α} {ms : List (σ × α)} (h : k ∉ ms.map Prod.fst) :
    (mapInsert k v ms).Perm ((k, v) :: ms) := by
  induction ms with
  | nil => exact List.Perm.refl _
  | cons m ms ih =>
    have hne : k ≠ m.1 := fun heq => h (by simp [heq])
    rw [mapInsert, if_neg hne]
    split_ifs
    · exact List.Perm.refl _
    · refine ((ih fun hmem => h (List.mem_cons_of_mem _ hmem)).cons m).trans ?_
      exact List.Perm.swap ..

/-- A map has the members that are inserted, when their keys are different. -/
theorem btreeMap_perm {ms : List (σ × α)} (h : (ms.map Prod.fst).Nodup) :
    (btreeMap ms).Perm ms := by
  suffices ∀ acc : List (σ × α), ((acc ++ ms).map Prod.fst).Nodup →
      (ms.foldl (fun m kv => mapInsert kv.1 kv.2 m) acc).Perm (acc ++ ms) from this [] h
  clear h
  induction ms with
  | nil => exact fun acc _ => (List.append_nil acc).symm ▸ List.Perm.refl _
  | cons m ms ih =>
    intro acc h
    have hm : m.1 ∉ acc.map Prod.fst := Json.not_mem_keys_of_nodup h
    have hperm : (mapInsert m.1 m.2 acc ++ ms).Perm (acc ++ m :: ms) :=
      ((mapInsert_perm hm).append_right ms).trans List.perm_middle.symm
    refine (ih _ ?_).trans hperm
    exact ((hperm.map Prod.fst).nodup_iff).2 h

/-- Inserting a key beyond all others puts it last. -/
theorem mapInsert_eq_append {k : σ} {v : α} {ms : List (σ × α)} (h : ∀ m ∈ ms, m.1 < k) :
    mapInsert k v ms = ms ++ [(k, v)] := by
  induction ms with
  | nil => rfl
  | cons m ms ih =>
    have hm := h m (by simp)
    rw [mapInsert, if_neg hm.not_gt, if_neg hm.ne', ih fun m' hm' => h m' (by simp [hm'])]
    rfl

theorem btreeMap_eq_self {ms : List (σ × α)} (h : SortedKeys (ms.map Prod.fst)) :
    btreeMap ms = ms := by
  suffices ∀ acc : List (σ × α), SortedKeys ((acc ++ ms).map Prod.fst) →
      ms.foldl (fun m kv => mapInsert kv.1 kv.2 m) acc = acc ++ ms from this [] h
  clear h
  induction ms with
  | nil => exact fun acc _ => (List.append_nil acc).symm
  | cons m ms ih =>
    intro acc h
    have hlt : ∀ m' ∈ acc, m'.1 < m.1 := by
      intro m' hm'
      rw [List.map_append] at h
      exact (List.pairwise_append.1 h).2.2 _ (List.mem_map_of_mem hm') _ (by simp)
    rw [List.foldl_cons, mapInsert_eq_append hlt, ih]
    · simp
    · simpa using h

end Map

variable {ν F : Type}

/-- `Value`: a document whose objects are maps. -/
structure Value (ν : Type) where
  doc : Doc ν
  sorted : doc.Within (fun _ => True) SortedKeys

namespace Value

@[ext] theorem ext {v w : Value ν} (h : v.doc = w.doc) : v = w := by
  cases v
  cases w
  cases h
  rfl

instance [DecidableEq ν] : DecidableEq (Value ν) :=
  fun v w => decidable_of_iff (v.doc = w.doc) ⟨ext, congrArg doc⟩

/-- `Value::Null`. -/
def null : Value ν := ⟨.null, trivial⟩

/-- `Value::String`. -/
def string (s : String) : Value ν := ⟨.str s, trivial⟩

/-- `Value::Number`. -/
def number (n : ν) : Value ν := ⟨.num n, trivial⟩

/-- `Value::Object` of the map into which the members are inserted, in order. -/
def object (ms : List (String × Value ν)) : Value ν where
  doc := .obj (btreeMap (ms.map fun m => (m.1, m.2.doc)))
  sorted := by
    refine (Json.within_obj _).2 ⟨sortedKeys_btreeMap _, fun m hm => ⟨trivial, ?_⟩⟩
    obtain ⟨m', -, rfl⟩ := List.mem_map.1 (mem_btreeMap hm)
    exact m'.2.sorted

theorem sorted_transform (d : Doc ν) :
    (d.transform id .num btreeMap).Within (fun _ => True) SortedKeys := by
  induction d using Json.ind with
  | arr xs ih =>
    rw [Json.transform_arr, Json.within_arr]
    exact fun x hx => by
      obtain ⟨y, hy, rfl⟩ := List.mem_map.1 hx
      exact ih y hy
  | obj ms ih =>
    rw [Json.transform_obj, Json.within_obj]
    refine ⟨sortedKeys_btreeMap _, fun m hm => ⟨trivial, ?_⟩⟩
    obtain ⟨m', hm', rfl⟩ := List.mem_map.1 (mem_btreeMap hm)
    exact ih m' hm'
  | _ => trivial

/-- A document read as a `Value`. -/
def ofDoc (d : Doc ν) : Value ν := ⟨d.transform id .num btreeMap, sorted_transform d⟩

theorem toString_injective {S : SerdeJson ν F} (hread : ∀ d, S.fromStr (S.toString d) = some d) :
    Function.Injective fun v : Value ν => S.toString v.doc := by
  intro v w h
  have hparse := congrArg S.fromStr h
  dsimp only at hparse
  rw [hread, hread] at hparse
  exact ext (Option.some.inj hparse)

@[simp] theorem ofDoc_doc (v : Value ν) : ofDoc v.doc = v :=
  ext (v.sorted.transform_eq_self fun _ => btreeMap_eq_self)

end Value

/-! ## Derived deserializers -/

/-- The member `k` of a struct: absent, or there once; twice is an error. -/
def field (k : String) (ms : List (String × Doc ν)) : Option (Option (Doc ν)) :=
  match ms.filter (·.1 = k) with
  | [] => some none
  | [m] => some (some m.2)
  | _ => none

/-- A member that has to be there. -/
def required (k : String) (ms : List (String × Doc ν)) : Option (Doc ν) := (field k ms).join

/-- A member with a default. -/
def optional (k : String) (ms : List (String × Doc ν)) : Option (Doc ν) :=
  (field k ms).map fun d => d.getD .null

def asString : Doc ν → Option String
  | .str s => some s
  | _ => none

/-- `Option<String>`. -/
def asOptionString : Doc ν → Option (Option String)
  | .null => some none
  | .str s => some (some s)
  | _ => none

/-- `Option<f64>`. -/
def asOptionF64 (S : SerdeJson ν F) : Doc ν → Option (Option F)
  | .null => some none
  | .num n => some (some (S.asF64 n))
  | _ => none

/-! ## An instance -/

/-- The string that code units encode. -/
def decodeUtf16 (s : Json.Units) : Option String :=
  let cs := Json.joinSurrogates (Json.codes s)
  if ∀ c ∈ cs, c.isValidChar then some (String.ofList (cs.map Char.ofNat)) else none

theorem decodeUtf16_utf16 (s : String) : decodeUtf16 (Json.utf16 s) = some s := by
  have hvalid : ∀ c ∈ s.toList.map Char.toNat, c.isValidChar := by
    intro n hn
    obtain ⟨c, -, rfl⟩ := List.mem_map.1 hn
    exact c.valid
  have hchars : (s.toList.map Char.toNat).map Char.ofNat = s.toList := by
    rw [List.map_map]
    exact (List.map_congr_left fun c _ => Char.ofNat_toNat c).trans (List.map_id _)
  unfold decodeUtf16
  rw [Json.joinSurrogates_utf16]
  dsimp only
  rw [if_pos hvalid, hchars, String.ofList_toList]

namespace SerdeJson

/-- How strings and integers are written. -/
def codec : Json.Codec String ℤ where
  quote s := Json.quoteMinimal (s.toList.map Char.toNat)
  print := Json.printInt

def reader : Json.Reader String ℤ where
  unquote t := (Json.unquote t).bind fun r => (decodeUtf16 r.1).map fun s => (s, r.2)
  number := Json.readInt

theorem lawful_codec : Json.Lawful codec reader .num where
  unquote_quote s rest := by
    have hunits : Json.units ((s.toList.map Char.toNat).flatMap Json.toUnits) = Json.utf16 s := by
      rw [Json.utf16, List.flatMap_map]
    simp only [codec, reader, Json.unquote_quoteMinimal, hunits, Option.bind_some,
      decodeUtf16_utf16]
    rfl
  readAtom_print := Json.readAtom_printInt
  print_ne_nil := Json.printInt_ne_nil
  isAtomChar_print _ _ := Json.isAtomChar_printInt

/-- `serde_json` where all numbers are integers; `none` stands for an `f64` that is not finite. -/
def integers : SerdeJson ℤ (Option ℤ) where
  toString d := (Json.render codec false d).map Char.ofNat
  fromStr s := Json.parse reader (s.map Char.toNat)
  fromF64 := id
  asF64 := some

/-- Everything printed is a character, and no newline. -/
theorem codec_render (spaced : Bool) (d : Doc ℤ) :
    ∀ c ∈ Json.render codec spaced d, c.isValidChar ∧ c ≠ 10 := by
  refine Json.forall_mem_render (fun s c hc => ?_) (fun n c hc => ?_) (by decide +revert) d
  · obtain ⟨h₁, h₂⟩ := Json.mem_quoteMinimal hc
    refine ⟨?_, by omega⟩
    rcases h₂ with h₂ | h₂
    · exact .inl (by omega)
    · obtain ⟨c, -, rfl⟩ := List.mem_map.1 h₂
      exact c.valid
  · rcases Json.mem_printInt hc with rfl | h
    · decide
    · rw [Json.isDigit_iff] at h
      exact ⟨.inl (by omega), by omega⟩

theorem toNat_ofNat_render (spaced : Bool) (d : Doc ℤ) :
    ((Json.render codec spaced d).map Char.ofNat).map Char.toNat = Json.render codec spaced d := by
  rw [List.map_map]
  refine (List.map_congr_left fun c hc => ?_).trans (List.map_id _)
  exact Json.toNat_ofNat (codec_render spaced d c hc).1

theorem fromStr_integers (d : Doc ℤ) : integers.fromStr (integers.toString d) = some d := by
  show Json.parse reader (((Json.render codec false d).map Char.ofNat).map Char.toNat) = some d
  rw [toNat_ofNat_render, lawful_codec.parse_render, Json.transform_id]

theorem lawful_integers : integers.Lawful where
  fromStr_member _ _ := fromStr_integers _
  toString_obj ms := by
    refine ⟨(Json.renderMembers codec false ms).map Char.ofNat, ?_, ?_⟩
    · show (Json.render codec false (.obj ms)).map Char.ofNat = _
      rw [Json.render_obj, List.map_append, List.map_cons]
      rfl
    · intro h
      obtain ⟨c, hc, hc'⟩ := List.mem_map.1 h
      obtain ⟨hvalid, hne⟩ := codec_render false (.obj ms) c (by rw [Json.render_obj]; simp [hc])
      apply hne
      rw [← Json.toNat_ofNat hvalid, hc']
      rfl

end SerdeJson

end Resilience.Rust
