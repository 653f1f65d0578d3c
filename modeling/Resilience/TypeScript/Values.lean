import Resilience.Foundations.Fallible
import Resilience.TypeScript.AuditLedger

/-!
# Values that JavaScript serialises

What a caller hands to `append`: values of any kind, with members that are `undefined`, and objects
that `JSON.stringify` replaces by what their `toJSON` returns. `sortKeys` copies the own properties
of an object, so its copy has a `toJSON` method only if that is an own property; a `Date` becomes an
object without properties.

So the text that is signed for a value is not always the one for what is read back, but it is,
unless there is an object that is replaced by something else than what its copy is written as
(`canonicalJson_parse_iff`).
-/

namespace Resilience.TypeScript

open Json

variable {ν : Type}

/-- A value; objects have their own enumerable properties with string keys. -/
inductive JsValue (ν : Type)
  | undefined
  /-- A function or a symbol, which is serialised like `undefined`. -/
  | func
  | null
  | bool (b : Bool)
  | num (n : ν)
  | str (s : Units)
  | bigint
  | array (xs : List (JsValue ν))
  | object (ms : List (Units × JsValue ν))
  /-- An object `v` that is replaced: `result` is what is serialised in its place, which is what its
  `toJSON` returns or the primitive value that it wraps, and `copied` is the same for the copy that
  `sortKeys` makes, if that has a `toJSON`. -/
  | hooked (v : JsValue ν) (result copied : Option (JsValue ν))

namespace JsValue

/-! ## Recursion -/

/-- Induction with the hypothesis for all parts of a value. -/
@[elab_as_elim] theorem ind {motive : JsValue ν → Prop} (undefined : motive .undefined)
    (func : motive .func) (null : motive .null) (bool : ∀ b, motive (.bool b))
    (num : ∀ n, motive (.num n)) (str : ∀ s, motive (.str s)) (bigint : motive .bigint)
    (array : ∀ xs, (∀ x ∈ xs, motive x) → motive (.array xs))
    (object : ∀ ms, (∀ m ∈ ms, motive m.2) → motive (.object ms))
    (hooked : ∀ v result copied, motive v → (∀ r ∈ result, motive r) →
      motive (.hooked v result copied)) (v : JsValue ν) : motive v := by
  apply JsValue.rec (motive_1 := motive) (motive_2 := fun xs => ∀ x ∈ xs, motive x)
    (motive_3 := fun ms => ∀ m ∈ ms, motive m.2) (motive_4 := fun r => ∀ x ∈ r, motive x)
    (motive_5 := fun m => motive m.2)
  case undefined => exact undefined
  case func => exact func
  case null => exact null
  case bool => exact bool
  case num => exact num
  case str => exact str
  case bigint => exact bigint
  case array => exact array
  case object => exact object
  case hooked => exact fun v result copied hv hr _ => hooked v result copied hv hr
  case nil => exact fun x hx => absurd hx List.not_mem_nil
  case cons => exact fun x xs hx hxs => List.forall_mem_cons.2 ⟨hx, hxs⟩
  case nil => exact fun m hm => absurd hm List.not_mem_nil
  case cons => exact fun m ms hm hms => List.forall_mem_cons.2 ⟨hm, hms⟩
  case none => exact fun x hx => absurd hx (Option.not_mem_none x)
  case some => exact fun r hr x hx => Option.some.inj hx ▸ hr
  case mk => exact fun _ _ h => h

/-- What a recursion does at each kind of value; of an object that is replaced it has the parts
themselves, too. -/
structure Algebra (ν α : Type) where
  leaf : JsValue ν → α
  array : List α → α
  object : List (Units × α) → α
  hooked : JsValue ν × α → Option (JsValue ν × α) → Option (JsValue ν × α) → α

section Fold

variable {α : Type} (A : Algebra ν α)

mutual

def fold : JsValue ν → α
  | .undefined => A.leaf .undefined
  | .func => A.leaf .func
  | .null => A.leaf .null
  | .bool b => A.leaf (.bool b)
  | .num n => A.leaf (.num n)
  | .str s => A.leaf (.str s)
  | .bigint => A.leaf .bigint
  | .array xs => A.array (foldList xs)
  | .object ms => A.object (foldMembers ms)
  | .hooked v result copied => A.hooked (v, fold v) (foldOption result) (foldOption copied)
termination_by structural v => v

def foldList : List (JsValue ν) → List α
  | [] => []
  | x :: xs => fold x :: foldList xs
termination_by structural xs => xs

def foldMembers : List (Units × JsValue ν) → List (Units × α)
  | [] => []
  | (k, x) :: ms => (k, fold x) :: foldMembers ms
termination_by structural ms => ms

def foldOption : Option (JsValue ν) → Option (JsValue ν × α)
  | none => none
  | some v => some (v, fold v)
termination_by structural v => v

end

theorem foldList_eq (xs : List (JsValue ν)) : foldList A xs = xs.map (fold A) := by
  induction xs with
  | nil => rfl
  | cons x xs ih => rw [foldList, ih, List.map_cons]

theorem foldMembers_eq (ms : List (Units × JsValue ν)) :
    foldMembers A ms = ms.map fun m => (m.1, fold A m.2) := by
  induction ms with
  | nil => rfl
  | cons m ms ih => rw [foldMembers, ih, List.map_cons]

theorem foldOption_eq (v : Option (JsValue ν)) : foldOption A v = v.map fun v => (v, fold A v) := by
  cases v <;> rfl

theorem fold_array (xs : List (JsValue ν)) : fold A (.array xs) = A.array (xs.map (fold A)) := by
  rw [fold, foldList_eq]

theorem fold_object (ms : List (Units × JsValue ν)) :
    fold A (.object ms) = A.object (ms.map fun m => (m.1, fold A m.2)) := by
  rw [fold, foldMembers_eq]

theorem fold_hooked (v : JsValue ν) (result copied : Option (JsValue ν)) :
    fold A (.hooked v result copied) = A.hooked (v, fold A v) (result.map fun v => (v, fold A v))
      (copied.map fun v => (v, fold A v)) := by
  rw [fold, foldOption_eq, foldOption_eq]

end Fold

/-! ## JSON.stringify -/

/-- What is written for a value: as a property, after its `toJSON` is called if it has one, and
without that call. There is nothing for `undefined`. -/
structure Written (ν : Type) where
  property : Except JsError (Option (Doc ν))
  body : Except JsError (Option (Doc ν))

def Written.plain (doc : Except JsError (Option (Doc ν))) : Written ν := ⟨doc, doc⟩

def leafDoc : JsValue ν → Except JsError (Option (Doc ν))
  | .null => .ok (some .null)
  | .bool b => .ok (some (.bool b))
  | .num n => .ok (some (.num n))
  | .str s => .ok (some (.str s))
  | .bigint => .error .typeError
  | _ => .ok none

/-- The properties that are written. -/
def present (os : List (Units × Option (Doc ν))) : Members ν :=
  os.filterMap fun m => m.2.map fun d => (m.1, d)

/-- In an array, `null` is written for nothing. -/
def elements (os : List (Option (Doc ν))) : List (Doc ν) := os.map (·.getD .null)

def written : JsValue ν → Written ν :=
  fold {
    leaf := fun v => .plain (leafDoc v)
    array := fun ws => .plain ((ws.mapM Written.property).map fun os => some (.arr (elements os)))
    object := fun ms => .plain ((ms.mapM fun m : Units × Written ν => m.2.property.map (m.1, ·)).map
      fun os => some (.obj (present os)))
    hooked := fun v result _ =>
      ⟨match result with
        | none => v.2.property
        | some r => r.2.body, v.2.body⟩ }

/-- What `JSON.stringify` writes, before it is rendered as text. -/
def serialize (v : JsValue ν) : Except JsError (Option (Doc ν)) := (written v).property

/-- What `JSON.stringify` writes for what a `toJSON` returned. -/
def serializeBody (v : JsValue ν) : Except JsError (Option (Doc ν)) := (written v).body

/-- `JSON.stringify`. -/
def stringify (N : Numerals ν) (v : JsValue ν) : Except JsError (Option Text) :=
  v.serialize.map fun o => o.map (TypeScript.stringify N)

/-! ## sortKeys -/

/-- `sortKeys`. -/
def sortKeys : JsValue ν → JsValue ν :=
  fold {
    leaf := id
    array := .array
    object := fun ms => .object (reassigned ms)
    hooked := fun v _ copied =>
      match copied with
      | none => v.2
      | some c => .hooked v.2 (some c.1) (some c.1) }

/-- `canonicalJson`. -/
def canonicalJson (N : Numerals ν) (v : JsValue ν) : Except JsError (Option Text) :=
  (sortKeys v).stringify N

/-- The properties of every object have different keys, and are in their order. -/
def Own : JsValue ν → Prop :=
  fold {
    leaf := fun _ => True
    array := fun ps => ∀ h ∈ ps, h
    object := fun ms => OwnKeys (ms.map Prod.fst) ∧ ∀ m ∈ ms, m.2
    hooked := fun v result _ => v.2 ∧ ∀ r ∈ result, r.2 }

section Equations

variable (xs : List (JsValue ν)) (ms : List (Units × JsValue ν)) (v : JsValue ν)
  (result copied : Option (JsValue ν))

theorem written_array : written (.array xs) =
    .plain ((xs.mapM serialize).map fun os => some (.arr (elements os))) := by
  refine (fold_array _ xs).trans ?_
  dsimp only
  rw [List.mapM_map]
  rfl

theorem written_object : written (.object ms) =
    .plain ((ms.mapM fun m : Units × JsValue ν => m.2.serialize.map (m.1, ·)).map
      fun os => some (.obj (present os))) := by
  refine (fold_object _ ms).trans ?_
  dsimp only
  rw [List.mapM_map]
  rfl

theorem serialize_hooked_none : serialize (.hooked v none copied) = v.serialize := by
  rw [serialize, written, fold_hooked]
  rfl

theorem serialize_hooked_some (r : JsValue ν) :
    serialize (.hooked v (some r) copied) = r.serializeBody := by
  rw [serialize, written, fold_hooked]
  rfl

theorem serializeBody_hooked : serializeBody (.hooked v result copied) = v.serializeBody := by
  rw [serializeBody, written, fold_hooked]
  rfl

theorem sortKeys_array : sortKeys (.array xs) = .array (xs.map sortKeys) := fold_array _ xs

theorem sortKeys_object :
    sortKeys (.object ms) = .object (reassigned (ms.map fun m => (m.1, sortKeys m.2))) :=
  fold_object _ ms

theorem sortKeys_hooked_none : sortKeys (.hooked v result none) = sortKeys v := by
  rw [sortKeys, fold_hooked]
  rfl

theorem sortKeys_hooked_some (c : JsValue ν) :
    sortKeys (.hooked v result (some c)) = .hooked (sortKeys v) (some c) (some c) := by
  rw [sortKeys, fold_hooked]
  rfl

theorem own_array : Own (.array xs) ↔ ∀ x ∈ xs, Own x := by
  refine (iff_of_eq (fold_array _ xs)).trans ?_
  exact List.forall_mem_map

theorem own_object : Own (.object ms) ↔ OwnKeys (ms.map Prod.fst) ∧ ∀ m ∈ ms, Own m.2 := by
  refine (iff_of_eq (fold_object _ ms)).trans ?_
  refine and_congr (iff_of_eq ?_) List.forall_mem_map
  rw [List.map_map]
  rfl

theorem own_hooked : Own (.hooked v result copied) ↔ Own v ∧ ∀ r ∈ result, Own r := by
  refine (iff_of_eq (fold_hooked _ v result copied)).trans ?_
  cases result <;> simp [Own]

end Equations

/-! ## What is written for a value -/

def Serializes (v : JsValue ν) : Prop := ∃ o, v.serialize = .ok o

/-- The document that is written, if there is one. -/
def docOf (v : JsValue ν) : Option (Doc ν) := v.serialize.toOption.join

theorem serialize_eq_ok_iff (v : JsValue ν) (o : Option (Doc ν)) :
    v.serialize = .ok o ↔ v.Serializes ∧ o = v.docOf := by
  rw [Serializes, docOf]
  cases v.serialize with
  | error e => simp
  | ok o' => simp [Except.toOption, eq_comm]

theorem serialize_array_eq_ok_iff {xs : List (JsValue ν)} (o : Option (Doc ν)) :
    (array xs).serialize = .ok o ↔
      (∀ x ∈ xs, x.Serializes) ∧ o = some (.arr (elements (xs.map docOf))) := by
  have hmapM := mapM_eq_ok_iff_of_forall fun x (_ : x ∈ xs) => serialize_eq_ok_iff x
  rw [serialize, written_array, Written.plain, map_eq_ok_iff]
  constructor
  · rintro ⟨os, hos, rfl⟩
    obtain ⟨hall, rfl⟩ := (hmapM os).1 hos
    exact ⟨hall, rfl⟩
  · rintro ⟨hall, rfl⟩
    exact ⟨_, (hmapM _).2 ⟨hall, rfl⟩, rfl⟩

theorem serialize_object_eq_ok_iff {ms : List (Units × JsValue ν)} (o : Option (Doc ν)) :
    (object ms).serialize = .ok o ↔
      (∀ m ∈ ms, m.2.Serializes) ∧
        o = some (.obj (present (ms.map fun m => (m.1, m.2.docOf)))) := by
  have hmember : ∀ m ∈ ms, ∀ n, m.2.serialize.map (m.1, ·) = .ok n ↔
      m.2.Serializes ∧ n = (m.1, m.2.docOf) := by
    intro m _ n
    rw [map_eq_ok_iff]
    constructor
    · rintro ⟨o, ho, rfl⟩
      obtain ⟨hm, rfl⟩ := (serialize_eq_ok_iff _ o).1 ho
      exact ⟨hm, rfl⟩
    · rintro ⟨hm, rfl⟩
      exact ⟨_, (serialize_eq_ok_iff _ _).2 ⟨hm, rfl⟩, rfl⟩
  have hmapM := mapM_eq_ok_iff_of_forall hmember
  rw [serialize, written_object, Written.plain, map_eq_ok_iff]
  constructor
  · rintro ⟨os, hos, rfl⟩
    obtain ⟨hall, rfl⟩ := (hmapM os).1 hos
    exact ⟨hall, rfl⟩
  · rintro ⟨hall, rfl⟩
    exact ⟨_, (hmapM _).2 ⟨hall, rfl⟩, rfl⟩

theorem docOf_of_serialize {v : JsValue ν} {o : Option (Doc ν)} (h : v.serialize = .ok o) :
    v.docOf = o := ((serialize_eq_ok_iff _ o).1 h).2.symm

theorem serializes_array (xs : List (JsValue ν)) : (array xs).Serializes ↔ ∀ x ∈ xs, x.Serializes :=
  ⟨fun ⟨o, ho⟩ => ((serialize_array_eq_ok_iff o).1 ho).1,
    fun h => ⟨_, (serialize_array_eq_ok_iff _).2 ⟨h, rfl⟩⟩⟩

theorem serializes_object (ms : List (Units × JsValue ν)) :
    (object ms).Serializes ↔ ∀ m ∈ ms, m.2.Serializes :=
  ⟨fun ⟨o, ho⟩ => ((serialize_object_eq_ok_iff o).1 ho).1,
    fun h => ⟨_, (serialize_object_eq_ok_iff _).2 ⟨h, rfl⟩⟩⟩

theorem docOf_array {xs : List (JsValue ν)} (h : ∀ x ∈ xs, x.Serializes) :
    (array xs).docOf = some (.arr (elements (xs.map docOf))) :=
  docOf_of_serialize ((serialize_array_eq_ok_iff _).2 ⟨h, rfl⟩)

theorem docOf_object {ms : List (Units × JsValue ν)} (h : ∀ m ∈ ms, m.2.Serializes) :
    (object ms).docOf = some (.obj (present (ms.map fun m => (m.1, m.2.docOf)))) :=
  docOf_of_serialize ((serialize_object_eq_ok_iff _).2 ⟨h, rfl⟩)

/-- The keys that are written are keys of the object, in their order. -/
theorem ownKeys_present {ms : List (Units × JsValue ν)} (h : OwnKeys (ms.map Prod.fst)) :
    OwnKeys ((present (ms.map fun m => (m.1, m.2.docOf))).map Prod.fst) := by
  have hsub : ((present (ms.map fun m => (m.1, m.2.docOf))).map Prod.fst).Sublist
      (ms.map Prod.fst) := by
    clear h
    induction ms with
    | nil => exact List.Sublist.refl _
    | cons m ms ih =>
      cases hd : m.2.docOf with
      | none => simpa [present, hd] using ih.cons m.1
      | some d => simpa [present, hd] using ih
  exact ⟨hsub.nodup h.1, h.2.sublist hsub⟩

/-- What is written is a value as it is read. -/
theorem own_written {v : JsValue ν} (h : v.Own) :
    (∀ d, v.serialize = .ok (some d) → d.Within (fun _ => True) OwnKeys) ∧
      ∀ d, v.serializeBody = .ok (some d) → d.Within (fun _ => True) OwnKeys := by
  have hleaf : ∀ v : JsValue ν, ∀ d, leafDoc v = .ok (some d) →
      d.Within (fun _ => True) OwnKeys := by
    intro v d hd
    cases v <;> simp only [leafDoc, Except.ok.injEq, Option.some.injEq, reduceCtorEq] at hd <;>
      subst hd <;> trivial
  induction v using ind with
  | array xs ih =>
    rw [own_array] at h
    have harray : ∀ d, (array xs).serialize = .ok (some d) → d.Within (fun _ => True) OwnKeys := by
      intro d hd
      obtain ⟨hall, hd⟩ := (serialize_array_eq_ok_iff _).1 hd
      rw [Option.some.inj hd, within_arr, elements, List.map_map]
      refine List.forall_mem_map.2 fun x hx => ?_
      show (x.docOf.getD .null).Within _ _
      obtain ⟨o, ho⟩ := hall x hx
      rw [docOf_of_serialize ho]
      cases o with
      | none => trivial
      | some d => exact (ih x hx (h x hx)).1 d ho
    refine ⟨harray, fun d hd => harray d ?_⟩
    rw [← hd, serialize, serializeBody, written_array]
    rfl
  | object ms ih =>
    rw [own_object] at h
    have hobject : ∀ d, (object ms).serialize = .ok (some d) →
        d.Within (fun _ => True) OwnKeys := by
      intro d hd
      obtain ⟨hall, hd⟩ := (serialize_object_eq_ok_iff _).1 hd
      rw [Option.some.inj hd, within_obj]
      refine ⟨ownKeys_present h.1, fun n hn => ⟨trivial, ?_⟩⟩
      obtain ⟨m', hm', hn⟩ := List.mem_filterMap.1 hn
      obtain ⟨m, hm, rfl⟩ := List.mem_map.1 hm'
      obtain ⟨d', hd', rfl⟩ := Option.map_eq_some_iff.1 hn
      obtain ⟨o, ho⟩ := hall m hm
      have hdoc := docOf_of_serialize ho
      exact (ih m hm (h.2 m hm)).1 d' (by rw [ho, ← hdoc]; exact congrArg _ hd')
    refine ⟨hobject, fun d hd => hobject d ?_⟩
    rw [← hd, serialize, serializeBody, written_object]
    rfl
  | hooked v result copied ihv ihr =>
    rw [own_hooked] at h
    refine ⟨fun d hd => ?_, fun d hd => (ihv h.1).2 d (by rwa [serializeBody_hooked] at hd)⟩
    cases result with
    | none =>
      rw [serialize_hooked_none] at hd
      exact (ihv h.1).1 d hd
    | some r =>
      rw [serialize_hooked_some] at hd
      exact (ihr r rfl (h.2 r rfl)).2 d hd
  | undefined => exact ⟨hleaf .undefined, hleaf .undefined⟩
  | func => exact ⟨hleaf .func, hleaf .func⟩
  | null => exact ⟨hleaf .null, hleaf .null⟩
  | bool b => exact ⟨hleaf (.bool b), hleaf (.bool b)⟩
  | num n => exact ⟨hleaf (.num n), hleaf (.num n)⟩
  | str s => exact ⟨hleaf (.str s), hleaf (.str s)⟩
  | bigint => exact ⟨hleaf .bigint, hleaf .bigint⟩

/-! ## What is signed -/

/-- An object that is replaced, where it is found. -/
structure Hook (ν : Type) where
  inArray : Bool
  object : JsValue ν
  result : Option (JsValue ν)
  copied : Option (JsValue ν)

/-- The objects in a value that are replaced, or have a copy that is. A value under the key
`__proto__` has no copy among the properties. -/
def hooks : JsValue ν → Bool → List (Hook ν) :=
  fold {
    leaf := fun _ _ => []
    array := fun hs _ => hs.flatMap (· true)
    object := fun ms _ => (ms.filter fun m => m.1 ≠ utf16 "__proto__").flatMap (·.2 false)
    hooked := fun v result copied inArray =>
      if result.isNone && copied.isNone then v.2 inArray
      else [⟨inArray, v.1, result.map Prod.fst, copied.map Prod.fst⟩] }

/-- What is written in a place of an array, or for a property. -/
def slot (inArray : Bool) (o : Option (Doc ν)) : Option (Doc ν) :=
  if inArray then some (o.getD .null) else o

@[simp] theorem slot_some (inArray : Bool) (d : Doc ν) : slot inArray (some d) = some d := by
  cases inArray <;> rfl

/-- If something is written for a value, the same is written for its copy, up to the order of the
properties. -/
def WrittenAlike (N : Numerals ν) (inArray : Bool)
    (value copy : Except JsError (Option (Doc ν))) : Prop :=
  ∀ o, value = .ok o → ∃ o', copy = .ok o' ∧
    (slot inArray o').map (TypeScript.stringify N) =
      (slot inArray (o.map TypeScript.sortKeys)).map (TypeScript.stringify N)

/-- What is written for the object. -/
def Hook.original (h : Hook ν) : Except JsError (Option (Doc ν)) :=
  match h.result with
  | none => h.object.serialize
  | some r => r.serializeBody

/-- What is written for its copy. -/
def Hook.copy (h : Hook ν) : Except JsError (Option (Doc ν)) :=
  match h.copied with
  | none => (sortKeys h.object).serialize
  | some c => c.serializeBody

def Hook.Alike (N : Numerals ν) (h : Hook ν) : Prop := WrittenAlike N h.inArray h.original h.copy

theorem hooks_array (xs : List (JsValue ν)) (inArray : Bool) :
    (array xs).hooks inArray = xs.flatMap (·.hooks true) := by
  rw [hooks, fold_array]
  dsimp only
  rw [List.flatMap_map]

theorem hooks_hooked (v : JsValue ν) (result copied : Option (JsValue ν)) (inArray : Bool) :
    (hooked v result copied).hooks inArray =
      if result.isNone && copied.isNone then v.hooks inArray
      else [⟨inArray, v, result, copied⟩] := by
  rw [hooks, fold_hooked]
  cases result <;> cases copied <;> rfl

theorem mem_hooks_object {ms : List (Units × JsValue ν)} {inArray : Bool} {h : Hook ν} :
    h ∈ (object ms).hooks inArray ↔
      ∃ m ∈ ms, m.1 ≠ utf16 "__proto__" ∧ h ∈ m.2.hooks false := by
  rw [hooks, fold_object]
  simp only [List.mem_flatMap, List.mem_filter, List.mem_map, decide_eq_true_iff]
  constructor
  · rintro ⟨n, ⟨⟨m, hm, rfl⟩, hne⟩, hh⟩
    exact ⟨m, hm, hne, hh⟩
  · rintro ⟨m, hm, hne, hh⟩
    exact ⟨_, ⟨⟨m, hm, rfl⟩, hne⟩, hh⟩

/-! ## Copies and originals -/

section Reassigned

variable {α β : Type}

theorem mem_reassigned {ms : List (Units × α)} {m : Units × α} :
    m ∈ reassigned ms ↔ m ∈ ms ∧ m.1 ≠ utf16 "__proto__" := by
  rw [reassigned, ownOrder, (sortMembers_perm indexRank _).mem_iff, List.mem_filter,
    (sortMembers_perm codes ms).mem_iff, decide_eq_true_iff]

theorem nodup_reassigned {ms : List (Units × α)} (h : (ms.map Prod.fst).Nodup) :
    ((reassigned ms).map Prod.fst).Nodup := by
  rw [reassigned, ownOrder, ((sortMembers_perm indexRank _).map Prod.fst).nodup_iff]
  refine List.Nodup.sublist ((List.filter_sublist ..).map Prod.fst) ?_
  exact ((sortMembers_perm codes ms).map Prod.fst).nodup_iff.2 h

/-- What is left out before the properties are assigned could be left out afterwards. -/
theorem reassigned_filterMap {g : Units × α → Option (Units × β)}
    (hg : ∀ m n, g m = some n → n.1 = m.1) (ms : List (Units × α)) :
    reassigned (ms.filterMap g) = (reassigned ms).filterMap g := by
  rw [reassigned, reassigned, ownOrder, ownOrder, sortMembers_filterMap codes hg,
    ← sortMembers_filterMap indexRank hg, List.filter_filterMap, List.filterMap_filter]
  congr 1
  refine List.filterMap_congr fun m _ => ?_
  cases hm : g m with
  | none => simp
  | some n => simp [Option.filter, hg m n hm]

end Reassigned

section Properties

variable {norm : ν → Option ν} {ms : List (Units × JsValue ν)}

theorem forall_hooks_array {Q : Hook ν → Prop} {xs : List (JsValue ν)} {inArray : Bool} :
    (∀ h ∈ (array xs).hooks inArray, Q h) ↔ ∀ x ∈ xs, ∀ h ∈ x.hooks true, Q h := by
  rw [hooks_array]
  simp only [List.mem_flatMap, forall_exists_index, and_imp]
  exact forall_comm.trans (forall_congr' fun x => forall_comm)

theorem forall_hooks_object {Q : Hook ν → Prop} {inArray : Bool} :
    (∀ h ∈ (object ms).hooks inArray, Q h) ↔
      ∀ m ∈ reassigned ms, ∀ h ∈ m.2.hooks false, Q h := by
  simp only [mem_hooks_object, mem_reassigned]
  constructor
  · exact fun h m hm hook hhook => h hook ⟨m, hm.1, hm.2, hhook⟩
  · rintro h hook ⟨m, hm, hne, hhook⟩
    exact h m ⟨hm, hne⟩ hook hhook

/-- What becomes of a property keeps its name. -/
theorem keeps_name (f : JsValue ν → Option (Doc ν)) (m : Units × JsValue ν) (n : Units × Doc ν)
    (h : ((f m.2).map fun d => (m.1, d)) = some n) : n.1 = m.1 := by
  obtain ⟨d, -, rfl⟩ := Option.map_eq_some_iff.1 h
  rfl

/-- The sorted copies of the properties, as they are read back. -/
theorem readBack_present_sortKeys (ms : List (Units × JsValue ν)) :
    readBack norm (.obj (present ((ms.map fun m => (m.1, sortKeys m.2)).map
        fun m => (m.1, m.2.docOf)))) =
      .obj (ms.filterMap fun m =>
        ((sortKeys m.2).docOf.map (readBack norm)).map fun d => (m.1, d)) := by
  rw [readBack_obj, present, List.map_map, List.filterMap_map, List.map_filterMap]
  simp only [Option.map_map, Function.comp_def]

/-- The properties, sorted after they are written, as they are read back. -/
theorem readBack_sortKeys_present (ms : List (Units × JsValue ν)) :
    readBack norm (TypeScript.sortKeys (.obj (present (ms.map fun m => (m.1, m.2.docOf))))) =
      .obj ((reassigned ms).filterMap fun m =>
        ((m.2.docOf.map TypeScript.sortKeys).map (readBack norm)).map fun d => (m.1, d)) := by
  rw [TypeScript.sortKeys_obj, readBack_obj, ← reassigned_map, present, List.filterMap_map,
    List.map_filterMap, List.map_filterMap, ← reassigned_filterMap
      (keeps_name fun x => (x.docOf.map TypeScript.sortKeys).map (readBack norm))]
  simp only [Option.map_map, Function.comp_def]

end Properties

section Alike

variable {N : Numerals ν} {norm : ν → Option ν} (hN : N.Lawful norm) (hrep : N.Reprints norm)
include hN hrep

/-- Documents have the same text exactly when they are read back alike. -/
theorem stringify_eq_iff (d d' : Doc ν) :
    TypeScript.stringify N d = TypeScript.stringify N d' ↔ readBack norm d = readBack norm d' := by
  constructor
  · intro h
    have hparse := hN.unitsCodec.parse_render false d
    rw [show render N.unitsCodec false d = render N.unitsCodec false d' from h,
      hN.unitsCodec.parse_render] at hparse
    exact (Option.some.inj hparse).symm
  · intro h
    rw [← stringify_readBack hrep d, h, stringify_readBack hrep]

theorem map_stringify_eq_iff (o o' : Option (Doc ν)) :
    o.map (TypeScript.stringify N) = o'.map (TypeScript.stringify N) ↔
      o.map (readBack norm) = o'.map (readBack norm) := by
  cases o <;> cases o' <;> simp [stringify_eq_iff hN hrep]

theorem writtenAlike_iff {v copy : JsValue ν} (hv : v.Serializes) (inArray : Bool) :
    WrittenAlike N inArray v.serialize copy.serialize ↔ copy.Serializes ∧
      (slot inArray copy.docOf).map (readBack norm) =
        (slot inArray (v.docOf.map TypeScript.sortKeys)).map (readBack norm) := by
  obtain ⟨o, ho⟩ := hv
  rw [docOf_of_serialize ho, ← map_stringify_eq_iff hN hrep]
  constructor
  · intro h
    obtain ⟨o', ho', hsame⟩ := h o ho
    exact ⟨⟨o', ho'⟩, by rwa [docOf_of_serialize ho']⟩
  · rintro ⟨⟨o', ho'⟩, hsame⟩ p hp
    obtain rfl := Except.ok.inj (ho.symm.trans hp)
    exact ⟨o', ho', by rwa [docOf_of_serialize ho'] at hsame⟩

/-- **A copy is written like the value exactly when those of all objects are that are replaced.** -/
theorem writtenAlike_sortKeys_iff {v : JsValue ν} (hown : v.Own) (hv : v.Serializes)
    (inArray : Bool) : WrittenAlike N inArray v.serialize (sortKeys v).serialize ↔
      ∀ h ∈ v.hooks inArray, h.Alike N := by
  induction v using ind generalizing inArray with
  | array xs ih =>
    rw [own_array] at hown
    rw [serializes_array] at hv
    have helement : ∀ x ∈ xs, (∀ h ∈ x.hooks true, h.Alike N) ↔ (sortKeys x).Serializes ∧
        readBack norm ((sortKeys x).docOf.getD .null) =
          readBack norm (TypeScript.sortKeys (x.docOf.getD .null)) := by
      intro x hx
      rw [← ih x hx (hown x hx) (hv x hx) true, writtenAlike_iff hN hrep (hv x hx)]
      refine and_congr Iff.rfl ?_
      cases x.docOf <;> exact Option.some_inj
    rw [writtenAlike_iff hN hrep ((serializes_array xs).2 hv), sortKeys_array, serializes_array,
      List.forall_mem_map, forall_hooks_array, forall₂_congr helement, forall₂_and]
    refine and_congr_right fun hcopies => ?_
    rw [docOf_array hv, docOf_array (List.forall_mem_map.2 hcopies), Option.map_some, slot_some,
      slot_some, Option.map_some, Option.map_some, Option.some_inj]
    simp only [readBack, TypeScript.sortKeys, transform_arr, elements, List.map_map, Json.arr.injEq,
      List.map_inj_left]
    exact Iff.rfl
  | object ms ih =>
    rw [own_object] at hown
    rw [serializes_object] at hv
    have hmember : ∀ m ∈ ms, (∀ h ∈ m.2.hooks false, h.Alike N) ↔ (sortKeys m.2).Serializes ∧
        (sortKeys m.2).docOf.map (readBack norm) =
          (m.2.docOf.map TypeScript.sortKeys).map (readBack norm) := by
      intro m hm
      rw [← ih m hm (hown.2 m hm) (hv m hm) false, writtenAlike_iff hN hrep (hv m hm)]
      exact Iff.rfl
    have hmember' : ∀ m ∈ reassigned ms, _ := fun m hm => hmember m (mem_reassigned.1 hm).1
    rw [writtenAlike_iff hN hrep ((serializes_object ms).2 hv), sortKeys_object, reassigned_map,
      serializes_object, List.forall_mem_map, forall_hooks_object, forall₂_congr hmember',
      forall₂_and]
    refine and_congr_right fun hcopies => ?_
    rw [docOf_object hv, docOf_object (List.forall_mem_map.2 hcopies), Option.map_some, slot_some,
      slot_some, Option.map_some, Option.map_some, Option.some_inj, readBack_present_sortKeys,
      readBack_sortKeys_present, Json.obj.injEq, filterMap_eq_filterMap_iff
      (keeps_name fun x => (sortKeys x).docOf.map (readBack norm))
      (keeps_name fun x => (x.docOf.map TypeScript.sortKeys).map (readBack norm))
      (nodup_reassigned hown.1.1)]
    refine forall₂_congr fun m _ => ?_
    exact (Option.map_injective fun d d' hd => congrArg Prod.snd hd).eq_iff
  | hooked v result copied ihv ihr =>
    have hone : ∀ h : Hook ν, h.Alike N ↔ ∀ h' ∈ [h], h'.Alike N :=
      fun h => List.forall_mem_singleton.symm
    rw [own_hooked] at hown
    rw [hooks_hooked]
    cases result with
    | none =>
      rw [Serializes, serialize_hooked_none] at hv
      rw [serialize_hooked_none]
      cases copied with
      | none =>
        rw [sortKeys_hooked_none]
        exact ihv hown.1 hv inArray
      | some c =>
        rw [sortKeys_hooked_some, serialize_hooked_some]
        exact hone ⟨inArray, v, none, some c⟩
    | some r =>
      rw [serialize_hooked_some]
      cases copied with
      | none =>
        rw [sortKeys_hooked_none]
        exact hone ⟨inArray, v, some r, none⟩
      | some c =>
        rw [sortKeys_hooked_some, serialize_hooked_some]
        exact hone ⟨inArray, v, some r, some c⟩
  | bigint =>
    obtain ⟨o, ho⟩ := hv
    cases ho
  | _ =>
    refine iff_of_true (fun o ho => ⟨o, ho, ?_⟩) fun h hh => absurd hh List.not_mem_nil
    rw [← Except.ok.inj ho]
    rfl

end Alike

/-! ## Values that are read -/

/-- What `JSON.parse` returns. -/
def ofDoc : Doc ν → JsValue ν :=
  Json.fold {
    null := .null
    bool := .bool
    num := .num
    str := .str
    arr := .array
    obj := .object }

theorem ofDoc_arr (xs : List (Doc ν)) : ofDoc (.arr xs) = .array (xs.map ofDoc) :=
  Json.fold_arr _ xs

theorem ofDoc_obj (ms : Members ν) : ofDoc (.obj ms) = .object (ms.map fun m => (m.1, ofDoc m.2)) :=
  Json.fold_obj _ ms

theorem serialize_ofDoc (d : Doc ν) : (ofDoc d).serialize = .ok (some d) := by
  induction d using Json.ind with
  | arr xs ih =>
    have hdoc : ∀ x ∈ xs, (ofDoc x).docOf.getD .null = x := fun x hx => by
      rw [docOf_of_serialize (ih x hx)]
      rfl
    rw [ofDoc_arr, serialize_array_eq_ok_iff, elements, List.map_map, List.map_map]
    refine ⟨List.forall_mem_map.2 fun x hx => ⟨_, ih x hx⟩, ?_⟩
    exact congrArg (fun xs => some (Json.arr xs))
      ((List.map_congr_left hdoc).trans (List.map_id' xs)).symm
  | obj ms ih =>
    have hdoc : ∀ m ∈ ms, ((ofDoc m.2).docOf.map fun d => (m.1, d)) = some m := fun m hm => by
      rw [docOf_of_serialize (ih m hm)]
      rfl
    rw [ofDoc_obj, serialize_object_eq_ok_iff, present, List.map_map, List.filterMap_map]
    refine ⟨List.forall_mem_map.2 fun m hm => ⟨_, ih m hm⟩, ?_⟩
    exact congrArg (fun ms => some (Json.obj ms))
      ((List.filterMap_congr hdoc).trans List.filterMap_some).symm
  | _ => rfl

theorem sortKeys_ofDoc (d : Doc ν) : sortKeys (ofDoc d) = ofDoc (TypeScript.sortKeys d) := by
  induction d using Json.ind with
  | arr xs ih =>
    rw [TypeScript.sortKeys, transform_arr, ofDoc_arr, sortKeys_array, ofDoc_arr, List.map_map,
      List.map_map]
    exact congrArg JsValue.array (List.map_congr_left ih)
  | obj ms ih =>
    rw [TypeScript.sortKeys_obj, ofDoc_obj, sortKeys_object, ofDoc_obj, ← reassigned_map,
      List.map_map, List.map_map]
    refine congrArg (fun ms => JsValue.object (reassigned ms)) ?_
    exact List.map_congr_left fun m hm => Prod.ext rfl (ih m hm)
  | _ => rfl

/-- On what is read, `canonicalJson` is the one for documents. -/
theorem canonicalJson_ofDoc (N : Numerals ν) (d : Doc ν) :
    (ofDoc d).canonicalJson N = .ok (some (TypeScript.canonicalJson N d)) := by
  rw [canonicalJson, stringify, sortKeys_ofDoc, serialize_ofDoc]
  rfl

/-- Every object in a value that is replaced is written like its copy. -/
def Alike (N : Numerals ν) (v : JsValue ν) : Prop := ∀ h ∈ v.hooks false, h.Alike N

section Parse

variable {N : Numerals ν} {norm : ν → Option ν} (hN : N.Lawful norm) (hrep : N.Reprints norm)
include hN hrep

theorem canonicalJson_eq_iff {v : JsValue ν} (hown : v.Own) {d : Doc ν}
    (hd : v.serialize = .ok (some d)) :
    v.canonicalJson N = .ok (some (TypeScript.canonicalJson N d)) ↔ v.Alike N := by
  rw [Alike, ← writtenAlike_sortKeys_iff hN hrep hown ⟨_, hd⟩, WrittenAlike, canonicalJson,
    stringify, map_eq_ok_iff]
  constructor
  · intro h o ho
    obtain rfl := Except.ok.inj (hd.symm.trans ho)
    exact h
  · intro h
    exact h _ hd

/-- **A value is signed like what is read back for it exactly when every object in it that is
replaced is written like its copy.** -/
theorem canonicalJson_parse_iff {v : JsValue ν} (hown : v.Own) {text : Text}
    (htext : v.stringify N = .ok (some text)) :
    v.canonicalJson N = (parse N text >>= fun w => (ofDoc w).canonicalJson N) ↔ v.Alike N := by
  obtain ⟨o, ho, hsome⟩ := map_eq_ok_iff.1 htext
  obtain ⟨d, rfl, rfl⟩ := Option.map_eq_some_iff.1 hsome
  rw [parse_stringify hN ((own_written hown).1 d ho), ← canonicalJson_eq_iff hN hrep hown ho]
  show v.canonicalJson N = (ofDoc (readBack norm d)).canonicalJson N ↔ _
  rw [canonicalJson_ofDoc, canonicalJson_readBack hrep]

end Parse

end JsValue

end Resilience.TypeScript
