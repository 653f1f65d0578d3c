import Resilience.Python.AuditLedger
import Mathlib.Data.Prod.Lex

/-!
# Values that Python serialises

What a caller hands to `append`: values whose dictionaries have keys of several types. `json.dumps`
writes a key that is no string as a string, and with `sort_keys` it does so after it has sorted the
items by the keys themselves; keys that do not compare make it raise. Strings have code points, and
two surrogates in a row are read back as one character.

So the text that is signed for a value is not always the one for what is read back:
`canonicalJson_loads_iff` says when it is.
-/

namespace Resilience.Python

open Json

variable {ν : Type}

/-- A key of a dictionary. -/
inductive Key
  | none
  | bool (b : Bool)
  | int (n : ℤ)
  | str (s : Str)
  deriving DecidableEq

/-- A value; its strings are the code units that are written for them. -/
inductive Object (ν : Type)
  | none
  | bool (b : Bool)
  | num (n : ν)
  | str (s : Units)
  | list (xs : List (Object ν))
  | tuple (xs : List (Object ν))
  | dict (items : List (Key × Object ν))

/-! ## Keys -/

namespace Key

/-- The key as `json` writes it. -/
def json : Key → Units
  | none => utf16 "null"
  | bool b => utf16 (if b then "true" else "false")
  | int n => units (printInt n)
  | str s => encodeUtf16 s

/-- Keys of different kinds do not compare. -/
inductive Kind
  | none
  | number
  | text
  deriving DecidableEq

def kind : Key → Kind
  | none => .none
  | bool _ => .number
  | int _ => .number
  | str _ => .text

/-- How keys of one kind compare: strings by their code points. Keys with the same rank are equal.
-/
def rank : Key → ℤ ×ₗ List ℕ
  | none => toLex (0, [])
  | bool b => toLex (b.toInt, [])
  | int n => toLex (n, [])
  | str s => toLex (0, s.map Fin.val)

end Key

/-- The keys of a dictionary: no two of them are equal. -/
def DistinctKeys (ks : List Key) : Prop := (ks.map fun k => (k.kind, k.rank)).Nodup

instance (ks : List Key) : Decidable (DistinctKeys ks) := inferInstanceAs (Decidable (List.Nodup _))

/-- The keys of a dictionary compare. -/
def Comparable (ks : List Key) : Prop := ∀ k ∈ ks, ∀ k' ∈ ks, k.kind = k'.kind

instance (ks : List Key) : Decidable (Comparable ks) :=
  inferInstanceAs (Decidable (∀ k ∈ ks, ∀ k' ∈ ks, _))

/-- Keys are in the same order as what is read back for them. -/
def Alike (ks : List Key) : Prop :=
  Comparable ks ∧ ∀ k ∈ ks, ∀ k' ∈ ks, k.rank < k'.rank → Python.rank k.json < Python.rank k'.json

instance (ks : List Key) : Decidable (Alike ks) := inferInstanceAs (Decidable (_ ∧ _))

/-! ## Recursion -/

namespace Object

/-- Induction with the hypothesis for every element of a sequence and every item of a dictionary. -/
@[elab_as_elim] theorem ind {motive : Object ν → Prop} (none : motive .none)
    (bool : ∀ b, motive (.bool b)) (num : ∀ n, motive (.num n)) (str : ∀ s, motive (.str s))
    (list : ∀ xs, (∀ x ∈ xs, motive x) → motive (.list xs))
    (tuple : ∀ xs, (∀ x ∈ xs, motive x) → motive (.tuple xs))
    (dict : ∀ items, (∀ m ∈ items, motive m.2) → motive (.dict items)) (v : Object ν) :
    motive v := by
  apply Object.rec (motive_1 := motive) (motive_2 := fun xs => ∀ x ∈ xs, motive x)
    (motive_3 := fun items => ∀ m ∈ items, motive m.2) (motive_4 := fun m => motive m.2)
  case none => exact none
  case bool => exact bool
  case num => exact num
  case str => exact str
  case list => exact list
  case tuple => exact tuple
  case dict => exact dict
  case nil => exact fun x hx => absurd hx List.not_mem_nil
  case cons => exact fun x xs hx hxs => List.forall_mem_cons.2 ⟨hx, hxs⟩
  case nil => exact fun m hm => absurd hm List.not_mem_nil
  case cons => exact fun m items hm hitems => List.forall_mem_cons.2 ⟨hm, hitems⟩
  case mk => exact fun _ _ h => h

/-- What a recursion does at each kind of value; lists and tuples are serialised alike. -/
structure Algebra (ν α : Type) where
  none : α
  bool : Bool → α
  num : ν → α
  str : Units → α
  seq : List α → α
  dict : List (Key × α) → α

section Fold

variable {α : Type} (A : Algebra ν α)

mutual

def fold : Object ν → α
  | .none => A.none
  | .bool b => A.bool b
  | .num n => A.num n
  | .str s => A.str s
  | .list xs => A.seq (foldList xs)
  | .tuple xs => A.seq (foldList xs)
  | .dict items => A.dict (foldItems items)
termination_by structural v => v

def foldList : List (Object ν) → List α
  | [] => []
  | x :: xs => fold x :: foldList xs
termination_by structural xs => xs

def foldItems : List (Key × Object ν) → List (Key × α)
  | [] => []
  | (k, x) :: items => (k, fold x) :: foldItems items
termination_by structural items => items

end

theorem foldList_eq (xs : List (Object ν)) : foldList A xs = xs.map (fold A) := by
  induction xs with
  | nil => rfl
  | cons x xs ih => rw [foldList, ih, List.map_cons]

theorem foldItems_eq (items : List (Key × Object ν)) :
    foldItems A items = items.map fun m => (m.1, fold A m.2) := by
  induction items with
  | nil => rfl
  | cons m items ih => rw [foldItems, ih, List.map_cons]

theorem fold_list (xs : List (Object ν)) : fold A (.list xs) = A.seq (xs.map (fold A)) := by
  rw [fold, foldList_eq]

theorem fold_tuple (xs : List (Object ν)) : fold A (.tuple xs) = A.seq (xs.map (fold A)) := by
  rw [fold, foldList_eq]

theorem fold_dict (items : List (Key × Object ν)) :
    fold A (.dict items) = A.dict (items.map fun m => (m.1, fold A m.2)) := by
  rw [fold, foldItems_eq]

end Fold

/-- The keys of every dictionary satisfy `p`. -/
def Within (p : List Key → Prop) : Object ν → Prop :=
  fold {
    none := True
    bool := fun _ => True
    num := fun _ => True
    str := fun _ => True
    seq := fun ps => ∀ h ∈ ps, h
    dict := fun items => p (items.map Prod.fst) ∧ ∀ m ∈ items, m.2 }

section Within

variable {p : List Key → Prop}

theorem within_list (xs : List (Object ν)) : Within p (.list xs) ↔ ∀ x ∈ xs, Within p x := by
  refine (iff_of_eq (fold_list _ xs)).trans ?_
  exact List.forall_mem_map

theorem within_tuple (xs : List (Object ν)) : Within p (.tuple xs) ↔ ∀ x ∈ xs, Within p x := by
  refine (iff_of_eq (fold_tuple _ xs)).trans ?_
  exact List.forall_mem_map

theorem within_dict (items : List (Key × Object ν)) :
    Within p (.dict items) ↔ p (items.map Prod.fst) ∧ ∀ m ∈ items, Within p m.2 := by
  refine (iff_of_eq (fold_dict _ items)).trans ?_
  refine and_congr (iff_of_eq ?_) List.forall_mem_map
  rw [List.map_map]
  rfl

theorem Within.mono {p' : List Key → Prop} {v : Object ν} (h : Within p v)
    (hp : ∀ ks, p ks → p' ks) : Within p' v := by
  induction v using ind with
  | list xs ih =>
    rw [within_list] at h ⊢
    exact fun x hx => ih x hx (h x hx)
  | tuple xs ih =>
    rw [within_tuple] at h ⊢
    exact fun x hx => ih x hx (h x hx)
  | dict items ih =>
    rw [within_dict] at h ⊢
    exact ⟨hp _ h.1, fun m hm => ih m hm (h.2 m hm)⟩
  | _ => trivial

end Within

/-! ## Serialisation -/

/-- The document that `json.dumps` writes. -/
def toDoc : Object ν → Doc ν :=
  fold {
    none := .null
    bool := .bool
    num := .num
    str := .str
    seq := .arr
    dict := fun items => .obj (items.map fun m => (m.1.json, m.2)) }

/-- `sorted(dct.items())`. -/
def sortItems {α : Type} (items : List (Key × α)) : Except PyError (List (Key × α)) :=
  if Comparable (items.map Prod.fst) then .ok (sortMembers Key.rank items) else .error .typeError

/-- The document that `json.dumps` writes with `sort_keys`. -/
def sortedDoc : Object ν → Except PyError (Doc ν) :=
  fold {
    none := .ok .null
    bool := fun b => .ok (.bool b)
    num := fun n => .ok (.num n)
    str := fun s => .ok (.str s)
    seq := fun xs => (xs.mapM id).map .arr
    dict := fun items => do
      let items ← sortItems items
      let items ← items.mapM fun m => m.2.map fun d => (m.1.json, d)
      return .obj items }

/-- `canonical_json`. -/
def canonicalJson (N : Numerals ν) (v : Object ν) : Except PyError Text :=
  v.sortedDoc.map (render N.asciiCodec false)

theorem toDoc_list (xs : List (Object ν)) : toDoc (.list xs) = .arr (xs.map toDoc) := fold_list _ xs

theorem toDoc_tuple (xs : List (Object ν)) : toDoc (.tuple xs) = .arr (xs.map toDoc) :=
  fold_tuple _ xs

theorem toDoc_dict (items : List (Key × Object ν)) :
    toDoc (.dict items) = .obj (items.map fun m => (m.1.json, toDoc m.2)) := by
  refine (fold_dict _ items).trans ?_
  dsimp only
  rw [List.map_map]
  rfl

theorem sortedDoc_list (xs : List (Object ν)) :
    sortedDoc (.list xs) = (xs.mapM sortedDoc).map .arr := by
  refine (fold_list _ xs).trans ?_
  dsimp only
  rw [List.mapM_map]
  rfl

theorem sortedDoc_tuple (xs : List (Object ν)) :
    sortedDoc (.tuple xs) = (xs.mapM sortedDoc).map .arr := by
  refine (fold_tuple _ xs).trans ?_
  dsimp only
  rw [List.mapM_map]
  rfl

theorem sortItems_map {α β : Type} (f : α → β) (items : List (Key × α)) :
    sortItems (items.map fun m => (m.1, f m.2)) =
      (sortItems items).map fun items => items.map fun m => (m.1, f m.2) := by
  have hkeys : (items.map fun m => (m.1, f m.2)).map Prod.fst = items.map Prod.fst := by
    rw [List.map_map]
    rfl
  rw [sortItems, sortItems, hkeys, sortMembers_map]
  split_ifs <;> rfl

theorem sortedDoc_dict (items : List (Key × Object ν)) :
    sortedDoc (.dict items) = (do
      let items ← sortItems items
      let items ← items.mapM fun m => m.2.sortedDoc.map fun d => (m.1.json, d)
      return .obj items) := by
  refine (fold_dict _ items).trans ?_
  dsimp only
  rw [show (items.map fun m => (m.1, fold _ m.2)) =
    items.map fun m => (m.1, m.2.sortedDoc) from rfl,
    sortItems_map]
  cases sortItems items with
  | error e => rfl
  | ok sorted =>
    show ((sorted.map fun m => (m.1, m.2.sortedDoc)).mapM
      (fun m => m.2.map fun d => (m.1.json, d)) >>= fun items => Except.ok (Json.obj items)) = _
    rw [List.mapM_map]
    rfl

/-! ## What is sorted -/

/-- The document that `json.dumps` writes with `sort_keys`, if all keys compare. -/
def sorted : Object ν → Doc ν :=
  fold {
    none := .null
    bool := .bool
    num := .num
    str := .str
    seq := .arr
    dict := fun items => .obj ((sortMembers Key.rank items).map fun m => (m.1.json, m.2)) }

theorem sorted_list (xs : List (Object ν)) : sorted (.list xs) = .arr (xs.map sorted) :=
  fold_list _ xs

theorem sorted_tuple (xs : List (Object ν)) : sorted (.tuple xs) = .arr (xs.map sorted) :=
  fold_tuple _ xs

theorem sorted_dict (items : List (Key × Object ν)) :
    sorted (.dict items) = .obj ((sortMembers Key.rank (items.map fun m => (m.1, sorted m.2))).map
      fun m => (m.1.json, m.2)) := fold_dict _ items

/-- Sorting raises exactly when there are keys that do not compare. -/
theorem sortedDoc_eq_ok_iff {v : Object ν} (d : Doc ν) :
    v.sortedDoc = .ok d ↔ v.Within Comparable ∧ d = v.sorted := by
  have hseq : ∀ xs : List (Object ν), (∀ x ∈ xs, ∀ d, x.sortedDoc = .ok d ↔
      x.Within Comparable ∧ d = x.sorted) → ∀ d, (xs.mapM sortedDoc).map Json.arr = .ok d ↔
        (∀ x ∈ xs, x.Within Comparable) ∧ d = .arr (xs.map sorted) := by
    intro xs ih d
    rw [map_eq_ok_iff]
    constructor
    · rintro ⟨ds, hds, rfl⟩
      obtain ⟨hall, rfl⟩ := (mapM_eq_ok_iff_of_forall ih ds).1 hds
      exact ⟨hall, rfl⟩
    · rintro ⟨hall, rfl⟩
      exact ⟨_, (mapM_eq_ok_iff_of_forall ih _).2 ⟨hall, rfl⟩, rfl⟩
  have hleaf : ∀ d d' : Doc ν, (Except.ok d' : Except PyError (Doc ν)) = .ok d ↔ True ∧ d = d' := by
    intro d d'
    rw [Except.ok.injEq, true_and, eq_comm]
  induction v using ind generalizing d with
  | none => exact hleaf d _
  | bool b => exact hleaf d _
  | num n => exact hleaf d _
  | str s => exact hleaf d _
  | list xs ih =>
    rw [sortedDoc_list, within_list, sorted_list]
    exact hseq xs ih d
  | tuple xs ih =>
    rw [sortedDoc_tuple, within_tuple, sorted_tuple]
    exact hseq xs ih d
  | dict items ih =>
    rw [sortedDoc_dict, within_dict, sorted_dict, sortItems, sortMembers_map]
    split_ifs with hkeys
    · have hperm := sortMembers_perm Key.rank items
      have hitems : ∀ m ∈ sortMembers Key.rank items, ∀ n,
          (m.2.sortedDoc.map fun d => (m.1.json, d)) = .ok n ↔
            m.2.Within Comparable ∧ n = (m.1.json, m.2.sorted) := by
        intro m hm n
        rw [map_eq_ok_iff]
        constructor
        · rintro ⟨d, hd, rfl⟩
          obtain ⟨hm', rfl⟩ := (ih m (hperm.mem_iff.1 hm) d).1 hd
          exact ⟨hm', rfl⟩
        · rintro ⟨hm', rfl⟩
          exact ⟨_, (ih m (hperm.mem_iff.1 hm) _).2 ⟨hm', rfl⟩, rfl⟩
      have hmapM := mapM_eq_ok_iff_of_forall hitems
      show Except.map Json.obj ((sortMembers Key.rank items).mapM fun m : Key × Object ν =>
        m.2.sortedDoc.map fun d => (m.1.json, d)) = .ok d ↔ _
      rw [map_eq_ok_iff, List.map_map]
      constructor
      · rintro ⟨ns, hns, rfl⟩
        obtain ⟨hall, rfl⟩ := (hmapM ns).1 hns
        exact ⟨⟨hkeys, fun m hm => hall m (hperm.mem_iff.2 hm)⟩, rfl⟩
      · rintro ⟨⟨-, hall⟩, rfl⟩
        exact ⟨_, (hmapM _).2 ⟨fun m hm => hall m (hperm.mem_iff.1 hm), rfl⟩, rfl⟩
    · exact iff_of_false (fun h => by cases h) fun h => hkeys h.1.1

end Object

/-! ## Keys and their texts -/

theorem nodup_rank {ks : List Key} (hdistinct : DistinctKeys ks) (hcomparable : Comparable ks) :
    (ks.map Key.rank).Nodup := by
  refine (List.nodup_map_iff_inj_on (hdistinct.of_map _)).2 fun k hk k' hk' heq => ?_
  exact List.inj_on_of_nodup_map hdistinct hk hk' (Prod.ext (hcomparable k hk k' hk') heq)

/-- Keys in the order of their texts have different texts. -/
theorem nodup_json {ks : List Key} (hdistinct : DistinctKeys ks) (halike : Alike ks) :
    (ks.map Key.json).Nodup := by
  refine (List.nodup_map_iff_inj_on (hdistinct.of_map _)).2 fun k hk k' hk' heq => ?_
  rcases lt_trichotomy k.rank k'.rank with hlt | hrank | hlt
  · exact absurd (heq ▸ halike.2 k hk k' hk' hlt) (lt_irrefl _)
  · exact List.inj_on_of_nodup_map (nodup_rank hdistinct halike.1) hk hk' hrank
  · exact absurd (heq ▸ halike.2 k' hk' k hk hlt) (lt_irrefl _)

namespace Object

/-- What JSON keeps of a value: its keys are strings, and of those that are written alike the last
counts. -/
def loaded (v : Object ν) : Doc ν := v.toDoc.transform id .num assignAll

theorem loaded_list (xs : List (Object ν)) : loaded (.list xs) = .arr (xs.map loaded) := by
  rw [loaded, toDoc_list, transform_arr, List.map_map]
  rfl

theorem loaded_tuple (xs : List (Object ν)) : loaded (.tuple xs) = .arr (xs.map loaded) := by
  rw [loaded, toDoc_tuple, transform_arr, List.map_map]
  rfl

theorem loaded_dict (items : List (Key × Object ν)) :
    loaded (.dict items) = .obj (assignAll (items.map fun m => (m.1.json, m.2.loaded))) := by
  rw [loaded, toDoc_dict, transform_obj, List.map_map]
  rfl

/-- What is read back is sorted as the value was exactly when all keys are in the order of their
texts. -/
theorem sortKeys_loaded_eq_iff {v : Object ν} (hdistinct : v.Within DistinctKeys)
    (hcomparable : v.Within Comparable) :
    sortKeys Python.rank v.loaded = v.sorted ↔ v.Within Alike := by
  induction v using ind with
  | list xs ih =>
    rw [within_list] at hdistinct hcomparable
    rw [loaded_list, sorted_list, within_list, sortKeys, transform_arr, Json.arr.injEq,
      List.map_map, List.map_inj_left]
    exact forall₂_congr fun x hx => ih x hx (hdistinct x hx) (hcomparable x hx)
  | tuple xs ih =>
    rw [within_tuple] at hdistinct hcomparable
    rw [loaded_tuple, sorted_tuple, within_tuple, sortKeys, transform_arr, Json.arr.injEq,
      List.map_map, List.map_inj_left]
    exact forall₂_congr fun x hx => ih x hx (hdistinct x hx) (hcomparable x hx)
  | dict items ih =>
    rw [within_dict] at hdistinct hcomparable
    rw [loaded_dict, sorted_dict, within_dict, sortKeys_obj, Json.obj.injEq]
    by_cases hjson : ((items.map Prod.fst).map Key.json).Nodup
    · -- Nothing is lost, and it is sorted by the texts of its keys.
      have hkept : assignAll (items.map fun m => (m.1.json, m.2.loaded)) =
          items.map fun m => (m.1.json, m.2.loaded) := by
        refine assignAll_eq_self ?_
        rwa [List.map_map] at hjson ⊢
      have hrank := nodup_rank hdistinct.1 hcomparable.1
      have htext := (List.nodup_map_iff joinSurrogates_codes_injective).2 hjson
      rw [List.map_map] at hrank htext
      rw [List.map_map] at htext
      have hrename := sortMembers_rename_iff Python.rank Key.rank Key.json htext hrank
        (fun x => sortKeys Python.rank x.loaded) sorted
      rw [hkept, List.map_map]
      refine hrename.trans (and_congr ?_ ?_)
      · exact (and_iff_right hcomparable.1).symm
      · exact forall₂_congr fun m hm => ih m hm (hdistinct.2 m hm) (hcomparable.2 m hm)
    · -- Two keys have one text, and one of their items is lost.
      refine iff_of_false (fun h => hjson ?_) fun h => hjson (nodup_json hdistinct.1 h.1)
      have hkeys := congrArg (List.map Prod.fst) h
      rw [List.map_map] at hkeys
      have hsorted : ((items.map fun m => (m.1, m.2.sorted)).map fun m => m.1.json) =
          (items.map Prod.fst).map Key.json := by
        rw [List.map_map, List.map_map]
        rfl
      rw [← hsorted, ← ((sortMembers_perm Key.rank _).map fun m => m.1.json).nodup_iff]
      rw [show (fun m : Key × Doc ν => m.1.json) = Prod.fst ∘ fun m => (m.1.json, m.2) from rfl,
        ← hkeys, ((sortMembers_perm Python.rank _).map Prod.fst).nodup_iff, List.map_map]
      exact nodup_assignAll _
  | _ => exact iff_of_true rfl trivial

/-- The value that is serialised for a document: all its keys are strings. -/
def ofDoc : Doc ν → Object ν :=
  Json.fold {
    null := .none
    bool := .bool
    num := .num
    str := .str
    arr := .list
    obj := fun ms => .dict (ms.map fun m => (.str (decodeUtf16 m.1), m.2)) }

@[simp] theorem ofDoc_str (s : Units) : ofDoc (.str s : Doc ν) = .str s := rfl

/-- A dictionary with string keys. -/
def ofItems (items : List (Units × Object ν)) : Object ν :=
  .dict (items.map fun m => (.str (decodeUtf16 m.1), m.2))

theorem toDoc_ofItems (items : List (Units × Object ν)) :
    (ofItems items).toDoc = .obj (items.map fun m => (m.1, m.2.toDoc)) := by
  rw [ofItems, toDoc_dict, List.map_map]
  simp [Key.json]

/-- A dictionary of different string keys is read back with all its items. -/
theorem loaded_ofItems {items : List (Units × Object ν)} (h : (items.map Prod.fst).Nodup) :
    (ofItems items).loaded = .obj (items.map fun m => (m.1, m.2.loaded)) := by
  rw [loaded, toDoc_ofItems, transform_obj, List.map_map, assignAll_eq_self]
  · rfl
  · rwa [List.map_map]

theorem within_ofItems {p : List Key → Prop} (items : List (Units × Object ν)) :
    (ofItems items).Within p ↔
      p ((items.map Prod.fst).map fun k => .str (decodeUtf16 k)) ∧ ∀ m ∈ items, m.2.Within p := by
  rw [ofItems, within_dict, List.map_map, List.map_map]
  exact and_congr Iff.rfl List.forall_mem_map

end Object

theorem rank_decodeUtf16 (s : Units) :
    Key.rank (.str (decodeUtf16 s)) = toLex (0, Python.rank s) :=
  congrArg (fun text => toLex ((0 : ℤ), text)) (val_decodeUtf16 s)

theorem distinctKeys_decodeUtf16 {ks : List Units} (h : ks.Nodup) :
    DistinctKeys (ks.map fun k => .str (decodeUtf16 k)) := by
  rw [DistinctKeys, List.map_map]
  refine (List.nodup_map_iff_inj_on h).2 fun k _ k' _ heq => ?_
  have hrank : Key.rank (.str (decodeUtf16 k)) = Key.rank (.str (decodeUtf16 k')) :=
    congrArg Prod.snd heq
  rw [rank_decodeUtf16, rank_decodeUtf16] at hrank
  exact joinSurrogates_codes_injective (congrArg (fun r => (ofLex r).2) hrank)

/-- Strings without a pair of surrogates are in the order of their texts. -/
theorem alike_decodeUtf16 (ks : List Units) : Alike (ks.map fun k => .str (decodeUtf16 k)) := by
  constructor
  · intro k hk k' hk'
    obtain ⟨s, -, rfl⟩ := List.mem_map.1 hk
    obtain ⟨s', -, rfl⟩ := List.mem_map.1 hk'
    rfl
  · intro k hk k' hk' hlt
    obtain ⟨s, -, rfl⟩ := List.mem_map.1 hk
    obtain ⟨s', -, rfl⟩ := List.mem_map.1 hk'
    rw [rank_decodeUtf16, rank_decodeUtf16] at hlt
    rw [Key.json, Key.json, encodeUtf16_decodeUtf16, encodeUtf16_decodeUtf16]
    rcases Prod.Lex.toLex_lt_toLex.1 hlt with h | h
    · exact absurd h (lt_irrefl _)
    · exact h.2

/-- A value that a caller passes; no dictionary has a key twice. -/
structure PyValue (ν : Type) where
  object : Object ν
  distinct : object.Within DistinctKeys

def PyValue.none : PyValue ν := ⟨.none, trivial⟩

/-- A value is signed like what is read back for it exactly when all keys are in the order of their
texts. -/
theorem canonicalJson_loads_iff {N : Numerals ν} (hN : N.Lawful some) (v : PyValue ν) :
    v.object.canonicalJson N =
        (loads N (dumps N v.object.toDoc)).map (Python.canonicalJson N) ↔
      v.object.Within Alike := by
  by_cases hcomparable : v.object.Within Comparable
  · have hsorted := (Object.sortedDoc_eq_ok_iff v.object.sorted).2 ⟨hcomparable, rfl⟩
    rw [Object.canonicalJson, hsorted, dumps, loads_render hN,
      ← Object.sortKeys_loaded_eq_iff v.distinct hcomparable]
    show Except.ok (render N.asciiCodec false _) = .ok (render N.asciiCodec false _) ↔ _
    rw [Except.ok.injEq, (Lawful.render_injective hN.asciiCodec false).eq_iff, eq_comm]
    exact Iff.rfl
  · refine iff_of_false (fun h => ?_) fun h => hcomparable ?_
    · have hparse : parse N.reader (dumps N v.object.toDoc) = some _ :=
        hN.asciiCodec.parse_render true _
      rw [loads, hparse] at h
      obtain ⟨d, hd, -⟩ := map_eq_ok_iff.1 (h.trans rfl)
      exact hcomparable ((Object.sortedDoc_eq_ok_iff d).1 hd).1
    · exact h.mono fun ks hks => hks.1

end Resilience.Python
