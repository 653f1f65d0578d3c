import Resilience.Foundations.Json.Reordered
import Resilience.TypeScript.Values

/-!
# What `canonicalJson` drops and misplaces

`canonicalJson` of a value that `JSON.parse` returned, against the text of the value with the keys
of every object sorted (`Json.sortKeys codes`). `sortKeys` rebuilds an object by assignments, and so
its copy has no property `__proto__`, and has the array indices in front.

The texts are the same exactly for values whose objects are `KeysOrderly`
(`canonicalJson_eq_sorted_iff`). Among those, values have the same text when they differ in the
order of properties, and otherwise only if they differ in numbers that are written alike.
-/

namespace Resilience.TypeScript

open Json

variable {ν : Type}

/-- No key is `__proto__`, and array indices come first, and in order, as text too. -/
def KeysOrderly (ks : List Units) : Prop :=
  utf16 "__proto__" ∉ ks ∧
    ∀ k ∈ ks, ∀ k' ∈ ks, codes k < codes k' → indexRank k ≤ indexRank k'

instance (ks : List Units) : Decidable (KeysOrderly ks) :=
  inferInstanceAs (Decidable (_ ∉ ks ∧ ∀ k ∈ ks, ∀ k' ∈ ks, _ → _))

/-- All objects in a value have such keys. -/
def Orderly (v : Doc ν) : Prop := v.Within (fun _ => True) KeysOrderly

/-! ## One object -/

section Members

variable {α β : Type} {ms : List (Units × β)}

theorem mem_keys_reassigned {k : Units} :
    k ∈ (reassigned ms).map Prod.fst ↔ k ∈ ms.map Prod.fst ∧ k ≠ utf16 "__proto__" := by
  simp only [List.mem_map, JsValue.mem_reassigned]
  constructor
  · rintro ⟨m, ⟨hm, hne⟩, rfl⟩
    exact ⟨⟨m, hm, rfl⟩, hne⟩
  · rintro ⟨⟨m, hm, rfl⟩, hne⟩
    exact ⟨m, ⟨hm, hne⟩, rfl⟩

theorem pairwise_reassigned :
    ((reassigned ms).map Prod.fst).Pairwise fun k k' => indexRank k ≤ indexRank k' :=
  pairwise_sortMembers indexRank _

theorem keysOrderly_of_keys_eq
    (h : (reassigned ms).map Prod.fst = (sortMembers codes ms).map Prod.fst) :
    KeysOrderly (ms.map Prod.fst) := by
  have hkeys : ∀ k, k ∈ (sortMembers codes ms).map Prod.fst ↔ k ∈ ms.map Prod.fst :=
    fun k => ((sortMembers_perm codes ms).map Prod.fst).mem_iff
  constructor
  · intro hmem
    rw [← hkeys, ← h, mem_keys_reassigned] at hmem
    exact hmem.2 rfl
  · intro k hk k' hk'
    exact forall_le_of_pairwise codes indexRank (pairwise_sortMembers codes ms)
      (h ▸ pairwise_reassigned) k ((hkeys k).2 hk) k' ((hkeys k').2 hk')

/-- Assigning the properties in order leaves them in order. -/
theorem reassigned_eq_sortMembers (hnodup : (ms.map Prod.fst).Nodup)
    (h : KeysOrderly (ms.map Prod.fst)) : reassigned ms = sortMembers codes ms := by
  have hperm := (sortMembers_perm codes ms).map Prod.fst
  have hfilter : (sortMembers codes ms).filter (fun m => m.1 ≠ utf16 "__proto__") =
      sortMembers codes ms := by
    refine List.filter_eq_self.2 fun m hm => decide_eq_true ?_
    rintro heq
    exact h.1 (heq ▸ hperm.mem_iff.1 (List.mem_map_of_mem hm))
  rw [reassigned, hfilter, ownOrder, sortMembers_eq_self]
  refine ((pairwise_sortMembers codes ms).and (hperm.nodup_iff.2 hnodup)).imp_of_mem ?_
  rintro k k' hk hk' ⟨hle, hne⟩
  exact h.2 k (hperm.mem_iff.1 hk) k' (hperm.mem_iff.1 hk')
    (hle.lt_of_ne (codes_injective.ne hne))

theorem reassigned_eq_sortMembers_iff (hnodup : (ms.map Prod.fst).Nodup) (f g : β → α) :
    reassigned (ms.map fun m => (m.1, f m.2)) = sortMembers codes (ms.map fun m => (m.1, g m.2)) ↔
      KeysOrderly (ms.map Prod.fst) ∧ ∀ m ∈ ms, f m.2 = g m.2 := by
  rw [reassigned_map, sortMembers_map, map_members_eq_iff]
  constructor
  · rintro ⟨hkeys, hvalues⟩
    have hord := keysOrderly_of_keys_eq hkeys
    rw [reassigned_eq_sortMembers hnodup hord, List.map_map, List.map_map,
      List.map_inj_left] at hvalues
    exact ⟨hord, fun m hm => hvalues m ((sortMembers_perm codes ms).mem_iff.2 hm)⟩
  · rintro ⟨hord, hfg⟩
    rw [reassigned_eq_sortMembers hnodup hord]
    refine ⟨rfl, ?_⟩
    rw [List.map_map, List.map_map, List.map_inj_left]
    exact fun m hm => hfg m ((sortMembers_perm codes ms).mem_iff.1 hm)

end Members

/-! ## Values -/

/-- The keys of what is parsed are those of JavaScript objects. -/
theorem own_parse {N : Numerals ν} {s : Text} {v : Doc ν} (h : parse N s = .ok v) :
    v.Within (fun _ => True) OwnKeys := by
  unfold parse at h
  cases hs : Json.parse N.reader s with
  | none => simp [hs] at h
  | some w =>
    simp only [hs, Except.ok.injEq] at h
    rw [← h]
    clear h hs
    induction w using Json.ind with
    | arr xs ih =>
      rw [transform_arr, within_arr]
      exact List.forall_mem_map.2 ih
    | obj ms ih =>
      rw [transform_obj, within_obj]
      have hperm := sortMembers_perm indexRank (assignAll (ms.map fun m =>
        (id m.1, m.2.transform id .num fun ms => ownOrder (assignAll ms))))
      refine ⟨⟨?_, pairwise_sortMembers indexRank _⟩, fun m hm => ⟨trivial, ?_⟩⟩
      · exact (hperm.map Prod.fst).nodup_iff.2 (nodup_assignAll _)
      · obtain ⟨m', hm', rfl⟩ := List.mem_map.1 (assignAll_subset _ (hperm.mem_iff.1 hm))
        exact ih m' hm'
    | _ => trivial

/-- The keys of a copy are sorted exactly when those of the value are orderly. -/
theorem sortKeys_eq_sorted_iff {v : Doc ν} (h : v.Within (fun _ => True) List.Nodup) :
    sortKeys v = Json.sortKeys codes v ↔ Orderly v := by
  induction v using Json.ind with
  | arr xs ih =>
    rw [within_arr] at h
    rw [sortKeys, Json.sortKeys, transform_arr, transform_arr, Orderly, within_arr, Json.arr.injEq,
      List.map_inj_left]
    exact forall₂_congr fun x hx => ih x hx (h x hx)
  | obj ms ih =>
    rw [within_obj] at h
    have hmembers : ∀ m ∈ ms, sortKeys m.2 = Json.sortKeys codes m.2 ↔ True ∧ Orderly m.2 := by
      intro m hm
      rw [ih m hm (h.2 m hm).2, true_and]
    rw [sortKeys_obj, Json.sortKeys_obj, Orderly, within_obj, Json.obj.injEq,
      reassigned_eq_sortMembers_iff h.1]
    exact and_congr_right fun _ => forall₂_congr hmembers
  | _ => exact iff_of_true rfl trivial

section ReadBack

variable {norm : ν → Option ν}

theorem sorted_readBack (v : Doc ν) :
    Json.sortKeys codes (readBack norm v) = readBack norm (Json.sortKeys codes v) := by
  induction v using Json.ind with
  | num n =>
    show Json.sortKeys codes ((norm n).elim .null .num) = (norm n).elim .null .num
    cases norm n <;> rfl
  | arr xs ih =>
    simp only [Json.sortKeys, readBack, transform_arr, List.map_map, Json.arr.injEq]
    exact List.map_congr_left ih
  | obj ms ih =>
    rw [readBack_obj, Json.sortKeys_obj, Json.sortKeys_obj, readBack_obj, ← sortMembers_map,
      List.map_map, List.map_map]
    congr 2
    exact List.map_congr_left fun m hm => Prod.ext rfl (ih m hm)
  | _ => rfl

theorem orderly_readBack {v : Doc ν} : Orderly (readBack norm v) ↔ Orderly v := by
  unfold Orderly
  induction v using Json.ind with
  | num n =>
    show ((norm n).elim .null .num : Doc ν).Within _ _ ↔ _
    cases norm n <;> exact Iff.rfl
  | arr xs ih =>
    rw [readBack, transform_arr, within_arr, within_arr, List.forall_mem_map]
    exact forall₂_congr ih
  | obj ms ih =>
    rw [readBack_obj, within_obj, within_obj, List.map_map, List.forall_mem_map]
    refine and_congr Iff.rfl (forall₂_congr fun m hm => ?_)
    rw [ih m hm]
  | _ => exact Iff.rfl

end ReadBack

/-! ## Texts -/

section Texts

variable {N : Numerals ν} {norm : ν → Option ν} (hN : N.Lawful norm) (hrep : N.Reprints norm)
include hN hrep

/-- **The text has every key of every object once, and in order, exactly when the keys of all
objects are orderly.** -/
theorem canonicalJson_eq_sorted_iff {v : Doc ν} (hv : v.Within (fun _ => True) OwnKeys) :
    canonicalJson N v = stringify N (Json.sortKeys codes v) ↔ Orderly v := by
  have hnodup : (readBack norm v).Within (fun _ => True) List.Nodup :=
    (own_readBack hv).mono (fun _ h => h) fun _ h => h.1
  rw [canonicalJson, JsValue.stringify_eq_iff hN hrep, ← sortKeys_readBack, ← sorted_readBack,
    sortKeys_eq_sorted_iff hnodup, orderly_readBack]

/-- The texts of sorted values are the same when the values differ in the order of properties, and
in numbers that are written alike. -/
theorem stringify_sorted_eq_iff {v w : Doc ν} (hv : v.Within (fun _ => True) OwnKeys) :
    stringify N (Json.sortKeys codes v) = stringify N (Json.sortKeys codes w) ↔
      Reordered (readBack norm v) (readBack norm w) := by
  have hnodup : (readBack norm v).Within (fun _ => True) List.Nodup :=
    (own_readBack hv).mono (fun _ h => h) fun _ h => h.1
  rw [JsValue.stringify_eq_iff hN hrep, ← sorted_readBack, ← sorted_readBack,
    sortKeys_eq_iff codes_injective hnodup]

theorem reordered_readBack {v w : Doc ν} (hv : v.Within (fun _ => True) OwnKeys)
    (h : Reordered v w) : Reordered (readBack norm v) (readBack norm w) := by
  have hnodup : v.Within (fun _ => True) List.Nodup := hv.mono (fun _ h => h) fun _ h => h.1
  rw [← sortKeys_eq_iff codes_injective hnodup] at h
  rw [← stringify_sorted_eq_iff hN hrep hv, h]

/-- **What the texts of two values that are parsed say.** Each has every key of every object once,
in order and with its value, and they are the same when the values differ in the order of
properties only: exactly when the keys of all objects are orderly, and the values do not differ in
nothing but the order of properties and numbers that are written alike. -/
theorem canonicalJson_faithful_iff {s s' : Text} {v w : Doc ν} (hv : parse N s = .ok v)
    (hw : parse N s' = .ok w) :
    (canonicalJson N v = stringify N (Json.sortKeys codes v) ∧
        canonicalJson N w = stringify N (Json.sortKeys codes w) ∧
        (canonicalJson N v = canonicalJson N w ↔ Reordered v w)) ↔
      Orderly v ∧ Orderly w ∧ (Reordered (readBack norm v) (readBack norm w) → Reordered v w) := by
  have hv := own_parse hv
  have hw := own_parse hw
  rw [canonicalJson_eq_sorted_iff hN hrep hv, canonicalJson_eq_sorted_iff hN hrep hw]
  refine and_congr_right fun hvord => and_congr_right fun hword => ?_
  rw [(canonicalJson_eq_sorted_iff hN hrep hv).2 hvord,
    (canonicalJson_eq_sorted_iff hN hrep hw).2 hword, stringify_sorted_eq_iff hN hrep hv]
  constructor
  · exact fun h => h.1
  · exact fun h => ⟨h, reordered_readBack hN hrep hv⟩

end Texts

theorem canonicalJson_faithful_iff_integers :
    ∃ v w : Doc ℤ, parse Numerals.integers (ascii "\x7b\"b\":1,\"a\":2\x7d") = .ok v ∧
      parse Numerals.integers (ascii "\x7b\"a\":2,\"b\":1\x7d") = .ok w ∧
      ((canonicalJson Numerals.integers v = stringify Numerals.integers (Json.sortKeys codes v) ∧
          canonicalJson Numerals.integers w = stringify Numerals.integers (Json.sortKeys codes w) ∧
          (canonicalJson Numerals.integers v = canonicalJson Numerals.integers w ↔
            Reordered v w)) ↔
        Orderly v ∧ Orderly w ∧
          (Reordered (readBack some v) (readBack some w) → Reordered v w)) := by
  have hv : parse Numerals.integers (ascii "\x7b\"b\":1,\"a\":2\x7d") =
      .ok (.obj [(utf16 "b", .num 1), (utf16 "a", .num 2)]) := by decide +kernel
  have hw : parse Numerals.integers (ascii "\x7b\"a\":2,\"b\":1\x7d") =
      .ok (.obj [(utf16 "a", .num 2), (utf16 "b", .num 1)]) := by decide +kernel
  exact ⟨_, _, hv, hw,
    canonicalJson_faithful_iff Numerals.lawful_integers (Numerals.reprints_some _) hv hw⟩

/-- A property `__proto__` is dropped: the text is that of an empty object. -/
theorem exists_dropped :
    ∃ v w : Doc ℤ, parse Numerals.integers (ascii "\x7b\"__proto__\":1\x7d") = .ok v ∧
      parse Numerals.integers (ascii "\x7b\x7d") = .ok w ∧
      canonicalJson Numerals.integers v ≠ stringify Numerals.integers (Json.sortKeys codes v) ∧
      canonicalJson Numerals.integers v = canonicalJson Numerals.integers w ∧ ¬ Reordered v w := by
  refine ⟨.obj [(utf16 "__proto__", .num 1)], .obj [], by decide +kernel, by decide +kernel,
    by decide +kernel, by decide +kernel, ?_⟩
  rintro (_ | _ | _ | _ | _ | ⟨hkeys, -, horder⟩)
  rw [List.perm_nil.1 horder] at hkeys
  cases hkeys

end Resilience.TypeScript
