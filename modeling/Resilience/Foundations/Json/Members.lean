import Resilience.Foundations.Json.Basic
import Mathlib.Data.List.Pairwise
import Mathlib.Data.List.Sort
import Mathlib.Data.List.Lex

/-!
# Members of objects

Member lists as a language with hash maps sees them. `assign` gives a key a value, in place when the
key is there already, and `assignAll` does so for one member after the other, so that of a key that
occurs twice the last value stays, in the first place. `sortMembers` puts members in an order of
their keys, given by a `rank`, and `sortKeys` does so in every object of a value.

A lookup in a list without duplicate keys does not depend on the order of the list
(`lookup_eq_of_perm`).
-/

namespace Resilience.Json

variable {σ ν α : Type}

/-! ## Lookup -/

section Lookup

variable [DecidableEq σ]

/-- The value of a key. -/
def lookup (k : σ) : List (σ × α) → Option α
  | [] => none
  | m :: ms => if k = m.1 then some m.2 else lookup k ms

@[simp] theorem lookup_nil (k : σ) : lookup k ([] : List (σ × α)) = none := rfl

theorem lookup_cons (k : σ) (m : σ × α) (ms : List (σ × α)) :
    lookup k (m :: ms) = if k = m.1 then some m.2 else lookup k ms := rfl

theorem lookup_append (k : σ) (ms ns : List (σ × α)) :
    lookup k (ms ++ ns) = (lookup k ms).or (lookup k ns) := by
  induction ms with
  | nil => rfl
  | cons m ms ih =>
    rw [List.cons_append, lookup_cons, lookup_cons, ih]
    split_ifs <;> rfl

theorem lookup_map (k : σ) {β : Type} (f : α → β) (ms : List (σ × α)) :
    lookup k (ms.map fun m => (m.1, f m.2)) = (lookup k ms).map f := by
  induction ms with
  | nil => rfl
  | cons m ms ih =>
    rw [List.map_cons, lookup_cons, lookup_cons, ih]
    split_ifs <;> rfl

theorem mem_of_lookup {k : σ} {v : α} {ms : List (σ × α)} (h : lookup k ms = some v) :
    (k, v) ∈ ms := by
  induction ms with
  | nil => cases h
  | cons m ms ih =>
    rw [lookup_cons] at h
    split_ifs at h with hk
    · rw [hk, ← Option.some.inj h]
      exact List.mem_cons_self ..
    · exact List.mem_cons_of_mem _ (ih h)

theorem lookup_eq_some_iff_mem {k : σ} {v : α} {ms : List (σ × α)}
    (hnodup : (ms.map Prod.fst).Nodup) : lookup k ms = some v ↔ (k, v) ∈ ms := by
  refine ⟨mem_of_lookup, fun h => ?_⟩
  induction ms with
  | nil => exact absurd h List.not_mem_nil
  | cons m ms ih =>
    obtain ⟨hm, hms⟩ := List.nodup_cons.1 hnodup
    rw [lookup_cons]
    rcases List.mem_cons.1 h with rfl | h
    · rw [if_pos rfl]
    · have hne : k ≠ m.1 := fun heq => hm (heq ▸ List.mem_map_of_mem h)
      rw [if_neg hne, ih hms h]

theorem lookup_filter {k : σ} {p : σ → Bool} (hk : p k = true) (ms : List (σ × α)) :
    lookup k (ms.filter fun m => p m.1) = lookup k ms := by
  induction ms with
  | nil => rfl
  | cons m ms ih =>
    by_cases hm : p m.1 = true
    · rw [List.filter_cons, if_pos hm, lookup_cons, lookup_cons, ih]
    · have hne : k ≠ m.1 := fun heq => hm (heq ▸ hk)
      rw [List.filter_cons, if_neg hm, lookup_cons, if_neg hne, ih]

omit [DecidableEq σ] in
/-- Members without duplicate keys can be told apart one by one. -/
theorem filterMap_eq_filterMap_iff {β : Type} {f g : σ × α → Option (σ × β)}
    (hf : ∀ m n, f m = some n → n.1 = m.1) (hg : ∀ m n, g m = some n → n.1 = m.1)
    {ms : List (σ × α)} (hnodup : (ms.map Prod.fst).Nodup) :
    ms.filterMap f = ms.filterMap g ↔ ∀ m ∈ ms, f m = g m := by
  refine ⟨fun h => ?_, List.filterMap_congr⟩
  induction ms with
  | nil => exact fun m hm => absurd hm List.not_mem_nil
  | cons m ms ih =>
    obtain ⟨hm, hms⟩ := List.nodup_cons.1 hnodup
    have hkey : ∀ {f : σ × α → Option (σ × β)} (_ : ∀ m n, f m = some n → n.1 = m.1) {n : σ × β},
        n ∈ ms.filterMap f → n.1 ≠ m.1 := by
      intro f hf n hn heq
      obtain ⟨m', hm', hn'⟩ := List.mem_filterMap.1 hn
      rw [hf m' n hn'] at heq
      exact hm (heq ▸ List.mem_map_of_mem hm')
    rw [List.forall_mem_cons]
    cases hfm : f m with
    | none =>
      rw [List.filterMap_cons_none hfm] at h
      cases hgm : g m with
      | none =>
        rw [List.filterMap_cons_none hgm] at h
        exact ⟨rfl, ih hms h⟩
      | some n =>
        rw [List.filterMap_cons_some hgm] at h
        exact absurd (hg m n hgm) (hkey hf (h ▸ List.mem_cons_self ..))
    | some n =>
      rw [List.filterMap_cons_some hfm] at h
      cases hgm : g m with
      | none =>
        rw [List.filterMap_cons_none hgm] at h
        exact absurd (hf m n hfm) (hkey hg (h ▸ List.mem_cons_self ..))
      | some n' =>
        rw [List.filterMap_cons_some hgm] at h
        obtain ⟨hhead, htail⟩ := List.cons.inj h
        exact ⟨congrArg some hhead, ih hms htail⟩

theorem lookup_eq_of_perm {ms ns : List (σ × α)} (h : ms.Perm ns)
    (hnodup : (ms.map Prod.fst).Nodup) (k : σ) : lookup k ms = lookup k ns := by
  have hnodup' : (ns.map Prod.fst).Nodup := (h.map Prod.fst).nodup hnodup
  ext v
  rw [lookup_eq_some_iff_mem hnodup, lookup_eq_some_iff_mem hnodup', h.mem_iff]

end Lookup

/-! ## Assignment -/

section Assign

/-- The key of a member is not among those before it. -/
theorem not_mem_keys_of_nodup {m : σ × α} {ms ns : List (σ × α)}
    (h : ((ms ++ m :: ns).map Prod.fst).Nodup) : m.1 ∉ ms.map Prod.fst := by
  intro hmem
  rw [List.map_append] at h
  exact (List.nodup_append.1 h).2.2 _ hmem m.1 (by simp) rfl

variable [DecidableEq σ]

def assign (k : σ) (v : α) : List (σ × α) → List (σ × α)
  | [] => [(k, v)]
  | m :: ms => if m.1 = k then (k, v) :: ms else m :: assign k v ms

def assignAll (ms : List (σ × α)) : List (σ × α) :=
  ms.foldl (fun acc m => assign m.1 m.2 acc) []

theorem mem_of_mem_assign {k : σ} {v : α} {m : σ × α} {ms : List (σ × α)}
    (h : m ∈ assign k v ms) : m = (k, v) ∨ m ∈ ms := by
  induction ms with
  | nil => exact .inl (List.mem_singleton.1 h)
  | cons m' ms ih =>
    unfold assign at h
    split_ifs at h
    · exact (List.mem_cons.1 h).imp id (List.mem_cons_of_mem _)
    · rcases List.mem_cons.1 h with rfl | h
      · exact .inr (List.mem_cons_self ..)
      · exact (ih h).imp id (List.mem_cons_of_mem _)

theorem mem_keys_assign {k k' : σ} {v : α} {ms : List (σ × α)}
    (h : k' ∈ (assign k v ms).map Prod.fst) : k' = k ∨ k' ∈ ms.map Prod.fst := by
  obtain ⟨m, hm, rfl⟩ := List.mem_map.1 h
  obtain rfl | hm := mem_of_mem_assign hm
  · exact .inl rfl
  · exact .inr (List.mem_map_of_mem hm)

theorem nodup_assign {k : σ} {v : α} {ms : List (σ × α)} (h : (ms.map Prod.fst).Nodup) :
    ((assign k v ms).map Prod.fst).Nodup := by
  induction ms with
  | nil => exact List.nodup_singleton k
  | cons m ms ih =>
    obtain ⟨hm, hms⟩ := List.nodup_cons.1 h
    unfold assign
    split_ifs with hk
    · exact List.nodup_cons.2 ⟨hk ▸ hm, hms⟩
    · refine List.nodup_cons.2 ⟨fun hmem => ?_, ih hms⟩
      rcases mem_keys_assign hmem with heq | hmem
      · exact hk heq
      · exact hm hmem

theorem nodup_assignAll (ms : List (σ × α)) : ((assignAll ms).map Prod.fst).Nodup := by
  suffices ∀ acc : List (σ × α), (acc.map Prod.fst).Nodup →
      ((ms.foldl (fun acc m => assign m.1 m.2 acc) acc).map Prod.fst).Nodup from
    this [] List.nodup_nil
  induction ms with
  | nil => exact fun acc h => h
  | cons m ms ih => exact fun acc h => ih _ (nodup_assign h)

theorem lookup_assign (k k' : σ) (v : α) (ms : List (σ × α)) :
    lookup k' (assign k v ms) = if k' = k then some v else lookup k' ms := by
  induction ms with
  | nil => rfl
  | cons m ms ih =>
    by_cases hk : m.1 = k
    · rw [assign, if_pos hk, lookup_cons, lookup_cons, hk]
      split_ifs <;> rfl
    · rw [assign, if_neg hk, lookup_cons, lookup_cons, ih]
      by_cases hk' : k' = m.1
      · rw [if_pos hk', if_pos hk', if_neg (hk' ▸ hk)]
      · rw [if_neg hk', if_neg hk']

theorem assignAll_subset (ms : List (σ × α)) : assignAll ms ⊆ ms := by
  suffices ∀ acc : List (σ × α), ∀ m ∈ ms.foldl (fun acc m => assign m.1 m.2 acc) acc,
      m ∈ acc ∨ m ∈ ms from fun m hm => (this [] m hm).resolve_left List.not_mem_nil
  induction ms with
  | nil => exact fun acc m hm => .inl hm
  | cons m ms ih =>
    intro acc m' hm'
    rcases ih _ m' hm' with h | h
    · rcases mem_of_mem_assign h with rfl | h
      · exact .inr (List.mem_cons_self ..)
      · exact .inl h
    · exact .inr (List.mem_cons_of_mem _ h)

/-- Values that are assigned key by key have no duplicate keys. -/
theorem within_transform_assignAll (v : Json σ ν) :
    (v.transform id .num assignAll).Within (fun _ => True) List.Nodup := by
  induction v using ind with
  | arr xs ih =>
    rw [transform_arr, within_arr]
    exact List.forall_mem_map.2 ih
  | obj ms ih =>
    rw [transform_obj, within_obj]
    refine ⟨nodup_assignAll _, fun m hm => ⟨trivial, ?_⟩⟩
    obtain ⟨m', hm', rfl⟩ := List.mem_map.1 (assignAll_subset _ hm)
    exact ih m' hm'
  | _ => trivial

theorem assign_eq_append {k : σ} {v : α} {ms : List (σ × α)} (h : k ∉ ms.map Prod.fst) :
    assign k v ms = ms ++ [(k, v)] := by
  induction ms with
  | nil => rfl
  | cons m ms ih =>
    rw [List.map_cons, List.mem_cons, not_or] at h
    rw [assign, if_neg (Ne.symm h.1), ih h.2, List.cons_append]

/-- Members without duplicate keys stay as they are. -/
theorem assignAll_eq_self {ms : List (σ × α)} (h : (ms.map Prod.fst).Nodup) :
    assignAll ms = ms := by
  suffices ∀ acc : List (σ × α), ((acc ++ ms).map Prod.fst).Nodup →
      ms.foldl (fun acc m => assign m.1 m.2 acc) acc = acc ++ ms from this [] h
  clear h
  induction ms with
  | nil => exact fun acc _ => (List.append_nil acc).symm
  | cons m ms ih =>
    intro acc h
    have hm : m.1 ∉ acc.map Prod.fst := not_mem_keys_of_nodup h
    rw [List.foldl_cons, assign_eq_append hm, ih]
    · simp
    · simpa using h

end Assign

/-! ## Sorting -/

section Sorting

variable {τ : Type} [LinearOrder τ] (rank : σ → τ)

/-- Members in the order of their keys. -/
def sortMembers (ms : List (σ × α)) : List (σ × α) :=
  ms.insertionSort fun m n => rank m.1 ≤ rank n.1

/-- Members in the order of their keys, in every object. -/
def sortKeys : Json σ ν → Json σ ν := transform id .num (sortMembers rank)

theorem sortMembers_perm (ms : List (σ × α)) : (sortMembers rank ms).Perm ms :=
  List.perm_insertionSort _ ms

/-- Sorting looks at the keys only. -/
theorem sortMembers_map {β : Type} (f : α → β) (ms : List (σ × α)) :
    sortMembers rank (ms.map fun m => (m.1, f m.2)) =
      (sortMembers rank ms).map fun m => (m.1, f m.2) :=
  (List.map_insertionSort (fun m n : σ × α => rank m.1 ≤ rank n.1)
    (fun m n : σ × β => rank m.1 ≤ rank n.1) (fun m => (m.1, f m.2)) ms
    fun _ _ _ _ => Iff.rfl).symm

theorem pairwise_sortMembers (ms : List (σ × α)) :
    ((sortMembers rank ms).map Prod.fst).Pairwise fun k k' => rank k ≤ rank k' := by
  rw [List.pairwise_map]
  exact List.pairwise_insertionSort _ ms

theorem sortMembers_eq_self {ms : List (σ × α)} :
    sortMembers rank ms = ms ↔ (ms.map Prod.fst).Pairwise fun k k' => rank k ≤ rank k' := by
  constructor
  · intro h
    exact h ▸ pairwise_sortMembers rank ms
  · intro h
    rw [List.pairwise_map] at h
    exact h.insertionSort_eq

/-- Members with different ranks have one order only. -/
theorem eq_of_perm_of_sorted {ms ns : List (σ × α)} (h : ms.Perm ns)
    (hnodup : (ms.map fun m => rank m.1).Nodup)
    (hms : (ms.map Prod.fst).Pairwise fun k k' => rank k ≤ rank k')
    (hns : (ns.map Prod.fst).Pairwise fun k k' => rank k ≤ rank k') : ms = ns := by
  rw [List.pairwise_map] at hms hns
  refine h.eq_of_pairwise (fun m n hm hn hle hge => ?_) hms hns
  exact List.inj_on_of_nodup_map hnodup hm (h.mem_iff.2 hn) (le_antisymm hle hge)

theorem sortMembers_congr {ms ns : List (σ × α)} (h : ms.Perm ns)
    (hnodup : (ms.map fun m => rank m.1).Nodup) : sortMembers rank ms = sortMembers rank ns := by
  have hperm := (sortMembers_perm rank ms).trans (h.trans (sortMembers_perm rank ns).symm)
  refine eq_of_perm_of_sorted rank hperm ?_ (pairwise_sortMembers rank ms)
    (pairwise_sortMembers rank ns)
  exact (((sortMembers_perm rank ms).map _).nodup_iff).2 hnodup

/-- Keys that are in order by two ranks. -/
theorem forall_le_of_pairwise {τ' : Type} [LinearOrder τ'] (rank' : σ → τ') {ks : List σ}
    (h : ks.Pairwise fun k k' => rank k ≤ rank k')
    (h' : ks.Pairwise fun k k' => rank' k ≤ rank' k') :
    ∀ k ∈ ks, ∀ k' ∈ ks, rank k < rank k' → rank' k ≤ rank' k' := by
  let R (k k' : σ) : Prop :=
    (rank k < rank k' → rank' k ≤ rank' k') ∧ (rank k' < rank k → rank' k' ≤ rank' k)
  have hR : ks.Pairwise R :=
    (h.and h').imp fun hle => ⟨fun _ => hle.2, fun hlt => absurd hle.1 hlt.not_ge⟩
  have : Std.Symm R := ⟨fun _ _ hab => ⟨hab.2, hab.1⟩⟩
  have hrefl : ∀ a ∈ ks, R a a := fun a _ => ⟨fun _ => le_rfl, fun _ => le_rfl⟩
  intro k hk k' hk'
  exact (List.Pairwise.forall_of_forall hrefl hR hk hk').1

/-- Sorting depends on how keys compare only. -/
theorem sortMembers_rank_congr {τ' : Type} [LinearOrder τ'] {rank' : σ → τ'} {ms : List (σ × α)}
    (h : ∀ m ∈ ms, ∀ n ∈ ms, rank' m.1 ≤ rank' n.1 ↔ rank m.1 ≤ rank n.1) :
    sortMembers rank' ms = sortMembers rank ms := by
  have hmap := List.map_insertionSort (fun m n : σ × α => rank' m.1 ≤ rank' n.1)
    (fun m n : σ × α => rank m.1 ≤ rank n.1) id ms h
  rwa [List.map_id, List.map_id] at hmap

/-- Sorting by one rank and then renaming the keys is renaming them and then sorting by another,
exactly when the ranks agree. -/
theorem sortMembers_rename_iff {κ τ' β : Type} [LinearOrder τ'] (rank' : κ → τ') (name : κ → σ)
    {ms : List (κ × β)} (hrank : (ms.map fun m => rank (name m.1)).Nodup)
    (hrank' : (ms.map fun m => rank' m.1).Nodup) (f g : β → α) :
    sortMembers rank (ms.map fun m => (name m.1, f m.2)) =
        (sortMembers rank' (ms.map fun m => (m.1, g m.2))).map (fun m => (name m.1, m.2)) ↔
      (∀ k ∈ ms.map Prod.fst, ∀ k' ∈ ms.map Prod.fst, rank' k < rank' k' →
        rank (name k) < rank (name k')) ∧ ∀ m ∈ ms, f m.2 = g m.2 := by
  have hperm : ((sortMembers rank' (ms.map fun m => (m.1, g m.2))).map
      fun m => (name m.1, m.2)).Perm (ms.map fun m => (name m.1, g m.2)) := by
    have hsorted := (sortMembers_perm rank' (ms.map fun m => (m.1, g m.2))).map
      fun m => (name m.1, m.2)
    rwa [List.map_map] at hsorted
  have hkey : ∀ k, k ∈ (sortMembers rank' (ms.map fun m => (m.1, g m.2))).map Prod.fst ↔
      k ∈ ms.map Prod.fst := by
    intro k
    rw [((sortMembers_perm rank' _).map Prod.fst).mem_iff, List.map_map]
    rfl
  have hinj : ∀ k ∈ ms.map Prod.fst, ∀ k' ∈ ms.map Prod.fst, rank (name k) = rank (name k') →
      rank' k = rank' k' := by
    intro k hk k' hk' heq
    obtain ⟨m, hm, rfl⟩ := List.mem_map.1 hk
    obtain ⟨m', hm', rfl⟩ := List.mem_map.1 hk'
    rw [List.inj_on_of_nodup_map hrank hm hm' heq]
  constructor
  · intro h
    have hpair : ((sortMembers rank' (ms.map fun m => (m.1, g m.2))).map Prod.fst).Pairwise
        fun k k' => rank (name k) ≤ rank (name k') := by
      have hsorted := pairwise_sortMembers rank (ms.map fun m => (name m.1, f m.2))
      rw [h, List.map_map, List.pairwise_map] at hsorted
      rw [List.pairwise_map]
      exact hsorted
    refine ⟨fun k hk k' hk' hlt => ?_, fun m hm => ?_⟩
    · refine lt_of_le_of_ne ?_ fun heq => hlt.ne (hinj k hk k' hk' heq)
      exact forall_le_of_pairwise rank' (fun k => rank (name k)) (pairwise_sortMembers rank' _)
        hpair k ((hkey k).2 hk) k' ((hkey k').2 hk') hlt
    · have hmem : (name m.1, f m.2) ∈ ms.map fun m => (name m.1, g m.2) := by
        rw [← hperm.mem_iff, ← h, (sortMembers_perm rank _).mem_iff]
        exact List.mem_map_of_mem hm
      obtain ⟨m', hm', heq⟩ := List.mem_map.1 hmem
      obtain ⟨hname, hvalue⟩ := Prod.mk.inj heq
      obtain rfl := List.inj_on_of_nodup_map hrank hm hm' (congrArg rank hname).symm
      exact hvalue.symm
  · rintro ⟨horder, hvalues⟩
    have hms : (ms.map fun m => (name m.1, f m.2)) = ms.map fun m => (name m.1, g m.2) :=
      List.map_congr_left fun m hm => Prod.ext rfl (hvalues m hm)
    have hnodup : ((ms.map fun m => (name m.1, g m.2)).map fun m => rank m.1).Nodup := by
      rwa [List.map_map]
    rw [hms]
    refine eq_of_perm_of_sorted rank ((sortMembers_perm rank _).trans hperm.symm) ?_
      (pairwise_sortMembers rank _) ?_
    · exact ((sortMembers_perm rank _).map _).nodup_iff.2 hnodup
    · rw [List.map_map, List.pairwise_map]
      have hsorted := pairwise_sortMembers rank' (ms.map fun m => (m.1, g m.2))
      rw [List.pairwise_map] at hsorted
      refine hsorted.imp_of_mem fun {m m'} hm hm' hle => ?_
      have hk := (hkey m.1).1 (List.mem_map_of_mem hm)
      have hk' := (hkey m'.1).1 (List.mem_map_of_mem hm')
      rcases hle.lt_or_eq with hlt | heq
      · exact (horder _ hk _ hk' hlt).le
      · obtain ⟨n, hn, hn'⟩ := List.mem_map.1 hk
        obtain ⟨n', hn₁, hn₁'⟩ := List.mem_map.1 hk'
        rw [← hn', ← hn₁'] at heq
        obtain rfl := List.inj_on_of_nodup_map hrank' hn hn₁ heq
        exact (congrArg (fun k => rank (name k)) (hn'.symm.trans hn₁')).le

theorem sortKeys_obj (ms : List (σ × Json σ ν)) :
    sortKeys rank (.obj ms) = .obj (sortMembers rank (ms.map fun m => (m.1, sortKeys rank m.2))) :=
  transform_obj id .num (sortMembers rank) ms

theorem sortMembers_sortMembers (ms : List (σ × α)) :
    sortMembers rank (sortMembers rank ms) = sortMembers rank ms :=
  (sortMembers_eq_self rank).2 (pairwise_sortMembers rank ms)

theorem filterMap_orderedInsert {β : Type} {g : σ × α → Option (σ × β)}
    (hg : ∀ m n, g m = some n → n.1 = m.1) (m : σ × α) {ms : List (σ × α)}
    (h : ms.Pairwise fun m n => rank m.1 ≤ rank n.1) :
    (ms.orderedInsert (fun m n => rank m.1 ≤ rank n.1) m).filterMap g =
      (g m).elim (ms.filterMap g)
        (List.orderedInsert (fun m n => rank m.1 ≤ rank n.1) · (ms.filterMap g)) := by
  induction ms with
  | nil => cases hm : g m <;> simp [hm]
  | cons x ms ih =>
    obtain ⟨hx, hms⟩ := List.pairwise_cons.1 h
    rw [List.orderedInsert_cons]
    split_ifs with hle
    · cases hm : g m with
      | none => simp [hm]
      | some n =>
        have hall : ∀ y ∈ (x :: ms).filterMap g, rank n.1 ≤ rank y.1 := by
          intro y hy
          obtain ⟨z, hz, hzy⟩ := List.mem_filterMap.1 hy
          rw [hg m n hm, hg z y hzy]
          rcases List.mem_cons.1 hz with rfl | hz
          · exact hle
          · exact hle.trans (hx z hz)
        rw [List.filterMap_cons_some hm]
        cases hlist : (x :: ms).filterMap g with
        | nil => rfl
        | cons y ys =>
          rw [hlist] at hall
          rw [Option.elim_some, List.orderedInsert_cons, if_pos (hall y (List.mem_cons_self ..))]
    · rw [List.filterMap_cons, ih hms]
      cases hgx : g x with
      | none => simp [hgx]
      | some y =>
        cases hm : g m with
        | none => simp [hgx]
        | some n =>
          have hnot : ¬ rank n.1 ≤ rank y.1 := by rwa [hg m n hm, hg x y hgx]
          simp [hgx, hnot]

/-- Sorting and leaving out members commute. -/
theorem sortMembers_filterMap {β : Type} {g : σ × α → Option (σ × β)}
    (hg : ∀ m n, g m = some n → n.1 = m.1) (ms : List (σ × α)) :
    sortMembers rank (ms.filterMap g) = (sortMembers rank ms).filterMap g := by
  induction ms with
  | nil => rfl
  | cons m ms ih =>
    have hsorted : (sortMembers rank ms).Pairwise fun m n => rank m.1 ≤ rank n.1 :=
      List.pairwise_insertionSort _ ms
    rw [show sortMembers rank (m :: ms) = List.orderedInsert _ m (sortMembers rank ms) from rfl,
      filterMap_orderedInsert rank hg m hsorted, ← ih]
    cases hm : g m with
    | none => rw [List.filterMap_cons_none hm]; rfl
    | some n => rw [List.filterMap_cons_some hm]; rfl

/-- What is sorted stays as it is. -/
theorem sortKeys_sortKeys (v : Json σ ν) : sortKeys rank (sortKeys rank v) = sortKeys rank v := by
  refine transform_transform (fun ms => ?_) v
  show sortMembers rank ((sortMembers rank ms).map fun m => (m.1, sortKeys rank m.2)) =
    sortMembers rank (ms.map fun m => (m.1, sortKeys rank m.2))
  rw [sortMembers_map, sortMembers_map, sortMembers_sortMembers]

/-- What holds of keys in any order holds of sorted keys. -/
theorem Within.sortKeys {q : σ → Prop} {p : List σ → Prop}
    (hp : ∀ ks ks', List.Perm ks ks' → p ks → p ks') {v : Json σ ν} (h : Within q p v) :
    Within q p (sortKeys rank v) := by
  induction v using ind with
  | arr xs ih =>
    rw [within_arr] at h
    rw [Json.sortKeys, transform_arr, within_arr]
    exact List.forall_mem_map.2 fun x hx => ih x hx (h x hx)
  | obj ms ih =>
    rw [within_obj] at h
    have hperm := sortMembers_perm rank (ms.map fun m => (m.1, Json.sortKeys rank m.2))
    rw [sortKeys_obj, within_obj]
    constructor
    · refine hp _ _ (hperm.map Prod.fst).symm ?_
      rw [List.map_map]
      exact h.1
    · intro m hm
      obtain ⟨m', hm', rfl⟩ := List.mem_map.1 (hperm.mem_iff.1 hm)
      exact ⟨(h.2 m' hm').1, ih m' hm' (h.2 m' hm').2⟩
  | _ => exact h

/-- A member of a sorted object. -/
theorem lookup_sortMembers [DecidableEq σ] {ms : List (σ × α)} (h : (ms.map Prod.fst).Nodup)
    (k : σ) : lookup k (sortMembers rank ms) = lookup k ms :=
  (lookup_eq_of_perm (sortMembers_perm rank ms).symm h k).symm

theorem sortKeys_eq_str {v : Json σ ν} {s : σ} : sortKeys rank v = .str s ↔ v = .str s := by
  constructor
  · intro h
    cases v with
    | str t => exact h
    | arr xs =>
      rw [sortKeys, transform_arr] at h
      cases h
    | obj ms =>
      rw [sortKeys_obj] at h
      cases h
    | _ => cases h
  · rintro rfl
    rfl

end Sorting

end Resilience.Json
