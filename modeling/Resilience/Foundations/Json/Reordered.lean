import Resilience.Foundations.Json.Members
import Mathlib.Data.List.Perm.Basic

/-!
# Values that differ in the order of members

`Reordered v w`: at every depth, the objects of `w` have the members of those of `v`, in any order.
For values whose objects have no duplicate keys these are the values that sorting makes equal
(`sortKeys_eq_iff`).
-/

namespace Resilience.Json

variable {σ ν : Type}

inductive Reordered : Json σ ν → Json σ ν → Prop
  | null : Reordered .null .null
  | bool (b : Bool) : Reordered (.bool b) (.bool b)
  | num (n : ν) : Reordered (.num n) (.num n)
  | str (s : σ) : Reordered (.str s) (.str s)
  | arr {xs ys : List (Json σ ν)} (elements : List.Forall₂ Reordered xs ys) :
    Reordered (.arr xs) (.arr ys)
  | obj {ms ms' ns : List (σ × Json σ ν)} (keys : ms.map Prod.fst = ms'.map Prod.fst)
    (values : List.Forall₂ Reordered (ms.map Prod.snd) (ms'.map Prod.snd)) (order : ms'.Perm ns) :
    Reordered (.obj ms) (.obj ns)

theorem reordered_arr_iff {xs : List (Json σ ν)} {w : Json σ ν} :
    Reordered (.arr xs) w ↔ ∃ ys, w = .arr ys ∧ List.Forall₂ Reordered xs ys := by
  constructor
  · rintro (_ | _ | _ | _ | helements | _)
    exact ⟨_, rfl, helements⟩
  · rintro ⟨ys, rfl, helements⟩
    exact .arr helements

theorem reordered_obj_iff {ms : List (σ × Json σ ν)} {w : Json σ ν} :
    Reordered (.obj ms) w ↔ ∃ ns, w = .obj ns ∧ ∃ ms' : List (σ × Json σ ν),
      (ms.map Prod.fst = ms'.map Prod.fst ∧
        List.Forall₂ Reordered (ms.map Prod.snd) (ms'.map Prod.snd)) ∧ ms'.Perm ns := by
  constructor
  · rintro (_ | _ | _ | _ | _ | ⟨hkeys, hvalues, horder⟩)
    exact ⟨_, rfl, _, ⟨hkeys, hvalues⟩, horder⟩
  · rintro ⟨ns, rfl, ms', ⟨hkeys, hvalues⟩, horder⟩
    exact .obj hkeys hvalues horder

section Sorted

variable {τ : Type} [LinearOrder τ] {rank : σ → τ}

theorem map_eq_map_iff_forall₂ {α β γ : Type} {R : α → β → Prop} {f : α → γ} {g : β → γ}
    {xs : List α} {ys : List β} (h : ∀ x ∈ xs, ∀ y, f x = g y ↔ R x y) :
    xs.map f = ys.map g ↔ List.Forall₂ R xs ys := by
  induction xs generalizing ys with
  | nil => cases ys <;> simp
  | cons x xs ih =>
    obtain ⟨hx, hxs⟩ := List.forall_mem_cons.1 h
    cases ys with
    | nil => simp
    | cons y ys => rw [List.map_cons, List.map_cons, List.cons.injEq, List.forall₂_cons, hx, ih hxs]

theorem map_members_eq_iff {α β γ : Type} {f : α → γ} {g : β → γ} {ms : List (σ × α)}
    {ns : List (σ × β)} :
    (ms.map fun m => (m.1, f m.2)) = (ns.map fun n => (n.1, g n.2)) ↔
      ms.map Prod.fst = ns.map Prod.fst ∧
        (ms.map Prod.snd).map f = (ns.map Prod.snd).map g := by
  induction ms generalizing ns with
  | nil => cases ns <;> simp
  | cons m ms ih =>
    cases ns with
    | nil => simp
    | cons n ns =>
      simp only [List.map_cons, List.cons.injEq, Prod.mk.injEq, ih]
      exact and_and_and_comm

/-- Member lists are sorted to the same list when they are rearrangements of each other. -/
theorem sortMembers_eq_iff {α : Type} {ms ns : List (σ × α)}
    (hnodup : (ms.map fun m => rank m.1).Nodup) :
    sortMembers rank ms = sortMembers rank ns ↔ ms.Perm ns := by
  constructor
  · intro h
    exact (sortMembers_perm rank ms).symm.trans (h ▸ sortMembers_perm rank ns)
  · intro h
    exact sortMembers_congr rank h hnodup

theorem sortKeys_arr (xs : List (Json σ ν)) :
    sortKeys rank (.arr xs) = .arr (xs.map (sortKeys rank)) :=
  transform_arr id .num (sortMembers rank) xs

/-- **Sorting makes exactly those values equal that differ in the order of members.** -/
theorem sortKeys_eq_iff (hrank : Function.Injective rank) {v w : Json σ ν}
    (hv : v.Within (fun _ => True) List.Nodup) :
    sortKeys rank v = sortKeys rank w ↔ Reordered v w := by
  induction v using ind generalizing w with
  | arr xs ih =>
    rw [within_arr] at hv
    have helements : ∀ x ∈ xs, ∀ y, sortKeys rank x = sortKeys rank y ↔ Reordered x y :=
      fun x hx y => ih x hx (hv x hx)
    rw [reordered_arr_iff, sortKeys_arr]
    cases w with
    | arr ys =>
      rw [sortKeys_arr, Json.arr.injEq, map_eq_map_iff_forall₂ helements]
      simp
    | _ => simp [sortKeys]
  | obj ms ih =>
    rw [within_obj] at hv
    rw [reordered_obj_iff, sortKeys_obj]
    cases w with
    | obj ns =>
      have hnodup : ((ms.map fun m => (m.1, sortKeys rank m.2)).map fun m => rank m.1).Nodup := by
        have hranks := (List.nodup_map_iff hrank).2 hv.1
        rw [List.map_map] at hranks ⊢
        exact hranks
      have hvalues : ∀ x ∈ ms.map Prod.snd, ∀ y, sortKeys rank x = sortKeys rank y ↔
          Reordered x y := by
        intro x hx y
        obtain ⟨m, hm, rfl⟩ := List.mem_map.1 hx
        exact ih m hm (hv.2 m hm).2
      have hperm := congrFun₂ (List.eq_map_comp_perm fun m : σ × Json σ ν =>
        (m.1, sortKeys rank m.2)) (ms.map fun m => (m.1, sortKeys rank m.2)) ns
      rw [sortKeys_obj, Json.obj.injEq, sortMembers_eq_iff hnodup, ← hperm]
      simp only [Relation.Comp, map_members_eq_iff, map_eq_map_iff_forall₂ hvalues]
      simp
    | _ => simp [sortKeys]
  | _ =>
    constructor
    · intro h
      cases w with
      | arr ys => rw [sortKeys_arr] at h; cases h
      | obj ns => rw [sortKeys_obj] at h; cases h
      | _ => cases h <;> constructor
    · rintro ⟨⟩
      rfl

end Sorted

end Resilience.Json
