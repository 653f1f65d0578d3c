import Resilience.Foundations.Json.Members
import Mathlib.Data.List.Perm.Basic

/-!
# Arrangements of members

How a language keeps the members of an object: an `Arrangement` reorders member lists by their keys
alone. Arranging every object of a value keeps what holds of its strings and of its sets of keys
(`Within.arranged`), and is not seen by a reader that makes the same of all orders
(`transform_arranged`).
-/

namespace Resilience.Json

/-- A way of ordering members that looks at their keys only. -/
structure Arrangement (σ : Type) where
  apply : {α : Type} → List (σ × α) → List (σ × α)
  map_snd : ∀ {α β : Type} (f : α → β) (ms : List (σ × α)),
    apply (ms.map fun m => (m.1, f m.2)) = (apply ms).map fun m => (m.1, f m.2)
  perm : ∀ {α : Type} {ms : List (σ × α)}, (ms.map Prod.fst).Nodup → (apply ms).Perm ms

variable {σ ν : Type}

/-- Members sorted by the rank of their keys. -/
def Arrangement.sorted {τ : Type} [LinearOrder τ] (rank : σ → τ) : Arrangement σ where
  apply ms := sortMembers rank ms
  map_snd f ms := sortMembers_map rank f ms
  perm _ := sortMembers_perm rank _

/-- The value with the members of every object arranged. -/
def arranged (A : Arrangement σ) (v : Json σ ν) : Json σ ν := v.transform id .num A.apply

section Arranged

variable (A : Arrangement σ)

theorem arranged_arr (xs : List (Json σ ν)) : arranged A (.arr xs) = .arr (xs.map (arranged A)) :=
  transform_arr ..

theorem arranged_obj (ms : List (σ × Json σ ν)) :
    arranged A (.obj ms) = .obj (A.apply (ms.map fun m => (m.1, arranged A m.2))) :=
  transform_obj ..

theorem nodup_map_snd {α β : Type} {ms : List (σ × α)} (h : (ms.map Prod.fst).Nodup) (f : α → β) :
    ((ms.map fun m => (m.1, f m.2)).map Prod.fst).Nodup := by
  rw [List.map_map]
  exact h

theorem Within.arranged {q : σ → Prop} {p : List σ → Prop}
    (hp : ∀ ks ks', List.Perm ks ks' → p ks → p ks') {v : Json σ ν} (h : Within q p v)
    (hv : Within (fun _ => True) List.Nodup v) : Within q p (arranged A v) := by
  induction v using ind with
  | arr xs ih =>
    rw [within_arr] at h hv
    rw [arranged_arr, within_arr]
    intro x hx
    obtain ⟨y, hy, rfl⟩ := List.mem_map.1 hx
    exact ih y hy (h y hy) (hv y hy)
  | obj ms ih =>
    rw [within_obj] at h hv
    have hperm := A.perm (nodup_map_snd hv.1 (Json.arranged A))
    have hkeys : (ms.map Prod.fst).Perm
        ((A.apply (ms.map fun m => (m.1, Json.arranged A m.2))).map Prod.fst) := by
      refine List.Perm.trans (List.Perm.of_eq ?_) (hperm.map Prod.fst).symm
      rw [List.map_map]
      rfl
    rw [arranged_obj, within_obj]
    refine ⟨hp _ _ hkeys h.1, fun m hm => ?_⟩
    obtain ⟨m', hm', rfl⟩ := List.mem_map.1 (hperm.mem_iff.1 hm)
    exact ⟨(h.2 m' hm').1, ih m' hm' (h.2 m' hm').2 (hv.2 m' hm').2⟩
  | _ => exact h

theorem depth_arranged_le {v : Json σ ν} (hv : Within (fun _ => True) List.Nodup v) {n : ℕ}
    (h : depth v ≤ n) : depth (Json.arranged A v) ≤ n := by
  induction v using ind generalizing n with
  | arr xs ih =>
    rw [within_arr] at hv
    cases n with
    | zero => exact absurd h (Nat.not_succ_le_zero _)
    | succ n =>
      rw [depth_arr_le] at h
      rw [arranged_arr, depth_arr_le]
      intro x hx
      obtain ⟨y, hy, rfl⟩ := List.mem_map.1 hx
      exact ih y hy (hv y hy) (h y hy)
  | obj ms ih =>
    rw [within_obj] at hv
    cases n with
    | zero => exact absurd h (Nat.not_succ_le_zero _)
    | succ n =>
      have hperm := A.perm (nodup_map_snd hv.1 (Json.arranged A))
      rw [depth_obj_le] at h
      rw [arranged_obj, depth_obj_le]
      intro m hm
      obtain ⟨m', hm', rfl⟩ := List.mem_map.1 (hperm.mem_iff.1 hm)
      exact ih m' hm' (hv.2 m' hm').2 (h m' hm')
  | _ => exact h

/-- What is rebuilt of a value does not depend on the arrangement of its members, when the rebuilt
objects do not. -/
theorem transform_arranged {σ' ν' : Type} {g : σ → σ'} {f : ν → Json σ' ν'}
    {o : List (σ' × Json σ' ν') → List (σ' × Json σ' ν')} (hg : Function.Injective g)
    (ho : ∀ ms ns, List.Perm ms ns → (ms.map Prod.fst).Nodup → o ms = o ns) {v : Json σ ν}
    (hv : Within (fun _ => True) List.Nodup v) :
    transform g f o (arranged A v) = transform g f o v := by
  induction v using ind with
  | arr xs ih =>
    rw [within_arr] at hv
    rw [arranged_arr, transform_arr, transform_arr, List.map_map]
    exact congrArg _ (List.map_congr_left fun x hx => ih x hx (hv x hx))
  | obj ms ih =>
    rw [within_obj] at hv
    have hperm := (A.perm (nodup_map_snd hv.1 (arranged A))).map
      fun m => (g m.1, transform g f o m.2)
    have hvalues : (ms.map fun m => (m.1, arranged A m.2)).map
        (fun m => (g m.1, transform g f o m.2)) = ms.map fun m => (g m.1, transform g f o m.2) := by
      rw [List.map_map]
      exact List.map_congr_left fun m hm => Prod.ext rfl (ih m hm (hv.2 m hm).2)
    rw [hvalues] at hperm
    rw [arranged_obj, transform_obj, transform_obj]
    refine congrArg Json.obj (ho _ _ hperm ?_)
    have hkeys := (List.nodup_map_iff hg).2 hv.1
    refine ((hperm.map Prod.fst).nodup_iff).2 ?_
    rw [List.map_map] at hkeys ⊢
    exact hkeys
  | _ => rfl

/-- Arranging that is the rearrangement `o` under the new names is done on the way. -/
theorem arranged_transform {σ' ν' : Type} {g : σ → σ'} {f : ν → Json σ' ν'}
    {o : List (σ' × Json σ' ν') → List (σ' × Json σ' ν')}
    (ho : ∀ ms : List (σ × Json σ' ν'),
      (A.apply ms).map (fun m => (g m.1, m.2)) = o (ms.map fun m => (g m.1, m.2)))
    (v : Json σ ν) : transform g f id (arranged A v) = transform g f o v := by
  refine transform_transform (fun ms => ?_) v
  have h := ho (ms.map fun m => (m.1, transform g f id m.2))
  rw [A.map_snd, List.map_map, List.map_map] at h
  exact h

/-- Sorting by the ranks of new names is done under the new names. -/
theorem map_sortMembers {σ' α τ : Type} [LinearOrder τ] (rank : σ' → τ) (g : σ → σ')
    (ms : List (σ × α)) :
    (sortMembers (fun k => rank (g k)) ms).map (fun m => (g m.1, m.2)) =
      sortMembers rank (ms.map fun m => (g m.1, m.2)) :=
  List.map_insertionSort (fun m n : σ × α => rank (g m.1) ≤ rank (g n.1))
    (fun m n : σ' × α => rank m.1 ≤ rank n.1) (fun m => (g m.1, m.2)) ms fun _ _ _ _ => Iff.rfl

end Arranged

section Distinct

variable {σ' ν' : Type} {g : σ → σ'} {f : ν → Json σ' ν'}
  {o o' : List (σ' × Json σ' ν') → List (σ' × Json σ' ν')}

theorem nodup_rename {α β : Type} (hg : Function.Injective g) {ms : List (σ × α)}
    (h : (ms.map Prod.fst).Nodup) (f : α → β) :
    ((ms.map fun m => (g m.1, f m.2)).map Prod.fst).Nodup := by
  have hnodup := (List.nodup_map_iff hg).2 h
  rw [List.map_map] at hnodup ⊢
  exact hnodup

/-- Different keys stay different under new names, and `o` arranges them. -/
theorem Within.rename {p : List σ' → Prop} (hg : Function.Injective g)
    (hf : ∀ n, Within (fun _ => True) p (f n))
    (ho : ∀ ms : List (σ' × Json σ' ν'), (ms.map Prod.fst).Nodup →
      p ((o ms).map Prod.fst) ∧ o ms ⊆ ms)
    {v : Json σ ν} (hv : Within (fun _ => True) List.Nodup v) :
    Within (fun _ => True) p (transform g f o v) := by
  induction v using ind with
  | num n => exact hf n
  | arr xs ih =>
    rw [within_arr] at hv
    rw [transform_arr, within_arr]
    intro x hx
    obtain ⟨y, hy, rfl⟩ := List.mem_map.1 hx
    exact ih y hy (hv y hy)
  | obj ms ih =>
    rw [within_obj] at hv
    obtain ⟨hkeys, hsub⟩ := ho _ (nodup_rename hg hv.1 (transform g f o))
    rw [transform_obj, within_obj]
    refine ⟨hkeys, fun m hm => ⟨trivial, ?_⟩⟩
    obtain ⟨m', hm', rfl⟩ := List.mem_map.1 (hsub hm)
    exact ih m' hm' (hv.2 m' hm').2
  | _ => trivial

theorem transform_congr (hg : Function.Injective g)
    (ho : ∀ ms : List (σ' × Json σ' ν'), (ms.map Prod.fst).Nodup → o ms = o' ms) {v : Json σ ν}
    (hv : Within (fun _ => True) List.Nodup v) : transform g f o v = transform g f o' v := by
  induction v using ind with
  | arr xs ih =>
    rw [within_arr] at hv
    rw [transform_arr, transform_arr]
    exact congrArg _ (List.map_congr_left fun x hx => ih x hx (hv x hx))
  | obj ms ih =>
    rw [within_obj] at hv
    have hvalues : (ms.map fun m => (g m.1, transform g f o m.2)) =
        ms.map fun m => (g m.1, transform g f o' m.2) :=
      List.map_congr_left fun m hm => Prod.ext rfl (ih m hm (hv.2 m hm).2)
    rw [transform_obj, transform_obj, ho _ (nodup_rename hg hv.1 _), hvalues]
  | _ => rfl

end Distinct

end Resilience.Json
