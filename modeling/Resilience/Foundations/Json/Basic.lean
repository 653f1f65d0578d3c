import Mathlib.Data.List.Nodup
import Mathlib.Data.String.Basic

/-!
# JSON values

A JSON value over a type of strings `σ` and a type of numbers `ν`. An object is the list of its
members, in the order in which they are met; what a language makes of that order, or of a key that
occurs twice, is a function on member lists.

`fold` is recursion on values, `transform` the recursion that rebuilds the value with other strings
and numbers and another order of members, `Within` the recursion that states a property of every
string and of the keys of every object.
-/

namespace Resilience

inductive Json (σ ν : Type) : Type
  | null
  | bool (b : Bool)
  | num (n : ν)
  | str (s : σ)
  | arr (xs : List (Json σ ν))
  | obj (ms : List (σ × Json σ ν))

namespace Json

variable {σ ν : Type}

/-- Induction with the hypothesis for every element of an array and every member of an object. -/
@[elab_as_elim] theorem ind {motive : Json σ ν → Prop} (null : motive .null)
    (bool : ∀ b, motive (.bool b)) (num : ∀ n, motive (.num n)) (str : ∀ s, motive (.str s))
    (arr : ∀ xs, (∀ x ∈ xs, motive x) → motive (.arr xs))
    (obj : ∀ ms, (∀ m ∈ ms, motive m.2) → motive (.obj ms)) (v : Json σ ν) : motive v := by
  apply Json.rec (motive_1 := motive) (motive_2 := fun xs => ∀ x ∈ xs, motive x)
    (motive_3 := fun ms => ∀ m ∈ ms, motive m.2) (motive_4 := fun m => motive m.2)
  case null => exact null
  case bool => exact bool
  case num => exact num
  case str => exact str
  case arr => exact arr
  case obj => exact obj
  case nil => exact fun x hx => absurd hx List.not_mem_nil
  case cons => exact fun x xs hx hxs => List.forall_mem_cons.2 ⟨hx, hxs⟩
  case nil => exact fun m hm => absurd hm List.not_mem_nil
  case cons => exact fun m ms hm hms => List.forall_mem_cons.2 ⟨hm, hms⟩
  case mk => exact fun _ _ h => h

/-! ## Recursion -/

/-- What a recursion does at each kind of value. -/
structure Algebra (σ ν α : Type) where
  null : α
  bool : Bool → α
  num : ν → α
  str : σ → α
  arr : List α → α
  obj : List (σ × α) → α

section Fold

variable {α : Type} (A : Algebra σ ν α)

mutual

/-- The recursion that an algebra describes. -/
def fold : Json σ ν → α
  | .null => A.null
  | .bool b => A.bool b
  | .num n => A.num n
  | .str s => A.str s
  | .arr xs => A.arr (foldList xs)
  | .obj ms => A.obj (foldMembers ms)
termination_by structural v => v

def foldList : List (Json σ ν) → List α
  | [] => []
  | x :: xs => fold x :: foldList xs
termination_by structural xs => xs

def foldMembers : List (σ × Json σ ν) → List (σ × α)
  | [] => []
  | (k, x) :: ms => (k, fold x) :: foldMembers ms
termination_by structural ms => ms

end

theorem foldList_eq (xs : List (Json σ ν)) : foldList A xs = xs.map (fold A) := by
  induction xs with
  | nil => rfl
  | cons x xs ih => rw [foldList, ih, List.map_cons]

theorem foldMembers_eq (ms : List (σ × Json σ ν)) :
    foldMembers A ms = ms.map fun m => (m.1, fold A m.2) := by
  induction ms with
  | nil => rfl
  | cons m ms ih => rw [foldMembers, ih, List.map_cons]

theorem fold_arr (xs : List (Json σ ν)) : fold A (.arr xs) = A.arr (xs.map (fold A)) := by
  rw [fold, foldList_eq]

theorem fold_obj (ms : List (σ × Json σ ν)) :
    fold A (.obj ms) = A.obj (ms.map fun m => (m.1, fold A m.2)) := by
  rw [fold, foldMembers_eq]

end Fold

/-! ## Equality -/

section DecidableEq

variable [DecidableEq σ] [DecidableEq ν]

mutual

def beq : Json σ ν → Json σ ν → Bool
  | .null, .null => true
  | .bool a, .bool b => a == b
  | .num a, .num b => a == b
  | .str a, .str b => a == b
  | .arr as, .arr bs => beqList as bs
  | .obj as, .obj bs => beqMembers as bs
  | _, _ => false
termination_by structural v => v

def beqList : List (Json σ ν) → List (Json σ ν) → Bool
  | [], [] => true
  | a :: as, b :: bs => beq a b && beqList as bs
  | _, _ => false
termination_by structural xs => xs

def beqMembers : List (σ × Json σ ν) → List (σ × Json σ ν) → Bool
  | [], [] => true
  | (j, a) :: as, (k, b) :: bs => j == k && beq a b && beqMembers as bs
  | _, _ => false
termination_by structural ms => ms

end

theorem beq_iff (v w : Json σ ν) : beq v w = true ↔ v = w := by
  induction v using ind generalizing w with
  | null => cases w <;> simp [beq]
  | bool b => cases w <;> simp [beq]
  | num n => cases w <;> simp [beq]
  | str s => cases w <;> simp [beq]
  | arr xs ih =>
    cases w with
    | arr ys =>
      rw [beq, Json.arr.injEq]
      induction xs generalizing ys with
      | nil => cases ys <;> simp [beqList]
      | cons x xs ihxs =>
        obtain ⟨hx, hxs⟩ := List.forall_mem_cons.1 ih
        cases ys with
        | nil => simp [beqList]
        | cons y ys => rw [beqList, Bool.and_eq_true, hx, ihxs hxs, List.cons.injEq]
    | _ => simp [beq]
  | obj ms ih =>
    cases w with
    | obj ns =>
      rw [beq, Json.obj.injEq]
      induction ms generalizing ns with
      | nil => cases ns <;> simp [beqMembers]
      | cons m ms ihms =>
        obtain ⟨hm, hms⟩ := List.forall_mem_cons.1 ih
        obtain ⟨j, a⟩ := m
        cases ns with
        | nil => simp [beqMembers]
        | cons n ns =>
          obtain ⟨k, b⟩ := n
          rw [beqMembers, Bool.and_eq_true, Bool.and_eq_true, hm, ihms hms, List.cons.injEq,
            Prod.mk.injEq, beq_iff_eq]
    | _ => simp [beq]

instance : DecidableEq (Json σ ν) := fun v w => decidable_of_iff _ (beq_iff v w)

end DecidableEq

/-! ## Rebuilding a value -/

section Transform

variable {σ' ν' : Type}

/-- Replace the strings by `g` and the numbers by `f`, and rearrange the members by `o`. -/
def transform (g : σ → σ') (f : ν → Json σ' ν')
    (o : List (σ' × Json σ' ν') → List (σ' × Json σ' ν')) : Json σ ν → Json σ' ν' :=
  fold {
    null := .null
    bool := .bool
    num := f
    str := fun s => .str (g s)
    arr := .arr
    obj := fun ms => .obj (o (ms.map fun m => (g m.1, m.2))) }

variable (g : σ → σ') (f : ν → Json σ' ν') (o : List (σ' × Json σ' ν') → List (σ' × Json σ' ν'))

@[simp] theorem transform_null : transform g f o .null = .null := rfl

@[simp] theorem transform_bool (b : Bool) : transform g f o (.bool b) = .bool b := rfl

@[simp] theorem transform_num (n : ν) : transform g f o (.num n) = f n := rfl

@[simp] theorem transform_str (s : σ) : transform g f o (.str s) = .str (g s) := rfl

@[simp] theorem transform_arr (xs : List (Json σ ν)) :
    transform g f o (.arr xs) = .arr (xs.map (transform g f o)) := fold_arr _ xs

@[simp] theorem transform_obj (ms : List (σ × Json σ ν)) :
    transform g f o (.obj ms) = .obj (o (ms.map fun m => (g m.1, transform g f o m.2))) := by
  refine (fold_obj _ ms).trans ?_
  dsimp only
  rw [List.map_map]
  rfl

variable {g f o}

/-- Two rebuildings in a row are one, when the second rearranges what the first has rearranged as
it would have rearranged the members themselves. -/
theorem transform_transform {σ'' ν'' : Type} {g' : σ' → σ''} {f' : ν' → Json σ'' ν''}
    {o' o'' : List (σ'' × Json σ'' ν'') → List (σ'' × Json σ'' ν'')}
    (ho : ∀ ms : List (σ' × Json σ' ν'),
      o' ((o ms).map fun m => (g' m.1, transform g' f' o' m.2)) =
        o'' (ms.map fun m => (g' m.1, transform g' f' o' m.2))) (v : Json σ ν) :
    transform g' f' o' (transform g f o v) =
      transform (g' ∘ g) (fun n => transform g' f' o' (f n)) o'' v := by
  induction v using ind with
  | null => rfl
  | bool b => rfl
  | num n => rfl
  | str s => rfl
  | arr xs ih =>
    simp only [transform_arr, List.map_map, Json.arr.injEq, List.map_inj_left]
    exact ih
  | obj ms ih =>
    simp only [transform_obj, ho, List.map_map, Json.obj.injEq]
    congr 1
    refine List.map_congr_left fun m hm => ?_
    exact congrArg (Prod.mk _) (ih m hm)

end Transform

/-! ## Nesting -/

/-- How deep arrays and objects are nested. -/
def depth : Json σ ν → ℕ :=
  fold {
    null := 0
    bool := fun _ => 0
    num := fun _ => 0
    str := fun _ => 0
    arr := fun ds => ds.foldr max 0 + 1
    obj := fun ms => (ms.map Prod.snd).foldr max 0 + 1 }

section Depth

@[simp] theorem depth_str (s : σ) : depth (.str s : Json σ ν) = 0 := rfl

theorem foldr_max_le {ds : List ℕ} {n : ℕ} : ds.foldr max 0 ≤ n ↔ ∀ d ∈ ds, d ≤ n := by
  induction ds with
  | nil => simp
  | cons d ds ih => rw [List.foldr_cons, max_le_iff, ih, List.forall_mem_cons]

@[simp] theorem depth_arr_le (xs : List (Json σ ν)) (n : ℕ) :
    depth (.arr xs) ≤ n + 1 ↔ ∀ x ∈ xs, depth x ≤ n := by
  rw [depth, fold_arr, Nat.add_le_add_iff_right, foldr_max_le]
  exact List.forall_mem_map

@[simp] theorem depth_obj_le (ms : List (σ × Json σ ν)) (n : ℕ) :
    depth (.obj ms) ≤ n + 1 ↔ ∀ m ∈ ms, depth m.2 ≤ n := by
  rw [depth, fold_obj, Nat.add_le_add_iff_right, foldr_max_le, List.map_map]
  exact List.forall_mem_map

end Depth

/-! ## Properties of all strings and all objects -/

/-- Every string of the value, keys included, satisfies `q`, and the keys of every object satisfy
`p`. -/
def Within (q : σ → Prop) (p : List σ → Prop) : Json σ ν → Prop :=
  fold {
    null := True
    bool := fun _ => True
    num := fun _ => True
    str := q
    arr := fun ps => ∀ h ∈ ps, h
    obj := fun ms => p (ms.map Prod.fst) ∧ ∀ m ∈ ms, q m.1 ∧ m.2 }

section Within

variable {q : σ → Prop} {p : List σ → Prop}

@[simp] theorem within_null : Within q p (.null : Json σ ν) := trivial

@[simp] theorem within_bool (b : Bool) : Within q p (.bool b : Json σ ν) := trivial

@[simp] theorem within_num (n : ν) : Within q p (.num n : Json σ ν) := trivial

@[simp] theorem within_str (s : σ) : Within q p (.str s : Json σ ν) ↔ q s := Iff.rfl

@[simp] theorem within_arr (xs : List (Json σ ν)) :
    Within q p (.arr xs) ↔ ∀ x ∈ xs, Within q p x := by
  refine (iff_of_eq (fold_arr _ xs)).trans ?_
  exact List.forall_mem_map

@[simp] theorem within_obj (ms : List (σ × Json σ ν)) :
    Within q p (.obj ms) ↔ p (ms.map Prod.fst) ∧ ∀ m ∈ ms, q m.1 ∧ Within q p m.2 := by
  refine (iff_of_eq (fold_obj _ ms)).trans ?_
  refine and_congr (iff_of_eq ?_) List.forall_mem_map
  rw [List.map_map]
  rfl

theorem Within.mono {q' : σ → Prop} {p' : List σ → Prop} {v : Json σ ν} (h : Within q p v)
    (hq : ∀ s, q s → q' s) (hp : ∀ ks, p ks → p' ks) : Within q' p' v := by
  induction v using ind with
  | str s => exact hq s h
  | arr xs ih =>
    rw [within_arr] at h ⊢
    exact fun x hx => ih x hx (h x hx)
  | obj ms ih =>
    rw [within_obj] at h ⊢
    exact ⟨hp _ h.1, fun m hm => ⟨hq _ (h.2 m hm).1, ih m hm (h.2 m hm).2⟩⟩
  | _ => trivial

/-- What holds of all strings and keys still does when the numbers are replaced. -/
theorem Within.map_num {ν' : Type} {f : ν → Json σ ν'} (hf : ∀ n, Within q p (f n))
    {v : Json σ ν} (h : Within q p v) : Within q p (transform id f id v) := by
  induction v using ind with
  | num n => exact hf n
  | str s => exact h
  | arr xs ih =>
    rw [within_arr] at h
    rw [transform_arr, within_arr]
    intro x hx
    obtain ⟨y, hy, rfl⟩ := List.mem_map.1 hx
    exact ih y hy (h y hy)
  | obj ms ih =>
    rw [within_obj] at h
    rw [transform_obj, id, within_obj, List.map_map]
    refine ⟨h.1, fun m hm => ?_⟩
    obtain ⟨m', hm', rfl⟩ := List.mem_map.1 hm
    exact ⟨(h.2 m' hm').1, ih m' hm' (h.2 m' hm').2⟩
  | _ => trivial

/-- What holds of all strings and keys holds of those that they are replaced by. -/
theorem Within.rebuild {σ' ν' : Type} {q' : σ' → Prop} {g : σ → σ'} {f : ν → Json σ' ν'}
    {o : List (σ' × Json σ' ν') → List (σ' × Json σ' ν')} (hq : ∀ s, q s → q' (g s))
    (hf : ∀ n, Within q' (fun _ => True) (f n)) (ho : ∀ ms, o ms ⊆ ms) {v : Json σ ν}
    (h : Within q p v) : Within q' (fun _ => True) (transform g f o v) := by
  induction v using ind with
  | num n => exact hf n
  | str s => exact hq s h
  | arr xs ih =>
    rw [within_arr] at h
    rw [transform_arr, within_arr]
    intro x hx
    obtain ⟨y, hy, rfl⟩ := List.mem_map.1 hx
    exact ih y hy (h y hy)
  | obj ms ih =>
    rw [within_obj] at h
    rw [transform_obj, within_obj]
    refine ⟨trivial, fun m hm => ?_⟩
    obtain ⟨m', hm', rfl⟩ := List.mem_map.1 (ho _ hm)
    exact ⟨hq _ (h.2 m' hm').1, ih m' hm' (h.2 m' hm').2⟩
  | _ => trivial

/-- A rearrangement that leaves member lists with such keys alone leaves the value alone. -/
theorem Within.transform_eq_self {v : Json σ ν} (h : Within q p v)
    {o : List (σ × Json σ ν) → List (σ × Json σ ν)} (ho : ∀ ms, p (ms.map Prod.fst) → o ms = ms) :
    transform id .num o v = v := by
  induction v using ind with
  | arr xs ih =>
    rw [within_arr] at h
    rw [transform_arr, List.map_congr_left fun x hx => ih x hx (h x hx), List.map_id']
  | obj ms ih =>
    rw [within_obj] at h
    have hmap : (ms.map fun m => (id m.1, transform id .num o m.2)) = ms := by
      conv_rhs => rw [← List.map_id ms]
      exact List.map_congr_left fun m hm => Prod.ext rfl (ih m hm (h.2 m hm).2)
    rw [transform_obj, hmap, ho ms h.1]
  | _ => rfl

end Within

end Json

end Resilience
