import Mathlib.Data.List.Basic

/-!
# Computations that may fail

When a computation that maps a function over a result, or over a list, succeeds.
-/

namespace Resilience

variable {ε α β : Type}

theorem map_eq_ok_iff {f : α → β} {x : Except ε α} {b : β} :
    x.map f = .ok b ↔ ∃ a, x = .ok a ∧ f a = b := by
  cases x <;> simp [Except.map]

theorem mapM_eq_ok_iff {f : α → Except ε β} {as : List α} {bs : List β} :
    as.mapM f = .ok bs ↔ as.map f = bs.map .ok := by
  induction as generalizing bs with
  | nil =>
    rw [List.mapM_nil, List.map_nil]
    constructor
    · intro h
      obtain rfl : [] = bs := Except.ok.inj h
      rfl
    · intro h
      rw [List.map_eq_nil_iff.1 h.symm]
      rfl
  | cons a as ih =>
    rw [List.mapM_cons, List.map_cons]
    cases ha : f a with
    | error e =>
      refine iff_of_false (fun h => by cases h) fun h => ?_
      cases bs with
      | nil => cases h
      | cons b bs => cases (List.cons.inj h).1
    | ok b =>
      cases has : as.mapM f with
      | error e =>
        refine iff_of_false (fun h => by cases h) fun h => ?_
        cases bs with
        | nil => cases h
        | cons b' bs =>
          rw [ih.2 (List.cons.inj h).2] at has
          cases has
      | ok bs' =>
        show Except.ok (b :: bs') = .ok bs ↔ _
        rw [Except.ok.injEq, ih.1 has, ← List.map_cons (f := Except.ok)]
        constructor
        · rintro rfl
          rfl
        · exact fun h => List.map_injective_iff.2 (fun _ _ => Except.ok.inj) h

theorem mapM_eq_ok_iff_of_forall {as : List α} {f : α → Except ε β} {g : α → β}
    {P : α → Prop} (h : ∀ a ∈ as, ∀ b, f a = .ok b ↔ P a ∧ b = g a) (bs : List β) :
    as.mapM f = .ok bs ↔ (∀ a ∈ as, P a) ∧ bs = as.map g := by
  rw [mapM_eq_ok_iff]
  constructor
  · intro heq
    have hP : ∀ a ∈ as, P a ∧ f a = (Except.ok ∘ g) a := by
      intro a ha
      have hmem := List.mem_map_of_mem (f := f) ha
      rw [heq] at hmem
      obtain ⟨b, -, hb⟩ := List.mem_map.1 hmem
      obtain ⟨hPa, rfl⟩ := (h a ha b).1 hb.symm
      exact ⟨hPa, hb.symm⟩
    refine ⟨fun a ha => (hP a ha).1, ?_⟩
    rw [List.map_congr_left fun a ha => (hP a ha).2, ← List.map_map] at heq
    exact (List.map_injective_iff.2 (fun _ _ => Except.ok.inj) heq).symm
  · rintro ⟨hP, rfl⟩
    rw [List.map_map]
    exact List.map_congr_left fun a ha => (h a ha _).2 ⟨hP a ha, rfl⟩

end Resilience
