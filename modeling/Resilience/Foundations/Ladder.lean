import Mathlib.Data.List.Forall2
import Mathlib.Data.List.Basic

/-!
# Ladders of fallbacks

Rungs are tried one after the other, and the first that does not fail is taken; the failures before
it are collected (`climb`). Ladders whose rungs fail alike are climbed alike (`climb_related`), and
the failures are those of the rungs before the one that is taken (`climb_eq_ok`), or those of all
(`climb_eq_error`).
-/

namespace Resilience

variable {τ ε ε' α α' : Type}

/-- What is taken, from which rung, after which failures. -/
structure Climbed (τ ε α : Type) where
  rung : τ
  value : α
  failures : List (τ × ε)

/-- Try the rungs, after `failures`. -/
def climb (failures : List (τ × ε)) :
    List (τ × Except ε α) → Except (List (τ × ε)) (Climbed τ ε α)
  | [] => .error failures
  | (rung, .ok value) :: _ => .ok ⟨rung, value, failures⟩
  | (rung, .error e) :: rungs => climb (failures ++ [(rung, e)]) rungs

theorem climb_eq_error {failures failures' : List (τ × ε)} {rungs : List (τ × Except ε α)}
    (h : climb failures rungs = .error failures') :
    failures'.map Prod.fst = failures.map Prod.fst ++ rungs.map Prod.fst := by
  induction rungs generalizing failures with
  | nil => cases h; simp
  | cons r rungs ih =>
    obtain ⟨rung, e | value⟩ := r
    · simpa using ih h
    · cases h

theorem climb_eq_ok {failures : List (τ × ε)} {rungs : List (τ × Except ε α)}
    {c : Climbed τ ε α} (h : climb failures rungs = .ok c) :
    ∃ before after, rungs = before ++ (c.rung, .ok c.value) :: after ∧
      c.failures.map Prod.fst = failures.map Prod.fst ++ before.map Prod.fst := by
  induction rungs generalizing failures with
  | nil => cases h
  | cons r rungs ih =>
    obtain ⟨rung, e | value⟩ := r
    · obtain ⟨before, after, hrungs, hfailures⟩ := ih h
      refine ⟨(rung, .error e) :: before, after, ?_, ?_⟩
      · rw [hrungs, List.cons_append]
      · simp [hfailures]
    · cases h
      exact ⟨[], rungs, rfl, by simp⟩

/-- Rungs that fail alike, or have values that are related. -/
def RungsAlike (R : α → α' → Prop) (r : τ × Except ε α) (r' : τ × Except ε' α') : Prop :=
  r.1 = r'.1 ∧ match r.2, r'.2 with
    | .ok a, .ok a' => R a a'
    | .error _, .error _ => True
    | _, _ => False

/-- The same rung is taken, with related values, after failures of the same rungs. -/
def ClimbedAlike (R : α → α' → Prop) :
    Except (List (τ × ε)) (Climbed τ ε α) → Except (List (τ × ε')) (Climbed τ ε' α') → Prop
  | .ok c, .ok c' => c.rung = c'.rung ∧ R c.value c'.value ∧
    c.failures.map Prod.fst = c'.failures.map Prod.fst
  | .error fs, .error fs' => fs.map Prod.fst = fs'.map Prod.fst
  | _, _ => False

theorem climb_related {R : α → α' → Prop} {rungs : List (τ × Except ε α)}
    {rungs' : List (τ × Except ε' α')} (h : List.Forall₂ (RungsAlike R) rungs rungs')
    {failures : List (τ × ε)} {failures' : List (τ × ε')}
    (hfailures : failures.map Prod.fst = failures'.map Prod.fst) :
    ClimbedAlike R (climb failures rungs) (climb failures' rungs') := by
  induction h generalizing failures failures' with
  | nil => exact hfailures
  | @cons r r' rungs rungs' hr _ ih =>
    obtain ⟨rung, e | value⟩ := r <;> obtain ⟨rung', e' | value'⟩ := r' <;>
      obtain ⟨hrung, hr⟩ := hr <;> dsimp only at hrung hr
    · subst hrung
      exact ih (by simp [hfailures])
    · exact ⟨hrung, hr, hfailures⟩

end Resilience
