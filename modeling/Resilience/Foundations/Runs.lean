import Mathlib.Data.List.Basic
import Mathlib.Order.Basic

/-!
# Runs of a system

A system takes one step after the other, each for an event. `Always P` says that `P` holds in every
state of a run, and `EachStep Q` that `Q` holds of every event in the state that it finds. An
invariant that the steps keep which satisfy `Q`, and which only they keep, shows the two equivalent
(`always_iff_eachStep`).
-/

namespace Resilience.Runs

variable {σ ε : Type} (step : σ → ε → σ)

/-- The state after the events. -/
def run (s : σ) (evs : List ε) : σ := evs.foldl step s

/-- `P` holds at the start and after every event. -/
def Always (P : σ → Prop) : σ → List ε → Prop
  | s, [] => P s
  | s, ev :: evs => P s ∧ Always P (step s ev) evs

/-- `Q` holds of every event, in the state before it. -/
def EachStep (Q : σ → ε → Prop) : σ → List ε → Prop
  | _, [] => True
  | s, ev :: evs => Q s ev ∧ EachStep Q (step s ev) evs

variable {step}

@[simp] theorem run_cons (s : σ) (ev : ε) (evs : List ε) :
    run step s (ev :: evs) = run step (step s ev) evs := rfl

theorem run_append (s : σ) (evs evs' : List ε) :
    run step s (evs ++ evs') = run step (run step s evs) evs' := List.foldl_append

theorem Always.head {P : σ → Prop} {s : σ} {evs : List ε} (h : Always step P s evs) : P s := by
  cases evs with
  | nil => exact h
  | cons ev evs => exact h.1

theorem Always.last {P : σ → Prop} {s : σ} {evs : List ε} (h : Always step P s evs) :
    P (run step s evs) := by
  induction evs generalizing s with
  | nil => exact h
  | cons ev evs ih => exact ih h.2

/-- What every step keeps holds after a run. -/
theorem run_of_step {I : σ → Prop} (hstep : ∀ s ev, I s → I (step s ev)) {s : σ} (hs : I s)
    (evs : List ε) : I (run step s evs) := by
  induction evs generalizing s with
  | nil => exact hs
  | cons ev evs ih => exact ih (hstep s ev hs)

/-- A system that is seen as another one, as long as an invariant holds. -/
theorem run_of_simulation {τ : Type} {step' : τ → ε → τ} {f : σ → τ} {I : σ → Prop}
    (hkeep : ∀ s ev, I s → I (step s ev))
    (hview : ∀ s ev, I s → f (step s ev) = step' (f s) ev) {s : σ} (hs : I s)
    (evs : List ε) : f (run step s evs) = run step' (f s) evs := by
  induction evs generalizing s with
  | nil => rfl
  | cons ev evs ih => rw [run_cons, run_cons, ih (hkeep s ev hs), hview s ev hs]

/-- Two systems that step alike as long as an invariant holds. -/
theorem run_of_agree {step' : σ → ε → σ} {I : σ → Prop} {A : ε → Prop}
    (hkeep : ∀ s ev, I s → A ev → I (step s ev))
    (hagree : ∀ s ev, I s → A ev → step' s ev = step s ev) {s : σ} (hs : I s) {evs : List ε}
    (hevs : ∀ ev ∈ evs, A ev) : run step' s evs = run step s evs ∧ I (run step s evs) := by
  induction evs generalizing s with
  | nil => exact ⟨rfl, hs⟩
  | cons ev evs ih =>
    obtain ⟨hev, hrest⟩ := List.forall_mem_cons.1 hevs
    rw [run_cons, run_cons, hagree s ev hs hev]
    exact ih (hkeep s ev hs hev) hrest

theorem EachStep.of_agree {step' : σ → ε → σ} {I : σ → Prop} {A : ε → Prop} {Q Q' : σ → ε → Prop}
    (hkeep : ∀ s ev, I s → A ev → I (step s ev))
    (hagree : ∀ s ev, I s → A ev → step' s ev = step s ev)
    (hQ : ∀ s ev, I s → A ev → Q' s ev → Q s ev) {s : σ} (hs : I s) {evs : List ε}
    (hevs : ∀ ev ∈ evs, A ev) (h : EachStep step' Q' s evs) : EachStep step Q s evs := by
  induction evs generalizing s with
  | nil => trivial
  | cons ev evs ih =>
    obtain ⟨hev, hrest⟩ := List.forall_mem_cons.1 hevs
    obtain ⟨hq, htail⟩ := h
    rw [hagree s ev hs hev] at htail
    exact ⟨hQ s ev hs hev hq, ih (hkeep s ev hs hev) hrest htail⟩

theorem eachStep_of_forall_mem {A : ε → Prop} (s : σ) {evs : List ε} (hevs : ∀ ev ∈ evs, A ev) :
    EachStep step (fun _ => A) s evs := by
  induction evs generalizing s with
  | nil => trivial
  | cons ev evs ih =>
    obtain ⟨hev, hrest⟩ := List.forall_mem_cons.1 hevs
    exact ⟨hev, ih (step s ev) hrest⟩

theorem EachStep.and {Q Q' : σ → ε → Prop} {s : σ} {evs : List ε} (h : EachStep step Q s evs)
    (h' : EachStep step Q' s evs) : EachStep step (fun s ev => Q s ev ∧ Q' s ev) s evs := by
  induction evs generalizing s with
  | nil => trivial
  | cons ev evs ih => exact ⟨⟨h.1, h'.1⟩, ih h.2 h'.2⟩

/-- An invariant that the steps keep which satisfy `Q` shows what it implies, in all states. -/
theorem always_of_eachStep {I P : σ → Prop} {Q : σ → ε → Prop} (hP : ∀ s, I s → P s)
    (hkeep : ∀ s ev, I s → Q s ev → I (step s ev)) {s : σ} (hs : I s) {evs : List ε}
    (h : EachStep step Q s evs) : Always step P s evs := by
  induction evs generalizing s with
  | nil => exact hP s hs
  | cons ev evs ih => exact ⟨hP s hs, ih (hkeep s ev hs h.1) h.2⟩

/-- **Conditions on the steps for a property of all states**: with an invariant `I` that implies
`P`, events that satisfy `Q` keep `I`, and the others break `P` at once. All of it may rest on what
holds of every event, `A`. -/
theorem always_iff_eachStep {I P : σ → Prop} {A Q : σ → ε → Prop}
    (hP : ∀ s, I s → P s) (hkeep : ∀ s ev, A s ev → I s → Q s ev → I (step s ev))
    (hbreak : ∀ s ev, A s ev → I s → P (step s ev) → Q s ev) {s : σ} (hs : I s) {evs : List ε}
    (hevs : EachStep step A s evs) : Always step P s evs ↔ EachStep step Q s evs := by
  induction evs generalizing s with
  | nil => exact iff_of_true (hP s hs) trivial
  | cons ev evs ih =>
    obtain ⟨hev, hrest⟩ := hevs
    constructor
    · rintro ⟨-, hall⟩
      have hQ := hbreak s ev hev hs hall.head
      exact ⟨hQ, (ih (hkeep s ev hev hs hQ) hrest).1 hall⟩
    · rintro ⟨hQ, hsteps⟩
      exact ⟨hP s hs, (ih (hkeep s ev hev hs hQ) hrest).2 hsteps⟩

/-- Readings of a clock that does not go back start somewhere. -/
theorem exists_pairwise_cons {α : Type*} [Preorder α] [Inhabited α] {l : List α}
    (h : l.Pairwise (· ≤ ·)) : ∃ a, (a :: l).Pairwise (· ≤ ·) := by
  cases l with
  | nil => exact ⟨default, List.pairwise_singleton _ _⟩
  | cons a l =>
    exact ⟨a, List.pairwise_cons.2
      ⟨List.forall_mem_cons.2 ⟨le_rfl, (List.pairwise_cons.1 h).1⟩, h⟩⟩

end Resilience.Runs
