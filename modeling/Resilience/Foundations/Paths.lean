import Mathlib.Data.List.Infix

/-!
# Walks in a directory tree

A node of a directory tree without links is the list of the names from the root to it. A walk takes
steps: it stays, goes to the parent, or goes down to a name; the root is its own parent.
-/

namespace Resilience.Paths

variable {α : Type*}

inductive Step (α : Type*)
  | stay
  | up
  | down (name : α)

def move (node : List α) : Step α → List α
  | .stay => node
  | .up => node.dropLast
  | .down name => node ++ [name]

def walk (node : List α) (steps : List (Step α)) : List α := steps.foldl move node

@[simp] theorem walk_nil (node : List α) : walk node [] = node := rfl

@[simp] theorem walk_cons (node : List α) (step : Step α) (steps : List (Step α)) :
    walk node (step :: steps) = walk (move node step) steps := rfl

theorem walk_append (node : List α) (steps steps' : List (Step α)) :
    walk node (steps ++ steps') = walk (walk node steps) steps' := List.foldl_append

/-- Going down names them all. -/
theorem walk_down (node names : List α) : walk node (names.map .down) = node ++ names := by
  induction names generalizing node with
  | nil => simp
  | cons name names ih => simp [move, ih]

/-- Steps that stay may be left out. -/
theorem walk_filterMap {β γ : Type*} {f : β → Option γ} {g : γ → Step α} {step : β → Step α}
    (hnone : ∀ b, f b = none → step b = .stay) (hsome : ∀ b c, f b = some c → g c = step b)
    (node : List α) (bs : List β) :
    walk node ((bs.filterMap f).map g) = walk node (bs.map step) := by
  induction bs generalizing node with
  | nil => rfl
  | cons b bs ih =>
    cases hb : f b with
    | none =>
      rw [List.filterMap_cons_none hb, ih, List.map_cons, walk_cons, hnone b hb]
      rfl
    | some c =>
      rw [List.filterMap_cons_some hb, List.map_cons, List.map_cons, walk_cons, walk_cons, ih,
        hsome b c hb]

end Resilience.Paths
