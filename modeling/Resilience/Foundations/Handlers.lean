import Resilience.Foundations.Interaction

/-!
# Programs under a deterministic host

A `Handler` answers every request from a state of its own. Under it a program has one result and
leaves one state (`Prog.handle`), so that two programs can be compared on the same host, or on
hosts that agree: `Lockstep` relates their results and the states that they leave, from related
states, and composes at a bind.
-/

namespace Resilience

universe u v w x

/-- Answers requests from a state. -/
abbrev Handler (E : Type u) (R : E → Type v) (S : Type x) := (e : E) → S → R e × S

variable {E : Type u} {R : E → Type v} {S : Type x}

/-- The result under the host, and the state that is left. -/
def Prog.handle {α : Type w} (h : Handler E R S) : Prog E R α → S → α × S
  | .ret a, s => (a, s)
  | .ask e k, s => (k (h e s).1).handle h (h e s).2

section Handle

variable {α β ε : Type w} (h : Handler E R S) (s : S)

@[simp] theorem handle_ret (a : α) : (Prog.ret a : Prog E R α).handle h s = (a, s) := rfl

@[simp] theorem handle_ask (e : E) (k : R e → Prog E R α) :
    (Prog.ask e k).handle h s = (k (h e s).1).handle h (h e s).2 := rfl

theorem handle_bind (p : Prog E R α) (f : α → Prog E R β) :
    (p >>= f).handle h s = (f (p.handle h s).1).handle h (p.handle h s).2 := by
  induction p generalizing s with
  | ret a => rfl
  | ask e k ih => exact ih (h e s).1 (h e s).2

theorem handle_except_bind (x : ExceptT ε (Prog E R) α) (f : α → ExceptT ε (Prog E R) β) :
    (x >>= f).run.handle h s = match x.run.handle h s with
      | (.ok a, s') => (f a).run.handle h s'
      | (.error e, s') => (.error e, s') := by
  rw [run_except_bind, handle_bind]
  rcases x.run.handle h s with ⟨e | a, s'⟩ <;> rfl

@[simp] theorem handle_perform (e : E) (f : R e → Except ε α) :
    (perform e f).run.handle h s = (f (h e s).1, (h e s).2) := rfl

@[simp] theorem handle_fromExcept (r : Except ε α) :
    (fromExcept r : ExceptT ε (Prog E R) α).run.handle h s = (r, s) := rfl

theorem handle_observe (x : ExceptT ε (Prog E R) α) :
    (observe x).run.handle h s = (.ok (x.run.handle h s).1, (x.run.handle h s).2) :=
  handle_bind h s x.run _

/-- What the answers keep, a run keeps. -/
theorem handle_keeps {I : S → Prop} (hkeeps : ∀ e s, I s → I (h e s).2) (p : Prog E R α) {s : S}
    (hs : I s) : I (p.handle h s).2 := by
  induction p generalizing s with
  | ret a => exact hs
  | ask e k ih => exact ih _ (hkeeps e s hs)

end Handle

/-! ## Two programs -/

section Lockstep

universe u' v' w' x'

variable {E' : Type u'} {R' : E' → Type v'} {S' : Type x'} {α β ε : Type w} {α' β' ε' : Type w'}

/-- Both return, with values and states in `V`, or both throw, with errors and states in `W`. -/
inductive Outcomes (V : α → α' → S → S' → Prop) (W : ε → ε' → S → S' → Prop) :
    Except ε α × S → Except ε' α' × S' → Prop
  | ok {a a' s s'} (h : V a a' s s') : Outcomes V W (.ok a, s) (.ok a', s')
  | error {e e' s s'} (h : W e e' s s') : Outcomes V W (.error e, s) (.error e', s')

/-- From states in `Φ`, the results of the programs and the states they leave are in `B`. -/
def Lockstep (h : Handler E R S) (h' : Handler E' R' S') (Φ : S → S' → Prop)
    (x : ExceptT ε (Prog E R) α) (y : ExceptT ε' (Prog E' R') α')
    (B : Except ε α × S → Except ε' α' × S' → Prop) : Prop :=
  ∀ s s', Φ s s' → B (x.run.handle h s) (y.run.handle h' s')

variable {h : Handler E R S} {h' : Handler E' R' S'} {Φ Ψ : S → S' → Prop}
  {V V' : α → α' → S → S' → Prop} {W W' : ε → ε' → S → S' → Prop}
  {B B' : Except ε α × S → Except ε' α' × S' → Prop}

theorem Outcomes.mono {r : Except ε α × S} {r' : Except ε' α' × S'} (hr : Outcomes V W r r')
    (hV : ∀ a a' s s', V a a' s s' → V' a a' s s') (hW : ∀ e e' s s', W e e' s s' → W' e e' s s') :
    Outcomes V' W' r r' := by
  cases hr with
  | ok hv => exact .ok (hV _ _ _ _ hv)
  | error hw => exact .error (hW _ _ _ _ hw)

theorem Lockstep.mono {x : ExceptT ε (Prog E R) α} {y : ExceptT ε' (Prog E' R') α'}
    (hxy : Lockstep h h' Φ x y B) (hΦ : ∀ s s', Ψ s s' → Φ s s')
    (hB : ∀ r r', B r r' → B' r r') : Lockstep h h' Ψ x y B' :=
  fun s s' hs => hB _ _ (hxy s s' (hΦ s s' hs))

theorem lockstep_bind {x : ExceptT ε (Prog E R) α} {y : ExceptT ε' (Prog E' R') α'}
    {f : α → ExceptT ε (Prog E R) β} {g : α' → ExceptT ε' (Prog E' R') β'}
    {C : Except ε β × S → Except ε' β' × S' → Prop} (hxy : Lockstep h h' Φ x y (Outcomes V W))
    (hfg : ∀ a a', Lockstep h h' (V a a') (f a) (g a') C)
    (hW : ∀ {e e' s s'}, W e e' s s' → C (.error e, s) (.error e', s')) :
    Lockstep h h' Φ (x >>= f) (y >>= g) C := by
  intro s s' hs
  have hr := hxy s s' hs
  rw [handle_except_bind, handle_except_bind]
  generalize x.run.handle h s = r at hr ⊢
  generalize y.run.handle h' s' = r' at hr ⊢
  cases hr with
  | ok hv => exact hfg _ _ _ _ hv
  | error hw => exact hW hw

theorem lockstep_perform {e : E} {e' : E'} {f : R e → Except ε α} {g : R' e' → Except ε' α'}
    (hstep : ∀ s s', Φ s s' →
      B (f (h e s).1, (h e s).2) (g (h' e' s').1, (h' e' s').2)) :
    Lockstep h h' Φ (perform e f) (perform e' g) B :=
  hstep

theorem lockstep_observe {x : ExceptT ε (Prog E R) α} {y : ExceptT ε' (Prog E' R') α'}
    (hxy : Lockstep h h' Φ x y B) :
    Lockstep h h' Φ (observe x) (observe y)
      (Outcomes (fun r r' s s' => B (r, s) (r', s')) W') := by
  intro s s' hs
  rw [handle_observe, handle_observe]
  exact .ok (hxy s s' hs)

end Lockstep

end Resilience
