import Mathlib.Data.List.Flatten
import Resilience.Foundations.Interaction

/-!
# Programs inside programs

* `within f g x` runs a program over some requests inside one over more of them: its requests are
  made as `f` says, and what it throws is thrown as `g` says (`runs_within`).
* A program for each element of a list, one after the other: a complete run is made of one run for
  each element (`runs_mapM`).
-/

namespace Resilience

universe u v w

variable {E : Type u} {R : E → Type v} {E' : Type u} {ε ε' α β : Type w}

/-! ## More requests -/

/-- Requests that are made as others, with the same answers. -/
def Prog.embed (f : E' → E) : Prog E' (fun e => R (f e)) α → Prog E R α
  | .ret a => .ret a
  | .ask e k => .ask (f e) fun r => (k r).embed f

/-- The event that stands for a request of the inner program. -/
def Prog.Event.embed (f : E' → E) (ev : Prog.Event E' fun e => R (f e)) : Prog.Event E R :=
  ⟨f ev.1, ev.2⟩

theorem runs_embed {f : E' → E} {p : Prog E' (fun e => R (f e)) α} {t : List (Prog.Event E R)}
    {a : α} : (p.embed f).Runs t a ↔ ∃ t', t = t'.map (Prog.Event.embed f) ∧ p.Runs t' a := by
  induction p generalizing t with
  | ret b =>
    constructor
    · rintro ⟨rfl, rfl⟩
      exact ⟨[], rfl, rfl, rfl⟩
    · rintro ⟨_, rfl, rfl, rfl⟩
      exact ⟨rfl, rfl⟩
  | ask e k ih =>
    constructor
    · rintro ⟨r, t₁, rfl, h⟩
      obtain ⟨t', rfl, h'⟩ := (ih r).1 h
      exact ⟨⟨e, r⟩ :: t', rfl, r, t', rfl, h'⟩
    · rintro ⟨_, rfl, r, t', rfl, h⟩
      exact ⟨r, _, rfl, (ih r).2 ⟨t', rfl, h⟩⟩

/-- A program inside one with more requests and other errors. -/
def within (f : E' → E) (g : ε' → ε) (x : ExceptT ε' (Prog E' fun e => R (f e)) α) :
    ExceptT ε (Prog E R) α :=
  ExceptT.mk (x.run.embed f >>= fun r => .ret (r.mapError g))

theorem runs_within {f : E' → E} {g : ε' → ε} {x : ExceptT ε' (Prog E' fun e => R (f e)) α}
    {t : List (Prog.Event E R)} {r : Except ε α} :
    (within f g x).run.Runs t r ↔
      ∃ t' r', t = t'.map (Prog.Event.embed f) ∧ r = r'.mapError g ∧ x.run.Runs t' r' := by
  change (x.run.embed f >>= fun r => .ret (r.mapError g)).Runs t r ↔ _
  rw [Prog.runs_bind]
  constructor
  · rintro ⟨t₁, r', t₂, rfl, h, rfl, rfl⟩
    obtain ⟨t', rfl, h'⟩ := runs_embed.1 h
    exact ⟨t', r', List.append_nil _, rfl, h'⟩
  · rintro ⟨t', r', rfl, rfl, h⟩
    exact ⟨_, r', [], (List.append_nil _).symm, runs_embed.2 ⟨t', rfl, h⟩, rfl, rfl⟩

/-! ## One program for each element -/

/-- A call of a function on an element of a list: what was asked, and what was returned. -/
structure Call (E : Type u) (R : E → Type v) (α β : Type w) where
  arg : α
  trace : List (Prog.Event E R)
  result : β

variable {f : α → ExceptT ε (Prog E R) β}

/-- The call is a complete run of `f`. -/
def Call.Of (f : α → ExceptT ε (Prog E R) β) (c : Call E R α β) : Prop :=
  (f c.arg).run.Runs c.trace (.ok c.result)

theorem runs_mapM_cons {a : α} {as : List α} {t : List (Prog.Event E R)}
    {r : Except ε (List β)} : ((a :: as).mapM f).run.Runs t r ↔
      (∃ t₁ b t₂, t = t₁ ++ t₂ ∧ (f a).run.Runs t₁ (.ok b) ∧
        ((∃ bs, r = .ok (b :: bs) ∧ (as.mapM f).run.Runs t₂ (.ok bs)) ∨
          ∃ e, r = .error e ∧ (as.mapM f).run.Runs t₂ (.error e))) ∨
      ∃ e, r = .error e ∧ (f a).run.Runs t (.error e) := by
  rw [List.mapM_cons, runs_except_bind]
  apply or_congr_left
  refine exists_congr fun t₁ => exists_congr fun b => exists_congr fun t₂ => ?_
  refine and_congr_right fun _ => and_congr_right fun _ => ?_
  rw [runs_except_bind]
  constructor
  · rintro (⟨t₃, bs, t₄, rfl, hbs, rfl, rfl⟩ | herror)
    · exact .inl ⟨bs, rfl, by rwa [List.append_nil]⟩
    · exact .inr herror
  · rintro (⟨bs, rfl, hbs⟩ | herror)
    · exact .inl ⟨t₂, bs, [], (List.append_nil _).symm, hbs, rfl, rfl⟩
    · exact .inr herror

theorem runs_mapM_nil {t : List (Prog.Event E R)} {r : Except ε (List β)} :
    (([] : List α).mapM f).run.Runs t r ↔ t = [] ∧ r = .ok [] := by
  rw [List.mapM_nil]
  exact and_congr_right fun _ => eq_comm

/-- **A loop that returns has made one complete call for each element**, in order. -/
theorem runs_mapM {as : List α} {t : List (Prog.Event E R)} {bs : List β} :
    (as.mapM f).run.Runs t (.ok bs) ↔ ∃ calls : List (Call E R α β), (∀ c ∈ calls, c.Of f) ∧
      calls.map Call.arg = as ∧ calls.flatMap Call.trace = t ∧ calls.map Call.result = bs := by
  induction as generalizing t bs with
  | nil =>
    rw [runs_mapM_nil]
    constructor
    · rintro ⟨rfl, h⟩
      exact ⟨[], List.forall_mem_nil _, rfl, rfl, (Except.ok.inj h).symm⟩
    · rintro ⟨calls, -, hargs, rfl, rfl⟩
      obtain rfl := List.map_eq_nil_iff.1 hargs
      exact ⟨rfl, rfl⟩
  | cons a as ih =>
    rw [runs_mapM_cons]
    constructor
    · rintro (⟨t₁, b, t₂, rfl, ha, ⟨bs, heq, has⟩ | ⟨e, ⟨⟩, -⟩⟩ | ⟨e, ⟨⟩, -⟩)
      obtain rfl := Except.ok.inj heq
      obtain ⟨calls, hcalls, rfl, rfl, rfl⟩ := ih.1 has
      exact ⟨⟨a, t₁, b⟩ :: calls, List.forall_mem_cons.2 ⟨ha, hcalls⟩, rfl, rfl, rfl⟩
    · rintro ⟨calls, hcalls, hargs, rfl, rfl⟩
      obtain ⟨c, calls, rfl, rfl, rfl⟩ := List.map_eq_cons_iff.1 hargs
      obtain ⟨hc, hcalls⟩ := List.forall_mem_cons.1 hcalls
      exact .inl ⟨c.trace, c.result, _, rfl, hc, .inl ⟨_, rfl, ih.2 ⟨calls, hcalls, rfl, rfl, rfl⟩⟩⟩

/-- Traces of events in `Q`. -/
theorem composes_forall_mem (Q : Prog.Event E R → Prop) : Composes fun t => ∀ ev ∈ t, Q ev where
  nil := List.forall_mem_nil Q
  append h₁ h₂ := List.forall_mem_append.2 ⟨h₁, h₂⟩

theorem tracesIn_mapM {P : List (Prog.Event E R) → Prop} (hP : Composes P) {as : List α}
    (h : ∀ a ∈ as, TracesIn P (f a)) : TracesIn P (as.mapM f) := by
  induction as with
  | nil =>
    intro t r hrun
    obtain ⟨rfl, -⟩ := runs_mapM_nil.1 hrun
    exact hP.nil
  | cons a as ih =>
    obtain ⟨ha, has⟩ := List.forall_mem_cons.1 h
    rw [List.mapM_cons]
    refine tracesIn_bind hP ha fun b => tracesIn_bind hP (ih has) fun bs => ?_
    exact tracesIn_fromExcept (r := .ok (b :: bs)) hP

end Resilience
