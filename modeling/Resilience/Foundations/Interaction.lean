import Mathlib.Logic.Relation

/-!
# Programs that ask, and worlds that answer

A program over requests `E`, with answers `R e` to the request `e`, is a finite-depth tree: it
returns, or it makes a request and continues with the answer (`Prog`). Everything outside the
program (callbacks, clocks, a chain, other processes) is on the answering side.

* `Prog.Runs p t a`: on the answers recorded in the trace `t`, the program returns `a`
  (`runs_bind` and `runs_except_bind` take a trace apart at a bind).
* `TracesIn`: a property of the traces of a program, which composes at a bind.
* `Prog.Safe`: whatever the answers, each request of the program is allowed in the state of a
  monitor that watches the conversation; `safe_bind` composes.
* `World` adds the other side: what a request does when it is made, how it may be answered, what
  happens on its own in between. `Config.Step` interleaves the two.
-/

namespace Resilience

universe u v w

/-- Programs with requests `E`, answers `R e` to the request `e`, and results `α`. -/
inductive Prog (E : Type u) (R : E → Type v) (α : Type w) : Type (max u v w)
  | ret (a : α)
  | ask (e : E) (k : R e → Prog E R α)

namespace Prog

variable {E : Type u} {R : E → Type v} {α β : Type w}

/-- Run `p`, then `f` on its result. -/
protected def bind : Prog E R α → (α → Prog E R β) → Prog E R β
  | .ret a, f => f a
  | .ask e k, f => .ask e fun r => (k r).bind f

instance : Monad (Prog E R) where
  pure := .ret
  bind := Prog.bind

@[simp] theorem pure_eq (a : α) : (pure a : Prog E R α) = .ret a := rfl

@[simp] theorem ret_bind (a : α) (f : α → Prog E R β) : (Prog.ret a >>= f) = f a := rfl

@[simp] theorem ask_bind (e : E) (k : R e → Prog E R α) (f : α → Prog E R β) :
    (Prog.ask e k >>= f) = .ask e fun r => k r >>= f := rfl

theorem map_id' (p : Prog E R α) : id <$> p = p := by
  induction p with
  | ret a => rfl
  | ask e k ih => exact congrArg (Prog.ask e) (funext ih)

theorem bind_bind {γ : Type w} (p : Prog E R α) (f : α → Prog E R β) (g : β → Prog E R γ) :
    p >>= f >>= g = p >>= fun a => f a >>= g := by
  induction p with
  | ret a => rfl
  | ask e k ih => exact congrArg (Prog.ask e) (funext ih)

instance : LawfulMonad (Prog E R) :=
  LawfulMonad.mk' (Prog E R) map_id' (fun _ _ => rfl) bind_bind

/-! ## Complete runs -/

/-- A request together with the answer it got. -/
abbrev Event (E : Type u) (R : E → Type v) := (e : E) × R e

/-- `p.Runs t a`: on the answers of `t`, in order, `p` makes exactly the requests of `t` and
returns `a`. -/
def Runs : Prog E R α → List (Event E R) → α → Prop
  | .ret a, t, b => t = [] ∧ a = b
  | .ask e k, t, b => ∃ r t', t = ⟨e, r⟩ :: t' ∧ (k r).Runs t' b

@[simp] theorem runs_ret {a b : α} {t : List (Event E R)} :
    (Prog.ret a : Prog E R α).Runs t b ↔ t = [] ∧ a = b := Iff.rfl

@[simp] theorem runs_ask {e : E} {k : R e → Prog E R α} {t : List (Event E R)} {b : α} :
    (Prog.ask e k).Runs t b ↔ ∃ r t', t = ⟨e, r⟩ :: t' ∧ (k r).Runs t' b := Iff.rfl

theorem Runs.ask {e : E} {k : R e → Prog E R α} {r : R e} {t : List (Event E R)} {b : α}
    (h : (k r).Runs t b) : (Prog.ask e k).Runs (⟨e, r⟩ :: t) b := ⟨r, t, rfl, h⟩

theorem runs_bind {p : Prog E R α} {f : α → Prog E R β} {t : List (Event E R)} {b : β} :
    (p >>= f).Runs t b ↔ ∃ t₁ a t₂, t = t₁ ++ t₂ ∧ p.Runs t₁ a ∧ (f a).Runs t₂ b := by
  induction p generalizing t with
  | ret a =>
    constructor
    · exact fun h => ⟨[], a, t, rfl, ⟨rfl, rfl⟩, h⟩
    · rintro ⟨_, _, _, rfl, ⟨rfl, rfl⟩, h⟩
      exact h
  | ask e k ih =>
    simp only [ask_bind, runs_ask, ih]
    constructor
    · rintro ⟨r, t', rfl, t₁, a, t₂, rfl, h₁, h₂⟩
      exact ⟨⟨e, r⟩ :: t₁, a, t₂, rfl, ⟨r, t₁, rfl, h₁⟩, h₂⟩
    · rintro ⟨_, a, t₂, rfl, ⟨r, t₁, rfl, h₁⟩, h₂⟩
      exact ⟨r, t₁ ++ t₂, rfl, t₁, a, t₂, rfl, h₁, h₂⟩

/-- There is a run on the answers of any environment. -/
theorem exists_runs (p : Prog E R α) (env : ∀ e, R e) :
    ∃ t a, p.Runs t a ∧ ∀ ev ∈ t, ev.2 = env ev.1 := by
  induction p with
  | ret a => exact ⟨[], a, ⟨rfl, rfl⟩, by simp⟩
  | ask e k ih =>
    obtain ⟨t, a, hrun, ht⟩ := ih (env e)
    exact ⟨⟨e, env e⟩ :: t, a, .ask hrun, by simpa using ht⟩

/-! ## Monitored programs -/

section Safe

variable {M : Type*} (ok : M → E → Prop) (next : M → (e : E) → R e → M)

/-- From the monitor state `m`, every request `p` makes is allowed (`ok`), whatever the answers
that advance the monitor (`next`); where `p` returns `a` in the state `m'`, `Q m' a` holds. -/
def Safe : Prog E R α → (M → α → Prop) → M → Prop
  | .ret a, Q, m => Q m a
  | .ask e k, Q, m => ok m e ∧ ∀ r, (k r).Safe Q (next m e r)

variable {ok next}

@[simp] theorem safe_ret {a : α} {Q : M → α → Prop} {m : M} :
    (Prog.ret a : Prog E R α).Safe ok next Q m ↔ Q m a := Iff.rfl

@[simp] theorem safe_ask {e : E} {k : R e → Prog E R α} {Q : M → α → Prop} {m : M} :
    (Prog.ask e k).Safe ok next Q m ↔ ok m e ∧ ∀ r, (k r).Safe ok next Q (next m e r) := Iff.rfl

theorem safe_bind {p : Prog E R α} {f : α → Prog E R β} {Q : M → β → Prop} {m : M} :
    (p >>= f).Safe ok next Q m ↔ p.Safe ok next (fun m' a => (f a).Safe ok next Q m') m := by
  induction p generalizing m with
  | ret a => rfl
  | ask e k ih => simp only [ask_bind, safe_ask, ih]

theorem Safe.mono {p : Prog E R α} {Q Q' : M → α → Prop} {m : M} (h : p.Safe ok next Q m)
    (hQ : ∀ m a, Q m a → Q' m a) : p.Safe ok next Q' m := by
  induction p generalizing m with
  | ret a => exact hQ _ _ h
  | ask e k ih => exact ⟨h.1, fun r => ih r (h.2 r)⟩

/-- In a run of a safe program, every request made was allowed in some monitor state, and the result
satisfies the postcondition in some monitor state. -/
theorem Safe.runs {p : Prog E R α} {Q : M → α → Prop} {m : M} {t : List (Event E R)} {a : α}
    (h : p.Safe ok next Q m) (hrun : p.Runs t a) :
    (∀ ev ∈ t, ∃ m', ok m' ev.1) ∧ ∃ m', Q m' a := by
  induction p generalizing m t with
  | ret b =>
    obtain ⟨rfl, rfl⟩ := hrun
    exact ⟨by simp, m, h⟩
  | ask e k ih =>
    obtain ⟨r, t', rfl, hrun⟩ := hrun
    obtain ⟨hok, hQ⟩ := ih r (h.2 r) hrun
    refine ⟨fun ev hev => ?_, hQ⟩
    obtain rfl | hev := List.mem_cons.1 hev
    · exact ⟨m, h.1⟩
    · exact hok ev hev

/-- In a run of a safe program, a request is allowed in the state in which the conversation before
it has left the monitor. -/
theorem Safe.runs_at {p : Prog E R α} {Q : M → α → Prop} {m : M} {t u : List (Event E R)}
    {ev : Event E R} {a : α} (h : p.Safe ok next Q m) (hrun : p.Runs (t ++ ev :: u) a) :
    ok (t.foldl (fun m ev => next m ev.1 ev.2) m) ev.1 := by
  induction t generalizing p m with
  | nil =>
    cases p with
    | ret b => cases hrun.1
    | ask e k =>
      obtain ⟨r, t', heq, -⟩ := hrun
      obtain ⟨rfl, -⟩ := List.cons.inj heq
      exact h.1
  | cons ev' t ih =>
    cases p with
    | ret b => cases hrun.1
    | ask e k =>
      obtain ⟨r, t', heq, hrun⟩ := hrun
      obtain ⟨rfl, rfl⟩ := List.cons.inj heq
      exact ih (h.2 r) hrun

end Safe

end Prog

/-! ## Programs that may throw -/

section Except

variable {E : Type u} {R : E → Type v} {ε α β : Type w}

theorem run_except_bind (x : ExceptT ε (Prog E R) α) (f : α → ExceptT ε (Prog E R) β) :
    (x >>= f).run = x.run >>= fun
      | .ok a => (f a).run
      | .error e => .ret (.error e) := by
  change Prog.bind _ _ = Prog.bind _ _
  congr 1

theorem runs_except_bind {x : ExceptT ε (Prog E R) α} {f : α → ExceptT ε (Prog E R) β}
    {t : List (Prog.Event E R)} {b : Except ε β} :
    (x >>= f).run.Runs t b ↔
      (∃ t₁ a t₂, t = t₁ ++ t₂ ∧ x.run.Runs t₁ (.ok a) ∧ (f a).run.Runs t₂ b) ∨
        ∃ e, b = .error e ∧ x.run.Runs t (.error e) := by
  rw [run_except_bind, Prog.runs_bind]
  constructor
  · rintro ⟨t₁, r, t₂, rfl, h₁, h₂⟩
    cases r with
    | ok a => exact .inl ⟨t₁, a, t₂, rfl, h₁, h₂⟩
    | error e =>
      obtain ⟨rfl, rfl⟩ := h₂
      exact .inr ⟨e, rfl, by simpa using h₁⟩
  · rintro (⟨t₁, a, t₂, rfl, h₁, h₂⟩ | ⟨e, rfl, h⟩)
    · exact ⟨t₁, _, t₂, rfl, h₁, h₂⟩
    · exact ⟨t, _, [], by simp, h, rfl, rfl⟩

theorem runs_except_bind_ok {x : ExceptT ε (Prog E R) α} {f : α → ExceptT ε (Prog E R) β}
    {t : List (Prog.Event E R)} {b : β} :
    (x >>= f).run.Runs t (.ok b) ↔
      ∃ t₁ a t₂, t = t₁ ++ t₂ ∧ x.run.Runs t₁ (.ok a) ∧ (f a).run.Runs t₂ (.ok b) := by
  rw [runs_except_bind]
  exact or_iff_left fun ⟨_, he, _⟩ => nomatch he

/-- One request; `f` reads its answer as a result or a throw. -/
def perform (e : E) (f : R e → Except ε α) : ExceptT ε (Prog E R) α :=
  ExceptT.mk (.ask e fun r => .ret (f r))

theorem run_perform_bind (e : E) (f : R e → Except ε α) (g : α → ExceptT ε (Prog E R) β) :
    (perform e f >>= g).run = .ask e fun r => match f r with
      | .ok a => (g a).run
      | .error err => .ret (.error err) := by
  rw [run_except_bind]
  change Prog.ask e _ = _
  congr 1

theorem runs_perform_bind {e : E} {f : R e → Except ε α} {g : α → ExceptT ε (Prog E R) β}
    {t : List (Prog.Event E R)} {b : Except ε β} :
    (perform e f >>= g).run.Runs t b ↔ ∃ r t', t = ⟨e, r⟩ :: t' ∧ match f r with
      | .ok a => (g a).run.Runs t' b
      | .error err => t' = [] ∧ .error err = b := by
  rw [run_perform_bind]
  simp only [Prog.runs_ask]
  refine exists_congr fun r => exists_congr fun t' => and_congr_right fun _ => ?_
  cases f r <;> rfl

/-- Return or throw, without a request. -/
def fromExcept (r : Except ε α) : ExceptT ε (Prog E R) α := ExceptT.mk (.ret r)

theorem runs_perform {e : E} {f : R e → Except ε α} {t : List (Prog.Event E R)}
    {b : Except ε α} : (perform e f).run.Runs t b ↔ ∃ r, t = [⟨e, r⟩] ∧ f r = b := by
  change (∃ r t', t = ⟨e, r⟩ :: t' ∧ t' = [] ∧ f r = b) ↔ _
  constructor
  · rintro ⟨r, _, rfl, rfl, h⟩
    exact ⟨r, rfl, h⟩
  · rintro ⟨r, rfl, h⟩
    exact ⟨r, [], rfl, rfl, h⟩

/-- A program that does not throw, before one that may. -/
theorem runs_lift_bind {p : Prog E R α} {f : α → ExceptT ε (Prog E R) β}
    {t : List (Prog.Event E R)} {b : Except ε β} :
    (ExceptT.lift p >>= f).run.Runs t b ↔
      ∃ t₁ a t₂, t = t₁ ++ t₂ ∧ p.Runs t₁ a ∧ (f a).run.Runs t₂ b := by
  rw [run_except_bind]
  change (Except.ok <$> p >>= _).Runs t b ↔ _
  rw [bind_map_left, Prog.runs_bind]

theorem runs_fromExcept {r b : Except ε α} {t : List (Prog.Event E R)} :
    (fromExcept r : ExceptT ε (Prog E R) α).run.Runs t b ↔ t = [] ∧ r = b := Iff.rfl

theorem runs_fromExcept_bind {r : Except ε α} {g : α → ExceptT ε (Prog E R) β}
    {t : List (Prog.Event E R)} {b : Except ε β} :
    (fromExcept r >>= g).run.Runs t b ↔ match r with
      | .ok a => (g a).run.Runs t b
      | .error err => t = [] ∧ .error err = b := by
  cases r <;> exact Iff.rfl

/-- The outcome of `x` as a value: what a `try` block leaves to the code after it. -/
def observe (x : ExceptT ε (Prog E R) α) : ExceptT ε (Prog E R) (Except ε α) :=
  ExceptT.mk (x.run >>= fun r => .ret (.ok r))

theorem runs_observe {x : ExceptT ε (Prog E R) α} {t : List (Prog.Event E R)}
    {b : Except ε (Except ε α)} :
    (observe x).run.Runs t b ↔ ∃ r, b = .ok r ∧ x.run.Runs t r := by
  change (x.run >>= fun r => Prog.ret (.ok r)).Runs t b ↔ _
  rw [Prog.runs_bind]
  constructor
  · rintro ⟨t₁, r, t₂, rfl, h, rfl, rfl⟩
    exact ⟨r, rfl, by simpa using h⟩
  · rintro ⟨r, rfl, h⟩
    exact ⟨t, r, [], by simp, h, rfl, rfl⟩

theorem runs_observe_bind {x : ExceptT ε (Prog E R) α}
    {f : Except ε α → ExceptT ε (Prog E R) β} {t : List (Prog.Event E R)} {b : Except ε β} :
    (observe x >>= f).run.Runs t b ↔
      ∃ t₁ r t₂, t = t₁ ++ t₂ ∧ x.run.Runs t₁ r ∧ (f r).run.Runs t₂ b := by
  rw [runs_except_bind]
  constructor
  · rintro (⟨t₁, r, t₂, ht, hx, hf⟩ | ⟨_, _, hx⟩)
    · obtain ⟨_, ⟨⟩, hr⟩ := runs_observe.1 hx
      exact ⟨t₁, r, t₂, ht, hr, hf⟩
    · obtain ⟨_, ⟨⟩, -⟩ := runs_observe.1 hx
  · rintro ⟨t₁, r, t₂, ht, hx, hf⟩
    exact .inl ⟨t₁, r, t₂, ht, runs_observe.2 ⟨r, rfl, hx⟩, hf⟩

variable {M : Type*} {ok : M → E → Prop} {next : M → (e : E) → R e → M}

theorem safe_observe {x : ExceptT ε (Prog E R) α} {Q : M → Except ε (Except ε α) → Prop} {m : M} :
    (observe x).run.Safe ok next Q m ↔ x.run.Safe ok next (fun m' r => Q m' (.ok r)) m :=
  Prog.safe_bind

theorem safe_except_bind {x : ExceptT ε (Prog E R) α} {f : α → ExceptT ε (Prog E R) β}
    {Q : M → Except ε β → Prop} {m : M} :
    (x >>= f).run.Safe ok next Q m ↔
      x.run.Safe ok next (fun m' r => match r with
        | .ok a => (f a).run.Safe ok next Q m'
        | .error e => Q m' (.error e)) m := by
  rw [run_except_bind, Prog.safe_bind]
  refine ⟨fun h => h.mono ?_, fun h => h.mono ?_⟩ <;> rintro m' (e | a) h' <;> exact h'

/-- A request, by what it is read as. -/
theorem safe_perform_bind {e : E} {f : R e → Except ε α} {g : α → ExceptT ε (Prog E R) β}
    {Q : M → Except ε β → Prop} {m : M} (hok : ok m e)
    (hf : ∀ r a, f r = .ok a → (g a).run.Safe ok next Q (next m e r))
    (he : ∀ r err, f r = .error err → Q (next m e r) (.error err)) :
    (perform e f >>= g).run.Safe ok next Q m := by
  rw [run_perform_bind]
  refine ⟨hok, fun r => ?_⟩
  dsimp only
  split
  · exact hf r _ ‹_›
  · exact he r _ ‹_›

/-- Sequencing two safe programs that may throw, when nothing is asked of a throw: `P` is what the
first leaves behind. -/
theorem safe_bind_of {x : ExceptT ε (Prog E R) α} {f : α → ExceptT ε (Prog E R) β}
    {Q : M → Except ε β → Prop} {m : M} (P : M → α → Prop)
    (hx : x.run.Safe ok next (fun m' r => ∀ a, r = .ok a → P m' a) m)
    (hf : ∀ m' a, P m' a → (f a).run.Safe ok next Q m') (he : ∀ m' e, Q m' (.error e)) :
    (x >>= f).run.Safe ok next Q m := by
  refine safe_except_bind.2 (hx.mono ?_)
  rintro m' (e | a) h
  · exact he m' e
  · exact hf m' a (h a rfl)

/-- `x` is safe from any monitor state in `I`, and leaves the monitor in `I`, returning or
throwing. -/
def Keeps (ok : M → E → Prop) (next : M → (e : E) → R e → M) (I : M → Prop)
    (x : ExceptT ε (Prog E R) α) : Prop :=
  ∀ m, I m → x.run.Safe ok next (fun m' _ => I m') m

variable {I : M → Prop}

theorem keeps_bind {x : ExceptT ε (Prog E R) α} {f : α → ExceptT ε (Prog E R) β}
    (hx : Keeps ok next I x) (hf : ∀ a, Keeps ok next I (f a)) : Keeps ok next I (x >>= f) := by
  refine fun m hm => safe_except_bind.2 ((hx m hm).mono ?_)
  rintro m' (e | a) h
  · exact h
  · exact hf a m' h

/-- After a program that leaves the monitor as it is, the next one starts where the first did. -/
theorem Keeps.bind_safe {x : ExceptT ε (Prog E R) α} {f : α → ExceptT ε (Prog E R) β}
    {Q : M → Except ε β → Prop} {m : M} (hx : Keeps ok next (· = m) x)
    (hf : ∀ a, (f a).run.Safe ok next Q m) (he : ∀ e, Q m (.error e)) :
    (x >>= f).run.Safe ok next Q m := by
  refine safe_except_bind.2 ((hx m rfl).mono ?_)
  rintro m' (e | a) rfl
  · exact he e
  · exact hf a

theorem keeps_perform {e : E} {f : R e → Except ε α} (hok : ∀ m, I m → ok m e)
    (hnext : ∀ m r, I m → I (next m e r)) : Keeps ok next I (perform e f) :=
  fun m hm => ⟨hok m hm, fun r => hnext m r hm⟩

theorem keeps_fromExcept {r : Except ε α} :
    Keeps ok next I (fromExcept r : ExceptT ε (Prog E R) α) :=
  fun _ hm => hm

theorem keeps_ite {c : Prop} [Decidable c] {x y : ExceptT ε (Prog E R) α}
    (hx : c → Keeps ok next I x) (hy : ¬c → Keeps ok next I y) :
    Keeps ok next I (if c then x else y) := by
  split
  · exact hx ‹_›
  · exact hy ‹_›

end Except

/-! ## Properties of traces -/

section Traces

variable {E : Type u} {R : E → Type v} {ε α β : Type w} {P : List (Prog.Event E R) → Prop}

/-- Traces in `P` can be put one after the other. -/
structure Composes (P : List (Prog.Event E R) → Prop) : Prop where
  nil : P []
  append {t₁ t₂ : List (Prog.Event E R)} (h₁ : P t₁) (h₂ : P t₂) : P (t₁ ++ t₂)

/-- The traces of complete runs of `x` are in `P`. -/
def TracesIn (P : List (Prog.Event E R) → Prop) (x : ExceptT ε (Prog E R) α) : Prop :=
  ∀ t r, x.run.Runs t r → P t

theorem tracesIn_bind (hP : Composes P) {x : ExceptT ε (Prog E R) α}
    {f : α → ExceptT ε (Prog E R) β} (hx : TracesIn P x) (hf : ∀ a, TracesIn P (f a)) :
    TracesIn P (x >>= f) := by
  intro t r h
  obtain ⟨t₁, a, t₂, rfl, h₁, h₂⟩ | ⟨e, rfl, he⟩ := runs_except_bind.1 h
  · exact hP.append (hx _ _ h₁) (hf a _ _ h₂)
  · exact hx _ _ he

theorem tracesIn_perform {e : E} {f : R e → Except ε α} (h : ∀ r, P [⟨e, r⟩]) :
    TracesIn P (perform e f) := by
  intro t b hrun
  obtain ⟨r, rfl, -⟩ := runs_perform.1 hrun
  exact h r

theorem tracesIn_fromExcept (hP : Composes P) {r : Except ε α} :
    TracesIn P (fromExcept r : ExceptT ε (Prog E R) α) := by
  rintro t b ⟨rfl, -⟩
  exact hP.nil

theorem tracesIn_observe {x : ExceptT ε (Prog E R) α} (hx : TracesIn P x) :
    TracesIn P (observe x) := by
  intro t b h
  obtain ⟨r, -, h⟩ := runs_observe.1 h
  exact hx t r h

end Traces

/-! ## Worlds -/

/-- The answering side: `call` is what making a request does at once, `answers e r w w'` says that
`e` may be answered by `r` while `w` becomes `w'`, and `tick` is what happens on its own. -/
structure World (E : Type u) (R : E → Type v) (W : Type w) where
  call : E → W → W
  answers : (e : E) → R e → W → W → Prop
  tick : W → W → Prop

/-- A program in its world; `waiting` when its next request has been made and not yet answered. -/
structure Config (E : Type u) (R : E → Type v) (W : Type w) (α : Type w) where
  world : W
  prog : Prog E R α
  waiting : Bool

namespace Config

variable {E : Type u} {R : E → Type v} {W α : Type w} (𝒲 : World E R W)

/-- One step: the program makes its next request, the request it waits on is answered, or the
world moves on its own. -/
inductive Step : Config E R W α → Config E R W α → Prop
  | call {w e k} : Step ⟨w, .ask e k, false⟩ ⟨𝒲.call e w, .ask e k, true⟩
  | answer {w w' e k r} (h : 𝒲.answers e r w w') : Step ⟨w, .ask e k, true⟩ ⟨w', k r, false⟩
  | tick {w w' p b} (h : 𝒲.tick w w') : Step ⟨w, p, b⟩ ⟨w', p, b⟩

/-- The request a program is waiting on. -/
def pending : Config E R W α → Option E
  | ⟨_, .ask e _, true⟩ => some e
  | _ => none

end Config

end Resilience
