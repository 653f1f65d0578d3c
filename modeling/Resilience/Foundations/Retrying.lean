import Mathlib.Algebra.BigOperators.Fin
import Mathlib.Algebra.Order.Field.Rat
import Mathlib.Order.Bounds.Basic
import Mathlib.Tactic.Linarith

/-!
# Retry loops

A retry loop calls until a call succeeds, fails for good or is the last one permitted, and may pause
between two calls (`Loop`). On given outcomes it ends at the first one that ends it (`Loop.ends`),
and it pauses for no longer than the ceilings of its pauses add up to (`Loop.paused_le`).
-/

namespace Resilience.Retrying

variable {E E' V : Type}

/-- What a retry loop does, as seen from outside. -/
inductive Act (E V : Type)
  | call (outcome : Except E V)
  | pause (length : ℚ)

def Act.outcome? : Act E V → Option (Except E V)
  | .call outcome => some outcome
  | .pause _ => none

def Act.length : Act E V → ℚ
  | .call _ => 0
  | .pause length => length

/-- The outcomes of the calls. -/
def calls (acts : List (Act E V)) : List (Except E V) := acts.filterMap Act.outcome?

/-- The time for which the loop pauses. -/
def paused (acts : List (Act E V)) : ℚ := (acts.map Act.length).sum

@[simp] theorem calls_nil : calls ([] : List (Act E V)) = [] := rfl

@[simp] theorem calls_call (outcome : Except E V) (acts : List (Act E V)) :
    calls (.call outcome :: acts) = outcome :: calls acts := rfl

@[simp] theorem calls_append (acts acts' : List (Act E V)) :
    calls (acts ++ acts') = calls acts ++ calls acts' := List.filterMap_append

@[simp] theorem paused_nil : paused ([] : List (Act E V)) = 0 := rfl

@[simp] theorem paused_cons (act : Act E V) (acts : List (Act E V)) :
    paused (act :: acts) = act.length + paused acts := List.sum_cons

@[simp] theorem paused_append (acts acts' : List (Act E V)) :
    paused (acts ++ acts') = paused acts + paused acts' := by
  rw [paused, List.map_append, List.sum_append, paused, paused]

/-- What a loop may do between two calls. -/
structure Between (ceiling : ℚ) (acts : List (Act E V)) : Prop where
  silent : calls acts = []
  nonneg : 0 ≤ paused acts
  le_ceiling : paused acts ≤ ceiling

theorem between_nil {ceiling : ℚ} (h : 0 ≤ ceiling) : Between ceiling ([] : List (Act E V)) :=
  ⟨rfl, le_rfl, h⟩

theorem between_pause {ceiling length : ℚ} (hnonneg : 0 ≤ length) (hle : length ≤ ceiling) :
    Between ceiling ([.pause length] : List (Act E V)) :=
  ⟨rfl, by simpa [Act.length] using hnonneg, by simpa [Act.length] using hle⟩

structure Terms (E : Type) where
  /-- How many calls are permitted. -/
  limit : ℕ
  retryable : E → Bool
  /-- For how long the loop may pause after a call, by the number of the call. -/
  ceiling : ℕ → ℚ

/-- Exponential backoff with a cap, from the pause after the first call on. -/
def Terms.backoff (limit : ℕ) (retryable : E → Bool) (base cap : ℚ) : Terms E where
  limit
  retryable
  ceiling k := min (base * 2 ^ (k - 1)) cap

/-- A run of the loop from the call number `k` on, with its result. -/
inductive Loop (terms : Terms E) : ℕ → List (Act E V) → Except E V → Prop
  | returned {k v} : Loop terms k [.call (.ok v)] (.ok v)
  | gaveUp {k e} (hends : terms.retryable e = false ∨ k = terms.limit) :
    Loop terms k [.call (.error e)] (.error e)
  | again {k e pause acts r} (hretryable : terms.retryable e = true) (hk : k < terms.limit)
    (hpause : Between (terms.ceiling k) pause) (hrest : Loop terms (k + 1) acts r) :
    Loop terms k (.call (.error e) :: (pause ++ acts)) r

/-- The calls have these outcomes, the first of them that of the number `k`. -/
def Answered (outcomes : ℕ → Except E V) (k : ℕ) (acts : List (Act E V)) : Prop :=
  calls acts = (List.range' k (calls acts).length).map outcomes

/-- The outcome number `k` is a success, an error that is not retried, or the last one permitted. -/
def EndsAt (terms : Terms E) (outcomes : ℕ → Except E V) (k : ℕ) : Prop :=
  match outcomes k with
  | .ok _ => True
  | .error e => terms.retryable e = false ∨ k = terms.limit

variable {terms : Terms E} {outcomes : ℕ → Except E V} {k : ℕ} {acts : List (Act E V)}
  {r : Except E V}

theorem answered_singleton {outcome : Except E V} :
    Answered outcomes k [.call outcome] ↔ outcomes k = outcome := by
  simp [Answered, eq_comm]

theorem answered_call {outcome : Except E V} {pause : List (Act E V)} (hpause : calls pause = []) :
    Answered outcomes k (.call outcome :: (pause ++ acts)) ↔
      outcomes k = outcome ∧ Answered outcomes (k + 1) acts := by
  simp [Answered, hpause, List.range'_succ, eq_comm]

/-- A loop ends at the first outcome that ends it, which is its result. -/
theorem Loop.ends (h : Loop terms k acts r) (hanswered : Answered outcomes k acts) :
    ∃ n, (calls acts).length + k = n + 1 ∧ IsLeast { j | k ≤ j ∧ EndsAt terms outcomes j } n ∧
      r = outcomes n := by
  induction h with
  | @returned k v =>
    have hk := answered_singleton.1 hanswered
    exact ⟨k, Nat.add_comm 1 k, ⟨⟨le_rfl, by rw [EndsAt, hk]; trivial⟩, fun j hj => hj.1⟩, hk.symm⟩
  | @gaveUp k e hends =>
    have hk := answered_singleton.1 hanswered
    exact ⟨k, Nat.add_comm 1 k, ⟨⟨le_rfl, by rw [EndsAt, hk]; exact hends⟩, fun j hj => hj.1⟩,
      hk.symm⟩
  | @again k e pause acts r hretryable hlt hpause hrest ih =>
    obtain ⟨hk, hlater⟩ := (answered_call hpause.silent).1 hanswered
    obtain ⟨n, hlength, ⟨⟨hle, hends⟩, hleast⟩, hr⟩ := ih hlater
    have hgoes : ¬ EndsAt terms outcomes k := by
      rw [EndsAt, hk]
      rintro (hfalse | rfl)
      · rw [hretryable] at hfalse
        cases hfalse
      · exact hlt.false
    refine ⟨n, ?_, ⟨⟨by omega, hends⟩, fun j hj => ?_⟩, hr⟩
    · rw [calls_call, calls_append, hpause.silent, List.nil_append, List.length_cons]
      omega
    · have hne : j ≠ k := by
        rintro rfl
        exact hgoes hj.2
      exact hleast ⟨Nat.lt_of_le_of_ne hj.1 hne.symm, hj.2⟩

/-- Only the ceilings up to the limit count. -/
theorem Loop.mono {ceiling : ℕ → ℚ} (h : Loop terms k acts r)
    (hle : ∀ j, k ≤ j → j < terms.limit → terms.ceiling j ≤ ceiling j) :
    Loop { terms with ceiling } k acts r := by
  induction h with
  | returned => exact .returned
  | gaveUp hends => exact .gaveUp hends
  | again hretryable hlt hpause _ ih =>
    have hbetween : Between (ceiling _) _ :=
      { hpause with le_ceiling := hpause.le_ceiling.trans (hle _ le_rfl hlt) }
    exact .again hretryable hlt hbetween (ih fun j hj => hle j (Nat.le_of_succ_le hj))

theorem Loop.calls_ne_nil (h : Loop terms k acts r) : calls acts ≠ [] := by
  cases h <;> simp

/-- The pauses of a loop are no longer than their ceilings. -/
theorem Loop.paused_le (h : Loop terms k acts r) :
    0 ≤ paused acts ∧
      paused acts ≤ ∑ i ∈ Finset.range ((calls acts).length - 1), terms.ceiling (k + i) := by
  induction h with
  | returned => simp [Act.length]
  | gaveUp => simp [Act.length]
  | @again k e pause acts r _ _ hpause hrest ih =>
    obtain ⟨n, hn⟩ := Nat.exists_eq_succ_of_ne_zero
      (List.length_pos_iff.2 hrest.calls_ne_nil).ne'
    have hlength : (calls (.call (.error e) :: (pause ++ acts))).length - 1 = n + 1 := by
      rw [calls_call, calls_append, hpause.silent, List.nil_append, List.length_cons, hn]
      rfl
    have hsum : ∑ i ∈ Finset.range (n + 1), terms.ceiling (k + i) =
        ∑ i ∈ Finset.range n, terms.ceiling (k + 1 + i) + terms.ceiling k := by
      rw [Finset.sum_range_succ']
      refine congrArg (· + _) (Finset.sum_congr rfl fun i _ => ?_)
      rw [Nat.add_assoc, Nat.add_comm 1 i]
    rw [hn, Nat.succ_sub_one] at ih
    rw [hlength, hsum, paused_cons, paused_append, show (Act.call _).length = (0 : ℚ) from rfl]
    have hnonneg := hpause.nonneg
    have hceiling := hpause.le_ceiling
    exact ⟨by linarith [ih.1], by linarith [ih.2]⟩

/-- Errors by another name end a loop alike. -/
theorem endsAt_mapError {terms' : Terms E'} {f : E → E'} (hlimit : terms'.limit = terms.limit)
    (hretryable : ∀ e, terms'.retryable (f e) = terms.retryable e) :
    EndsAt terms' (fun k => (outcomes k).mapError f) k ↔ EndsAt terms outcomes k := by
  unfold EndsAt
  cases h : outcomes k with
  | ok v => simp [h, Except.mapError]
  | error e => simp [h, Except.mapError, hlimit, hretryable]

end Resilience.Retrying
