import Resilience.Rust.Retry
import Mathlib.Order.Bounds.Basic

/-!
# Runs of the Rust retry loop

`retry` of `rust/src/retry.rs` and `crdb_retry_with_policy` of `rust/src/crdb.rs`, on every sequence
of outcomes of the operation.
-/

namespace Resilience.Rust

open Overflow

inductive ResilienceError (E : Type)
  | exhausted (attempts : UInt32) (source : E)
  | terminal (source : E)

/-- Why the model does not get to a result. -/
inductive Halt
  | fuel
  /-- A build that checks panics on overflow. -/
  | overflow
  deriving DecidableEq

section Loop

variable {E T : Type} (build : Build)

def u32Of : Option ℤ → Except Halt UInt32
  | some n => .ok (.ofNat n.toNat)
  | none => .error .overflow

def RetryPolicy.attemptLimit (self : RetryPolicy) : UInt32 :=
  if self.maxAttempts < 1 then 1 else self.maxAttempts

def pause (delay : Duration) : ExceptT Halt (RetryProg E T) Unit :=
  if delay.isZero then fromExcept (.ok ()) else perform (.sleep delay) .ok

/-- The loop. The classifier may keep a state: what it says may depend on how many attempts there
were before. -/
def attempts (policy : RetryPolicy) (classify : ℕ → E → Bool) :
    ℕ → UInt32 → ExceptT Halt (RetryProg E T) (Except (ResilienceError E) T)
  | 0, _ => fromExcept (.error .fuel)
  | fuel + 1, attempt => do
    match ← perform .op .ok with
    | .ok v => return .ok v
    | .error e =>
      if !classify attempt.toNat e then return .error (.terminal e)
      else
        let attempt ← fromExcept (u32Of (build.op u32 (attempt.toNat + 1)))
        if policy.attemptLimit ≤ attempt then return .error (.exhausted attempt e)
        else
          let index ← fromExcept (u32Of (build.op u32 (attempt.toNat - 1)))
          let delay ← ExceptT.lift (policy.jitteredDelay index)
          pause delay
          attempts policy classify fuel attempt

/-- `retry`: the fuel is enough, as no run ends for want of it. -/
def retry (policy : RetryPolicy) (classify : ℕ → E → Bool) :
    ExceptT Halt (RetryProg E T) (Except (ResilienceError E) T) :=
  attempts build policy classify policy.attemptLimit.toNat 0

end Loop

/-! ## `crdb.rs` -/

structure SqlError where
  sqlstate : String
  message : String

/-- `SERIALIZATION_FAILURE`. -/
def serializationFailure : String := "40001"

def SqlError.isSerializationFailure (self : SqlError) : Bool :=
  self.sqlstate == serializationFailure

def crdbRetryWithPolicy {T : Type} (build : Build) (policy : RetryPolicy) :
    ExceptT Halt (RetryProg SqlError T) (Except (ResilienceError SqlError) T) :=
  retry build policy fun _ e => e.isSerializationFailure

/-! ## Outcomes -/

section Runs

variable {E T : Type} {build : Build} {policy : RetryPolicy} {classify : ℕ → E → Bool}

abbrev RetryTrace (E T : Type) := List (Prog.Event RetryRequest (RetryAnswer E T))

/-- What the operation returned. -/
def opAnswer : Prog.Event RetryRequest (RetryAnswer E T) → Option (Except E T)
  | ⟨.op, outcome⟩ => some outcome
  | ⟨.genRange _, _⟩ => none
  | ⟨.sleep _, _⟩ => none

def opAnswers (t : RetryTrace E T) : List (Except E T) := t.filterMap opAnswer

@[simp] theorem opAnswers_nil : opAnswers ([] : RetryTrace E T) = [] := rfl

@[simp] theorem opAnswers_op (outcome : Except E T) (t : RetryTrace E T) :
    opAnswers (⟨.op, outcome⟩ :: t) = outcome :: opAnswers t := rfl

@[simp] theorem opAnswers_append (t t' : RetryTrace E T) :
    opAnswers (t ++ t') = opAnswers t ++ opAnswers t' := List.filterMap_append

theorem opAnswers_jitteredDelay {index : UInt32} {t : RetryTrace E T} {delay : Duration}
    (h : (policy.jitteredDelay index).Runs t delay) : opAnswers t = [] := by
  unfold RetryPolicy.jitteredDelay at h
  dsimp only at h
  split_ifs at h
  · obtain ⟨rfl, -⟩ := h
    rfl
  · obtain ⟨jittered, t', rfl, rfl, -⟩ := h
    rfl

theorem opAnswers_pause {delay : Duration} {t : RetryTrace E T} {r : Except Halt Unit}
    (h : (pause delay).run.Runs t r) : opAnswers t = [] ∧ r = .ok () := by
  unfold pause at h
  split_ifs at h
  · obtain ⟨rfl, rfl⟩ := h
    exact ⟨rfl, rfl⟩
  · obtain ⟨answer, rfl, rfl⟩ := runs_perform.1 h
    exact ⟨rfl, rfl⟩

/-! ## Iterations -/

/-- A run of the loop from the attempt on, of so many. -/
inductive RetryCourse (classify : ℕ → E → Bool) (limit : ℕ) :
    ℕ → RetryTrace E T → Except (ResilienceError E) T → Prop
  | returned {attempt v} : RetryCourse classify limit attempt [⟨.op, .ok v⟩] (.ok v)
  | terminal {attempt e} (hclassify : classify attempt e = false) :
    RetryCourse classify limit attempt [⟨.op, .error e⟩] (.error (.terminal e))
  | exhausted {attempt e} {count : UInt32} (hclassify : classify attempt e = true)
    (hlimit : attempt + 1 = limit) (hcount : count.toNat = limit) :
    RetryCourse classify limit attempt [⟨.op, .error e⟩] (.error (.exhausted count e))
  | again {attempt e t t' r} (hclassify : classify attempt e = true) (hlimit : attempt + 1 < limit)
    (hpause : opAnswers t = []) (hrest : RetryCourse classify limit (attempt + 1) t' r) :
    RetryCourse classify limit attempt (⟨.op, .error e⟩ :: (t ++ t')) r

theorem u32Of_op {n : ℕ} {attempt : UInt32} {m : ℤ} (hm : m = n) (hn : attempt.toNat = n) :
    u32Of (build.op u32 m) = .ok attempt := by
  have hlt := attempt.toNat_lt
  have hheld : u32.Holds m := by
    simp only [u32, IntType.Holds]
    omega
  rw [build.op_eq hheld, hm]
  exact congrArg Except.ok (by rw [Int.toNat_natCast, ← hn, UInt32.ofNat_toNat])

theorem exists_next {attempt limit : UInt32} (h : attempt.toNat < limit.toNat) :
    ∃ next : UInt32, next.toNat = attempt.toNat + 1 := by
  have hlimit := limit.toNat_lt
  have hlt : attempt.toNat + 1 < UInt32.size := by
    rw [UInt32.size]
    omega
  exact ⟨.ofNat (attempt.toNat + 1), UInt32.toNat_ofNat_of_lt' hlt⟩

/-- The counter stays below the limit, which is a number of its type. -/
theorem course_of_runs_attempts {fuel : ℕ} {attempt : UInt32} {t : RetryTrace E T}
    {r : Except Halt (Except (ResilienceError E) T)}
    (hattempt : attempt.toNat < policy.attemptLimit.toNat)
    (hfuel : policy.attemptLimit.toNat ≤ attempt.toNat + fuel)
    (h : (attempts build policy classify fuel attempt).run.Runs t r) :
    ∃ r', r = .ok r' ∧
      RetryCourse classify policy.attemptLimit.toNat attempt.toNat t r' := by
  induction fuel generalizing attempt t with
  | zero => omega
  | succ fuel ih =>
    rw [attempts] at h
    obtain ⟨outcome, t', rfl, hbody⟩ := runs_perform_bind.1 h
    clear h
    cases outcome with
    | ok v =>
      obtain ⟨rfl, rfl⟩ := hbody
      exact ⟨_, rfl, .returned⟩
    | error e =>
      cases hclassify : classify attempt.toNat e with
      | false =>
        simp only [hclassify] at hbody
        obtain ⟨rfl, rfl⟩ := hbody
        exact ⟨_, rfl, .terminal hclassify⟩
      | true =>
        simp only [hclassify] at hbody
        obtain ⟨next, hnext⟩ := exists_next hattempt
        have hindex : u32Of (build.op u32 ((next.toNat : ℤ) - 1)) = .ok attempt :=
          u32Of_op (by omega) rfl
        rw [u32Of_op (by omega) hnext] at hbody
        replace hbody := runs_fromExcept_bind.1 hbody
        dsimp only at hbody
        split_ifs at hbody with hle
        · have hlast : policy.attemptLimit.toNat ≤ next.toNat := hle
          obtain ⟨rfl, rfl⟩ := hbody
          exact ⟨_, rfl, .exhausted hclassify (by omega) (by omega)⟩
        · have hleft : next.toNat < policy.attemptLimit.toNat := not_le.1 hle
          rw [hindex] at hbody
          replace hbody := runs_fromExcept_bind.1 hbody
          obtain ⟨t₁, delay, t₂, rfl, hjitter, hpauses⟩ := runs_lift_bind.1 hbody
          obtain ⟨t₃, paused, t₄, rfl, hpause, hrest⟩ | ⟨halt, -, hpause⟩ :=
            runs_except_bind.1 hpauses
          · obtain ⟨r', rfl, hcourse⟩ := ih (by omega) (by omega) hrest
            have hsilent : opAnswers (t₁ ++ t₃) = [] := by
              rw [opAnswers_append, opAnswers_jitteredDelay hjitter, (opAnswers_pause hpause).1]
              rfl
            rw [hnext] at hcourse
            refine ⟨r', rfl, ?_⟩
            rw [← List.append_assoc]
            exact .again hclassify (by omega) hsilent hcourse
          · cases (opAnswers_pause hpause).2

/-! ## The first outcome that ends the loop -/

/-- The operation returns these outcomes, the first of them as number `first`. -/
def Answered (outcomes : ℕ → Except E T) (first : ℕ) (t : RetryTrace E T) : Prop :=
  opAnswers t = (List.range' first (opAnswers t).length).map outcomes

/-- The outcome number `k` is a success, an error that is terminal, or the last one permitted. -/
def EndsAt (classify : ℕ → E → Bool) (limit : ℕ) (outcomes : ℕ → Except E T) (k : ℕ) : Prop :=
  match outcomes k with
  | .ok _ => True
  | .error e => classify (k - 1) e = false ∨ k = limit

/-- What is returned for the outcome number `n`. -/
def Returns (classify : ℕ → E → Bool) (outcomes : ℕ → Except E T) (n : ℕ)
    (r : Except (ResilienceError E) T) : Prop :=
  match outcomes n with
  | .ok v => r = .ok v
  | .error e =>
    if classify (n - 1) e then
      ∃ attempts : UInt32, attempts.toNat = n ∧ r = .error (.exhausted attempts e)
    else r = .error (.terminal e)

variable {outcomes : ℕ → Except E T} {first : ℕ}

theorem answered_op {outcome : Except E T} {t : RetryTrace E T} :
    Answered outcomes first (⟨.op, outcome⟩ :: t) ↔
      outcome = outcomes first ∧ Answered outcomes (first + 1) t := by
  rw [Answered, opAnswers_op, List.length_cons, List.range'_succ, List.map_cons, List.cons.injEq]
  exact Iff.rfl

theorem answered_append {t t' : RetryTrace E T} (h : opAnswers t = []) :
    Answered outcomes first (t ++ t') ↔ Answered outcomes first t' := by
  rw [Answered, opAnswers_append, h, List.nil_append]
  exact Iff.rfl

/-- Every sequence of outcomes can come. -/
theorem exists_answered {α : Type} (p : RetryProg E T α) (outcomes : ℕ → Except E T) (first : ℕ) :
    ∃ t a, p.Runs t a ∧ Answered outcomes first t := by
  induction p generalizing first with
  | ret a => exact ⟨[], a, ⟨rfl, rfl⟩, rfl⟩
  | ask e k ih =>
    cases e with
    | op =>
      obtain ⟨t, a, hrun, ht⟩ := ih (outcomes first) (first + 1)
      exact ⟨_, a, .ask hrun, answered_op.2 ⟨rfl, ht⟩⟩
    | genRange ceiling =>
      obtain ⟨t, a, hrun, ht⟩ := ih ⟨ceiling, UInt64.le_refl ceiling⟩ first
      exact ⟨_, a, .ask hrun, ht⟩
    | sleep delay =>
      obtain ⟨t, a, hrun, ht⟩ := ih () first
      exact ⟨_, a, .ask hrun, ht⟩

theorem RetryCourse.ends {limit attempt : ℕ} {t : RetryTrace E T}
    {r : Except (ResilienceError E) T} (h : RetryCourse classify limit attempt t r)
    (ht : Answered outcomes (attempt + 1) t) :
    ∃ n, n = attempt + (opAnswers t).length ∧ attempt < n ∧ EndsAt classify limit outcomes n ∧
      (∀ k, attempt < k → k < n → ¬ EndsAt classify limit outcomes k) ∧
      Returns classify outcomes n r := by
  induction h with
  | @returned attempt v =>
    obtain ⟨houtcome, -⟩ := answered_op.1 ht
    refine ⟨attempt + 1, rfl, by omega, ?_, by omega, ?_⟩
    · rw [EndsAt, ← houtcome]
      trivial
    · rw [Returns, ← houtcome]
  | @terminal attempt e hclassify =>
    obtain ⟨houtcome, -⟩ := answered_op.1 ht
    refine ⟨attempt + 1, rfl, by omega, ?_, by omega, ?_⟩
    · rw [EndsAt, ← houtcome]
      exact .inl hclassify
    · rw [Returns, ← houtcome]
      simp [hclassify]
  | @exhausted attempt e count hclassify hlimit hcount =>
    obtain ⟨houtcome, -⟩ := answered_op.1 ht
    refine ⟨attempt + 1, rfl, by omega, ?_, by omega, ?_⟩
    · rw [EndsAt, ← houtcome]
      exact .inr hlimit
    · rw [Returns, ← houtcome]
      simp only [Nat.add_sub_cancel, hclassify, if_true]
      exact ⟨count, hcount.trans hlimit.symm, rfl⟩
  | @again attempt e t t' r hclassify hlimit hpause hrest ih =>
    obtain ⟨houtcome, htail⟩ := answered_op.1 ht
    obtain ⟨n, rfl, hlt, hends, hearlier, hreturns⟩ := ih ((answered_append hpause).1 htail)
    refine ⟨_, ?_, by omega, hends, fun k hk hkn => ?_, hreturns⟩
    · rw [opAnswers_op, opAnswers_append, hpause, List.nil_append, List.length_cons]
      omega
    · rcases Nat.lt_or_ge (attempt + 1) k with hlater | hfirst
      · exact hearlier k hlater hkn
      · obtain rfl : k = attempt + 1 := by omega
        rw [EndsAt, ← houtcome]
        simp [hclassify, hlimit.ne]

/-- All outcomes before the last are errors that are not terminal. -/
theorem RetryCourse.classified {limit attempt : ℕ} {t : RetryTrace E T}
    {r : Except (ResilienceError E) T} (h : RetryCourse classify limit attempt t r) :
    ∀ outcome ∈ (opAnswers t).dropLast, ∃ e k, outcome = .error e ∧ classify k e = true := by
  induction h with
  | @again attempt e t t' r hclassify hlimit hpause hrest ih =>
    intro outcome hmem
    rw [opAnswers_op, opAnswers_append, hpause, List.nil_append] at hmem
    cases hnext : opAnswers t' with
    | nil =>
      rw [hnext] at hmem
      cases hmem
    | cons outcome' outcomes' =>
      rw [hnext, List.dropLast_cons_cons, ← hnext] at hmem
      rcases List.mem_cons.1 hmem with rfl | hmem
      · exact ⟨e, attempt, rfl, hclassify⟩
      · exact ih outcome hmem
  | _ => simp

theorem toNat_attemptLimit (policy : RetryPolicy) :
    policy.attemptLimit.toNat = max policy.maxAttempts.toNat 1 := by
  unfold RetryPolicy.attemptLimit
  split_ifs with h
  · have hzero : policy.maxAttempts.toNat < 1 := h
    exact (max_eq_right hzero.le).symm
  · have hone : 1 ≤ policy.maxAttempts.toNat := UInt32.not_lt.1 h
    exact (max_eq_left hone).symm

theorem course_of_runs_retry {t : RetryTrace E T} {r : Except Halt (Except (ResilienceError E) T)}
    (h : (retry build policy classify).run.Runs t r) :
    ∃ r', r = .ok r' ∧ RetryCourse classify (max policy.maxAttempts.toNat 1) 0 t r' := by
  have hpos : (0 : UInt32).toNat < policy.attemptLimit.toNat := by
    rw [toNat_attemptLimit]
    exact lt_max_of_lt_right Nat.one_pos
  rw [← toNat_attemptLimit]
  exact course_of_runs_attempts hpos (by omega) h

/-- The run ends with the first outcome that ends the loop. -/
theorem ends_of_runs_retry {t : RetryTrace E T} {r : Except Halt (Except (ResilienceError E) T)}
    (h : (retry build policy classify).run.Runs t r) (ht : Answered outcomes 1 t) :
    IsLeast { k | 1 ≤ k ∧ EndsAt classify (max policy.maxAttempts.toNat 1) outcomes k }
        (opAnswers t).length ∧
      ∃ r', r = .ok r' ∧ Returns classify outcomes (opAnswers t).length r' := by
  obtain ⟨r', rfl, hcourse⟩ := course_of_runs_retry h
  obtain ⟨n, hn, hlt, hends, hearlier, hreturns⟩ := hcourse.ends ht
  rw [Nat.zero_add] at hn
  subst hn
  refine ⟨⟨⟨hlt, hends⟩, fun k hk => ?_⟩, r', rfl, hreturns⟩
  by_contra! hkn
  exact hearlier k hk.1 hkn hk.2

end Runs

/-- **The retry loop on every sequence of outcomes**: it invokes the operation up to the first
outcome that ends it and returns that one, and no run stops for an overflow. A transaction is
executed again only after serialization failures. -/
theorem retry_exact (build : Build) (policy : RetryPolicy) :
    (∀ (E T : Type) (classify : ℕ → E → Bool) (outcomes : ℕ → Except E T),
      ∃ n, IsLeast { k | 1 ≤ k ∧ EndsAt classify (max policy.maxAttempts.toNat 1) outcomes k } n ∧
        (∃ t r, (retry build policy classify).run.Runs t r ∧ Answered outcomes 1 t) ∧
        ∀ t r, (retry build policy classify).run.Runs t r → Answered outcomes 1 t →
          (opAnswers t).length = n ∧ ∃ r', r = .ok r' ∧ Returns classify outcomes n r') ∧
    ∀ (T : Type) t r, (crdbRetryWithPolicy (T := T) build policy).run.Runs t r →
      ∀ outcome ∈ (opAnswers t).dropLast, ∃ e, outcome = .error e ∧ e.sqlstate = "40001" := by
  constructor
  · intro E T classify outcomes
    obtain ⟨t, r, hrun, ht⟩ := exists_answered (retry build policy classify).run outcomes 1
    obtain ⟨hleast, -⟩ := ends_of_runs_retry hrun ht
    refine ⟨_, hleast, ⟨t, r, hrun, ht⟩, fun t' r' hrun' ht' => ?_⟩
    obtain ⟨hleast', hreturns⟩ := ends_of_runs_retry hrun' ht'
    rw [hleast'.unique hleast] at hreturns
    exact ⟨hleast'.unique hleast, hreturns⟩
  · intro T t r hrun outcome hmem
    obtain ⟨r', -, hcourse⟩ := course_of_runs_retry hrun
    obtain ⟨e, k, rfl, hclassify⟩ := hcourse.classified outcome hmem
    exact ⟨e, rfl, beq_iff_eq.1 hclassify⟩

end Resilience.Rust
