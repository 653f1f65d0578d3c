import Mathlib.Data.Int.Basic
import Mathlib.Data.Int.Notation

/-!
# Arithmetic in an integer type

The machine keeps a number that its integer type holds. For the others it depends on the build: one
that checks stops, the other takes the number of the type that differs by a multiple of its size.
A conversion never stops. The strict build is for stating that every number is held: it stops at an
operation and at a conversion.
-/

namespace Resilience.Overflow

/-- An integer type, by its least and its greatest number. -/
structure IntType where
  least : ℤ
  greatest : ℤ

def i64 : IntType := ⟨-9223372036854775808, 9223372036854775807⟩

def u32 : IntType := ⟨0, 4294967295⟩

namespace IntType

def Holds (t : IntType) (n : ℤ) : Prop := t.least ≤ n ∧ n ≤ t.greatest

instance (t : IntType) (n : ℤ) : Decidable (t.Holds n) := inferInstanceAs (Decidable (_ ∧ _))

def checked (t : IntType) (n : ℤ) : Option ℤ := if t.Holds n then some n else none

def wrapped (t : IntType) (n : ℤ) : ℤ :=
  (n - t.least) % (t.greatest - t.least + 1) + t.least

theorem checked_eq {t : IntType} {n : ℤ} (h : t.Holds n) : t.checked n = some n := if_pos h

theorem wrapped_eq {t : IntType} {n : ℤ} (h : t.Holds n) : t.wrapped n = n := by
  obtain ⟨hleast, hgreatest⟩ := h
  rw [wrapped, Int.emod_eq_of_lt (by omega) (by omega)]
  omega

end IntType

inductive Build
  | debug
  | release
  | strict

namespace Build

/-- The result of an operation. -/
def op (build : Build) (t : IntType) (n : ℤ) : Option ℤ :=
  match build with
  | debug | strict => t.checked n
  | release => some (t.wrapped n)

/-- The result of a conversion. -/
def cast (build : Build) (t : IntType) (n : ℤ) : Option ℤ :=
  match build with
  | strict => t.checked n
  | debug | release => some (t.wrapped n)

variable {t : IntType} {n : ℤ}

theorem op_eq (build : Build) (h : t.Holds n) : build.op t n = some n := by
  cases build with
  | debug | strict => exact IntType.checked_eq h
  | release => exact congrArg some (IntType.wrapped_eq h)

theorem cast_eq (build : Build) (h : t.Holds n) : build.cast t n = some n := by
  cases build with
  | strict => exact IntType.checked_eq h
  | debug | release => exact congrArg some (IntType.wrapped_eq h)

end Build

end Resilience.Overflow
