import Mathlib.Algebra.Order.Floor.Defs
import Mathlib.Data.Rat.Floor

/-!
# Numbers with infinities

The numbers of JavaScript, and the floats of Python, with exact arithmetic on those that are finite
and a single zero. Comparisons with `nan` are false.
-/

namespace Resilience

inductive Number
  | finite (q : ℚ)
  | posInf
  | negInf
  | nan
  deriving DecidableEq

namespace Number

/-- `a < b`. -/
def lt : Number → Number → Bool
  | .finite a, .finite b => a < b
  | .finite _, .posInf | .negInf, .finite _ | .negInf, .posInf => true
  | _, _ => false

/-- `a <= b`. -/
def le : Number → Number → Bool
  | .finite a, .finite b => a ≤ b
  | .finite _, .posInf | .negInf, .finite _ | .negInf, .posInf => true
  | .posInf, .posInf | .negInf, .negInf => true
  | _, _ => false

/-- `Math.min(a, b)`. -/
def min (a b : Number) : Number :=
  if a = .nan ∨ b = .nan then .nan else if b.lt a then b else a

/-- `a + b`. -/
def add : Number → Number → Number
  | .finite a, .finite b => .finite (a + b)
  | .nan, _ | _, .nan | .posInf, .negInf | .negInf, .posInf => .nan
  | .posInf, _ | _, .posInf => .posInf
  | .negInf, _ | _, .negInf => .negInf

def sign : Number → ℤ
  | .finite q => q.num.sign
  | .posInf => 1
  | .negInf => -1
  | .nan => 0

/-- `a * b`. -/
def mul : Number → Number → Number
  | .finite a, .finite b => .finite (a * b)
  | a, b =>
    let s := a.sign * b.sign
    if 0 < s then .posInf else if s < 0 then .negInf else .nan

/-- `Math.floor(a)`. -/
def floor : Number → Number
  | .finite q => .finite ⌊q⌋
  | a => a

/-! ## Remainders and bits -/

/-- The integer part, towards zero. -/
def truncate (q : ℚ) : ℤ := if 0 ≤ q then ⌊q⌋ else ⌈q⌉

/-- `a % b`. -/
def rem : Number → Number → Number
  | .finite a, .finite b => if b = 0 then .nan else .finite (a - b * truncate (a / b))
  | .finite a, .posInf | .finite a, .negInf => .finite a
  | _, _ => .nan

/-- `a || b`. -/
def orElse (a b : Number) : Number := if a = .nan ∨ a = .finite 0 then b else a

/-- What a bitwise operator takes of a number. -/
def toInt32 : Number → BitVec 32
  | .finite q => .ofInt 32 (truncate q)
  | .posInf | .negInf | .nan => 0#32

/-- What a bitwise operator makes of its result. -/
def ofInt32 (v : BitVec 32) : Number := .finite v.toInt

/-- `a ^ b`. -/
def bitXor (a b : Number) : Number := ofInt32 (a.toInt32 ^^^ b.toInt32)

/-- `a | b`. -/
def bitOr (a b : Number) : Number := ofInt32 (a.toInt32 ||| b.toInt32)

/-- A number that counts. -/
def ofNat (n : ℕ) : Number := .finite n

@[simp] theorem truncate_intCast (i : ℤ) : truncate i = i := by
  simp [truncate]

@[simp] theorem truncate_natCast (n : ℕ) : truncate n = n := truncate_intCast n

theorem truncate_natCast_div (m n : ℕ) : truncate (m / n) = (m / n : ℕ) := by
  have hnonneg : (0 : ℚ) ≤ m / n := by positivity
  rw [truncate, if_pos hnonneg, Rat.floor_natCast_div_natCast, Int.natCast_ediv]

theorem rem_ofNat {m n : ℕ} (hn : n ≠ 0) : rem (ofNat m) (ofNat n) = ofNat (m % n) := by
  have hdiv : (m : ℚ) = n * (m / n : ℕ) + (m % n : ℕ) := by
    exact_mod_cast (Nat.div_add_mod m n).symm
  have hne : (n : ℚ) ≠ 0 := by exact_mod_cast hn
  simp only [rem, ofNat, if_neg hne, truncate_natCast_div, Int.cast_natCast]
  rw [hdiv]
  simp

@[simp] theorem rem_zero (m : ℕ) : rem (ofNat m) (ofNat 0) = .nan := by
  simp [rem, ofNat]

@[simp] theorem orElse_nan (b : Number) : orElse .nan b = b := by
  simp [orElse]

/-- With zero for the other number, zero is not told apart. -/
@[simp] theorem orElse_zero (n : ℕ) : orElse (ofNat n) (ofNat 0) = ofNat n := by
  by_cases hn : n = 0 <;> simp [orElse, ofNat, hn]

@[simp] theorem toInt32_ofNat (n : ℕ) : toInt32 (ofNat n) = BitVec.ofNat 32 n := by
  simp [toInt32, ofNat]

@[simp] theorem toInt32_nan : toInt32 .nan = 0#32 := rfl

@[simp] theorem toInt32_ofInt32 (v : BitVec 32) : toInt32 (ofInt32 v) = v := by
  simp [toInt32, ofInt32]

theorem ofInt32_injective : Function.Injective ofInt32 :=
  Function.LeftInverse.injective toInt32_ofInt32

@[simp] theorem toInt32_bitXor (a b : Number) :
    (bitXor a b).toInt32 = a.toInt32 ^^^ b.toInt32 := toInt32_ofInt32 _

theorem ofInt32_eq_zero_iff {v : BitVec 32} : ofInt32 v = ofNat 0 ↔ v = 0#32 := by
  have hzero : ofNat 0 = ofInt32 0#32 := by simp [ofNat, ofInt32]
  rw [hzero, ofInt32_injective.eq_iff]

end Number

end Resilience
