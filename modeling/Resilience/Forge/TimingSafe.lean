import Resilience.Forge.Webhook
import Resilience.Foundations.Numbers

/-!
# The comparison of signatures, operator by operator

`timingSafeEqual` of `forge-core/src/webhook.js` with the numbers of JavaScript: an index modulo the
length of an empty string is `NaN`, and the bitwise operators see 32 bits of a number. The
comparison of the handler agrees with it (`timingSafeEqual_eq`).
-/

namespace Resilience.Forge.Operators

open Json

def length (s : Units) : Number := .ofNat s.length

/-- The code unit at an integer, or `NaN`. -/
def unitAt (s : Units) (i : ℤ) : Number :=
  if i < 0 then .nan
  else match s[i.toNat]? with
    | some c => .ofNat c.val
    | none => .nan

/-- `s.charCodeAt(pos)`, which takes `NaN` for zero. -/
def charCodeAt (s : Units) : Number → Number
  | .finite q => unitAt s (Number.truncate q)
  | .nan => unitAt s 0
  | .posInf | .negInf => .nan

/-- `i % s.length || 0`. -/
def index (s : Units) (i : ℕ) : Number := ((Number.ofNat i).rem (length s)).orElse (.ofNat 0)

/-- An iteration of the loop. -/
def accumulate (a b : Units) (mismatch : Number) (i : ℕ) : Number :=
  mismatch.bitOr ((charCodeAt a (index a i)).bitXor (charCodeAt b (index b i)))

def mismatch (a b : Units) : Number :=
  (List.range (max a.length b.length)).foldl (accumulate a b) ((length a).bitXor (length b))

def timingSafeEqual : Value → Value → Bool
  | .string a, .string b => decide (mismatch a b = .ofNat 0)
  | _, _ => false

/-! ## Its value -/

@[simp] theorem index_nil (i : ℕ) : index [] i = .ofNat 0 := by
  simp [index, length]

theorem index_eq {s : Units} (hs : s ≠ []) (i : ℕ) : index s i = .ofNat (i % s.length) := by
  have hlength : s.length ≠ 0 := mt List.length_eq_zero_iff.1 hs
  rw [index, length, Number.rem_ofNat hlength, Number.orElse_zero]

theorem charCodeAt_ofNat (s : Units) (i : ℕ) : charCodeAt s (.ofNat i) = unitAt s i :=
  congrArg (unitAt s) (Number.truncate_natCast i)

/-- An operand of `^` in the loop. -/
theorem toInt32_charCodeAt (s : Units) (i : ℕ) :
    (charCodeAt s (index s i)).toInt32 = Forge.charCodeAt s i := by
  cases s with
  | nil =>
    rw [index_nil, charCodeAt_ofNat]
    rfl
  | cons c cs =>
    have hlt : i % (c :: cs).length < (c :: cs).length := Nat.mod_lt _ (by simp)
    rw [index_eq (List.cons_ne_nil c cs), charCodeAt_ofNat, unitAt, if_neg (by omega),
      Int.toNat_natCast, Forge.charCodeAt, List.getElem?_eq_getElem hlt]
    exact Number.toInt32_ofNat _

/-- The result of a bitwise operator is determined by its bits. -/
theorem foldl_accumulate (a b : Units) (l : List ℕ) (v : BitVec 32) :
    l.foldl (accumulate a b) (.ofInt32 v) = .ofInt32 (l.foldl
      (fun mismatch i => mismatch ||| (Forge.charCodeAt a i ^^^ Forge.charCodeAt b i)) v) := by
  induction l generalizing v with
  | nil => rfl
  | cons i l ih =>
    have hstep : accumulate a b (.ofInt32 v) i =
        .ofInt32 (v ||| (Forge.charCodeAt a i ^^^ Forge.charCodeAt b i)) := by
      rw [accumulate, Number.bitOr, Number.toInt32_ofInt32, Number.toInt32_bitXor,
        toInt32_charCodeAt, toInt32_charCodeAt]
    rw [List.foldl_cons, List.foldl_cons, hstep, ih]

theorem mismatch_eq (a b : Units) : mismatch a b = .ofInt32 (Forge.mismatch a b) := by
  rw [mismatch, Number.bitXor, length, length, Number.toInt32_ofNat, Number.toInt32_ofNat,
    foldl_accumulate, Forge.mismatch]

/-- The comparison of the handler. -/
theorem timingSafeEqual_eq (a b : Value) : timingSafeEqual a b = Forge.timingSafeEqual a b := by
  cases a with
  | string a =>
    cases b with
    | string b =>
      rw [Bool.eq_iff_iff, timingSafeEqual_string, timingSafeEqual, decide_eq_true_iff,
        mismatch_eq, Number.ofInt32_eq_zero_iff]
    | other truthy text => rfl
  | other truthy text => rfl

/-- **The comparison accepts equal strings only, and all of them.** -/
theorem timingSafeEqual_eq_true_iff {a b : Units} (ha : a.length < 2 ^ 32)
    (hb : b.length < 2 ^ 32) : timingSafeEqual (.string a) (.string b) = true ↔ a = b := by
  rw [timingSafeEqual_eq, timingSafeEqual_iff ha hb]

theorem timingSafeEqual_nil :
    timingSafeEqual (.string []) (.string (utf16 "sig")) = true ↔ [] = utf16 "sig" :=
  timingSafeEqual_eq_true_iff (by decide) (by decide)

end Resilience.Forge.Operators
