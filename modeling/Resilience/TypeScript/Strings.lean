import Resilience.Foundations.Json.Escape

/-!
# JavaScript strings

Strings are sequences of UTF-16 code units.
-/

namespace Resilience.TypeScript

open Json

/-- What `trim` removes. -/
def isSpace (c : ℕ) : Bool :=
  (0x09 ≤ c && c ≤ 0x0D) || c == 0x20 || c == 0xA0 || c == 0x1680 || (0x2000 ≤ c && c ≤ 0x200A) ||
    c == 0x2028 || c == 0x2029 || c == 0x202F || c == 0x205F || c == 0x3000 || c == 0xFEFF

/-- A unit that `trim` removes, and that `\s` matches. -/
def isSpaceUnit (c : Fin 0x10000) : Bool := isSpace c.val

/-- `s.trim()`. -/
def trimmed (s : Units) : Units := trim isSpaceUnit s

/-- What `.` does not match. -/
def isLineTerminator (c : Fin 0x10000) : Bool :=
  c.val == 0x0A || c.val == 0x0D || c.val == 0x2028 || c.val == 0x2029

end Resilience.TypeScript
