import Resilience.Foundations.Json.Escape
import Mathlib.Data.Nat.Digits.Lemmas

/-!
# JSON numbers

How numbers are written and read (`Numerals`), and the codecs that numerals make with strings of
UTF-16 code units: `asciiCodec`, which escapes all but the printable ASCII characters, and
`unitsCodec`, which escapes what it has to.

Decimal notation of integers is an instance: `printInt` writes one, without leading zeros, and
`readInt` reads what JSON allows for an integer.
-/

namespace Resilience.Json

/-! ## Numerals -/

structure Numerals (ν : Type) where
  print : ν → Text
  read : Text → Option ν

/-- Numbers are written in printable characters, and `n` is read as `norm n`, where `none` is for
`null`. -/
structure Numerals.Lawful {ν : Type} (N : Numerals ν) (norm : ν → Option ν) : Prop where
  readAtom_print : ∀ n, readAtom N.read (N.print n) = some ((norm n).elim .null .num : Json Units ν)
  print_ne_nil : ∀ n, N.print n ≠ []
  isAtomChar_print : ∀ n, ∀ c ∈ N.print n, isAtomChar c = true
  printable : ∀ n, ∀ c ∈ N.print n, 0x20 ≤ c ∧ c ≤ 0x7E

/-- What is read for a number is written like it. -/
def Numerals.Reprints {ν : Type} (N : Numerals ν) (norm : ν → Option ν) : Prop :=
  ∀ n, (norm n).elim (ascii "null") N.print = N.print n

namespace Numerals

variable {ν : Type} (N : Numerals ν)

def asciiCodec : Codec Units ν := ⟨quoteAscii, N.print⟩

def unitsCodec : Codec Units ν := ⟨quoteUnits, N.print⟩

def reader : Reader Units ν := ⟨unquote, N.read⟩

variable {N} {norm : ν → Option ν}

theorem Lawful.asciiCodec (h : N.Lawful norm) :
    Json.Lawful N.asciiCodec N.reader fun n => (norm n).elim .null .num where
  unquote_quote := unquote_quoteAscii
  readAtom_print := h.readAtom_print
  print_ne_nil := h.print_ne_nil
  isAtomChar_print := h.isAtomChar_print

theorem Lawful.unitsCodec (h : N.Lawful norm) :
    Json.Lawful N.unitsCodec N.reader fun n => (norm n).elim .null .num where
  unquote_quote := unquote_quoteUnits
  readAtom_print := h.readAtom_print
  print_ne_nil := h.print_ne_nil
  isAtomChar_print := h.isAtomChar_print

/-- With all else escaped, a text is printable ASCII. -/
theorem Lawful.printable_asciiCodec (h : N.Lawful norm) (spaced : Bool) (v : Json Units ν) :
    ∀ c ∈ render N.asciiCodec spaced v, 0x20 ≤ c ∧ c ≤ 0x7E :=
  forall_mem_render (fun _ _ => mem_quoteAscii) h.printable (by cases spaced <;> decide) v

theorem Lawful.wellFormed_unitsCodec (h : N.Lawful norm) (spaced : Bool) (v : Json Units ν) :
    WellFormed (render N.unitsCodec spaced v) := by
  have hascii : ∀ t : Text, (∀ c ∈ t, 0x20 ≤ c ∧ c ≤ 0x7E) → WellFormed t :=
    fun t ht => wellFormed_of_lt fun c hc => by have := ht c hc; omega
  refine closed_render wellFormed_nil (fun _ _ => WellFormed.append) wellFormed_quoteUnits
    (fun n => hascii _ (h.printable n)) (fun c hc => hascii [c] fun c' hc' => ?_) v
  have hpunct : ∀ c ∈ syntaxChars spaced, 0x20 ≤ c ∧ c ≤ 0x7E := by cases spaced <;> decide
  exact List.mem_singleton.1 hc' ▸ hpunct c hc

end Numerals

/-! ## Integers -/

def printNat (n : ℕ) : Text :=
  if n = 0 then [0x30] else ((Nat.digits 10 n).map (0x30 + ·)).reverse

def printInt : ℤ → Text
  | .ofNat n => printNat n
  | .negSucc n => 0x2D :: printNat (n + 1)

def isDigit (c : ℕ) : Bool := 0x30 ≤ c && c ≤ 0x39

/-- The number that decimal digits stand for; there is at least one, and a leading zero stands
alone. -/
def readNat (t : Text) : Option ℕ :=
  if t.all isDigit && (t == [0x30] || t.head?.any (· != 0x30)) then
    some (Nat.ofDigits 10 (t.reverse.map (· - 0x30)))
  else none

def readInt : Text → Option ℤ
  | [] => none
  | c :: t => if c = 0x2D then (readNat t).map fun n => -(n : ℤ) else (readNat (c :: t)).map (↑)

theorem isDigit_iff {c : ℕ} : isDigit c = true ↔ 0x30 ≤ c ∧ c ≤ 0x39 := by
  rw [isDigit, Bool.and_eq_true, decide_eq_true_iff, decide_eq_true_iff]

theorem mem_printNat {n c : ℕ} (h : c ∈ printNat n) : isDigit c = true := by
  unfold printNat at h
  rw [isDigit_iff]
  split at h
  · rw [List.mem_singleton] at h
    omega
  · obtain ⟨d, hd, rfl⟩ := List.mem_map.1 (List.mem_reverse.1 h)
    have := Nat.digits_lt_base (by decide) hd
    omega

theorem printNat_ne_nil (n : ℕ) : printNat n ≠ [] := by
  unfold printNat
  split
  · simp
  · simpa [Nat.digits_eq_nil_iff_eq_zero] using ‹_›

theorem readNat_printNat (n : ℕ) : readNat (printNat n) = some n := by
  by_cases hn : n = 0
  · subst hn
    decide
  · have hall : (printNat n).all isDigit = true := List.all_eq_true.2 fun c => mem_printNat
    have hprint : printNat n = ((Nat.digits 10 n).map (0x30 + ·)).reverse := if_neg hn
    have hhead : (printNat n).head?.any (· != 0x30) = true := by
      have hne : Nat.digits 10 n ≠ [] := Nat.digits_ne_nil_iff_ne_zero.2 hn
      have hlast := Nat.getLast_digit_ne_zero 10 hn
      rw [hprint, List.head?_reverse, List.getLast?_map, List.getLast?_eq_some_getLast hne]
      simpa using hlast
    have hdigits : (printNat n).reverse.map (· - 0x30) = Nat.digits 10 n := by
      rw [hprint, List.reverse_reverse, List.map_map]
      refine (List.map_congr_left fun d _ => ?_).trans (List.map_id _)
      exact Nat.add_sub_cancel_left 0x30 d
    rw [readNat, hall, hhead, hdigits, Nat.ofDigits_digits]
    simp

theorem readInt_printInt (n : ℤ) : readInt (printInt n) = some n := by
  cases n with
  | ofNat n =>
    obtain ⟨c, t, hct⟩ := List.exists_cons_of_ne_nil (printNat_ne_nil n)
    have hc : c ≠ 0x2D := by
      rintro rfl
      have hmem : 0x2D ∈ printNat n := by simp [hct]
      exact absurd (mem_printNat hmem) (by decide)
    have hread := readNat_printNat n
    rw [hct] at hread
    rw [printInt, hct, readInt, if_neg hc, hread]
    rfl
  | negSucc n =>
    rw [printInt, readInt, if_pos rfl, readNat_printNat]
    rfl

/-- The characters of an integer: digits and the minus sign. -/
theorem mem_printInt {n : ℤ} {c : ℕ} (h : c ∈ printInt n) : c = 0x2D ∨ isDigit c = true := by
  cases n with
  | ofNat n => exact .inr (mem_printNat h)
  | negSucc n => exact (List.mem_cons.1 h).imp id mem_printNat

theorem isAtomChar_printInt {n : ℤ} {c : ℕ} (h : c ∈ printInt n) : isAtomChar c = true := by
  rcases mem_printInt h with rfl | h
  · decide
  · rw [isDigit_iff] at h
    have hcases : c = 0x30 ∨ c = 0x31 ∨ c = 0x32 ∨ c = 0x33 ∨ c = 0x34 ∨ c = 0x35 ∨ c = 0x36 ∨
        c = 0x37 ∨ c = 0x38 ∨ c = 0x39 := by omega
    rcases hcases with rfl | rfl | rfl | rfl | rfl | rfl | rfl | rfl | rfl | rfl <;> decide

theorem printInt_ne_nil (n : ℤ) : printInt n ≠ [] := by
  cases n with
  | ofNat n => exact printNat_ne_nil n
  | negSucc n => simp [printInt]

/-- An integer is not one of the literals. -/
theorem readAtom_printInt {σ : Type} (n : ℤ) :
    readAtom readInt (printInt n) = some (.num n : Json σ ℤ) := by
  have hne : ∀ s : Text, (∃ c ∈ s, c ≠ 0x2D ∧ isDigit c = false) → printInt n ≠ s := by
    rintro s ⟨c, hc, hc₁, hc₂⟩ rfl
    rcases mem_printInt hc with h | h
    · exact hc₁ h
    · rw [hc₂] at h
      exact absurd h (by decide)
  rw [readAtom, if_neg (hne _ (by decide)), if_neg (hne _ (by decide)), if_neg (hne _ (by decide)),
    readInt_printInt]
  rfl

namespace Numerals

theorem reprints_some {ν : Type} (N : Numerals ν) : N.Reprints some := fun _ => rfl

def integers : Numerals ℤ := ⟨printInt, readInt⟩

theorem lawful_integers : integers.Lawful some where
  readAtom_print := readAtom_printInt
  print_ne_nil := printInt_ne_nil
  isAtomChar_print _ _ := isAtomChar_printInt
  printable n c hc := by
    rcases mem_printInt hc with rfl | h
    · decide
    · rw [isDigit_iff] at h
      omega

end Numerals

end Resilience.Json
