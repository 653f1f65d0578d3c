import Resilience.Foundations.Json.Escape
import Resilience.Foundations.Regex

/-!
# Identifiers in a query

`validate_identifier` of `scope_core/athena.py`. A string is a list of code points, and `$` also
matches before a line break at its end. The function accepts its grammar (`IsIdentifier`) and, for
that reason, identifiers with a line break after them (`acceptsExactly_iff`).
-/

namespace Resilience.Scope

open Json Regex

/-! ## `_IDENTIFIER_RE` -/

/-- `[A-Za-z_]`. -/
def isNameStart (c : CodePoint) : Bool :=
  (0x41 ≤ c.val && c.val ≤ 0x5A) || (0x61 ≤ c.val && c.val ≤ 0x7A) || c.val == 0x5F

/-- `[A-Za-z0-9_]`. -/
def isNamePart (c : CodePoint) : Bool := isNameStart c || (0x30 ≤ c.val && c.val ≤ 0x39)

/-- `\.`. -/
def isDot (c : CodePoint) : Bool := c.val == 0x2E

def isNewline (c : CodePoint) : Bool := c.val == 0x0A

/-- `[A-Za-z_][A-Za-z0-9_]*`. -/
def nameRe : Regex CodePoint := (char isNameStart).seq (char isNamePart).star

/-- `[A-Za-z_][A-Za-z0-9_]*(\.[A-Za-z_][A-Za-z0-9_]*)*`. -/
def dottedRe : Regex CodePoint := nameRe.seq ((char isDot).seq nameRe).star

/-- `^[A-Za-z_][A-Za-z0-9_]*(\.[A-Za-z_][A-Za-z0-9_]*)*$`. -/
def identifierRe : Regex CodePoint := caret.seq (dottedRe.seq (dollar isNewline))

/-! ## `validate_identifier` -/

section Validate

variable {Exn : Type}

/-- A Python value: the characters of a string, and its `repr`, which may raise. -/
inductive PyValue (Exn : Type)
  | str (text : Str) (repr : Except Exn Str)
  | other (repr : Except Exn Str)

def PyValue.repr : PyValue Exn → Except Exn Str
  | .str _ repr => repr
  | .other repr => repr

inductive Raised (Exn : Type)
  | identifierError (message : Str)
  | other (e : Exn)

def PyValue.matchesIdentifier : PyValue Exn → Bool
  | .str text _ => identifierRe.isMatch text
  | .other _ => false

def validateIdentifier (value : PyValue Exn) (field : Str) :
    Except (Raised Exn) (PyValue Exn) :=
  if !value.matchesIdentifier then
    match value.repr with
    | .ok repr =>
      .error (.identifierError (codePoints "Invalid " ++ field ++ codePoints ": " ++ repr))
    | .error e => .error (.other e)
  else .ok value

/-! ## The grammar -/

/-- An ASCII letter or underscore, and any number of ASCII letters, digits and underscores. -/
def IsName (w : Str) : Prop :=
  ∃ c cs, w = c :: cs ∧ isNameStart c = true ∧ ∀ d ∈ cs, isNamePart d = true

/-- Names separated by single dots. -/
def IsIdentifier (w : Str) : Prop :=
  ∃ names ≠ [], (∀ name ∈ names, IsName name) ∧ w = (codePoints ".").intercalate names

def PyValue.IsIdentifier : PyValue Exn → Prop
  | .str text _ => Scope.IsIdentifier text
  | .other _ => False

/-- An identifier and a line break. -/
def PyValue.IsIdentifierLine : PyValue Exn → Prop
  | .str text _ => ∃ w, Scope.IsIdentifier w ∧ text = w ++ codePoints "\n"
  | .other _ => False

/-- The identifiers are returned unchanged, and every other value raises `IdentifierError`. -/
structure AcceptsExactly (value : PyValue Exn) (field : Str) : Prop where
  accepts : validateIdentifier value field = .ok value ↔ value.IsIdentifier
  rejects : ¬ value.IsIdentifier →
    ∃ message, validateIdentifier value field = .error (.identifierError message)

end Validate

/-! ## Words of the expression -/

theorem reads_nameRe : nameRe.Reads {w | IsName w} := by
  apply ((reads_char isNameStart).seq (reads_char isNamePart).star).congr
  intro w
  rw [Language.mem_mul]
  constructor
  · rintro ⟨_, ⟨c, hc, rfl⟩, cs, hcs, rfl⟩
    exact ⟨c, cs, rfl, hc, mem_kstar_letters.1 hcs⟩
  · rintro ⟨c, cs, rfl, hc, hcs⟩
    exact ⟨[c], ⟨c, hc, rfl⟩, cs, mem_kstar_letters.2 hcs, rfl⟩

theorem letters_isDot : letters isDot = {codePoints "."} := by
  ext w
  constructor
  · rintro ⟨c, hc, rfl⟩
    have hval : c = ⟨'.'.toNat, Json.toNat_lt '.'⟩ := Fin.ext (beq_iff_eq.1 hc)
    rw [hval]
    rfl
  · rintro rfl
    exact ⟨_, rfl, rfl⟩

theorem reads_dottedRe : dottedRe.Reads {w | IsIdentifier w} := by
  have hdot : (char isDot).Reads {codePoints "."} := letters_isDot ▸ reads_char isDot
  exact (reads_nameRe.seq (hdot.seq reads_nameRe).star).congr fun w => mem_separated

theorem isMatch_identifierRe {s : Str} : identifierRe.isMatch s = true ↔
    IsIdentifier s ∨ ∃ w, IsIdentifier w ∧ s = w ++ codePoints "\n" := by
  rw [identifierRe, reads_dottedRe.isMatch_anchored]
  apply or_congr_right
  constructor
  · rintro ⟨w, hw, c, rfl, hc⟩
    have hval : c = ⟨'\n'.toNat, Json.toNat_lt '\n'⟩ := Fin.ext (beq_iff_eq.1 hc)
    exact ⟨w, hw, by rw [hval]; rfl⟩
  · rintro ⟨w, hw, rfl⟩
    exact ⟨w, hw, _, rfl, rfl⟩

theorem isNewline_of_isNamePart {c : CodePoint} (h : isNamePart c = true) :
    isNewline c = false := by
  simp only [isNamePart, isNameStart, Bool.or_eq_true, Bool.and_eq_true, decide_eq_true_iff,
    beq_iff_eq] at h
  rw [isNewline, beq_eq_false_iff_ne]
  omega

theorem IsName.isNewline {w : Str} (h : IsName w) : ∀ c ∈ w, isNewline c = false := by
  obtain ⟨c, cs, rfl, hc, hcs⟩ := h
  intro d hd
  apply isNewline_of_isNamePart
  obtain rfl | hd := List.mem_cons.1 hd
  · rw [isNamePart, hc, Bool.true_or]
  · exact hcs d hd

/-- No identifier contains a line break. -/
theorem IsIdentifier.isNewline {w : Str} (h : IsIdentifier w) : ∀ c ∈ w, isNewline c = false := by
  obtain ⟨names, -, hnames, rfl⟩ := h
  apply forall_mem_intercalate
  · intro c hc
    rw [List.mem_singleton.1 hc]
    rfl
  · exact fun name hname => (hnames name hname).isNewline

theorem not_isIdentifier_line (w : Str) : ¬ IsIdentifier (w ++ codePoints "\n") := by
  intro h
  have hnewline := h.isNewline _ (List.mem_append_right w (List.mem_singleton_self _))
  exact absurd hnewline (by decide)

/-! ## What is accepted -/

variable {Exn : Type} {value : PyValue Exn}

theorem matchesIdentifier_iff :
    value.matchesIdentifier = true ↔ value.IsIdentifier ∨ value.IsIdentifierLine := by
  cases value with
  | str text repr => exact isMatch_identifierRe
  | other repr => simp [PyValue.matchesIdentifier, PyValue.IsIdentifier, PyValue.IsIdentifierLine]

theorem PyValue.IsIdentifierLine.not_isIdentifier (h : value.IsIdentifierLine) :
    ¬ value.IsIdentifier := by
  cases value with
  | str text repr =>
    obtain ⟨w, -, rfl⟩ := h
    exact not_isIdentifier_line w
  | other repr => exact h.elim

theorem validateIdentifier_of_matches (h : value.matchesIdentifier = true) (field : Str) :
    validateIdentifier value field = .ok value := by
  simp [validateIdentifier, h]

/-- A value that does not match raises, though not always an `IdentifierError`. -/
theorem validateIdentifier_of_not_matches (h : value.matchesIdentifier = false) (field : Str) :
    validateIdentifier value field ≠ .ok value ∧
      ((∃ message, validateIdentifier value field = .error (.identifierError message)) ↔
        ∃ repr, value.repr = .ok repr) := by
  cases hrepr : value.repr <;> simp [validateIdentifier, h, hrepr]

/-- **The validator accepts exactly its grammar, but for identifiers with a line break after them
and values without a `repr`.** -/
theorem acceptsExactly_iff (value : PyValue Exn) (field : Str) : AcceptsExactly value field ↔
    ¬ value.IsIdentifierLine ∧ (value.IsIdentifier ∨ ∃ repr, value.repr = .ok repr) := by
  cases hmatches : value.matchesIdentifier with
  | true =>
    have hok := validateIdentifier_of_matches hmatches field
    obtain hident | hline := matchesIdentifier_iff.1 hmatches
    · have hline : ¬ value.IsIdentifierLine := fun h => h.not_isIdentifier hident
      simp only [hline, hident, not_false_iff, true_or, and_self, iff_true]
      exact ⟨iff_of_true hok hident, fun h => absurd hident h⟩
    · simp only [hline, not_true, false_and, iff_false]
      exact fun h => hline.not_isIdentifier (h.accepts.1 hok)
  | false =>
    obtain ⟨hident, hline⟩ : ¬ value.IsIdentifier ∧ ¬ value.IsIdentifierLine := by
      rw [← not_or, ← matchesIdentifier_iff, hmatches]
      decide
    obtain ⟨hne, hraises⟩ := validateIdentifier_of_not_matches hmatches field
    simp only [hline, hident, not_false_iff, true_and, false_or]
    rw [← hraises]
    exact ⟨fun h => h.rejects hident, fun h => ⟨iff_of_false hne hident, fun _ => h⟩⟩

/-- A line break that ends a table's name goes unnoticed. -/
theorem not_acceptsExactly_line : ¬ AcceptsExactly
    (.str (codePoints "abc\n") (.ok (codePoints "'abc\\n'")) : PyValue String)
    (codePoints "identifier") := by
  intro h
  exact not_isIdentifier_line (codePoints "abc") (h.accepts.1 rfl)

end Resilience.Scope
