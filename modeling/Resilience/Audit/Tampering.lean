import Resilience.Audit.Mixed

/-!
# Tampering with a ledger of several ports

A file whose lines verify, whichever ports wrote them, is replaced by any lines of well-formed
records that the ports sign alike, with no signature forged. Each port then finds the first line
that is not the one that was there (`tampering_located`).
-/

namespace Resilience

open Json

section Tampering

variable {ν F : Type} {S : Rust.SerdeJson ν F} {int : SafeInt → ν} {hmac : Hmac} {key : String}
  {honest lines : List (Bool × SignedRecord)}

/-- The content and the signatures of the lines. -/
def entries (S : Rust.SerdeJson ν F) (int : SafeInt → ν) (lines : List (Bool × SignedRecord)) :
    List (Entry (Rust.Value ν) String) :=
  lines.map fun l => l.2.entry S int

/-- A line that is rightly signed has the content of a line that was there. -/
def Unforged (S : Rust.SerdeJson ν F) (int : SafeInt → ν) (hmac : Hmac) (key : String)
    (honest lines : List (Bool × SignedRecord)) : Prop :=
  ∀ e ∈ entries S int lines, (Rust.scheme S hmac key).sign e.payload = e.tag →
    ∃ e₀ ∈ entries S int honest, e₀.payload = e.payload

/-- The walk stops after what is as it was. -/
theorem firstBroken_entries [DecidableEq ν]
    (hprint : Function.Injective fun v : Rust.Value ν => S.toString v.doc)
    (hideal : hmac.Ideal (utf8 key.toList))
    (hhonest : verdict hmac key S int honest = .ok honest.length)
    (hforge : Unforged S int hmac key honest lines) :
    (Rust.scheme S hmac key).firstBroken "" (entries S int lines) =
      if entries S int lines <+: entries S int honest then none
      else some (commonPrefix (entries S int honest) (entries S int lines)).length := by
  have hchained : (Rust.scheme S hmac key).Chained "" (entries S int honest) := by
    apply (counted_verdict_iff hmac key).1
    rw [hhonest]
    rfl
  have hinj := Rust.scheme_sign_injective hideal hprint
  exact Scheme.firstBroken_of_chained hinj (fun v => hideal.ne_empty _) hchained hforge

/-- **Tampering is located by all ports.** After a file that verifies is replaced by lines of which
none is forged, each port counts the lines if they are a prefix of what was there, and otherwise
reports the first one that is not as it was. -/
theorem tampering_located [DecidableEq ν] (S : Rust.SerdeJson ν F) (int : SafeInt → ν)
    (hS : S.Documented int)
    (hprint : Function.Injective fun v : Rust.Value ν => S.toString v.doc)
    (hideal : hmac.Ideal (utf8 key.toList))
    (hhonest : verdict hmac key S int honest = .ok honest.length)
    (hforge : Unforged S int hmac key honest lines) :
    ∃ v : Rust.VerifyResult,
      (entries S int lines <+: entries S int honest → v = .ok lines.length) ∧
      (¬ entries S int lines <+: entries S int honest → ∃ reason, v =
        .tampered (commonPrefix (entries S int honest) (entries S int lines)).length reason) ∧
      Rust.verifyLedgerUnder S hmac (some (fileBytes lines)) key = .ok v ∧
      Python.verifyLedger Numerals.integers hmac (some (fileText lines)) key = .ok v.python ∧
      TypeScript.verifyLedger Numerals.integers hmac (some (fileText lines)) key =
        .ok v.typescript := by
  have hverify := Rust.verifyRecords_eq S hmac key (lines.map fun l => l.2.rust int)
  have hentries : (lines.map fun l => l.2.rust int).map (·.entry S) = entries S int lines :=
    List.map_map ..
  rw [hentries, firstBroken_entries hprint hideal hhonest hforge, List.length_map] at hverify
  refine ⟨verdict hmac key S int lines, fun hprefix => ?_, fun hprefix => ?_,
    verify_rust hmac key hS rfl, verify_python hmac key hS rfl, verify_typescript hmac key hS rfl⟩
  · rwa [if_pos hprefix] at hverify
  · rwa [if_neg hprefix] at hverify

end Tampering

/-- The only line of a ledger, signed with `k`. -/
def sampleLine : Bool × SignedRecord :=
  (true, samplePortable.signed Rust.SerdeJson.integers Subtype.val (isAscii_lastSig [])
    ascii_sampleDigests)

theorem verdict_sampleLine : verdict (Hmac.ofTable sampleDigests) "k" Rust.SerdeJson.integers
    Subtype.val [sampleLine] = .ok 1 := by
  have hlink := Rust.payloadPrevSig_signingPayload Rust.SerdeJson.integers
    (sampleLine.2.rustRecord Subtype.val)
  exact Rust.verifyRecords_eq_ok_iff.2 ⟨rfl, hlink, rfl, trivial⟩

/-- The only line of a ledger is duplicated. -/
theorem tampering_located_duplicate : ∃ reason,
    Python.verifyLedger Numerals.integers (Hmac.ofTable sampleDigests)
      (some (fileText [sampleLine, sampleLine])) "k" = .ok (Python.tampered 1 reason) := by
  have hforge : Unforged Rust.SerdeJson.integers Subtype.val (Hmac.ofTable sampleDigests) "k"
      [sampleLine] [sampleLine, sampleLine] :=
    fun e he _ => ⟨e, by simpa [entries] using he, rfl⟩
  obtain ⟨v, -, htampered, -, hpython, -⟩ :=
    tampering_located Rust.SerdeJson.integers Subtype.val Rust.SerdeJson.documented_integers
      (Rust.Value.toString_injective Rust.SerdeJson.fromStr_integers) ideal_sampleDigests
      verdict_sampleLine hforge
  obtain ⟨reason, rfl⟩ := htampered fun h => by simpa [entries] using h.length_le
  refine ⟨reason, ?_⟩
  rw [hpython]
  simp [entries, commonPrefix, Rust.VerifyResult.python]

end Resilience
