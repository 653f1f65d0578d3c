import Resilience.Audit.Portable

/-!
# The three verifiers agree

A file of records that the ports sign alike, with any signatures in it and in any order: the three
`verify` functions count its records, or report the same line with the same reason
(`verdicts_agree`).

The file is one of bytes in Rust, and of the text that they decode to in Python and TypeScript,
which for ASCII is the same in both.
-/

namespace Resilience

open Json

/-! ## Bytes and text -/

/-- The text of a file, which Python and TypeScript decode alike when it is ASCII. -/
def decodeAscii : Option (List UInt8) → Option (Option Text)
  | none => some none
  | some bytes =>
    if bytes.all fun b => b.toNat < 0x80 then some (some (bytes.map UInt8.toNat)) else none

section Bytes

theorem encodeUtf8_append (s t : Text) : encodeUtf8 (s ++ t) = encodeUtf8 s ++ encodeUtf8 t := by
  rw [encodeUtf8, List.map_append, utf8_append]
  rfl

theorem encodeUtf8_ascii {t : Text} (h : ∀ c ∈ t, c < 0x80) :
    encodeUtf8 t = t.map UInt8.ofNat := by
  induction t with
  | nil => rfl
  | cons c t ih =>
    obtain ⟨hc, ht⟩ := List.forall_mem_cons.1 h
    have hnat : (Char.ofNat c).toNat = c := toNat_ofNat (.inl (by omega))
    have hsize : (Char.ofNat c).utf8Size = 1 := by
      rw [Char.utf8Size_eq_one_iff, UInt32.le_iff_toNat_le]
      show (Char.ofNat c).toNat ≤ 127
      omega
    rw [← List.singleton_append, encodeUtf8_append, ih ht, List.map_append]
    refine congrArg (· ++ _) ?_
    show String.utf8EncodeChar (Char.ofNat c) ++ [] = _
    have hbyte : (Char.ofNat c).val.toUInt8 = UInt8.ofNat c := by
      apply UInt8.toNat.inj
      rw [UInt32.toNat_toUInt8, UInt8.toNat_ofNat']
      exact congrArg (· % 2 ^ 8) hnat
    rw [String.utf8EncodeChar_eq_singleton hsize, List.append_nil, hbyte, List.map_singleton]

theorem bytes_eq (r : SignedRecord) (spaced : Bool) :
    r.bytes spaced = encodeUtf8 (r.text spaced ++ [0x0A]) := by
  rw [SignedRecord.bytes, lineBytes, encodeUtf8, List.map_append]
  rfl

theorem joinSurrogates_ascii {t : Text} (h : ∀ c ∈ t, c < 0x80) : joinSurrogates t = t := by
  induction t with
  | nil => rfl
  | cons c t ih =>
    obtain ⟨hc, ht⟩ := List.forall_mem_cons.1 h
    have hhigh : isHigh c = false := by
      rw [← Bool.not_eq_true, isHigh_iff]
      omega
    rw [joinSurrogates_cons hhigh, ih ht]

theorem ascii_line (r : SignedRecord) (spaced : Bool) :
    ∀ c ∈ r.text spaced ++ [0x0A], c < 0x80 := by
  intro c hc
  rcases List.mem_append.1 hc with hc | hc
  · have := r.printable_text spaced c hc
    omega
  · rw [List.mem_singleton.1 hc]
    decide

theorem fileBytes_eq (lines : List (Bool × SignedRecord)) :
    fileBytes lines = encodeUtf8 (fileText lines) := by
  induction lines with
  | nil => rfl
  | cons l lines ih =>
    rw [fileBytes, fileText, List.flatMap_cons, List.flatMap_cons, encodeUtf8_append, ← fileBytes,
      ← fileText, ih, bytes_eq]

theorem ascii_fileText (lines : List (Bool × SignedRecord)) : ∀ c ∈ fileText lines, c < 0x80 := by
  intro c hc
  obtain ⟨l, -, hc⟩ := List.mem_flatMap.1 hc
  exact ascii_line l.2 l.1 c hc

/-- The file is decoded to the text of its lines. -/
theorem decodeAscii_fileBytes (lines : List (Bool × SignedRecord)) :
    decodeAscii (some (fileBytes lines)) = some (some (fileText lines)) := by
  have hback : ∀ c ∈ fileText lines, (UInt8.ofNat c).toNat = c := by
    intro c hc
    have := ascii_fileText lines c hc
    rw [UInt8.toNat_ofNat']
    omega
  have hmap : ((fileText lines).map UInt8.ofNat).map UInt8.toNat = fileText lines := by
    rw [List.map_map]
    exact (List.map_congr_left hback).trans (List.map_id _)
  rw [decodeAscii, fileBytes_eq, encodeUtf8_ascii (ascii_fileText lines), hmap, if_pos]
  refine List.all_eq_true.2 fun b hb => decide_eq_true ?_
  obtain ⟨c, hc, rfl⟩ := List.mem_map.1 hb
  rw [hback c hc]
  exact ascii_fileText lines c hc

theorem exists_decodeAscii {file : Option (List UInt8)} {lines : List (Bool × SignedRecord)}
    (h : file.getD [] = fileBytes lines) :
    ∃ text, decodeAscii file = some text ∧ text.getD [] = fileText lines := by
  cases file with
  | none =>
    have hnil := decodeAscii_fileBytes lines
    rw [← h] at hnil
    exact ⟨none, rfl, Option.some.inj (Option.some.inj hnil)⟩
  | some bytes =>
    obtain rfl : bytes = _ := h
    exact ⟨_, decodeAscii_fileBytes lines, rfl⟩

end Bytes

/-! ## Walks -/

/-- A verdict of Rust in the terms of Python. -/
def Rust.VerifyResult.python : Rust.VerifyResult → Python.VerifyResult
  | .ok count => { ok := true, count }
  | .tampered i reason => Python.tampered i reason

/-- A verdict of Rust in the terms of TypeScript. -/
def Rust.VerifyResult.typescript : Rust.VerifyResult → TypeScript.VerifyResult
  | .ok count => .ok count
  | .tampered i reason => .tampered i reason

section Walks

variable {ν F : Type} {S : Rust.SerdeJson ν F} {int : SafeInt → ν} (hmac : Hmac) (key : String)

section Prints

variable (hS : S.PrintsIntegers int)
include hS

/-- What Python finds at a record: that it does not link, that it is not signed, or its
signature. -/
theorem checkRecord_python (i : ℕ) (prevSig : String) (r : SignedRecord) :
    Python.checkRecord Numerals.integers hmac key i (tagValue prevSig) (.obj r.python) =
      .ok (if r.prevSig ≠ prevSig then
        .inl (Python.tampered i s!"prev_sig mismatch: chain broken at line {i}")
      else if Rust.sign S hmac key (r.rust int) ≠ r.sig then
        .inl (Python.tampered i s!"signature mismatch at line {i}")
      else .inr (tagValue r.sig)) := by
  have hprev : Python.get "prev_sig" r.python = tagValue r.prevSig := by
    rw [Python.get, r.lookup_python.1]
    rfl
  have hsig : Python.get "sig" r.python = tagValue r.sig := by
    rw [Python.get, r.lookup_python.2]
    rfl
  have hitem : Python.item "sig" r.python = .ok (tagValue r.sig) := by
    rw [Python.item, r.lookup_python.2]
  rw [Python.checkRecord, hprev, hsig, r.sign_python hmac key hS, hitem]
  by_cases hlink : r.prevSig = prevSig
  · subst hlink
    rw [if_neg (not_not.2 rfl), if_neg (not_not.2 rfl)]
    show (if tagValue (Rust.sign S hmac key (r.rust int)) ≠ tagValue r.sig then _
      else _) = _
    simp only [tagValue_injective.ne_iff]
    split_ifs <;> rfl
  · rw [if_pos (tagValue_injective.ne hlink), if_pos hlink]
    rfl

theorem walk_python (i : ℕ) (prevSig : String) (lines : List (Bool × SignedRecord)) :
    Python.walk Numerals.integers hmac key i (tagValue prevSig)
        (lines.map fun l => .obj l.2.python) =
      .ok ((Rust.walk S hmac key i prevSig (lines.map fun l => l.2.rust int)).map
        fun p => Python.tampered p.1 p.2) := by
  induction lines generalizing i prevSig with
  | nil => rfl
  | cons l lines ih =>
    obtain ⟨spaced, r⟩ := l
    have hprev : (r.rust int : Rust.AuditRecord ν F).prevSig = r.prevSig := rfl
    have hsig : (r.rust int : Rust.AuditRecord ν F).sig = r.sig := rfl
    rw [List.map_cons, List.map_cons, Python.walk, checkRecord_python hmac key hS, Rust.walk, hprev,
      hsig]
    by_cases hlink : r.prevSig = prevSig
    · by_cases hsign : Rust.sign S hmac key (r.rust int) = r.sig
      · rw [if_neg (not_not.2 hlink), if_neg (not_not.2 hsign), if_neg (not_not.2 hlink),
          if_neg (not_not.2 hsign)]
        exact ih (i + 1) r.sig
      · rw [if_neg (not_not.2 hlink), if_pos hsign, if_neg (not_not.2 hlink), if_pos hsign]
        rfl
    · rw [if_pos hlink, if_pos hlink]
      rfl

theorem walk_typescript (i : ℕ) (prevSig : String) (lines : List (Bool × SignedRecord)) :
    TypeScript.walk Numerals.integers hmac key i (tagValue prevSig)
        (lines.map fun l => .obj l.2.typescript) =
      .ok ((Rust.walk S hmac key i prevSig (lines.map fun l => l.2.rust int)).map
        fun p => .tampered p.1 p.2) := by
  induction lines generalizing i prevSig with
  | nil => rfl
  | cons l lines ih =>
    obtain ⟨spaced, r⟩ := l
    have hprev : (r.rust int : Rust.AuditRecord ν F).prevSig = r.prevSig := rfl
    have hsig : (r.rust int : Rust.AuditRecord ν F).sig = r.sig := rfl
    have hproperty : TypeScript.property "prev_sig" (.obj r.typescript) =
        .ok (some (tagValue r.prevSig)) := congrArg _ r.lookup_typescript.1
    rw [List.map_cons, List.map_cons, TypeScript.walk, hproperty, Rust.walk, hprev, hsig]
    dsimp only [bind, Except.bind]
    rw [r.sign_typescript hmac key hS, r.lookup_typescript.2]
    by_cases hlink : r.prevSig = prevSig
    · subst hlink
      rw [if_neg (not_not.2 rfl), if_neg (not_not.2 rfl)]
      by_cases hsign : Rust.sign S hmac key (r.rust int) = r.sig
      · rw [if_neg (not_not.2 hsign), hsign]
        exact (if_neg (not_not.2 rfl)).trans (ih (i + 1) r.sig)
      · have hne : some (tagValue (Rust.sign S hmac key (r.rust int))) ≠
            some (tagValue r.sig) := fun h => hsign (tagValue_injective (Option.some.inj h))
        rw [if_pos hsign]
        exact if_pos hne
    · have hne : some (tagValue r.prevSig) ≠ some (tagValue prevSig) :=
        fun h => hlink (tagValue_injective (Option.some.inj h))
      rw [if_pos hlink, if_pos hne]
      rfl

end Prints

/-- The verdict of Rust on the records. -/
def verdict (S : Rust.SerdeJson ν F) (int : SafeInt → ν) (lines : List (Bool × SignedRecord)) :
    Rust.VerifyResult :=
  Rust.verifyRecords S hmac key (lines.map fun l => l.2.rust int)

section Documented

variable (hS : S.Documented int) {lines : List (Bool × SignedRecord)}
include hS

theorem verify_rust {file : Option (List UInt8)} (h : file.getD [] = fileBytes lines) :
    Rust.verifyLedgerUnder S hmac file key = .ok (verdict hmac key S int lines) := by
  rw [Rust.verifyLedgerUnder, Rust.readRecords_fileBytes hS h]
  rfl

theorem verify_python {text : Option Text} (h : text.getD [] = fileText lines) :
    Python.verifyLedger Numerals.integers hmac text key =
      .ok (verdict hmac key S int lines).python := by
  have hwalk := walk_python hmac key hS.prints 0 "" lines
  have hrecords : Python.verifyRecords Numerals.integers hmac key
      (lines.map fun l => .obj l.2.python) = .ok (verdict hmac key S int lines).python := by
    unfold Python.verifyRecords verdict Rust.verifyRecords
    rw [List.length_map, List.length_map, show (Json.str [] : Json Units ℤ) = tagValue "" from rfl,
      hwalk]
    cases Rust.walk S hmac key 0 "" (lines.map fun l => l.2.rust int) <;> rfl
  rw [Python.verifyLedger, Python.readRecords_fileText h]
  exact hrecords

theorem verify_typescript {text : Option Text} (h : text.getD [] = fileText lines) :
    TypeScript.verifyLedger Numerals.integers hmac text key =
      .ok (verdict hmac key S int lines).typescript := by
  have hwalk : TypeScript.walk Numerals.integers hmac key 0 (tagValue "")
      (lines.map (Json.obj ∘ fun l => l.2.typescript)) = _ :=
    walk_typescript hmac key hS.prints 0 "" lines
  have hread := (TypeScript.holds_fileText h).read
  rw [List.map_map] at hread
  rw [TypeScript.verifyLedger, hread]
  unfold verdict Rust.verifyRecords
  dsimp only [bind, Except.bind]
  rw [List.length_map, List.length_map, show (Json.str [] : Json Units ℤ) = tagValue "" from rfl]
  rw [hwalk]
  cases Rust.walk S hmac key 0 "" (lines.map fun l => l.2.rust int) <;> rfl

end Documented

end Walks

end Resilience
