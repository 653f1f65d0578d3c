import Resilience.Foundations.Json.Text
import Resilience.Foundations.Lines

/-!
# JSON strings

A JSON string is a sequence of UTF-16 code units (`Units`), surrogates included, paired or not: that
is what the escapes `\uXXXX` can say. A text gives its characters as code points or as code units,
so a character beyond the first plane may stand for two units (`toUnits`).

There are several ways of writing a unit: itself, a short escape, a `\uXXXX` escape. `unquote` reads
them all, and `unquote_written` says so for any choice among them, unit by unit. Three choices are
made in practice:

* `quoteMinimal` escapes what JSON requires: quotation marks, backslashes, control characters;
* `quoteUnits` also escapes the surrogates that are not paired;
* `quoteAscii` escapes all but the printable ASCII characters.
-/

namespace Resilience.Json

/-- A sequence of UTF-16 code units. -/
abbrev Units := List (Fin 0x10000)

/-! ## Surrogates -/

def isHigh (n : ℕ) : Bool := 0xD800 ≤ n && n < 0xDC00

def isLow (n : ℕ) : Bool := 0xDC00 ≤ n && n < 0xE000

theorem isHigh_iff {n : ℕ} : isHigh n = true ↔ 0xD800 ≤ n ∧ n < 0xDC00 := by
  rw [isHigh, Bool.and_eq_true, decide_eq_true_iff, decide_eq_true_iff]

theorem isLow_iff {n : ℕ} : isLow n = true ↔ 0xDC00 ≤ n ∧ n < 0xE000 := by
  rw [isLow, Bool.and_eq_true, decide_eq_true_iff, decide_eq_true_iff]

/-- The code units of a code point. -/
def toUnits (c : ℕ) : Text :=
  if c < 0x10000 then [c] else [0xD800 + (c - 0x10000) / 0x400, 0xDC00 + (c - 0x10000) % 0x400]

/-- The code point of a surrogate pair. -/
def joinPair (h l : ℕ) : ℕ := 0x10000 + (h - 0xD800) * 0x400 + (l - 0xDC00)

/-- Code units as code points, where unpaired surrogates stand for themselves. -/
def joinSurrogates : Text → Text
  | [] => []
  | [n] => [n]
  | h :: l :: rest =>
    if isHigh h && isLow l then joinPair h l :: joinSurrogates rest
    else h :: joinSurrogates (l :: rest)

def toUnit (n : ℕ) : Fin 0x10000 := Fin.ofNat 0x10000 n

def units (t : Text) : Units := t.map toUnit

def codes (s : Units) : Text := s.map Fin.val

@[simp] theorem units_codes (s : Units) : units (codes s) = s := by
  unfold units codes
  rw [List.map_map]
  refine (List.map_congr_left fun u _ => ?_).trans (List.map_id s)
  exact Fin.ext (Nat.mod_eq_of_lt u.isLt)

theorem codes_lt {s : Units} {n : ℕ} (h : n ∈ codes s) : n < 0x10000 := by
  obtain ⟨u, -, rfl⟩ := List.mem_map.1 h
  exact u.isLt

/-- The code units of a string. -/
def utf16 (s : String) : Units := units (s.toList.flatMap fun c => toUnits c.toNat)

theorem toUnits_lt {c n : ℕ} (hc : c < 0x110000) (h : n ∈ toUnits c) : n < 0x10000 := by
  unfold toUnits at h
  split at h
  · rw [List.mem_singleton] at h
    omega
  · simp only [List.mem_cons, List.not_mem_nil, or_false] at h
    omega

theorem codes_units {t : Text} (h : ∀ n ∈ t, n < 0x10000) : codes (units t) = t := by
  unfold units codes
  rw [List.map_map]
  refine (List.map_congr_left fun n hn => ?_).trans (List.map_id t)
  exact Nat.mod_eq_of_lt (h n hn)

theorem toNat_lt (c : Char) : c.toNat < 0x110000 := by
  rcases c.valid with h | h
  · exact h.trans (by decide)
  · exact h.2

/-- A character of a Python string, surrogates included. -/
abbrev CodePoint := Fin 0x110000

abbrev Str := List CodePoint

def codePoints (s : String) : Str := s.toList.map fun c => ⟨c.toNat, toNat_lt c⟩

/-- The code units of a Python string: two surrogates in a row are written as a pair. -/
def encodeUtf16 (s : Str) : Units := units (s.flatMap fun c => toUnits c.val)

/-- The Python string that is read from code units. -/
def decodeUtf16 (s : Units) : Str := (joinSurrogates (codes s)).map (Fin.ofNat 0x110000)

theorem codes_utf16 (s : String) :
    codes (utf16 s) = s.toList.flatMap fun c => toUnits c.toNat := by
  apply codes_units
  intro n hn
  obtain ⟨c, -, hc⟩ := List.mem_flatMap.1 hn
  exact toUnits_lt (toNat_lt c) hc

/-! ## Escapes -/

def hexDigit (d : ℕ) : ℕ := if d < 10 then 0x30 + d else 0x57 + d

/-- Four hexadecimal digits, in lower case. -/
def hex4 (n : ℕ) : Text :=
  [hexDigit (n / 0x1000 % 16), hexDigit (n / 0x100 % 16), hexDigit (n / 0x10 % 16),
    hexDigit (n % 16)]

def hexValue (c : ℕ) : Option ℕ :=
  if 0x30 ≤ c ∧ c ≤ 0x39 then some (c - 0x30)
  else if 0x61 ≤ c ∧ c ≤ 0x66 then some (c - 0x57)
  else if 0x41 ≤ c ∧ c ≤ 0x46 then some (c - 0x37)
  else none

/-- Four hexadecimal digits, in either case, and what follows them. -/
def readHex4 : Text → Option (ℕ × Text)
  | a :: b :: c :: d :: rest => do
    let a ← hexValue a
    let b ← hexValue b
    let c ← hexValue c
    let d ← hexValue d
    return (0x1000 * a + 0x100 * b + 0x10 * c + d, rest)
  | _ => none

/-- The letter of the short escape of a character. -/
def shortEscape (n : ℕ) : Option ℕ :=
  if n = 0x22 then some 0x22
  else if n = 0x5C then some 0x5C
  else if n = 0x08 then some 0x62
  else if n = 0x09 then some 0x74
  else if n = 0x0A then some 0x6E
  else if n = 0x0C then some 0x66
  else if n = 0x0D then some 0x72
  else none

def readShortEscape (e : ℕ) : Option ℕ :=
  if e = 0x22 then some 0x22
  else if e = 0x5C then some 0x5C
  else if e = 0x2F then some 0x2F
  else if e = 0x62 then some 0x08
  else if e = 0x74 then some 0x09
  else if e = 0x6E then some 0x0A
  else if e = 0x66 then some 0x0C
  else if e = 0x72 then some 0x0D
  else none

def unicodeEscape (n : ℕ) : Text := 0x5C :: 0x75 :: hex4 n

/-- Write a character: by its short escape if it has one, as it is if `raw` allows that, or by a
`\uXXXX` escape. -/
def escape (raw : ℕ → Bool) (n : ℕ) : Text :=
  match shortEscape n with
  | some e => [0x5C, e]
  | none => if raw n then [n] else unicodeEscape n

/-! ## Reading a string -/

/-- One character of a string, and what follows it. -/
def readChar : Text → Option (Text × Text)
  | [] => none
  | c :: rest =>
    if c = 0x5C then
      match rest with
      | [] => none
      | e :: rest =>
        if e = 0x75 then (readHex4 rest).map fun r => ([r.1], r.2)
        else (readShortEscape e).map fun n => ([n], rest)
    else if c < 0x20 then none
    else some (toUnits c, rest)

/-- The characters up to the closing quotation mark; `fuel` bounds their number. -/
def readChars : ℕ → Text → Option (Text × Text)
  | 0, _ => none
  | fuel + 1, s =>
    if s.head? = some 0x22 then some ([], s.tail)
    else match readChar s with
      | none => none
      | some (us, s) => (readChars fuel s).map fun r => (us ++ r.1, r.2)

def unquote (s : Text) : Option (Units × Text) :=
  (readChars s.length s).map fun r => (units r.1, r.2)

/-- `t` is a way of writing the code point `c` in a string. -/
structure Writes (c : ℕ) (t : Text) : Prop where
  ne_nil : t ≠ []
  head_ne : t.head? ≠ some 0x22
  read : ∀ rest, readChar (t ++ rest) = some (toUnits c, rest)

theorem hexValue_hexDigit {d : ℕ} (h : d < 16) : hexValue (hexDigit d) = some d := by
  unfold hexDigit hexValue
  split
  · rw [if_pos (by omega)]
    exact congrArg some (by omega)
  · rw [if_neg (by omega), if_pos (by omega)]
    exact congrArg some (by omega)

theorem readHex4_hex4 {n : ℕ} (h : n < 0x10000) (rest : Text) :
    readHex4 (hex4 n ++ rest) = some (n, rest) := by
  have hdigit (m : ℕ) : hexValue (hexDigit (m % 16)) = some (m % 16) :=
    hexValue_hexDigit (Nat.mod_lt m (by decide))
  simp only [hex4, List.cons_append, List.nil_append, readHex4, hdigit]
  refine congrArg some (Prod.ext ?_ rfl)
  show 0x1000 * (n / 0x1000 % 16) + 0x100 * (n / 0x100 % 16) + 0x10 * (n / 0x10 % 16) + n % 16 = n
  omega

theorem toUnits_of_lt {n : ℕ} (h : n < 0x10000) : toUnits n = [n] := if_pos h

theorem readShortEscape_shortEscape {n e : ℕ} (h : shortEscape n = some e) :
    readShortEscape e = some n ∧ e ≠ 0x75 ∧ n < 0x10000 := by
  unfold shortEscape at h
  split_ifs at h <;>
  · obtain rfl := Option.some.inj h
    subst_vars
    decide

theorem shortEscape_eq_none {n : ℕ} (h : shortEscape n = none) : n ≠ 0x22 ∧ n ≠ 0x5C := by
  constructor
  all_goals
    rintro rfl
    exact absurd h (by decide)

theorem writes_short {n e : ℕ} (h : shortEscape n = some e) : Writes n [0x5C, e] := by
  obtain ⟨hread, he, hn⟩ := readShortEscape_shortEscape h
  refine ⟨by simp, by simp, fun rest => ?_⟩
  simp [readChar, he, hread, toUnits_of_lt hn]

theorem writes_unicodeEscape {n : ℕ} (h : n < 0x10000) : Writes n (unicodeEscape n) := by
  refine ⟨by simp [unicodeEscape], by simp [unicodeEscape], fun rest => ?_⟩
  have hread := readHex4_hex4 h rest
  simp [unicodeEscape, readChar, hread, toUnits_of_lt h]

theorem writes_raw {n : ℕ} (h : shortEscape n = none) (hn : 0x20 ≤ n) : Writes n [n] := by
  obtain ⟨hquote, hslash⟩ := shortEscape_eq_none h
  refine ⟨by simp, by simpa using hquote, fun rest => ?_⟩
  simp [readChar, hslash, hn]

theorem writes_escape {raw : ℕ → Bool} {n : ℕ} (hraw : raw n = true → 0x20 ≤ n)
    (hesc : raw n = false → n < 0x10000) : Writes n (escape raw n) := by
  unfold escape
  split
  · exact writes_short ‹_›
  · split
    · exact writes_raw ‹_› (hraw ‹_›)
    · exact writes_unicodeEscape (hesc (Bool.eq_false_of_not_eq_true ‹_›))

theorem readChars_written {cs : Text} {ts : List Text} (h : List.Forall₂ Writes cs ts)
    (rest : Text) {fuel : ℕ} (hfuel : cs.length < fuel) :
    readChars fuel (ts.flatten ++ 0x22 :: rest) = some (cs.flatMap toUnits, rest) := by
  induction h generalizing fuel with
  | nil =>
    obtain ⟨fuel, rfl⟩ := Nat.exists_eq_add_of_le' (show 1 ≤ fuel by omega)
    rfl
  | @cons c t cs ts hw _ ih =>
    rw [List.length_cons] at hfuel
    obtain ⟨fuel, rfl⟩ := Nat.exists_eq_add_of_le' (show 1 ≤ fuel by omega)
    have hhead : (t ++ (ts.flatten ++ 0x22 :: rest)).head? ≠ some 0x22 := by
      rw [List.head?_append_of_ne_nil _ hw.ne_nil]
      exact hw.head_ne
    rw [List.flatten_cons, List.append_assoc, readChars, if_neg hhead, hw.read]
    show Option.map _ (readChars fuel _) = _
    rw [ih (by omega)]
    rfl

/-- However the characters of a string are written, they are read. -/
theorem unquote_written {cs : Text} {ts : List Text} (h : List.Forall₂ Writes cs ts)
    (rest : Text) :
    unquote (ts.flatten ++ 0x22 :: rest) = some (units (cs.flatMap toUnits), rest) := by
  have hlen : ∀ {cs : Text} {ts : List Text}, List.Forall₂ Writes cs ts →
      cs.length ≤ ts.flatten.length := by
    intro cs ts h
    induction h with
    | nil => exact le_rfl
    | cons hw _ ih =>
      have hpos := List.length_pos_iff.2 hw.ne_nil
      rw [List.length_cons, List.flatten_cons, List.length_append]
      omega
  have hfuel : cs.length < (ts.flatten ++ 0x22 :: rest).length := by
    rw [List.length_append, List.length_cons]
    have := hlen h
    omega
  rw [unquote, readChars_written h rest hfuel]
  rfl

theorem unquote_flatMap {w : ℕ → Text} {cs : Text} (h : ∀ c ∈ cs, Writes c (w c)) (rest : Text) :
    unquote (cs.flatMap w ++ 0x22 :: rest) = some (units (cs.flatMap toUnits), rest) := by
  rw [List.flatMap_def]
  exact unquote_written (List.forall₂_map_right_iff.2 (List.forall₂_same.2 h)) rest

theorem flatMap_toUnits {t : Text} (h : ∀ n ∈ t, n < 0x10000) : t.flatMap toUnits = t := by
  induction t with
  | nil => rfl
  | cons n t ih =>
    rw [List.flatMap_cons, toUnits_of_lt (h n (by simp)), ih fun m hm => h m (by simp [hm])]
    rfl

/-! ## Three ways of writing a string -/

/-- Escape what has to be escaped. -/
def quoteMinimal (t : Text) : Text := t.flatMap (escape fun n => 0x20 ≤ n)

/-- Escape all but the printable ASCII characters. -/
def quoteAscii (s : Units) : Text := (codes s).flatMap (escape fun n => 0x20 ≤ n && n ≤ 0x7E)

def escapeUnit : ℕ → Text := escape fun n => 0x20 ≤ n && !isHigh n && !isLow n

/-- Write each unit: a surrogate pair as it is, and other surrogates escaped. -/
def writeUnits : Text → List Text
  | [] => []
  | [n] => [escapeUnit n]
  | h :: l :: rest =>
    if isHigh h && isLow l then [h] :: [l] :: writeUnits rest
    else escapeUnit h :: writeUnits (l :: rest)

/-- Escape what has to be escaped, and unpaired surrogates. -/
def quoteUnits (s : Units) : Text := (writeUnits (codes s)).flatten

theorem unquote_quoteMinimal (t : Text) (rest : Text) :
    unquote (quoteMinimal t ++ 0x22 :: rest) = some (units (t.flatMap toUnits), rest) := by
  refine unquote_flatMap (fun c _ => ?_) rest
  have hraw : decide (0x20 ≤ c) = true → 0x20 ≤ c := of_decide_eq_true
  refine writes_escape hraw fun hc => ?_
  have := of_decide_eq_false hc
  omega

theorem unquote_quoteAscii (s : Units) (rest : Text) :
    unquote (quoteAscii s ++ 0x22 :: rest) = some (s, rest) := by
  have hwrites : ∀ c ∈ codes s, Writes c (escape (fun n => 0x20 ≤ n && n ≤ 0x7E) c) := by
    intro c hc
    have hraw : (decide (0x20 ≤ c) && decide (c ≤ 0x7E)) = true → 0x20 ≤ c := fun h => by
      simpa using (Bool.and_eq_true_iff.1 h).1
    exact writes_escape hraw fun _ => codes_lt hc
  rw [quoteAscii, unquote_flatMap hwrites, flatMap_toUnits fun _ => codes_lt, units_codes]

theorem writes_surrogate {n : ℕ} (h : isHigh n = true ∨ isLow n = true) : Writes n [n] := by
  have hn : 0xD800 ≤ n := by
    rw [isHigh_iff, isLow_iff] at h
    omega
  refine writes_raw ?_ (by omega)
  unfold shortEscape
  split_ifs <;> first | rfl | omega

theorem forall₂_writeUnits {t : Text} (h : ∀ n ∈ t, n < 0x10000) :
    List.Forall₂ Writes t (writeUnits t) := by
  have hescape : ∀ n < 0x10000, Writes n (escapeUnit n) := fun n hn =>
    writes_escape (fun hraw => by simp_all) fun _ => hn
  fun_induction writeUnits t with
  | case1 => exact .nil
  | case2 n => exact .cons (hescape n (h n (by simp))) .nil
  | case3 hi lo rest hpair ih =>
    obtain ⟨hhi, hlo⟩ := Bool.and_eq_true_iff.1 hpair
    refine .cons (writes_surrogate (.inl hhi)) (.cons (writes_surrogate (.inr hlo)) ?_)
    exact ih fun n hn => h n (by simp [hn])
  | case4 hi lo rest _ ih =>
    exact .cons (hescape hi (h hi (by simp))) (ih fun n hn => h n (List.mem_cons_of_mem _ hn))

theorem unquote_quoteUnits (s : Units) (rest : Text) :
    unquote (quoteUnits s ++ 0x22 :: rest) = some (s, rest) := by
  rw [quoteUnits, unquote_written (forall₂_writeUnits fun _ => codes_lt) rest,
    flatMap_toUnits fun _ => codes_lt, units_codes]

/-! ## The characters that are written -/

theorem hexDigit_printable {d : ℕ} (h : d < 16) : 0x20 ≤ hexDigit d ∧ hexDigit d ≤ 0x7E := by
  unfold hexDigit
  split <;> omega

theorem mem_escape {raw : ℕ → Bool} {n c : ℕ} (h : c ∈ escape raw n) :
    0x20 ≤ c ∧ c ≤ 0x7E ∨ c = n ∧ raw n = true := by
  unfold escape at h
  split at h
  · rename_i e he
    left
    unfold shortEscape at he
    rw [List.mem_cons, List.mem_singleton] at h
    rcases h with rfl | rfl
    · decide
    · split_ifs at he <;>
      · obtain rfl := Option.some.inj he
        decide
  · split at h
    · exact .inr ⟨List.mem_singleton.1 h, ‹_›⟩
    · left
      have hdigit (m : ℕ) := hexDigit_printable (Nat.mod_lt m (show 16 > 0 by decide))
      simp only [unicodeEscape, hex4, List.mem_cons, List.not_mem_nil, or_false] at h
      rcases h with rfl | rfl | rfl | rfl | rfl | rfl
      · decide
      · decide
      all_goals exact hdigit _

theorem mem_quoteAscii {s : Units} {c : ℕ} (h : c ∈ quoteAscii s) : 0x20 ≤ c ∧ c ≤ 0x7E := by
  obtain ⟨n, -, hc⟩ := List.mem_flatMap.1 h
  rcases mem_escape hc with h | ⟨rfl, hraw⟩
  · exact h
  · simpa using hraw

theorem mem_quoteMinimal {t : Text} {c : ℕ} (h : c ∈ quoteMinimal t) :
    0x20 ≤ c ∧ (c ≤ 0x7E ∨ c ∈ t) := by
  obtain ⟨n, hn, hc⟩ := List.mem_flatMap.1 h
  rcases mem_escape hc with h | ⟨rfl, hraw⟩
  · exact ⟨h.1, .inl h.2⟩
  · exact ⟨by simpa using hraw, .inr hn⟩

theorem mem_quoteUnits {s : Units} {c : ℕ} (h : c ∈ quoteUnits s) : 0x20 ≤ c := by
  have hescape : ∀ n, ∀ c ∈ escapeUnit n, 0x20 ≤ c := by
    intro n c hc
    rcases mem_escape hc with h | ⟨rfl, hraw⟩
    · exact h.1
    · simp only [Bool.and_eq_true, decide_eq_true_eq] at hraw
      exact hraw.1.1
  obtain ⟨t, ht, hc⟩ := List.mem_flatten.1 h
  generalize codes s = u at ht
  fun_induction writeUnits u with
  | case1 => exact absurd ht List.not_mem_nil
  | case2 n =>
    rw [List.mem_singleton] at ht
    exact hescape n c (ht ▸ hc)
  | case3 hi lo rest hpair ih =>
    obtain ⟨hhi, hlo⟩ := Bool.and_eq_true_iff.1 hpair
    rw [isHigh_iff] at hhi
    rw [isLow_iff] at hlo
    simp only [List.mem_cons] at ht
    rcases ht with rfl | rfl | ht
    · rw [List.mem_singleton] at hc
      omega
    · rw [List.mem_singleton] at hc
      omega
    · exact ih ht
  | case4 hi lo rest _ ih =>
    rcases List.mem_cons.1 ht with rfl | ht
    · exact hescape hi c hc
    · exact ih ht

/-! ## Code points of a string -/

theorem joinSurrogates_toUnits {c : ℕ} (hc : c < 0x110000) (hs : isHigh c = false)
    (rest : Text) : joinSurrogates (toUnits c ++ rest) = c :: joinSurrogates rest := by
  unfold toUnits
  split
  · cases rest with
    | nil => rfl
    | cons l rest => simp [joinSurrogates, hs]
  · have hhi : isHigh (0xD800 + (c - 0x10000) / 0x400) = true := isHigh_iff.2 (by omega)
    have hlo : isLow (0xDC00 + (c - 0x10000) % 0x400) = true := isLow_iff.2 (by omega)
    have hjoin : joinPair (0xD800 + (c - 0x10000) / 0x400)
        (0xDC00 + (c - 0x10000) % 0x400) = c := by
      unfold joinPair
      omega
    rw [List.cons_append, List.cons_append, List.nil_append, joinSurrogates, hhi, hlo, hjoin]
    rfl

theorem isHigh_toNat (c : Char) : isHigh c.toNat = false := by
  rw [← Bool.not_eq_true, isHigh_iff]
  rcases c.valid with h | h
  · have h : c.toNat < 0xD800 := h
    omega
  · have h : 0xDFFF < c.toNat := h.1
    omega

/-- The code units of a string, joined, are its code points. -/
theorem joinSurrogates_utf16 (s : String) :
    joinSurrogates (codes (utf16 s)) = s.toList.map Char.toNat := by
  rw [codes_utf16]
  induction s.toList with
  | nil => rfl
  | cons c cs ih =>
    rw [List.flatMap_cons, joinSurrogates_toUnits (toNat_lt c) (isHigh_toNat c), ih, List.map_cons]

theorem utf16_injective : Function.Injective utf16 := by
  intro s t h
  have hcodes := congrArg (fun u => joinSurrogates (codes u)) h
  simp only [joinSurrogates_utf16] at hcodes
  have hchar : Function.Injective Char.toNat := fun c d hcd => Char.ext (UInt32.toNat.inj hcd)
  exact String.toList_inj.1 (List.map_injective_iff.2 hchar hcodes)

@[simp] theorem utf16_inj {s t : String} : utf16 s = utf16 t ↔ s = t := utf16_injective.eq_iff

theorem toNat_ofNat {n : ℕ} (h : n.isValidChar) : (Char.ofNat n).toNat = n := by
  rw [Char.ofNat, dif_pos h]
  rfl

/-- The bytes of a text of code points. -/
def encodeUtf8 (t : Text) : List UInt8 := utf8 (t.map Char.ofNat)

theorem encodeUtf8_inj {t t' : Text} (ht : ∀ c ∈ t, c.isValidChar) (ht' : ∀ c ∈ t', c.isValidChar)
    (h : encodeUtf8 t = encodeUtf8 t') : t = t' := by
  have hback : ∀ t : Text, (∀ c ∈ t, c.isValidChar) → (t.map Char.ofNat).map Char.toNat = t := by
    intro t ht
    rw [List.map_map]
    exact (List.map_congr_left fun c hc => toNat_ofNat (ht c hc)).trans (List.map_id t)
  rw [← hback t ht, ← hback t' ht', utf8_injective h]

/-! ## Texts of code units -/

/-- Code units in which every surrogate is paired. -/
structure WellFormed (t : Text) : Prop where
  lt : ∀ n ∈ t, n < 0x10000
  valid : ∀ c ∈ joinSurrogates t, c.isValidChar

/-- The bytes of a text of code units. -/
def encodeUnits (t : Text) : List UInt8 := encodeUtf8 (joinSurrogates t)

theorem wellFormed_nil : WellFormed [] :=
  ⟨fun _ h => absurd h List.not_mem_nil, fun _ h => absurd h List.not_mem_nil⟩

theorem isHigh_of_isValidChar {n : ℕ} (h : n.isValidChar) : isHigh n = false := by
  rw [← Bool.not_eq_true, isHigh_iff]
  rcases h with h | h
  · have h : n < 0xD800 := h
    omega
  · have h : 0xDFFF < n := h.1
    omega

theorem joinSurrogates_cons {n : ℕ} (h : isHigh n = false) (t : Text) :
    joinSurrogates (n :: t) = n :: joinSurrogates t := by
  cases t with
  | nil => rfl
  | cons l t => rw [joinSurrogates, h, Bool.false_and, if_neg Bool.false_ne_true]

theorem joinSurrogates_append {s t : Text} (hs : ∀ c ∈ joinSurrogates s, c.isValidChar) :
    joinSurrogates (s ++ t) = joinSurrogates s ++ joinSurrogates t := by
  fun_induction joinSurrogates s with
  | case1 => rfl
  | case2 n => exact joinSurrogates_cons (isHigh_of_isValidChar (hs n (by simp))) t
  | case3 hi lo rest hpair ih =>
    rw [List.cons_append, List.cons_append, joinSurrogates, if_pos hpair,
      ih fun c hc => hs c (List.mem_cons_of_mem _ hc), List.cons_append]
  | case4 hi lo rest hpair ih =>
    rw [List.cons_append, List.cons_append, joinSurrogates, if_neg hpair, ← List.cons_append,
      ih fun c hc => hs c (List.mem_cons_of_mem _ hc), List.cons_append]

theorem WellFormed.append {s t : Text} (hs : WellFormed s) (ht : WellFormed t) :
    WellFormed (s ++ t) where
  lt n hn := (List.mem_append.1 hn).elim (hs.lt n) (ht.lt n)
  valid c hc := by
    rw [joinSurrogates_append hs.valid] at hc
    exact (List.mem_append.1 hc).elim (hs.valid c) (ht.valid c)

theorem wellFormed_singleton {n : ℕ} (hn : n < 0x10000) (h : isHigh n = false)
    (h' : isLow n = false) : WellFormed [n] where
  lt m hm := List.mem_singleton.1 hm ▸ hn
  valid c hc := by
    obtain rfl := List.mem_singleton.1 hc
    rw [← Bool.not_eq_true, isHigh_iff] at h
    rw [← Bool.not_eq_true, isLow_iff] at h'
    by_cases hc : c < 0xD800
    · exact .inl hc
    · have hlow : 0xDFFF < c := by omega
      have hhigh : c < 0x110000 := by omega
      exact .inr ⟨hlow, hhigh⟩

theorem wellFormed_of_lt {t : Text} (h : ∀ n ∈ t, n < 0xD800) : WellFormed t := by
  induction t with
  | nil => exact wellFormed_nil
  | cons n t ih =>
    have hn := h n (by simp)
    have hhigh : isHigh n = false := by
      rw [← Bool.not_eq_true, isHigh_iff]
      omega
    have hlow : isLow n = false := by
      rw [← Bool.not_eq_true, isLow_iff]
      omega
    exact (wellFormed_singleton (by omega) hhigh hlow).append
      (ih fun m hm => h m (List.mem_cons_of_mem _ hm))

theorem escape_eq (raw : ℕ → Bool) (n : ℕ) :
    raw n = true ∧ escape raw n = [n] ∨ escape raw n = escape (fun _ => false) n := by
  unfold escape
  split
  · exact .inr rfl
  · split
    · exact .inl ⟨‹_›, rfl⟩
    · exact .inr rfl

theorem wellFormed_escapeUnit {n : ℕ} (hn : n < 0x10000) : WellFormed (escapeUnit n) := by
  rcases escape_eq (fun n => 0x20 ≤ n && !isHigh n && !isLow n) n with ⟨hraw, heq⟩ | heq
  · simp only [Bool.and_eq_true, Bool.not_eq_true'] at hraw
    rw [escapeUnit, heq]
    exact wellFormed_singleton hn hraw.1.2 hraw.2
  · rw [escapeUnit, heq]
    apply wellFormed_of_lt
    intro c hc
    rcases mem_escape hc with h | h
    · omega
    · exact absurd h.2 Bool.false_ne_true

theorem joinPair_bounds {hi lo : ℕ} (hhi : isHigh hi = true) (hlo : isLow lo = true) :
    0x10000 ≤ joinPair hi lo ∧ joinPair hi lo < 0x110000 ∧ toUnits (joinPair hi lo) = [hi, lo] := by
  rw [isHigh_iff] at hhi
  rw [isLow_iff] at hlo
  have hle : 0x10000 ≤ joinPair hi lo := by
    unfold joinPair
    omega
  refine ⟨hle, ?_, ?_⟩
  · unfold joinPair
    omega
  · rw [toUnits, if_neg (by omega), List.cons.injEq, List.cons.injEq]
    unfold joinPair
    refine ⟨?_, ?_, rfl⟩ <;> omega

theorem wellFormed_quoteUnits (s : Units) : WellFormed (quoteUnits s) := by
  unfold quoteUnits
  have hlt : ∀ n ∈ codes s, n < 0x10000 := fun n => codes_lt
  generalize codes s = t at hlt
  fun_induction writeUnits t with
  | case1 => exact wellFormed_nil
  | case2 n =>
    rw [List.flatten_singleton]
    exact wellFormed_escapeUnit (hlt n (by simp))
  | case3 hi lo rest hpair ih =>
    obtain ⟨hhi, hlo⟩ := Bool.and_eq_true_iff.1 hpair
    obtain ⟨hle, hlt', -⟩ := joinPair_bounds hhi hlo
    have hpair' : WellFormed [hi, lo] := by
      have hmem : ∀ n ∈ [hi, lo], n ∈ hi :: lo :: rest := by
        intro n hn
        rw [List.mem_cons, List.mem_singleton] at hn
        rcases hn with rfl | rfl <;> simp
      refine ⟨fun n hn => hlt n (hmem n hn), fun c hc => ?_⟩
      rw [joinSurrogates, if_pos hpair, joinSurrogates, List.mem_singleton] at hc
      have hlow : 0xDFFF < c := by omega
      exact .inr ⟨hlow, hc ▸ hlt'⟩
    rw [List.flatten_cons, List.flatten_cons, ← List.append_assoc]
    exact hpair'.append (ih fun n hn => hlt n (by simp [hn]))
  | case4 hi lo rest _ ih =>
    rw [List.flatten_cons]
    exact (wellFormed_escapeUnit (hlt hi (by simp))).append
      (ih fun n hn => hlt n (List.mem_cons_of_mem _ hn))

theorem flatMap_joinSurrogates {t : Text} (ht : ∀ n ∈ t, n < 0x10000) :
    (joinSurrogates t).flatMap toUnits = t := by
  fun_induction joinSurrogates t with
  | case1 => rfl
  | case2 n => exact flatMap_toUnits ht
  | case3 hi lo rest hpair ih =>
    obtain ⟨hhi, hlo⟩ := Bool.and_eq_true_iff.1 hpair
    rw [List.flatMap_cons, (joinPair_bounds hhi hlo).2.2, ih fun n hn => ht n (by simp [hn])]
    rfl
  | case4 hi lo rest _ ih =>
    rw [List.flatMap_cons, ih fun n hn => ht n (List.mem_cons_of_mem _ hn),
      toUnits_of_lt (ht hi (by simp))]
    rfl

theorem joinSurrogates_lt {t : Text} (ht : ∀ n ∈ t, n < 0x10000) :
    ∀ n ∈ joinSurrogates t, n < 0x110000 := by
  fun_induction joinSurrogates t with
  | case1 => simp
  | case2 n =>
    have hn := ht n (List.mem_singleton_self n)
    simp only [List.mem_singleton, forall_eq]
    omega
  | case3 hi lo rest hpair ih =>
    obtain ⟨hhi, hlo⟩ := Bool.and_eq_true_iff.1 hpair
    refine List.forall_mem_cons.2 ⟨(joinPair_bounds hhi hlo).2.1, ih fun n hn => ht n ?_⟩
    simp [hn]
  | case4 hi lo rest _ ih =>
    have hhi := ht hi (List.mem_cons_self ..)
    exact List.forall_mem_cons.2 ⟨by omega, ih fun n hn => ht n (List.mem_cons_of_mem _ hn)⟩

theorem val_decodeUtf16 (s : Units) :
    (decodeUtf16 s).map Fin.val = joinSurrogates (codes s) := by
  rw [decodeUtf16, List.map_map]
  refine (List.map_congr_left fun n hn => ?_).trans (List.map_id _)
  exact Nat.mod_eq_of_lt (joinSurrogates_lt (fun _ => codes_lt) n hn)

/-- What is read from code units is written as these. -/
@[simp] theorem encodeUtf16_decodeUtf16 (s : Units) : encodeUtf16 (decodeUtf16 s) = s := by
  have hflat : (decodeUtf16 s).flatMap (fun c => toUnits c.val) =
      ((decodeUtf16 s).map Fin.val).flatMap toUnits := by rw [List.flatMap_map]
  rw [encodeUtf16, hflat, val_decodeUtf16, flatMap_joinSurrogates fun _ => codes_lt, units_codes]

theorem codes_injective : Function.Injective codes := fun s t h => by
  rw [← units_codes s, h, units_codes]

/-- A string is told by its code points. -/
theorem joinSurrogates_codes_injective : Function.Injective fun s => joinSurrogates (codes s) := by
  intro s t h
  have hflat := congrArg (List.flatMap toUnits) h
  dsimp only at hflat
  rw [flatMap_joinSurrogates fun _ => codes_lt, flatMap_joinSurrogates fun _ => codes_lt] at hflat
  exact codes_injective hflat

/-- A text of code units is told by its bytes. -/
theorem encodeUnits_inj {t t' : Text} (ht : WellFormed t) (ht' : WellFormed t')
    (h : encodeUnits t = encodeUnits t') : t = t' := by
  rw [← flatMap_joinSurrogates ht.lt, ← flatMap_joinSurrogates ht'.lt,
    encodeUtf8_inj ht.valid ht'.valid h]

end Resilience.Json
