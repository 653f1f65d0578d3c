import Mathlib.Data.List.Infix
import Mathlib.Data.List.TakeWhile
import Mathlib.Tactic.Common

/-!
# Files of lines

Text and bytes as lists, and how they fall into lines. `splitInclusive` cuts after every line break
and keeps the breaks, so a file is the concatenation of its pieces; what comes after the last break
is a last piece of its own. Appending to a file whose last line is terminated adds pieces
(`splitInclusive_append`), and a terminated line is one piece (`splitInclusive_line`).

`utf8` and `decodeUtf8` go between strings and their bytes, and `trim` removes white space at both
ends.
-/

namespace Resilience

/-! ## Pieces -/

section Pieces

variable {α : Type*} (isBreak : α → Bool)

/-- Cut after every line break. -/
def splitInclusive : List α → List (List α)
  | [] => []
  | a :: as =>
    if isBreak a then [a] :: splitInclusive as
    else match splitInclusive as with
      | [] => [[a]]
      | l :: ls => (a :: l) :: ls

/-- Nothing, or something that ends in a line break. -/
def Terminated (as : List α) : Prop := ∀ a ∈ as.getLast?, isBreak a = true

variable {isBreak}

@[simp] theorem terminated_nil : Terminated isBreak [] := by simp [Terminated]

theorem terminated_concat {as : List α} {b : α} (hb : isBreak b = true) :
    Terminated isBreak (as ++ [b]) := by
  simp [Terminated, hb]

theorem terminated_append {as bs : List α} (ha : Terminated isBreak as)
    (hb : Terminated isBreak bs) : Terminated isBreak (as ++ bs) := by
  cases bs using List.reverseRecOn with
  | nil => simpa using ha
  | append_singleton bs b =>
    rw [← List.append_assoc]
    exact terminated_concat (hb b (by simp))

theorem Terminated.of_cons {a : α} {as : List α} (h : Terminated isBreak (a :: as)) :
    Terminated isBreak as := by
  cases as with
  | nil => exact terminated_nil
  | cons b as => simpa [Terminated] using h

@[simp] theorem flatten_splitInclusive (as : List α) :
    (splitInclusive isBreak as).flatten = as := by
  induction as with
  | nil => rfl
  | cons a as ih =>
    unfold splitInclusive
    split
    · simp [ih]
    · split
      · rename_i h
        rw [h] at ih
        simp [← ih]
      · rename_i l ls h
        rw [h] at ih
        simp [← ih]

/-- Appending to a terminated file adds pieces to it. -/
theorem splitInclusive_append {as : List α} (h : Terminated isBreak as) (bs : List α) :
    splitInclusive isBreak (as ++ bs) = splitInclusive isBreak as ++ splitInclusive isBreak bs := by
  induction as with
  | nil => rfl
  | cons a as ih =>
    have ih := ih h.of_cons
    rw [List.cons_append, splitInclusive, splitInclusive, ih]
    by_cases ha : isBreak a = true
    · rw [if_pos ha, if_pos ha, List.cons_append]
    · rw [if_neg ha, if_neg ha]
      -- the file goes on after `a`, so its first piece does
      cases has : splitInclusive isBreak as with
      | nil =>
        have hnil : as = [] := by
          have hflat : (splitInclusive isBreak as).flatten = as := flatten_splitInclusive as
          rw [← hflat, has, List.flatten_nil]
        subst hnil
        exact absurd (h a (by simp)) ha
      | cons l ls => rfl

/-- A line and its break are one piece. -/
theorem splitInclusive_line {l : List α} {b : α} (hl : ∀ a ∈ l, isBreak a = false)
    (hb : isBreak b = true) : splitInclusive isBreak (l ++ [b]) = [l ++ [b]] := by
  induction l with
  | nil => simp [splitInclusive, hb]
  | cons a l ih =>
    have ha : isBreak a = false := hl a (by simp)
    rw [List.cons_append, splitInclusive, ih fun x hx => hl x (by simp [hx])]
    simp [ha]

/-- Without a line break there is one piece. -/
theorem splitInclusive_eq_singleton {l : List α} (hne : l ≠ [])
    (hl : ∀ a ∈ l, isBreak a = false) : splitInclusive isBreak l = [l] := by
  induction l with
  | nil => exact absurd rfl hne
  | cons a l ih =>
    have ha : isBreak a = false := hl a (by simp)
    cases l with
    | nil => simp [splitInclusive, ha]
    | cons b l =>
      rw [splitInclusive, ih (by simp) fun x hx => hl x (List.mem_cons_of_mem a hx)]
      simp [ha]

end Pieces

/-! ## White space -/

section Trim

variable {α : Type*} (isSpace : α → Bool)

/-- Remove white space at both ends. -/
def trim (l : List α) : List α := ((l.dropWhile isSpace).reverse.dropWhile isSpace).reverse

def isBlank (l : List α) : Bool := (trim isSpace l).isEmpty

variable {isSpace}

theorem isBlank_iff {l : List α} : isBlank isSpace l = true ↔ ∀ a ∈ l, isSpace a = true := by
  unfold isBlank trim
  rw [List.isEmpty_iff, List.reverse_eq_nil_iff, List.dropWhile_eq_nil_iff]
  constructor
  · intro h a ha
    by_contra hspace
    have hdrop : a ∈ l.dropWhile isSpace := by
      rw [← List.takeWhile_append_dropWhile (p := isSpace) (l := l), List.mem_append] at ha
      exact ha.resolve_left fun h => hspace (List.mem_takeWhile_imp h)
    exact hspace (h a (by simpa using hdrop))
  · intro h a ha
    exact h a ((List.dropWhile_sublist isSpace).subset (by simpa using ha))

/-- Nothing is trimmed off a line that has no white space at its ends. -/
theorem trim_eq_self {a b : α} {l : List α} (ha : isSpace a = false) (hb : isSpace b = false) :
    trim isSpace (a :: l ++ [b]) = a :: l ++ [b] := by
  simp [trim, ha, hb]

theorem isBlank_cons {a : α} {l : List α} (ha : isSpace a = false) :
    isBlank isSpace (a :: l) = false := by
  rw [← Bool.not_eq_true, isBlank_iff]
  exact fun h => by simp [h a (by simp)] at ha

/-- Only the end is trimmed off a line that does not begin with white space. -/
theorem trim_prefix {a : α} {l : List α} (ha : isSpace a = false) :
    ∃ t u, trim isSpace (a :: l) = a :: t ∧ l = t ++ u := by
  have hdrop : (a :: l).dropWhile isSpace = a :: l := by simp [ha]
  have hsuffix : ((a :: l).reverse.dropWhile isSpace) <:+ (a :: l).reverse :=
    List.dropWhile_suffix isSpace
  have hprefix : trim isSpace (a :: l) <+: a :: l := by
    rw [trim, hdrop]
    simpa using List.reverse_prefix.2 hsuffix
  have hne : trim isSpace (a :: l) ≠ [] := by
    have hblank : isBlank isSpace (a :: l) = false := isBlank_cons ha
    simpa [isBlank] using hblank
  obtain ⟨u, hu⟩ := hprefix
  obtain ⟨b, t, hbt⟩ := List.exists_cons_of_ne_nil hne
  rw [hbt] at hu ⊢
  obtain ⟨rfl, rfl⟩ := List.cons.inj hu
  exact ⟨t, u, rfl, rfl⟩

end Trim

/-! ## UTF-8 -/

/-- The bytes of a string. -/
def utf8 (s : List Char) : List UInt8 := s.flatMap String.utf8EncodeChar

/-- The string that the bytes encode, if they encode one. -/
def decodeUtf8 (bs : List UInt8) : Option (List Char) :=
  (String.fromUTF8? bs.toByteArray).map String.toList

theorem utf8_append (s t : List Char) : utf8 (s ++ t) = utf8 s ++ utf8 t :=
  List.flatMap_append

@[simp] theorem decodeUtf8_utf8 (s : List Char) : decodeUtf8 (utf8 s) = some s := by
  have h : (utf8 s).toByteArray = (String.ofList s).toByteArray := by
    rw [String.toByteArray_ofList]
    rfl
  rw [decodeUtf8, h, String.fromUTF8?, dif_pos (String.ofList s).isValidUTF8]
  exact congrArg some String.toList_ofList

theorem utf8_injective : Function.Injective utf8 := by
  intro s t h
  have := congrArg decodeUtf8 h
  simpa using this

/-- Encoded characters are read off the front of bytes. -/
theorem utf8EncodeChar_append_inj {c d : Char} {x y : List UInt8}
    (h : String.utf8EncodeChar c ++ x = String.utf8EncodeChar d ++ y) : c = d ∧ x = y := by
  have hdecode := congrArg (fun bs => ByteArray.utf8DecodeChar? bs.toByteArray 0) h
  simp only [List.toByteArray_append, ByteArray.utf8DecodeChar?_utf8EncodeChar_append,
    Option.some.injEq] at hdecode
  subst hdecode
  exact ⟨rfl, List.append_cancel_left h⟩

/-- Whole characters in front leave whole characters. -/
theorem utf8_append_eq {s t : List Char} {bs : List UInt8} (h : utf8 s ++ bs = utf8 t) :
    ∃ u, t = s ++ u ∧ bs = utf8 u := by
  induction s generalizing t with
  | nil => exact ⟨t, rfl, h⟩
  | cons c s ih =>
    have hne : String.utf8EncodeChar c ≠ [] := String.utf8EncodeChar_ne_nil
    cases t with
    | nil => simp [utf8, hne] at h
    | cons d t =>
      have hchars : String.utf8EncodeChar c ++ (utf8 s ++ bs) =
          String.utf8EncodeChar d ++ utf8 t := by simpa [utf8] using h
      obtain ⟨rfl, hrest⟩ := utf8EncodeChar_append_inj hchars
      obtain ⟨u, rfl, hu⟩ := ih hrest
      exact ⟨u, rfl, hu⟩

/-- Only what encodes a string is decoded. -/
theorem eq_utf8_of_decodeUtf8 {bs : List UInt8} {s : List Char} (h : decodeUtf8 bs = some s) :
    bs = utf8 s := by
  obtain ⟨str, hstr, rfl⟩ := Option.map_eq_some_iff.1 h
  unfold String.fromUTF8? at hstr
  split_ifs at hstr with hvalid
  obtain rfl := Option.some.inj hstr
  have hbytes : bs.toByteArray =
      (utf8 (String.fromUTF8 bs.toByteArray hvalid).toList).toByteArray := by
    have hlist := congrArg String.toByteArray
      (String.ofList_toList (s := String.fromUTF8 bs.toByteArray hvalid))
    rw [String.toByteArray_ofList] at hlist
    exact hlist.symm
  have hdata := congrArg ByteArray.data hbytes
  simpa using hdata
theorem le_toNat_or (a b : UInt8) : b.toNat ≤ (a ||| b).toNat := by
  rw [UInt8.toNat_or]
  exact Nat.right_le_or

/-- A byte below 128 in the encoding of a character is the character itself. -/
theorem toNat_of_mem_utf8EncodeChar {c : Char} {b : UInt8} (h : b ∈ String.utf8EncodeChar c)
    (hb : b.toNat < 128) : b.toNat = c.toNat := by
  have hbig : ∀ a m : UInt8, 128 ≤ m.toNat → b ≠ a ||| m := by
    rintro a m hm rfl
    have := le_toNat_or a m
    omega
  rcases c.utf8Size_eq with hs | hs | hs | hs
  · rw [String.utf8EncodeChar_eq_singleton hs, List.mem_singleton] at h
    have hc : c.toNat ≤ 127 := by
      simpa [Char.utf8Size_eq_one_iff, UInt32.le_iff_toNat_le] using hs
    subst h
    show c.toNat % 256 = c.toNat
    omega
  · rw [String.utf8EncodeChar_eq_cons_cons hs] at h
    simp only [List.mem_cons, List.not_mem_nil, or_false] at h
    rcases h with h | h <;> exact absurd h (hbig _ _ (by decide))
  · rw [String.utf8EncodeChar_eq_cons_cons_cons hs] at h
    simp only [List.mem_cons, List.not_mem_nil, or_false] at h
    rcases h with h | h | h <;> exact absurd h (hbig _ _ (by decide))
  · rw [String.utf8EncodeChar_eq_cons_cons_cons_cons hs] at h
    simp only [List.mem_cons, List.not_mem_nil, or_false] at h
    rcases h with h | h | h | h <;> exact absurd h (hbig _ _ (by decide))

/-- The newline byte only comes from the newline character. -/
theorem newline_not_mem_utf8 {s : List Char} (h : '\n' ∉ s) : (10 : UInt8) ∉ utf8 s := by
  intro hmem
  obtain ⟨c, hc, hb⟩ := List.mem_flatMap.1 hmem
  have hnat : c.toNat = 10 := (toNat_of_mem_utf8EncodeChar hb (by decide)).symm
  have hc' : c = '\n' := Char.ext (UInt32.toNat.inj hnat)
  exact h (hc' ▸ hc)

theorem utf8_newline : utf8 ['\n'] = [10] := by decide

/-! ## Lines of a UTF-8 file -/

/-- A line break of a byte file. -/
def isNewline (b : UInt8) : Bool := b == 10

/-- Remove the line break at the end of a piece, if there is one: a newline, or a carriage return
and a newline. -/
def stripNewline (l : List Char) : List Char :=
  if l.getLast? = some '\n' then
    let l := l.dropLast
    if l.getLast? = some '\r' then l.dropLast else l
  else l

/-- The bytes of a line and its newline. -/
def lineBytes (l : List Char) : List UInt8 := utf8 (l ++ ['\n'])

theorem lineBytes_eq (l : List Char) : lineBytes l = utf8 l ++ [10] := by
  rw [lineBytes, utf8_append, utf8_newline]

theorem terminated_lineBytes (l : List Char) : Terminated isNewline (lineBytes l) := by
  rw [lineBytes_eq]
  exact terminated_concat (by decide)

theorem splitInclusive_lineBytes {l : List Char} (h : '\n' ∉ l) :
    splitInclusive isNewline (lineBytes l) = [lineBytes l] := by
  rw [lineBytes_eq]
  refine splitInclusive_line (fun b hb => ?_) (by decide)
  have hb' : b ≠ 10 := fun h' => newline_not_mem_utf8 h (h' ▸ hb)
  simpa [isNewline] using hb'

theorem stripNewline_concat {l : List Char} (h : l.getLast? ≠ some '\r') :
    stripNewline (l ++ ['\n']) = l := by
  simp [stripNewline, h]

end Resilience
