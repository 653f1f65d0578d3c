import Resilience.Foundations.Json.Basic
import Mathlib.Data.List.TakeWhile
import Mathlib.Tactic.Common

/-!
# JSON text

Printing and parsing, over texts that are lists of character codes. How the contents of a string
and a number are written is left to a `Codec`, how they are read to a `Reader`; the structure (white
space, brackets, separators, the literals) is fixed here. `render` prints with or without a space
after each separator, and `parse` accepts white space wherever JSON does.

`parse_render`: when the reader reads what the codec writes, printed values are read back. Numbers
may come back as something else (`norm`), as where two numbers are written alike.
-/

namespace Resilience.Json

/-- A text, as the codes of its characters. -/
abbrev Text := List ℕ

/-- The codes of an ASCII string. -/
def ascii (s : String) : Text := s.toList.map Char.toNat

variable {σ ν ν' : Type}

/-! ## Printing -/

/-- How the contents of a string and a number are written. -/
structure Codec (σ ν : Type) where
  quote : σ → Text
  print : ν → Text

/-- Put `sep` between the texts. -/
def joined (sep : Text) : List Text → Text
  | [] => []
  | [t] => t
  | t :: u :: ts => t ++ sep ++ joined sep (u :: ts)

/-- A separator, with a space after it or not. -/
def separator (c : ℕ) (spaced : Bool) : Text := if spaced then [c, 0x20] else [c]

/-- A string between its quotation marks. -/
def quoted (C : Codec σ ν) (s : σ) : Text := 0x22 :: C.quote s ++ [0x22]

def render (C : Codec σ ν) (spaced : Bool) : Json σ ν → Text :=
  fold {
    null := ascii "null"
    bool := fun b => if b then ascii "true" else ascii "false"
    num := C.print
    str := quoted C
    arr := fun ts => 0x5B :: joined (separator 0x2C spaced) ts ++ [0x5D]
    obj := fun ms =>
      0x7B :: joined (separator 0x2C spaced)
        (ms.map fun m => quoted C m.1 ++ separator 0x3A spaced ++ m.2) ++ [0x7D] }

/-- The elements of an array as they are printed. -/
def renderElements (C : Codec σ ν) (spaced : Bool) (xs : List (Json σ ν)) : Text :=
  joined (separator 0x2C spaced) (xs.map (render C spaced))

/-- A member as it is printed. -/
def renderMember (C : Codec σ ν) (spaced : Bool) (m : σ × Json σ ν) : Text :=
  quoted C m.1 ++ separator 0x3A spaced ++ render C spaced m.2

/-- The members of an object as they are printed. -/
def renderMembers (C : Codec σ ν) (spaced : Bool) (ms : List (σ × Json σ ν)) : Text :=
  joined (separator 0x2C spaced) (ms.map (renderMember C spaced))

section Render

variable (C : Codec σ ν) (spaced : Bool)

@[simp] theorem render_arr (xs : List (Json σ ν)) :
    render C spaced (.arr xs) = 0x5B :: renderElements C spaced xs ++ [0x5D] := fold_arr _ xs

@[simp] theorem render_obj (ms : List (σ × Json σ ν)) :
    render C spaced (.obj ms) = 0x7B :: renderMembers C spaced ms ++ [0x7D] := by
  refine (fold_obj _ ms).trans ?_
  dsimp only
  rw [List.map_map]
  rfl

theorem renderElements_cons_cons (x y : Json σ ν) (xs : List (Json σ ν)) :
    renderElements C spaced (x :: y :: xs) =
      render C spaced x ++ (separator 0x2C spaced ++ renderElements C spaced (y :: xs)) :=
  List.append_assoc ..

theorem renderMembers_cons_cons (m n : σ × Json σ ν) (ms : List (σ × Json σ ν)) :
    renderMembers C spaced (m :: n :: ms) =
      renderMember C spaced m ++ (separator 0x2C spaced ++ renderMembers C spaced (n :: ms)) :=
  List.append_assoc ..

theorem exists_renderElements_eq (x : Json σ ν) (xs : List (Json σ ν)) :
    ∃ t, renderElements C spaced (x :: xs) = render C spaced x ++ t := by
  cases xs with
  | nil => exact ⟨[], (List.append_nil _).symm⟩
  | cons y xs => exact ⟨_, renderElements_cons_cons C spaced x y xs⟩

theorem exists_renderMembers_eq (m : σ × Json σ ν) (ms : List (σ × Json σ ν)) :
    ∃ t, renderMembers C spaced (m :: ms) = 0x22 :: t := by
  cases ms with
  | nil => exact ⟨_, rfl⟩
  | cons n ms => exact ⟨_, renderMembers_cons_cons C spaced m n ms⟩

theorem length_separator_pos (c : ℕ) : 0 < (separator c spaced).length := by
  cases spaced <;> exact Nat.zero_lt_succ _

end Render

/-! ## Parsing -/

/-- How the rest of a string, after its opening quotation mark, and a number are read. -/
structure Reader (σ ν : Type) where
  unquote : Text → Option (σ × Text)
  number : Text → Option ν

def isSpace (c : ℕ) : Bool := [0x20, 0x09, 0x0A, 0x0D].contains c

/-- The characters of a literal or a number: all but white space, quotation marks, brackets and
separators. -/
def isAtomChar (c : ℕ) : Bool :=
  !isSpace c && !(List.contains [0x22, 0x2C, 0x3A, 0x5B, 0x5D, 0x7B, 0x7D] c)

def skipSpace (s : Text) : Text := s.dropWhile isSpace

/-- Read a literal or a number. -/
def readAtom (number : Text → Option ν) (token : Text) : Option (Json σ ν) :=
  if token = ascii "null" then some .null
  else if token = ascii "true" then some (.bool true)
  else if token = ascii "false" then some (.bool false)
  else (number token).map .num

mutual

/-- Read a value; `fuel` bounds the depth of the recursion. -/
def parseValue (R : Reader σ ν) : ℕ → Text → Option (Json σ ν × Text)
  | 0, _ => none
  | fuel + 1, s =>
    match skipSpace s with
    | [] => none
    | c :: rest =>
      if c = 0x5B then
        if (skipSpace rest).head? = some 0x5D then some (.arr [], (skipSpace rest).tail)
        else (parseElements R fuel rest).map fun r => (.arr r.1, r.2)
      else if c = 0x7B then
        if (skipSpace rest).head? = some 0x7D then some (.obj [], (skipSpace rest).tail)
        else (parseMembers R fuel rest).map fun r => (.obj r.1, r.2)
      else if c = 0x22 then (R.unquote rest).map fun r => (.str r.1, r.2)
      else
        (readAtom R.number ((c :: rest).takeWhile isAtomChar)).map
          fun v => (v, (c :: rest).dropWhile isAtomChar)

/-- Read the elements of an array, up to the closing bracket. -/
def parseElements (R : Reader σ ν) : ℕ → Text → Option (List (Json σ ν) × Text)
  | 0, _ => none
  | fuel + 1, s =>
    match parseValue R fuel s with
    | none => none
    | some (x, s) =>
      match skipSpace s with
      | [] => none
      | c :: rest =>
        if c = 0x5D then some ([x], rest)
        else if c = 0x2C then (parseElements R fuel rest).map fun r => (x :: r.1, r.2)
        else none

/-- Read the members of an object, up to the closing bracket. -/
def parseMembers (R : Reader σ ν) : ℕ → Text → Option (List (σ × Json σ ν) × Text)
  | 0, _ => none
  | fuel + 1, s =>
    match skipSpace s with
    | [] => none
    | c :: rest =>
      if c = 0x22 then
        match R.unquote rest with
        | none => none
        | some (k, s) =>
          if (skipSpace s).head? = some 0x3A then
            match parseValue R fuel (skipSpace s).tail with
            | none => none
            | some (x, s) =>
              match skipSpace s with
              | [] => none
              | c :: rest =>
                if c = 0x7D then some ([(k, x)], rest)
                else if c = 0x2C then (parseMembers R fuel rest).map fun r => ((k, x) :: r.1, r.2)
                else none
          else none
      else none

end

/-- Read a text that holds one value, with white space around it. -/
def parse (R : Reader σ ν) (s : Text) : Option (Json σ ν) :=
  match parseValue R (2 * s.length + 1) s with
  | some (v, rest) => if skipSpace rest = [] then some v else none
  | none => none

theorem readAtom_ne_obj {number : Text → Option ν} {token : Text} {ms : List (σ × Json σ ν)} :
    readAtom number token ≠ some (.obj ms) := by
  unfold readAtom
  split_ifs <;> simp

/-- A text that is read as an object has an opening brace. -/
theorem brace_mem_of_parse {R : Reader σ ν} {s : Text} {ms : List (σ × Json σ ν)}
    (h : parse R s = some (.obj ms)) : 0x7B ∈ s := by
  have hsub : skipSpace s ⊆ s := (List.dropWhile_sublist _).subset
  obtain ⟨rest, hvalue⟩ : ∃ rest, parseValue R (2 * s.length + 1) s = some (.obj ms, rest) := by
    unfold parse at h
    split at h
    · rename_i v rest hv
      split_ifs at h
      exact ⟨rest, hv.trans (by rw [Option.some.inj h])⟩
    · cases h
  rw [parseValue] at hvalue
  cases hs : skipSpace s with
  | nil =>
    rw [hs] at hvalue
    cases hvalue
  | cons c t =>
    rw [hs] at hvalue hsub
    dsimp only at hvalue
    split_ifs at hvalue with hbracket _ hbrace
    · cases hvalue
    · obtain ⟨_, -, heq⟩ := Option.map_eq_some_iff.1 hvalue
      cases heq
    · exact hsub (by simp [hbrace])
    · exact hsub (by simp [hbrace])
    · obtain ⟨_, -, heq⟩ := Option.map_eq_some_iff.1 hvalue
      cases heq
    · obtain ⟨v, hatom, heq⟩ := Option.map_eq_some_iff.1 hvalue
      obtain rfl : v = .obj ms := congrArg Prod.fst heq
      exact absurd hatom readAtom_ne_obj

/-! ## What is printed is read back -/

/-- `R` reads what `C` writes; a number `n` is read as `norm n`. -/
structure Lawful (C : Codec σ ν) (R : Reader σ ν') (norm : ν → Json σ ν') : Prop where
  unquote_quote : ∀ s rest, R.unquote (C.quote s ++ 0x22 :: rest) = some (s, rest)
  readAtom_print : ∀ n, readAtom R.number (C.print n) = some (norm n)
  print_ne_nil : ∀ n, C.print n ≠ []
  isAtomChar_print : ∀ n, ∀ c ∈ C.print n, isAtomChar c = true

theorem skipSpace_cons {c : ℕ} {s : Text} (h : isSpace c = false) :
    skipSpace (c :: s) = c :: s := by
  simp [skipSpace, h]

theorem skipSpace_separator (c : ℕ) (spaced : Bool) (h : isSpace c = false) (s : Text) :
    ∃ s', skipSpace (separator c spaced ++ s) = c :: s' ∧ skipSpace s' = skipSpace s := by
  cases spaced with
  | false => exact ⟨s, skipSpace_cons h, rfl⟩
  | true => exact ⟨0x20 :: s, skipSpace_cons h, rfl⟩

/-- What may follow an atom. -/
def Ends (s : Text) : Prop := ∀ c ∈ s.head?, isAtomChar c = false

theorem ends_nil : Ends [] := nofun

theorem ends_cons {c : ℕ} {s : Text} (h : isAtomChar c = false) : Ends (c :: s) := by
  rintro d hd
  rw [← Option.mem_some_iff.1 hd]
  exact h

theorem ends_separator (spaced : Bool) (s : Text) : Ends (separator 0x2C spaced ++ s) := by
  cases spaced <;> exact ends_cons (by decide)

theorem isAtomChar_ne {c : ℕ} (h : isAtomChar c = true) :
    isSpace c = false ∧ c ≠ 0x5B ∧ c ≠ 0x7B ∧ c ≠ 0x22 := by
  refine ⟨?_, ?_, ?_, ?_⟩
  · unfold isAtomChar at h
    simpa using (Bool.and_eq_true_iff.1 h).1
  all_goals
    rintro rfl
    exact absurd h (by decide)

/-- An atom is read up to its end. -/
theorem parseValue_atom {R : Reader σ ν} {token rest : Text} {v : Json σ ν} (fuel : ℕ)
    (hv : readAtom R.number token = some v) (hne : token ≠ [])
    (hatom : ∀ c ∈ token, isAtomChar c = true) (hrest : Ends rest) :
    parseValue R (fuel + 1) (token ++ rest) = some (v, rest) := by
  have htake : (token ++ rest).takeWhile isAtomChar = token := by
    rw [List.takeWhile_append_of_pos hatom]
    cases rest with
    | nil => simp
    | cons d rest => simp [hrest d rfl]
  have hdrop : (token ++ rest).dropWhile isAtomChar = rest := by
    rw [List.dropWhile_append_of_pos hatom]
    cases rest with
    | nil => rfl
    | cons d rest => simp [hrest d rfl]
  cases token with
  | nil => exact absurd rfl hne
  | cons c token =>
    obtain ⟨hspace, h₁, h₂, h₃⟩ := isAtomChar_ne (hatom c (by simp))
    rw [List.cons_append] at htake hdrop ⊢
    rw [parseValue, skipSpace_cons hspace]
    simp only [if_neg h₁, if_neg h₂, if_neg h₃]
    rw [htake, hdrop, hv]
    rfl

theorem parseValue_congr {R : Reader σ ν} {s s' : Text} (h : skipSpace s = skipSpace s')
    (fuel : ℕ) : parseValue R fuel s = parseValue R fuel s' := by
  cases fuel with
  | zero => rfl
  | succ fuel => rw [parseValue, parseValue, h]

theorem parseElements_congr {R : Reader σ ν} {s s' : Text} (h : skipSpace s = skipSpace s')
    (fuel : ℕ) : parseElements R fuel s = parseElements R fuel s' := by
  cases fuel with
  | zero => rfl
  | succ fuel => rw [parseElements, parseElements, parseValue_congr h]

theorem parseMembers_congr {R : Reader σ ν} {s s' : Text} (h : skipSpace s = skipSpace s')
    (fuel : ℕ) : parseMembers R fuel s = parseMembers R fuel s' := by
  cases fuel with
  | zero => rfl
  | succ fuel => rw [parseMembers, parseMembers, h]

theorem parseValue_str {R : Reader σ ν} {fuel : ℕ} {s rest : Text} {t : σ}
    (h : R.unquote s = some (t, rest)) :
    parseValue R (fuel + 1) (0x22 :: s) = some (.str t, rest) := by
  simp [parseValue, skipSpace_cons (show isSpace 0x22 = false by decide), h]

theorem parseValue_arr_nil (R : Reader σ ν) (fuel : ℕ) (rest : Text) :
    parseValue R (fuel + 1) (0x5B :: 0x5D :: rest) = some (.arr [], rest) := by
  simp [parseValue, skipSpace_cons (show isSpace 0x5B = false by decide),
    skipSpace_cons (show isSpace 0x5D = false by decide)]

theorem parseValue_arr {R : Reader σ ν} {fuel : ℕ} {s rest : Text} {xs : List (Json σ ν)}
    (hs : (skipSpace s).head? ≠ some 0x5D) (h : parseElements R fuel s = some (xs, rest)) :
    parseValue R (fuel + 1) (0x5B :: s) = some (.arr xs, rest) := by
  simp [parseValue, skipSpace_cons (show isSpace 0x5B = false by decide), hs, h]

theorem parseValue_obj_nil (R : Reader σ ν) (fuel : ℕ) (rest : Text) :
    parseValue R (fuel + 1) (0x7B :: 0x7D :: rest) = some (.obj [], rest) := by
  simp [parseValue, skipSpace_cons (show isSpace 0x7B = false by decide),
    skipSpace_cons (show isSpace 0x7D = false by decide)]

theorem parseValue_obj {R : Reader σ ν} {fuel : ℕ} {s rest : Text} {ms : List (σ × Json σ ν)}
    (hs : (skipSpace s).head? ≠ some 0x7D) (h : parseMembers R fuel s = some (ms, rest)) :
    parseValue R (fuel + 1) (0x7B :: s) = some (.obj ms, rest) := by
  simp [parseValue, skipSpace_cons (show isSpace 0x7B = false by decide), hs, h]

theorem parseElements_last {R : Reader σ ν} {fuel : ℕ} {s t rest : Text} {x : Json σ ν}
    (hx : parseValue R fuel s = some (x, t)) (ht : skipSpace t = 0x5D :: rest) :
    parseElements R (fuel + 1) s = some ([x], rest) := by
  simp [parseElements, hx, ht]

theorem parseElements_more {R : Reader σ ν} {fuel : ℕ} {s t u rest : Text} {x : Json σ ν}
    {xs : List (Json σ ν)} (hx : parseValue R fuel s = some (x, t)) (ht : skipSpace t = 0x2C :: u)
    (hxs : parseElements R fuel u = some (xs, rest)) :
    parseElements R (fuel + 1) s = some (x :: xs, rest) := by
  simp [parseElements, hx, ht, hxs]

/-- One member of an object, read from `s`; `t` is what follows it. -/
structure ReadsMember (R : Reader σ ν) (fuel : ℕ) (s : Text) (k : σ) (x : Json σ ν) (t : Text) :
    Prop where
  read : ∃ s₁ s₂, skipSpace s = 0x22 :: s₁ ∧ R.unquote s₁ = some (k, s₂) ∧
    (skipSpace s₂).head? = some 0x3A ∧ parseValue R fuel (skipSpace s₂).tail = some (x, t)

theorem ReadsMember.last {R : Reader σ ν} {fuel : ℕ} {s t rest : Text} {k : σ} {x : Json σ ν}
    (h : ReadsMember R fuel s k x t) (ht : skipSpace t = 0x7D :: rest) :
    parseMembers R (fuel + 1) s = some ([(k, x)], rest) := by
  obtain ⟨s₁, s₂, h₁, h₂, h₃, h₄⟩ := h.read
  simp [parseMembers, h₁, h₂, h₃, h₄, ht]

theorem ReadsMember.more {R : Reader σ ν} {fuel : ℕ} {s t u rest : Text} {k : σ} {x : Json σ ν}
    {ms : List (σ × Json σ ν)} (h : ReadsMember R fuel s k x t) (ht : skipSpace t = 0x2C :: u)
    (hms : parseMembers R fuel u = some (ms, rest)) :
    parseMembers R (fuel + 1) s = some ((k, x) :: ms, rest) := by
  obtain ⟨s₁, s₂, h₁, h₂, h₃, h₄⟩ := h.read
  simp [parseMembers, h₁, h₂, h₃, h₄, ht, hms]

section Lawful

variable {C : Codec σ ν} {R : Reader σ ν'} {norm : ν → Json σ ν'} (L : Lawful C R norm)
include L

/-- A printed value begins with a character that is neither white space nor a closing bracket. -/
theorem Lawful.render_eq_cons (spaced : Bool) (v : Json σ ν) :
    ∃ c t, render C spaced v = c :: t ∧ isSpace c = false ∧ c ≠ 0x5D := by
  cases v with
  | null => exact ⟨_, _, rfl, by decide, by decide⟩
  | bool b => cases b <;> exact ⟨_, _, rfl, by decide, by decide⟩
  | str s => exact ⟨_, _, rfl, by decide, by decide⟩
  | arr xs => exact ⟨_, _, render_arr C spaced xs, by decide, by decide⟩
  | obj ms => exact ⟨_, _, render_obj C spaced ms, by decide, by decide⟩
  | num n =>
    obtain ⟨c, t, hct⟩ := List.exists_cons_of_ne_nil (L.print_ne_nil n)
    have hc : isAtomChar c = true := L.isAtomChar_print n c (by simp [hct])
    refine ⟨c, t, hct, (isAtomChar_ne hc).1, ?_⟩
    rintro rfl
    exact absurd hc (by decide)

theorem Lawful.length_render_pos (spaced : Bool) (v : Json σ ν) :
    0 < (render C spaced v).length := by
  obtain ⟨c, t, hct, -⟩ := L.render_eq_cons spaced v
  simp [hct]

omit L in
/-- `v`, printed and followed by something else, is read back, given enough fuel. -/
def ReadsBack (C : Codec σ ν) (R : Reader σ ν') (norm : ν → Json σ ν') (spaced : Bool)
    (v : Json σ ν) : Prop :=
  ∀ fuel rest, 2 * (render C spaced v).length ≤ fuel → Ends rest →
    parseValue R fuel (render C spaced v ++ rest) = some (transform id norm id v, rest)

theorem Lawful.readsBack_atom {spaced : Bool} {v : Json σ ν}
    (hread : readAtom R.number (render C spaced v) = some (transform id norm id v))
    (hatom : ∀ c ∈ render C spaced v, isAtomChar c = true) : ReadsBack C R norm spaced v := by
  intro fuel rest hfuel hrest
  have hpos := L.length_render_pos spaced v
  obtain ⟨fuel, rfl⟩ := Nat.exists_eq_add_of_le' (show 1 ≤ fuel by omega)
  exact parseValue_atom fuel hread (List.ne_nil_of_length_pos hpos) hatom hrest

omit L in
theorem parseElements_render {spaced : Bool} {x : Json σ ν} {xs : List (Json σ ν)}
    (h : ∀ y ∈ x :: xs, ReadsBack C R norm spaced y) {fuel : ℕ} {rest : Text}
    (hfuel : 2 * (renderElements C spaced (x :: xs)).length + 1 ≤ fuel) :
    parseElements R fuel (renderElements C spaced (x :: xs) ++ 0x5D :: rest) =
      some ((x :: xs).map (transform id norm id), rest) := by
  obtain ⟨fuel, rfl⟩ := Nat.exists_eq_add_of_le' (show 1 ≤ fuel by omega)
  have hx := h x (by simp)
  induction xs generalizing x fuel with
  | nil =>
    have hx := hx fuel (0x5D :: rest) (Nat.le_of_add_le_add_right hfuel) (ends_cons (by decide))
    exact parseElements_last hx (skipSpace_cons (by decide))
  | cons y ys ih =>
    rw [renderElements_cons_cons, List.length_append, List.length_append] at hfuel
    have hsep := length_separator_pos spaced 0x2C
    rw [renderElements_cons_cons, List.append_assoc, List.append_assoc]
    have hx := hx fuel
      (separator 0x2C spaced ++ (renderElements C spaced (y :: ys) ++ 0x5D :: rest)) (by omega)
      (ends_separator spaced _)
    obtain ⟨u, hu, hu'⟩ := skipSpace_separator 0x2C spaced (by decide)
      (renderElements C spaced (y :: ys) ++ 0x5D :: rest)
    obtain ⟨fuel, rfl⟩ := Nat.exists_eq_add_of_le' (show 1 ≤ fuel by omega)
    have hys := ih (fun z hz => h z (List.mem_cons_of_mem _ hz)) fuel (by omega) (h y (by simp))
    exact parseElements_more hx hu ((parseElements_congr hu' _).trans hys)

/-- A printed member is read back. -/
theorem Lawful.readsMember {spaced : Bool} {m : σ × Json σ ν} (h : ReadsBack C R norm spaced m.2)
    (fuel : ℕ) (rest : Text) (hfuel : 2 * (renderMember C spaced m).length ≤ fuel)
    (hrest : Ends rest) :
    ReadsMember R fuel (renderMember C spaced m ++ rest) m.1 (transform id norm id m.2) rest := by
  obtain ⟨u, hu, hu'⟩ := skipSpace_separator 0x3A spaced (by decide)
    (render C spaced m.2 ++ rest)
  rw [renderMember, List.length_append] at hfuel
  refine ⟨C.quote m.1 ++ 0x22 :: (separator 0x3A spaced ++ (render C spaced m.2 ++ rest)),
    separator 0x3A spaced ++ (render C spaced m.2 ++ rest), ?_, L.unquote_quote _ _, ?_, ?_⟩
  · rw [renderMember, quoted]
    simp only [List.cons_append, List.append_assoc, List.nil_append]
    exact skipSpace_cons (by decide)
  · rw [hu]
    rfl
  · rw [hu, List.tail_cons, parseValue_congr hu']
    exact h fuel rest (by omega) hrest

theorem Lawful.parseMembers_render {spaced : Bool} {m : σ × Json σ ν} {ms : List (σ × Json σ ν)}
    (h : ∀ n ∈ m :: ms, ReadsBack C R norm spaced n.2) {fuel : ℕ} {rest : Text}
    (hfuel : 2 * (renderMembers C spaced (m :: ms)).length + 1 ≤ fuel) :
    parseMembers R fuel (renderMembers C spaced (m :: ms) ++ 0x7D :: rest) =
      some ((m :: ms).map fun n => (n.1, transform id norm id n.2), rest) := by
  obtain ⟨fuel, rfl⟩ := Nat.exists_eq_add_of_le' (show 1 ≤ fuel by omega)
  have hm := h m (by simp)
  induction ms generalizing m fuel with
  | nil =>
    have hm := L.readsMember hm fuel (0x7D :: rest) (Nat.le_of_add_le_add_right hfuel)
      (ends_cons (by decide))
    exact hm.last (skipSpace_cons (by decide))
  | cons n ns ih =>
    rw [renderMembers_cons_cons, List.length_append, List.length_append] at hfuel
    have hsep := length_separator_pos spaced 0x2C
    rw [renderMembers_cons_cons, List.append_assoc, List.append_assoc]
    have hm := L.readsMember hm fuel
      (separator 0x2C spaced ++ (renderMembers C spaced (n :: ns) ++ 0x7D :: rest)) (by omega)
      (ends_separator spaced _)
    obtain ⟨u, hu, hu'⟩ := skipSpace_separator 0x2C spaced (by decide)
      (renderMembers C spaced (n :: ns) ++ 0x7D :: rest)
    obtain ⟨fuel, rfl⟩ := Nat.exists_eq_add_of_le' (show 1 ≤ fuel by omega)
    have hns := ih (fun z hz => h z (List.mem_cons_of_mem _ hz)) fuel (by omega) (h n (by simp))
    exact hm.more hu ((parseMembers_congr hu' _).trans hns)

theorem Lawful.readsBack (spaced : Bool) (v : Json σ ν) : ReadsBack C R norm spaced v := by
  induction v using ind with
  | null => exact L.readsBack_atom rfl (show ∀ c ∈ ascii "null", _ by decide)
  | bool b =>
    cases b
    · exact L.readsBack_atom rfl (show ∀ c ∈ ascii "false", _ by decide)
    · exact L.readsBack_atom rfl (show ∀ c ∈ ascii "true", _ by decide)
  | num n => exact L.readsBack_atom (L.readAtom_print n) (L.isAtomChar_print n)
  | str s =>
    intro fuel rest hfuel _
    have hpos := L.length_render_pos spaced (.str s)
    obtain ⟨fuel, rfl⟩ := Nat.exists_eq_add_of_le' (show 1 ≤ fuel by omega)
    show parseValue R (fuel + 1) (0x22 :: (C.quote s ++ [0x22] ++ rest)) = _
    rw [List.append_assoc]
    exact parseValue_str (L.unquote_quote s rest)
  | arr xs ih =>
    intro fuel rest hfuel _
    rw [render_arr, List.length_append, List.length_cons, List.length_singleton] at hfuel
    obtain ⟨fuel, rfl⟩ := Nat.exists_eq_add_of_le' (show 1 ≤ fuel by omega)
    rw [render_arr, List.append_assoc, List.cons_append, transform_arr]
    cases xs with
    | nil => exact parseValue_arr_nil R fuel rest
    | cons x xs =>
      apply parseValue_arr
      · obtain ⟨c, t, hct, hc, hc'⟩ := L.render_eq_cons spaced x
        obtain ⟨t', ht'⟩ := exists_renderElements_eq C spaced x xs
        rw [ht', hct, List.cons_append, List.cons_append, skipSpace_cons hc]
        simpa using hc'
      · exact parseElements_render ih (by omega)
  | obj ms ih =>
    intro fuel rest hfuel _
    rw [render_obj, List.length_append, List.length_cons, List.length_singleton] at hfuel
    obtain ⟨fuel, rfl⟩ := Nat.exists_eq_add_of_le' (show 1 ≤ fuel by omega)
    rw [render_obj, List.append_assoc, List.cons_append, transform_obj]
    cases ms with
    | nil => exact parseValue_obj_nil R fuel rest
    | cons m ms =>
      apply parseValue_obj
      · obtain ⟨t', ht'⟩ := exists_renderMembers_eq C spaced m ms
        rw [ht', List.cons_append, skipSpace_cons (by decide)]
        simp
      · exact L.parseMembers_render ih (by omega)

/-- **What is printed is read back.** -/
theorem Lawful.parse_render (spaced : Bool) (v : Json σ ν) :
    parse R (render C spaced v) = some (transform id norm id v) := by
  have h := L.readsBack spaced v (2 * (render C spaced v).length + 1) [] (Nat.le_succ _) ends_nil
  rw [List.append_nil] at h
  simp [parse, h, skipSpace]

end Lawful

theorem transform_id (v : Json σ ν) : transform id .num id v = v := by
  have h : Within (fun _ => True) (fun _ => True) v := by
    induction v using ind with
    | arr xs ih => exact (within_arr xs).2 ih
    | obj ms ih => exact (within_obj ms).2 ⟨trivial, fun m hm => ⟨trivial, ih m hm⟩⟩
    | _ => trivial
  exact h.transform_eq_self fun _ _ => rfl

theorem Lawful.render_injective {C : Codec σ ν} {R : Reader σ ν} (L : Lawful C R .num)
    (spaced : Bool) : Function.Injective (render C spaced) := by
  intro v w h
  have hparse := L.parse_render spaced v
  rw [h, L.parse_render, transform_id, transform_id] at hparse
  exact (Option.some.inj hparse).symm

/-! ## Characters of a printed value -/

theorem mem_joined_of_mem {sep : Text} {ts : List Text} {t : Text} {c : ℕ} (ht : t ∈ ts)
    (hc : c ∈ t) : c ∈ joined sep ts := by
  fun_induction joined sep ts with
  | case1 => exact absurd ht List.not_mem_nil
  | case2 u =>
    rw [List.mem_singleton] at ht
    exact ht ▸ hc
  | case3 u u' ts ih =>
    rw [List.mem_append, List.mem_append]
    rcases List.mem_cons.1 ht with rfl | ht
    · exact .inl (.inl hc)
    · exact .inr (ih ht)

/-- The characters of the syntax: brackets, separators, quotation marks and the literals. -/
def syntaxChars (spaced : Bool) : Text :=
  ascii "nulltruefalse" ++ ascii "[]\x7b\x7d\"" ++ separator 0x2C spaced ++ separator 0x3A spaced

/-- What holds of strings, numbers and syntax, and of texts put together, holds of a printed
value. -/
theorem closed_render {C : Codec σ ν} {spaced : Bool} {Q : Text → Prop} (hnil : Q [])
    (happend : ∀ s t, Q s → Q t → Q (s ++ t)) (hquote : ∀ s, Q (C.quote s))
    (hprint : ∀ n, Q (C.print n)) (hpunct : ∀ c ∈ syntaxChars spaced, Q [c]) (v : Json σ ν) :
    Q (render C spaced v) := by
  have hsyn : ∀ t : Text, t ⊆ syntaxChars spaced → Q t := by
    intro t ht
    induction t with
    | nil => exact hnil
    | cons c t ih =>
      obtain ⟨hc, ht⟩ := List.cons_subset.1 ht
      exact happend [c] t (hpunct c hc) (ih ht)
  have hbetween : ∀ s t u, s ⊆ syntaxChars spaced → u ⊆ syntaxChars spaced → Q t →
      Q (s ++ t ++ u) :=
    fun s t u hs hu ht => happend _ _ (happend _ _ (hsyn s hs) ht) (hsyn u hu)
  have hquoted : ∀ s, Q (quoted C s) := fun s =>
    hbetween [0x22] _ [0x22] (by cases spaced <;> decide) (by cases spaced <;> decide) (hquote s)
  have hjoined : ∀ ts : List Text, (∀ t ∈ ts, Q t) → Q (joined (separator 0x2C spaced) ts) := by
    intro ts hts
    fun_induction joined (separator 0x2C spaced) ts with
    | case1 => exact hnil
    | case2 t => exact hts t (by simp)
    | case3 t u ts ih =>
      have hsep := hsyn (separator 0x2C spaced) (by cases spaced <;> decide)
      have hrest := ih fun t' ht' => hts t' (List.mem_cons_of_mem _ ht')
      exact happend _ _ (happend _ _ (hts t (by simp)) hsep) hrest
  induction v using ind with
  | null => exact hsyn (ascii "null") (by cases spaced <;> decide)
  | bool b =>
    cases b
    · exact hsyn (ascii "false") (by cases spaced <;> decide)
    · exact hsyn (ascii "true") (by cases spaced <;> decide)
  | num n => exact hprint n
  | str s => exact hquoted s
  | arr xs ih =>
    rw [render_arr]
    refine hbetween [0x5B] _ [0x5D] (by cases spaced <;> decide) (by cases spaced <;> decide) ?_
    refine hjoined _ fun t ht => ?_
    obtain ⟨x, hx, rfl⟩ := List.mem_map.1 ht
    exact ih x hx
  | obj ms ih =>
    rw [render_obj]
    refine hbetween [0x7B] _ [0x7D] (by cases spaced <;> decide) (by cases spaced <;> decide) ?_
    refine hjoined _ fun t ht => ?_
    obtain ⟨m, hm, rfl⟩ := List.mem_map.1 ht
    have hsep := hsyn (separator 0x3A spaced) (by cases spaced <;> decide)
    exact happend _ _ (happend _ _ (hquoted m.1) hsep) (ih m hm)

/-- A character of a printed value comes from a string, a number or the syntax. -/
theorem forall_mem_render {C : Codec σ ν} {spaced : Bool} {P : ℕ → Prop}
    (hquote : ∀ s, ∀ c ∈ C.quote s, P c) (hprint : ∀ n, ∀ c ∈ C.print n, P c)
    (hpunct : ∀ c ∈ syntaxChars spaced, P c) (v : Json σ ν) : ∀ c ∈ render C spaced v, P c := by
  apply closed_render (Q := fun t => ∀ c ∈ t, P c)
  · exact fun c hc => absurd hc List.not_mem_nil
  · intro s t hs ht c hc
    exact (List.mem_append.1 hc).elim (hs c) (ht c)
  · exact hquote
  · exact hprint
  · intro c hc c' hc'
    exact List.mem_singleton.1 hc' ▸ hpunct c hc

/-- Every string of a value occurs in its text. -/
theorem within_of_forall_mem_render {C : Codec σ ν} {spaced : Bool} {P : ℕ → Prop} {v : Json σ ν}
    (h : ∀ c ∈ render C spaced v, P c) :
    Within (fun s => ∀ c ∈ C.quote s, P c) (fun _ => True) v := by
  have hquoted : ∀ s, (∀ c ∈ quoted C s, P c) → ∀ c ∈ C.quote s, P c := by
    intro s hs c hc
    exact hs c (List.mem_append_left _ (List.mem_cons_of_mem _ hc))
  induction v using ind with
  | null => trivial
  | bool b => trivial
  | num n => trivial
  | str s => exact hquoted s h
  | arr xs ih =>
    refine (within_arr xs).2 fun x hx => ih x hx fun c hc => h c ?_
    rw [render_arr, List.mem_append, List.mem_cons]
    exact .inl (.inr (mem_joined_of_mem (List.mem_map_of_mem hx) hc))
  | obj ms ih =>
    refine (within_obj ms).2 ⟨trivial, fun m hm => ?_⟩
    have hm' : ∀ c ∈ renderMember C spaced m, P c := by
      intro c hc
      apply h
      rw [render_obj, List.mem_append, List.mem_cons]
      exact .inl (.inr (mem_joined_of_mem (List.mem_map_of_mem hm) hc))
    refine ⟨hquoted m.1 fun c hc => hm' c ?_, ih m hm fun c hc => hm' c ?_⟩
    · exact List.mem_append_left _ (List.mem_append_left _ hc)
    · exact List.mem_append_right _ hc

/-- Values that correspond print alike, where their strings and numbers are written alike. -/
theorem render_transform {σ' : Type} {C : Codec σ ν} {C' : Codec σ' ν'} {spaced : Bool} {g : σ → σ'}
    {f : ν → Json σ' ν'} {q : σ → Prop} {p : List σ → Prop}
    (hquote : ∀ s, q s → C'.quote (g s) = C.quote s)
    (hprint : ∀ n, render C' spaced (f n) = C.print n) {v : Json σ ν} (h : Within q p v) :
    render C' spaced (transform g f id v) = render C spaced v := by
  induction v using ind with
  | null => rfl
  | bool b => rfl
  | num n => exact hprint n
  | str s => exact congrArg (fun t => 0x22 :: t ++ [0x22]) (hquote s h)
  | arr xs ih =>
    rw [within_arr] at h
    have hxs : (xs.map (transform g f id)).map (render C' spaced) = xs.map (render C spaced) := by
      rw [List.map_map]
      exact List.map_congr_left fun x hx => ih x hx (h x hx)
    rw [transform_arr, render_arr, render_arr, renderElements, renderElements, hxs]
  | obj ms ih =>
    rw [within_obj] at h
    have hms : (ms.map fun m => (g m.1, transform g f id m.2)).map (renderMember C' spaced) =
        ms.map (renderMember C spaced) := by
      rw [List.map_map]
      refine List.map_congr_left fun m hm => ?_
      show quoted C' (g m.1) ++ separator 0x3A spaced ++ render C' spaced _ = _
      rw [ih m hm (h.2 m hm).2, quoted, hquote m.1 (h.2 m hm).1]
      rfl
    rw [transform_obj, render_obj, render_obj, renderMembers, renderMembers, id, hms]

end Resilience.Json
