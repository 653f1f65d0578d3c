import Resilience.Foundations.Json.Escape

/-!
# Torn texts

A reader that stops where a value ends reads the same value when more text follows
(`Stable`, `stable_parse`). So an object whose text is cut off is not read as another value:
no proper prefix of a printed object parses (`Lawful.parse_eq_none_of_torn`).
-/

namespace Resilience.Json

variable {σ ν ν' : Type}

/-- What is read from the front is read with more behind it. -/
def Stable {α : Type} (read : Text → Option (α × Text)) : Prop :=
  ∀ s a rest u, read s = some (a, rest) → read (s ++ u) = some (a, rest ++ u)

/-! ## Strings -/

theorem stable_readHex4 : Stable readHex4 := by
  intro s n rest u h
  match s with
  | [] | [_] | [_, _] | [_, _, _] => cases h
  | a :: b :: c :: d :: s =>
    simp only [readHex4, List.cons_append, Option.bind_eq_bind, Option.bind_eq_some_iff,
      Option.pure_def, Option.some.injEq, Prod.mk.injEq] at h ⊢
    obtain ⟨a', ha, b', hb, c', hc, d', hd, rfl, rfl⟩ := h
    exact ⟨a', ha, b', hb, c', hc, d', hd, rfl, rfl⟩

theorem stable_readChar : Stable readChar := by
  intro s us rest u h
  cases s with
  | nil => cases h
  | cons c s =>
    simp only [List.cons_append, readChar] at h ⊢
    by_cases hescape : c = 0x5C
    · rw [if_pos hescape] at h ⊢
      cases s with
      | nil => cases h
      | cons e s =>
        simp only [List.cons_append] at h ⊢
        by_cases hunicode : e = 0x75
        · rw [if_pos hunicode] at h ⊢
          obtain ⟨⟨n, t⟩, hn, heq⟩ := Option.map_eq_some_iff.1 h
          cases heq
          rw [stable_readHex4 _ _ _ u hn]
          rfl
        · rw [if_neg hunicode] at h ⊢
          obtain ⟨n, hn, heq⟩ := Option.map_eq_some_iff.1 h
          cases heq
          rw [hn]
          rfl
    · rw [if_neg hescape] at h ⊢
      split_ifs at h ⊢
      cases h
      rfl

theorem readChars_append {fuel m : ℕ} (hm : fuel ≤ m) {s cs rest : Text} (u : Text)
    (h : readChars fuel s = some (cs, rest)) : readChars m (s ++ u) = some (cs, rest ++ u) := by
  induction fuel generalizing m s cs with
  | zero => cases h
  | succ fuel ih =>
    obtain ⟨m, rfl⟩ := Nat.exists_eq_add_of_le' (show 1 ≤ m by omega)
    cases s with
    | nil => cases h
    | cons c s =>
      rw [List.cons_append, readChars]
      rw [readChars] at h
      by_cases hquote : c = 0x22
      · subst hquote
        rw [List.head?_cons, if_pos rfl] at h ⊢
        cases h
        rfl
      · have hhead : some c ≠ some 0x22 := by simpa using hquote
        rw [List.head?_cons, if_neg hhead] at h ⊢
        cases hchar : readChar (c :: s) with
        | none =>
          rw [hchar] at h
          cases h
        | some r =>
          obtain ⟨us, t⟩ := r
          rw [hchar] at h
          obtain ⟨⟨cs', t'⟩, hrest, heq⟩ := Option.map_eq_some_iff.1 h
          cases heq
          have hchar' := stable_readChar _ _ _ u hchar
          rw [List.cons_append] at hchar'
          rw [hchar']
          dsimp only
          rw [ih (by omega) hrest]
          rfl

theorem stable_unquote : Stable unquote := by
  intro s us rest u h
  obtain ⟨⟨cs, t⟩, hchars, heq⟩ := Option.map_eq_some_iff.1 h
  cases heq
  rw [unquote, readChars_append (by simp) u hchars]
  rfl

/-! ## Values -/

theorem skipSpace_append {s : Text} (h : skipSpace s ≠ []) (u : Text) :
    skipSpace (s ++ u) = skipSpace s ++ u := by
  rw [skipSpace, List.dropWhile_append, if_neg]
  · rfl
  · simpa [skipSpace] using h

theorem skipSpace_append_cons {s t : Text} {c : ℕ} (h : skipSpace s = c :: t) (u : Text) :
    skipSpace (s ++ u) = c :: (t ++ u) := by
  rw [skipSpace_append (by simp [h]), h, List.cons_append]

theorem head?_skipSpace_append {s : Text} (h : skipSpace s ≠ []) (u : Text) :
    (skipSpace (s ++ u)).head? = (skipSpace s).head? ∧
      (skipSpace (s ++ u)).tail = (skipSpace s).tail ++ u := by
  obtain ⟨c, t, ht⟩ := List.exists_cons_of_ne_nil h
  rw [skipSpace_append_cons ht, ht]
  exact ⟨rfl, rfl⟩

theorem skipSpace_ne_nil_of_head? {s : Text} {c : ℕ} (h : (skipSpace s).head? = some c) :
    skipSpace s ≠ [] := by
  intro hnil
  simp [hnil] at h

variable {R : Reader σ ν}

theorem skipSpace_ne_nil_of_elements {fuel : ℕ} {s rest : Text} {xs : List (Json σ ν)}
    (h : parseElements R fuel s = some (xs, rest)) : skipSpace s ≠ [] := by
  intro hnil
  cases fuel with
  | zero => cases h
  | succ fuel =>
    rw [parseElements] at h
    cases fuel with
    | zero => cases h
    | succ fuel =>
      rw [parseValue, hnil] at h
      cases h

theorem skipSpace_ne_nil_of_members {fuel : ℕ} {s rest : Text} {ms : List (σ × Json σ ν)}
    (h : parseMembers R fuel s = some (ms, rest)) : skipSpace s ≠ [] := by
  intro hnil
  cases fuel with
  | zero => cases h
  | succ fuel =>
    rw [parseMembers, hnil] at h
    cases h

theorem takeWhile_append_atom {s u : Text} (h : s.dropWhile isAtomChar ≠ []) :
    (s ++ u).takeWhile isAtomChar = s.takeWhile isAtomChar ∧
      (s ++ u).dropWhile isAtomChar = s.dropWhile isAtomChar ++ u := by
  constructor
  · rw [List.takeWhile_append, if_neg]
    intro hlength
    apply h
    have hall := List.takeWhile_append_dropWhile (p := isAtomChar) (l := s)
    have hsum := congrArg List.length hall
    rw [List.length_append] at hsum
    exact List.eq_nil_of_length_eq_zero (by omega)
  · rw [List.dropWhile_append, if_neg]
    simpa using h

/-- A value that is followed by something, or an object, is read alike with more behind it. -/
def StableValue (R : Reader σ ν) (fuel : ℕ) : Prop :=
  ∀ s v rest, parseValue R fuel s = some (v, rest) →
    rest ≠ [] ∨ (skipSpace s).head? = some 0x7B → ∀ m u, fuel ≤ m →
      parseValue R m (s ++ u) = some (v, rest ++ u)

def StableElements (R : Reader σ ν) (fuel : ℕ) : Prop :=
  ∀ s xs rest, parseElements R fuel s = some (xs, rest) → ∀ m u, fuel ≤ m →
    parseElements R m (s ++ u) = some (xs, rest ++ u)

def StableMembers (R : Reader σ ν) (fuel : ℕ) : Prop :=
  ∀ s ms rest, parseMembers R fuel s = some (ms, rest) → ∀ m u, fuel ≤ m →
    parseMembers R m (s ++ u) = some (ms, rest ++ u)

theorem stableValue_succ (hR : Stable R.unquote) {fuel : ℕ} (ihElements : StableElements R fuel)
    (ihMembers : StableMembers R fuel) : StableValue R (fuel + 1) := by
  intro s v rest h hends m u hm
  obtain ⟨m, rfl⟩ := Nat.exists_eq_add_of_le' (show 1 ≤ m by omega)
  rw [parseValue] at h ⊢
  cases hs : skipSpace s with
  | nil =>
    rw [hs] at h
    cases h
  | cons c t =>
    rw [hs] at h hends
    rw [skipSpace_append_cons hs]
    dsimp only at h ⊢
    by_cases hbracket : c = 0x5B
    · rw [if_pos hbracket] at h ⊢
      by_cases hclose : (skipSpace t).head? = some 0x5D
      · obtain ⟨hhead, htail⟩ := head?_skipSpace_append (skipSpace_ne_nil_of_head? hclose) u
        rw [if_pos hclose] at h
        rw [hhead, if_pos hclose, htail]
        cases h
        rfl
      · rw [if_neg hclose] at h
        obtain ⟨⟨xs, t'⟩, hxs, heq⟩ := Option.map_eq_some_iff.1 h
        cases heq
        obtain ⟨hhead, -⟩ := head?_skipSpace_append (skipSpace_ne_nil_of_elements hxs) u
        rw [hhead, if_neg hclose, ihElements _ _ _ hxs m u (by omega)]
        rfl
    rw [if_neg hbracket] at h ⊢
    by_cases hbrace : c = 0x7B
    · rw [if_pos hbrace] at h ⊢
      by_cases hclose : (skipSpace t).head? = some 0x7D
      · obtain ⟨hhead, htail⟩ := head?_skipSpace_append (skipSpace_ne_nil_of_head? hclose) u
        rw [if_pos hclose] at h
        rw [hhead, if_pos hclose, htail]
        cases h
        rfl
      · rw [if_neg hclose] at h
        obtain ⟨⟨ms, t'⟩, hms, heq⟩ := Option.map_eq_some_iff.1 h
        cases heq
        obtain ⟨hhead, -⟩ := head?_skipSpace_append (skipSpace_ne_nil_of_members hms) u
        rw [hhead, if_neg hclose, ihMembers _ _ _ hms m u (by omega)]
        rfl
    rw [if_neg hbrace] at h ⊢
    by_cases hquote : c = 0x22
    · rw [if_pos hquote] at h ⊢
      obtain ⟨⟨k, t'⟩, hk, heq⟩ := Option.map_eq_some_iff.1 h
      cases heq
      rw [hR _ _ _ u hk]
      rfl
    rw [if_neg hquote] at h ⊢
    obtain ⟨w, hw, heq⟩ := Option.map_eq_some_iff.1 h
    cases heq
    have hrest : (c :: t).dropWhile isAtomChar ≠ [] := by
      refine hends.resolve_right ?_
      simpa using hbrace
    obtain ⟨htake, hdrop⟩ := takeWhile_append_atom (u := u) hrest
    rw [List.cons_append] at htake hdrop
    rw [htake, hdrop, hw]
    rfl

theorem stableElements_succ {fuel : ℕ} (ihValue : StableValue R fuel)
    (ihElements : StableElements R fuel) : StableElements R (fuel + 1) := by
  intro s xs rest h m u hm
  obtain ⟨m, rfl⟩ := Nat.exists_eq_add_of_le' (show 1 ≤ m by omega)
  rw [parseElements] at h ⊢
  cases hvalue : parseValue R fuel s with
  | none =>
    rw [hvalue] at h
    cases h
  | some r =>
    obtain ⟨x, t⟩ := r
    rw [hvalue] at h
    dsimp only at h
    cases ht : skipSpace t with
    | nil =>
      rw [ht] at h
      cases h
    | cons c t' =>
      have hne : t ≠ [] := by
        rintro rfl
        cases ht
      rw [ihValue _ _ _ hvalue (.inl hne) m u (by omega)]
      dsimp only
      rw [skipSpace_append_cons ht]
      rw [ht] at h
      dsimp only at h ⊢
      split_ifs at h ⊢
      · cases h
        rfl
      · obtain ⟨⟨ys, t''⟩, hys, heq⟩ := Option.map_eq_some_iff.1 h
        cases heq
        rw [ihElements _ _ _ hys m u (by omega)]
        rfl

theorem stableMembers_succ (hR : Stable R.unquote) {fuel : ℕ} (ihValue : StableValue R fuel)
    (ihMembers : StableMembers R fuel) : StableMembers R (fuel + 1) := by
  intro s ms rest h m u hm
  obtain ⟨m, rfl⟩ := Nat.exists_eq_add_of_le' (show 1 ≤ m by omega)
  rw [parseMembers] at h ⊢
  cases hs : skipSpace s with
  | nil =>
    rw [hs] at h
    cases h
  | cons c t =>
    rw [hs] at h
    rw [skipSpace_append_cons hs]
    dsimp only at h ⊢
    split_ifs at h ⊢
    cases hkey : R.unquote t with
    | none =>
      rw [hkey] at h
      cases h
    | some r =>
      obtain ⟨k, t₁⟩ := r
      rw [hkey] at h
      rw [hR _ _ _ u hkey]
      dsimp only at h ⊢
      split_ifs at h with hcolon
      obtain ⟨hhead, htail⟩ := head?_skipSpace_append (skipSpace_ne_nil_of_head? hcolon) u
      rw [hhead, if_pos hcolon, htail]
      cases hvalue : parseValue R fuel (skipSpace t₁).tail with
      | none =>
        rw [hvalue] at h
        cases h
      | some r =>
        obtain ⟨x, t₂⟩ := r
        rw [hvalue] at h
        dsimp only at h
        cases ht : skipSpace t₂ with
        | nil =>
          rw [ht] at h
          cases h
        | cons c' t₃ =>
          have hne : t₂ ≠ [] := by
            rintro rfl
            cases ht
          rw [ihValue _ _ _ hvalue (.inl hne) m u (by omega)]
          dsimp only
          rw [skipSpace_append_cons ht]
          rw [ht] at h
          dsimp only at h ⊢
          split_ifs at h ⊢
          · cases h
            rfl
          · obtain ⟨⟨ns, t₄⟩, hns, heq⟩ := Option.map_eq_some_iff.1 h
            cases heq
            rw [ihMembers _ _ _ hns m u (by omega)]
            rfl

theorem stable_parse (hR : Stable R.unquote) (fuel : ℕ) :
    StableValue R fuel ∧ StableElements R fuel ∧ StableMembers R fuel := by
  induction fuel with
  | zero =>
    exact ⟨fun _ _ _ h => (by cases h), fun _ _ _ h => (by cases h), fun _ _ _ h => (by cases h)⟩
  | succ fuel ih =>
    obtain ⟨ihValue, ihElements, ihMembers⟩ := ih
    exact ⟨stableValue_succ hR ihElements ihMembers, stableElements_succ ihValue ihElements,
      stableMembers_succ hR ihValue ihMembers⟩

/-- **A printed object that is cut off does not parse.** -/
theorem Lawful.parse_eq_none_of_torn {C : Codec σ ν'} {norm : ν' → Json σ ν}
    (L : Lawful C R norm) (hR : Stable R.unquote) {spaced : Bool} {ms : List (σ × Json σ ν')}
    {s u : Text} (h : render C spaced (.obj ms) = s ++ u) (hu : u ≠ []) : parse R s = none := by
  unfold parse
  cases hvalue : parseValue R (2 * s.length + 1) s with
  | none => rfl
  | some r =>
    exfalso
    obtain ⟨v, rest⟩ := r
    cases s with
    | nil => cases hvalue
    | cons c s =>
      have hc : c = 0x7B := by
        rw [render_obj, List.cons_append, List.cons_append] at h
        exact (List.cons.inj h).1.symm
      have hskip : skipSpace (c :: s) = c :: s := skipSpace_cons (by rw [hc]; decide)
      have hlength := congrArg List.length h
      have hpos := List.length_pos_of_ne_nil hu
      rw [List.length_append] at hlength
      have hlonger := (stable_parse hR _).1 _ _ _ hvalue (.inr (by rw [hskip, hc]; rfl))
        (2 * (render C spaced (.obj ms)).length) u (by omega)
      have hback := L.readsBack spaced (.obj ms) _ [] le_rfl ends_nil
      rw [List.append_nil, h] at hback
      rw [h, hback] at hlonger
      simp [hu] at hlonger

end Resilience.Json
