import Mathlib.Computability.Language
import Mathlib.Logic.Relation

/-!
# Regular expressions with assertions

A regular expression relates the places in a text where a match may start to those where it may end
(`Matches`). Besides characters, sequences and repetitions there are assertions, such as the anchors
`^` and `$`, which look at a place and consume nothing. `ends` lists where a match may end, a
repetition taking as much as it can first, and agrees with the relation (`mem_ends`).

An expression without assertions consumes the words of a language: `Reads`, with a rule for each
operator.
-/

namespace Resilience

universe u

/-- A place in a text: how much of it lies before, and what follows. -/
@[ext] structure Place (α : Type u) where
  pos : ℕ
  rest : List α
  deriving DecidableEq

inductive Regex (α : Type u) : Type u
  /-- A character class. -/
  | char (p : α → Bool)
  | seq (r s : Regex α)
  /-- `r*`. -/
  | star (r : Regex α)
  | assert (p : Place α → Bool)

namespace Regex

variable {α : Type u}

/-- A match from one place to another. -/
def Matches : Regex α → Place α → Place α → Prop
  | char p => fun x y => ∃ a, p a = true ∧ x.rest = a :: y.rest ∧ y.pos = x.pos + 1
  | seq r s => Relation.Comp r.Matches s.Matches
  | star r => Relation.ReflTransGen r.Matches
  | assert p => fun x y => p x = true ∧ y = x

/-- A match consumes something or stays where it is. -/
theorem Matches.eq_or_lt {r : Regex α} {x y : Place α} (h : r.Matches x y) :
    y = x ∨ y.rest.length < x.rest.length := by
  induction r generalizing x y with
  | char p =>
    obtain ⟨a, -, hrest, -⟩ := h
    rw [hrest]
    exact .inr (Nat.lt_succ_self _)
  | seq r s ihr ihs =>
    obtain ⟨z, hr, hs⟩ := h
    obtain rfl | hr := ihr hr
    · exact ihs hs
    · obtain rfl | hs := ihs hs
      · exact .inr hr
      · exact .inr (hs.trans hr)
  | star r ih =>
    induction h with
    | refl => exact .inl rfl
    | tail _ hlast ihh =>
      obtain rfl | hlast := ih hlast
      · exact ihh
      · obtain rfl | hlt := ihh
        · exact .inr hlast
        · exact .inr (hlast.trans hlt)
  | assert p => exact .inl h.2

/-! ## Finding a match -/

/-- Repeat what gets further. -/
def iterate (f : Place α → List (Place α)) : ℕ → Place α → List (Place α)
  | 0, x => [x]
  | n + 1, x =>
    ((f x).filter fun y => y.rest.length < x.rest.length).flatMap (iterate f n) ++ [x]

/-- Where a match from a place may end. -/
def ends : Regex α → Place α → List (Place α)
  | char p, x =>
    match x.rest with
    | [] => []
    | a :: as => if p a then [⟨x.pos + 1, as⟩] else []
  | seq r s, x => (r.ends x).flatMap s.ends
  | star r, x => iterate r.ends x.rest.length x
  | assert p, x => if p x then [x] else []

/-- There is a match at the start of a text. -/
def isMatch (r : Regex α) (s : List α) : Bool := !(r.ends ⟨0, s⟩).isEmpty

/-- Steps that stay where they are make no difference to a repetition. -/
theorem mem_iterate {R : Place α → Place α → Prop} {f : Place α → List (Place α)}
    (hf : ∀ x y, y ∈ f x ↔ R x y) (hR : ∀ x y, R x y → y = x ∨ y.rest.length < x.rest.length)
    {n : ℕ} {x y : Place α} (hn : x.rest.length ≤ n) :
    y ∈ iterate f n x ↔ Relation.ReflTransGen R x y := by
  induction n generalizing x with
  | zero =>
    rw [iterate, List.mem_singleton]
    constructor
    · rintro rfl
      exact .refl
    · intro h
      induction h with
      | refl => rfl
      | tail _ hlast ih =>
        obtain heq | hlt := hR _ _ hlast
        · exact heq.trans ih
        · rw [ih] at hlt
          omega
  | succ n ih =>
    simp only [iterate, List.mem_append, List.mem_flatMap, List.mem_filter, List.mem_singleton,
      decide_eq_true_iff, hf]
    constructor
    · rintro (⟨z, ⟨hstep, hlt⟩, hmem⟩ | rfl)
      · exact .head hstep ((ih (by omega)).1 hmem)
      · exact .refl
    · intro h
      induction h using Relation.ReflTransGen.head_induction_on with
      | refl => exact .inr rfl
      | head hstep hrest ihh =>
        obtain rfl | hlt := hR _ _ hstep
        · exact ihh hn
        · exact .inl ⟨_, ⟨hstep, hlt⟩, (ih (by omega)).2 hrest⟩

theorem mem_ends {r : Regex α} {x y : Place α} : y ∈ r.ends x ↔ r.Matches x y := by
  induction r generalizing x y with
  | char p =>
    obtain ⟨i, _ | ⟨a, as⟩⟩ := x
    · simp [ends, Matches]
    · by_cases hp : p a = true
      · simp only [ends, hp, if_true, List.mem_singleton, Place.ext_iff, Matches, List.cons.injEq]
        constructor
        · rintro ⟨hpos, hrest⟩
          exact ⟨a, hp, ⟨rfl, hrest.symm⟩, hpos⟩
        · rintro ⟨b, -, ⟨-, hrest⟩, hpos⟩
          exact ⟨hpos, hrest.symm⟩
      · simp only [ends, hp, Matches, List.cons.injEq]
        constructor
        · intro h
          exact absurd h List.not_mem_nil
        · rintro ⟨b, hb, ⟨rfl, -⟩, -⟩
          exact absurd hb hp
  | seq r s ihr ihs => simp [ends, Matches, Relation.Comp, ihr, ihs]
  | star r ih => exact mem_iterate (fun _ _ => ih) (fun _ _ => Matches.eq_or_lt) le_rfl
  | assert p => by_cases hp : p x = true <;> simp [ends, Matches, hp]

theorem isMatch_iff {r : Regex α} {s : List α} :
    r.isMatch s = true ↔ ∃ y, r.Matches ⟨0, s⟩ y := by
  simp [isMatch, ← mem_ends, List.eq_nil_iff_forall_not_mem]

/-! ## Anchors -/

/-- `^`. -/
def caret : Regex α := .assert fun x => x.pos == 0

/-- `$`: the end of the text, or the last place before a line break that ends it. -/
def dollar (isBreak : α → Bool) : Regex α := .assert fun x =>
  match x.rest with
  | [] => true
  | [a] => isBreak a
  | _ => false

theorem matches_caret {x y : Place α} : caret.Matches x y ↔ x.pos = 0 ∧ y = x := by
  simp [caret, Matches]

theorem matches_dollar {isBreak : α → Bool} {x y : Place α} : (dollar isBreak).Matches x y ↔
    (x.rest = [] ∨ ∃ a, x.rest = [a] ∧ isBreak a = true) ∧ y = x := by
  obtain ⟨i, _ | ⟨a, _ | ⟨b, as⟩⟩⟩ := x <;> simp [dollar, Matches]

/-! ## Languages -/

/-- From one place to another the text has so many characters. -/
def Consumes (x : Place α) (w : List α) (y : Place α) : Prop :=
  x.rest = w ++ y.rest ∧ y.pos = x.pos + w.length

theorem consumes_nil {x y : Place α} : Consumes x [] y ↔ y = x := by
  rw [Place.ext_iff, and_comm]
  exact and_congr_left fun _ => eq_comm

theorem consumes_append {x y : Place α} {v w : List α} :
    Consumes x (v ++ w) y ↔ ∃ z, Consumes x v z ∧ Consumes z w y := by
  constructor
  · rintro ⟨hrest, hpos⟩
    refine ⟨⟨x.pos + v.length, w ++ y.rest⟩, ⟨?_, rfl⟩, rfl, ?_⟩
    · rw [hrest, List.append_assoc]
    · rw [hpos, List.length_append, add_assoc]
  · rintro ⟨z, ⟨hxz, hposz⟩, hzy, hposy⟩
    refine ⟨?_, ?_⟩
    · rw [hxz, hzy, List.append_assoc]
    · rw [hposy, hposz, List.length_append, add_assoc]

/-- A match consumes a word of the language, wherever it starts. -/
def Reads (r : Regex α) (l : Language α) : Prop :=
  ∀ x y, r.Matches x y ↔ ∃ w ∈ l, Consumes x w y

/-- The words of one character, of a class. -/
def letters (p : α → Bool) : Language α := {w | ∃ a, p a = true ∧ w = [a]}

theorem reads_char (p : α → Bool) : (char p).Reads (letters p) := by
  intro x y
  constructor
  · rintro ⟨a, hp, hplace⟩
    exact ⟨[a], ⟨a, hp, rfl⟩, hplace⟩
  · rintro ⟨_, ⟨a, hp, rfl⟩, hplace⟩
    exact ⟨a, hp, hplace⟩

theorem Reads.seq {r s : Regex α} {l m : Language α} (hr : r.Reads l) (hs : s.Reads m) :
    (r.seq s).Reads (l * m) := by
  intro x y
  constructor
  · rintro ⟨z, hrz, hsz⟩
    obtain ⟨v, hv, hxz⟩ := (hr x z).1 hrz
    obtain ⟨w, hw, hzy⟩ := (hs z y).1 hsz
    exact ⟨v ++ w, Language.append_mem_mul hv hw, consumes_append.2 ⟨z, hxz, hzy⟩⟩
  · rintro ⟨_, hmem, hxy⟩
    obtain ⟨v, hv, w, hw, rfl⟩ := Language.mem_mul.1 hmem
    obtain ⟨z, hxz, hzy⟩ := consumes_append.1 hxy
    exact ⟨z, (hr x z).2 ⟨v, hv, hxz⟩, (hs z y).2 ⟨w, hw, hzy⟩⟩

theorem Reads.star {r : Regex α} {l : Language α} (hr : r.Reads l) :
    r.star.Reads (KStar.kstar l) := by
  have hconcat : l * KStar.kstar l ≤ KStar.kstar l := mul_kstar_le_kstar
  intro x y
  constructor
  · intro h
    induction h using Relation.ReflTransGen.head_induction_on with
    | refl => exact ⟨[], Language.nil_mem_kstar l, consumes_nil.2 rfl⟩
    | @head x z hstep hrest ih =>
      obtain ⟨v, hv, hxz⟩ := (hr x z).1 hstep
      obtain ⟨w, hw, hzy⟩ := ih
      exact ⟨v ++ w, hconcat (Language.append_mem_mul hv hw), consumes_append.2 ⟨z, hxz, hzy⟩⟩
  · rintro ⟨_, hmem, hxy⟩
    obtain ⟨words, rfl, hwords⟩ := Language.mem_kstar.1 hmem
    clear hmem
    induction words generalizing x with
    | nil =>
      rw [consumes_nil.1 hxy]
      exact .refl
    | cons w words ih =>
      obtain ⟨hw, hwords⟩ := List.forall_mem_cons.1 hwords
      obtain ⟨z, hxz, hzy⟩ := consumes_append.1 hxy
      exact .head ((hr x z).2 ⟨w, hw, hxz⟩) (ih z hwords hzy)

theorem Reads.congr {r : Regex α} {l m : Language α} (hr : r.Reads l)
    (h : ∀ w, w ∈ l ↔ w ∈ m) : r.Reads m := by
  have heq : l = m := Language.ext h
  exact heq ▸ hr

theorem mem_kstar_letters {p : α → Bool} {w : List α} :
    w ∈ KStar.kstar (letters p) ↔ ∀ a ∈ w, p a = true := by
  rw [Language.mem_kstar]
  constructor
  · rintro ⟨words, rfl, hwords⟩ a ha
    obtain ⟨v, hv, hav⟩ := List.mem_flatten.1 ha
    obtain ⟨b, hb, rfl⟩ := hwords v hv
    rwa [List.mem_singleton.1 hav]
  · intro hw
    refine ⟨w.map ([·]), (List.flatMap_singleton' w).symm, ?_⟩
    intro v hv
    obtain ⟨a, ha, rfl⟩ := List.mem_map.1 hv
    exact ⟨a, hw a ha, rfl⟩

/-- A first word, and more words with a separator before each of them. -/
theorem mem_separated {l : Language α} {sep w : List α} :
    w ∈ l * KStar.kstar ({sep} * l) ↔
      ∃ words ≠ [], (∀ v ∈ words, v ∈ l) ∧ w = sep.intercalate words := by
  rw [Language.mem_mul]
  constructor
  · rintro ⟨v, hv, u, hu, rfl⟩
    obtain ⟨more, rfl, hmore⟩ := Language.mem_kstar.1 hu
    clear hu
    induction more generalizing v with
    | nil => exact ⟨[v], by simp, by simpa using hv, by simp⟩
    | cons x more ih =>
      obtain ⟨_, rfl, y, hy, rfl⟩ := Language.mem_mul.1 (hmore x (by simp))
      obtain ⟨words, hne, hwords, heq⟩ := ih y hy fun z hz => hmore z (by simp [hz])
      refine ⟨v :: words, by simp, by simpa using ⟨hv, hwords⟩, ?_⟩
      rw [List.intercalate_cons_of_ne_nil hne, ← heq, List.flatten_cons]
      simp only [List.append_assoc]
  · rintro ⟨words, hne, hwords, rfl⟩
    induction words with
    | nil => exact absurd rfl hne
    | cons v words ih =>
      obtain ⟨hv, hwords⟩ := List.forall_mem_cons.1 hwords
      cases words with
      | nil => exact ⟨v, hv, [], Language.nil_mem_kstar _, by simp⟩
      | cons x words =>
        obtain ⟨y, hy, u, hu, heq⟩ := ih (by simp) hwords
        have hconcat : ({sep} * l) * KStar.kstar ({sep} * l) ≤ KStar.kstar ({sep} * l) :=
          mul_kstar_le_kstar
        refine ⟨v, hv, sep ++ y ++ u,
          hconcat (Language.append_mem_mul (Language.append_mem_mul rfl hy) hu), ?_⟩
        rw [List.intercalate_cons_cons, ← heq]
        simp only [List.append_assoc]

theorem forall_mem_intercalate {P : α → Prop} {sep : List α} {words : List (List α)}
    (hsep : ∀ a ∈ sep, P a) (hwords : ∀ w ∈ words, ∀ a ∈ w, P a) :
    ∀ a ∈ sep.intercalate words, P a := by
  induction words with
  | nil => simp
  | cons v words ih =>
    obtain ⟨hv, hwords⟩ := List.forall_mem_cons.1 hwords
    cases words with
    | nil => simpa using hv
    | cons x words =>
      rw [List.intercalate_cons_cons]
      intro a ha
      simp only [List.mem_append] at ha
      obtain (ha | ha) | ha := ha
      · exact hv a ha
      · exact hsep a ha
      · exact ih hwords a ha

/-- An anchored expression matches where the text is a word of the language, perhaps with a line
break after it. -/
theorem Reads.isMatch_anchored {r : Regex α} {l : Language α} (hr : r.Reads l)
    {isBreak : α → Bool} {s : List α} : (caret.seq (r.seq (dollar isBreak))).isMatch s = true ↔
      s ∈ l ∨ ∃ w ∈ l, ∃ a, s = w ++ [a] ∧ isBreak a = true := by
  rw [isMatch_iff]
  constructor
  · rintro ⟨y, x, hcaret, z, hword, hdollar⟩
    obtain ⟨-, rfl⟩ := matches_caret.1 hcaret
    obtain ⟨w, hw, hrest, -⟩ := (hr _ _).1 hword
    dsimp only at hrest
    obtain ⟨hend | ⟨a, hend, ha⟩, -⟩ := matches_dollar.1 hdollar
    · rw [hend, List.append_nil] at hrest
      exact .inl (hrest ▸ hw)
    · rw [hend] at hrest
      exact .inr ⟨w, hw, a, hrest, ha⟩
  · rintro (hs | ⟨w, hw, a, rfl, ha⟩)
    · have hword : r.Matches ⟨0, s⟩ ⟨0 + s.length, []⟩ :=
        (hr _ _).2 ⟨s, hs, (List.append_nil s).symm, rfl⟩
      exact ⟨_, _, matches_caret.2 ⟨rfl, rfl⟩, _, hword, matches_dollar.2 ⟨.inl rfl, rfl⟩⟩
    · have hword : r.Matches ⟨0, w ++ [a]⟩ ⟨0 + w.length, [a]⟩ := (hr _ _).2 ⟨w, hw, rfl, rfl⟩
      exact ⟨_, _, matches_caret.2 ⟨rfl, rfl⟩, _, hword,
        matches_dollar.2 ⟨.inr ⟨a, rfl, ha⟩, rfl⟩⟩

end Regex

end Resilience
