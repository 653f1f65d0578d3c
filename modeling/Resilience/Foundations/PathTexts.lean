import Resilience.Foundations.Paths

/-!
# Paths as texts

A path is written as names with a separator between them, and one or two dots for a directory itself
and for its parent. It denotes the node at the end of a walk (`denoted`), which is that of the text
`absolute names` for the names on the way (`denoted_absolute`). An encoding of the characters that
keeps the separator and the dot keeps what is denoted (`denoted_encoded`).
-/

namespace Resilience.Paths

variable {κ κ' : Type*}

/-- What is between two separators, as a step. -/
def segmentStep [DecidableEq κ] (dot : κ) (segment : List κ) : Step (List κ) :=
  if segment = [] ∨ segment = [dot] then .stay
  else if segment = [dot, dot] then .up
  else .down segment

/-- The steps that a text says. -/
def stepsOf [DecidableEq κ] (sep dot : κ) (text : List κ) : List (Step (List κ)) :=
  (text.splitOn sep).map (segmentStep dot)

/-- The node that a text denotes, taken relative to a directory if it is relative. -/
def denoted [DecidableEq κ] (sep dot : κ) (directory : List (List κ)) (text : List κ) :
    List (List κ) :=
  walk (if text.head? = some sep then [] else directory) (stepsOf sep dot text)

/-- The segment is the name of a file or a directory. -/
def IsName (sep dot : κ) (segment : List κ) : Prop :=
  segment ≠ [] ∧ segment ≠ [dot] ∧ segment ≠ [dot, dot] ∧ sep ∉ segment

/-- The text of a node. -/
def absolute (sep : κ) (names : List (List κ)) : List κ := sep :: [sep].intercalate names

section Denoted

variable [DecidableEq κ] {sep dot : κ} {names directory : List (List κ)}

theorem stepsOf_append (text text' : List κ) :
    stepsOf sep dot (text ++ sep :: text') = stepsOf sep dot text ++ stepsOf sep dot text' := by
  rw [stepsOf, List.splitOn_append_cons_self, List.map_append]
  rfl

theorem segmentStep_of_isName {segment : List κ} (h : IsName sep dot segment) :
    segmentStep dot segment = .down segment := by
  obtain ⟨hnil, hdot, hdots, -⟩ := h
  rw [segmentStep, if_neg (by simp [hnil, hdot]), if_neg hdots]

theorem map_segmentStep (h : ∀ name ∈ names, IsName sep dot name) :
    names.map (segmentStep dot) = names.map .down :=
  List.map_congr_left fun name hname => segmentStep_of_isName (h name hname)

theorem denoted_nil : denoted sep dot directory [] = directory := rfl

theorem denoted_absolute (h : ∀ name ∈ names, IsName sep dot name) :
    denoted sep dot directory (absolute sep names) = names := by
  have hsplit : (absolute sep names).splitOn sep = [] :: ([sep].intercalate names).splitOn sep :=
    List.splitOn_append_cons_self [] _
  rw [denoted, stepsOf, if_pos (show (absolute sep names).head? = some sep from rfl), hsplit]
  rcases eq_or_ne names [] with rfl | hnames
  · rfl
  · rw [List.splitOn_intercalate sep (fun name hname => (h name hname).2.2.2) hnames,
      List.map_cons, map_segmentStep h, walk_cons]
    exact walk_down [] names

/-- A text leads to names, from names. -/
theorem forall_isName_walk (hdirectory : ∀ name ∈ directory, IsName sep dot name)
    {segments : List (List κ)} (hsep : ∀ segment ∈ segments, sep ∉ segment) :
    ∀ name ∈ walk directory (segments.map (segmentStep dot)), IsName sep dot name := by
  induction segments generalizing directory with
  | nil => exact hdirectory
  | cons segment segments ih =>
    obtain ⟨hsegment, hsegments⟩ := List.forall_mem_cons.1 hsep
    rw [List.map_cons, walk_cons]
    apply ih _ hsegments
    unfold segmentStep
    split_ifs with hstay hup
    · exact hdirectory
    · exact fun name hname => hdirectory name (List.dropLast_subset _ hname)
    · push Not at hstay
      intro name hname
      rcases List.mem_append.1 hname with hname | hname
      · exact hdirectory name hname
      · rw [List.mem_singleton.1 hname]
        exact ⟨hstay.1, hstay.2, hup, hsegment⟩

theorem not_mem_of_mem_splitOn {text segment : List κ} (h : segment ∈ text.splitOn sep) :
    sep ∉ segment := by
  induction text generalizing segment with
  | nil =>
    rw [List.splitOn_nil, List.mem_singleton] at h
    rw [h]
    exact List.not_mem_nil
  | cons c text ih =>
    rw [List.splitOn_cons_eq_if_modifyHead] at h
    split_ifs at h with hc
    · rcases List.mem_cons.1 h with rfl | h
      · exact List.not_mem_nil
      · exact ih h
    · obtain ⟨first, rest, hsplit⟩ := List.exists_cons_of_ne_nil (List.splitOn_ne_nil sep text)
      rw [hsplit] at h ih
      rcases List.mem_cons.1 h with rfl | h
      · have hfirst : sep ∉ first := ih (List.mem_cons_self ..)
        have hne : sep ≠ c := fun heq => hc (by simp [heq])
        simp [hne, hfirst]
      · exact ih (List.mem_cons_of_mem first h)

theorem forall_isName_denoted (hdirectory : ∀ name ∈ directory, IsName sep dot name)
    (text : List κ) : ∀ name ∈ denoted sep dot directory text, IsName sep dot name := by
  refine forall_isName_walk ?_ fun segment h => not_mem_of_mem_splitOn h
  split_ifs
  · exact List.forall_mem_nil _
  · exact hdirectory

end Denoted

/-! ## Encodings -/

def Step.map (f : κ → κ') : Step κ → Step κ'
  | .stay => .stay
  | .up => .up
  | .down name => .down (f name)

theorem walk_map (f : κ → κ') (node : List κ) (steps : List (Step κ)) :
    walk (node.map f) (steps.map (Step.map f)) = (walk node steps).map f := by
  induction steps generalizing node with
  | nil => rfl
  | cons step steps ih =>
    rw [List.map_cons, walk_cons, walk_cons, ← ih]
    congr 1
    cases step <;> simp [move, Step.map, List.map_dropLast]

/-- A code for characters that keeps the separator and the dot, and tells texts apart. -/
structure Encodes (enc : κ → List κ') (sep dot : κ) (sep' dot' : κ') : Prop where
  sep_eq : enc sep = [sep']
  dot_eq : enc dot = [dot']
  not_mem : ∀ c, c ≠ sep → sep' ∉ enc c
  ne_nil : ∀ c, enc c ≠ []
  injective : Function.Injective fun text : List κ => text.flatMap enc

section Encodes

variable [DecidableEq κ] [DecidableEq κ'] {enc : κ → List κ'} {sep dot : κ} {sep' dot' : κ'}

omit [DecidableEq κ] [DecidableEq κ'] in
theorem IsName.encoded (h : Encodes enc sep dot sep' dot') {name : List κ}
    (hname : IsName sep dot name) : IsName sep' dot' (name.flatMap enc) := by
  obtain ⟨hnil, hdot, hdots, hsep⟩ := hname
  refine ⟨fun heq => hnil (h.injective heq), fun heq => hdot (h.injective ?_),
    fun heq => hdots (h.injective ?_), fun hmem => ?_⟩
  · simpa [h.dot_eq] using heq
  · simpa [h.dot_eq] using heq
  · obtain ⟨c, hc, hmem⟩ := List.mem_flatMap.1 hmem
    exact h.not_mem c (fun heq => hsep (heq ▸ hc)) hmem

omit [DecidableEq κ] [DecidableEq κ'] in
theorem absolute_encoded (h : Encodes enc sep dot sep' dot') (names : List (List κ)) :
    (absolute sep names).flatMap enc = absolute sep' (names.map fun name => name.flatMap enc) := by
  have hjoin : ([sep].intercalate names).flatMap enc =
      [sep'].intercalate (names.map fun name => name.flatMap enc) := by
    induction names with
    | nil => rfl
    | cons name names ih =>
      cases names with
      | nil => simp
      | cons name' names =>
        rw [List.intercalate_cons_cons, List.flatMap_append, List.flatMap_append,
          List.flatMap_singleton, h.sep_eq, ih, List.map_cons, List.map_cons, List.map_cons,
          List.intercalate_cons_cons]
  rw [absolute, List.flatMap_cons, h.sep_eq, hjoin]
  rfl

theorem splitOn_flatMap (h : Encodes enc sep dot sep' dot') (text : List κ) :
    (text.flatMap enc).splitOn sep' =
      (text.splitOn sep).map fun segment => segment.flatMap enc := by
  induction text with
  | nil => simp
  | cons c text ih =>
    rw [List.flatMap_cons, List.splitOn_cons_eq_if_modifyHead]
    by_cases hc : c = sep
    · rw [hc, h.sep_eq, List.singleton_append, List.splitOn_cons_eq_if_modifyHead, ih]
      simp
    · obtain ⟨first, rest, hsplit⟩ := List.exists_cons_of_ne_nil (List.splitOn_ne_nil sep text)
      have hcons : ∀ (pre : List κ') (hpre : sep' ∉ pre),
          (pre ++ text.flatMap enc).splitOn sep' =
            (pre ++ first.flatMap enc) :: rest.map fun segment => segment.flatMap enc := by
        intro pre hpre
        induction pre with
        | nil => rw [List.nil_append, List.nil_append, ih, hsplit, List.map_cons]
        | cons d pre ihpre =>
          obtain ⟨hd, hpre⟩ := not_or.1 (List.mem_cons.not.1 hpre)
          rw [List.cons_append, List.splitOn_cons_eq_if_modifyHead,
            if_neg (by simpa using Ne.symm hd), ihpre hpre]
          rfl
      rw [hcons _ (h.not_mem c hc), if_neg (by simpa using hc), hsplit]
      rfl

theorem segmentStep_flatMap (h : Encodes enc sep dot sep' dot') (segment : List κ) :
    segmentStep dot' (segment.flatMap enc) =
      (segmentStep dot segment).map fun name => name.flatMap enc := by
  have hnil : segment.flatMap enc = [] ↔ segment = [] :=
    h.injective.eq_iff (a := segment) (b := [])
  have hdot : segment.flatMap enc = [dot'] ↔ segment = [dot] := by
    rw [← h.dot_eq, ← List.flatMap_singleton enc dot]
    exact h.injective.eq_iff
  have hdots : segment.flatMap enc = [dot', dot'] ↔ segment = [dot, dot] := by
    have hcode : [dot', dot'] = [dot, dot].flatMap enc := by simp [h.dot_eq]
    rw [hcode]
    exact h.injective.eq_iff
  unfold segmentStep
  simp only [hnil, hdot, hdots]
  split_ifs <;> rfl

omit [DecidableEq κ'] in
theorem head?_flatMap (h : Encodes enc sep dot sep' dot') (text : List κ) :
    (text.flatMap enc).head? = some sep' ↔ text.head? = some sep := by
  cases text with
  | nil => simp
  | cons c text =>
    obtain ⟨d, ds, hd⟩ := List.exists_cons_of_ne_nil (h.ne_nil c)
    rw [List.flatMap_cons, hd, List.cons_append, List.head?_cons, List.head?_cons,
      Option.some_inj, Option.some_inj]
    constructor
    · rintro rfl
      by_contra hc
      exact h.not_mem c hc (hd ▸ List.mem_cons_self ..)
    · rintro rfl
      exact (List.cons.inj (hd.symm.trans h.sep_eq)).1

/-- **What a text denotes does not depend on how its characters are encoded.** -/
theorem denoted_encoded (h : Encodes enc sep dot sep' dot') (directory : List (List κ))
    (text : List κ) :
    denoted sep' dot' (directory.map fun name => name.flatMap enc) (text.flatMap enc) =
      (denoted sep dot directory text).map fun name => name.flatMap enc := by
  have hsteps : stepsOf sep' dot' (text.flatMap enc) =
      (stepsOf sep dot text).map (Step.map fun name => name.flatMap enc) := by
    rw [stepsOf, splitOn_flatMap h, stepsOf, List.map_map, List.map_map]
    exact List.map_congr_left fun segment _ => segmentStep_flatMap h segment
  rw [denoted, hsteps, denoted, ← walk_map]
  congr 1
  by_cases hhead : text.head? = some sep
  · rw [if_pos hhead, if_pos ((head?_flatMap h text).2 hhead)]
    rfl
  · rw [if_neg hhead, if_neg fun hhead' => hhead ((head?_flatMap h text).1 hhead')]

end Encodes

end Resilience.Paths
