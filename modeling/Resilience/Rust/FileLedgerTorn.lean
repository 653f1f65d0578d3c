import Resilience.Foundations.Json.Torn
import Resilience.Rust.FileLedger

/-!
# Torn tails of the idempotency ledger

A file of complete lines, and behind them any number of bytes of one more line. `load_keys` skips
what does not parse, but a line is read as a string first, and that fails where a character of
several bytes is cut (`skipsTorn_iff`).
-/

namespace Resilience.Rust

open Resilience

variable {ν F : Type}

/-- `from_str` reads whole objects only. -/
def SerdeJson.Complete (S : SerdeJson ν F) : Prop :=
  ∀ ms s u, S.toString (.obj ms) = s ++ u → u ≠ [] → S.fromStr s = none

theorem SerdeJson.complete_integers : SerdeJson.integers.Complete := by
  intro ms s u h hu
  have hstable : Json.Stable SerdeJson.reader.unquote := by
    intro s a rest u h
    obtain ⟨⟨us, t⟩, hunquote, hdecode⟩ := Option.bind_eq_some_iff.1 h
    obtain ⟨k, hk, heq⟩ := Option.map_eq_some_iff.1 hdecode
    cases heq
    show (Json.unquote (s ++ u)).bind _ = _
    rw [Json.stable_unquote _ _ _ u hunquote]
    simp [hk]
  have htext := congrArg (List.map Char.toNat) h
  rw [List.map_append] at htext
  have hrender := (SerdeJson.toNat_ofNat_render false (.obj ms)).symm.trans htext
  exact SerdeJson.lawful_codec.parse_eq_none_of_torn hstable hrender (by simpa using hu)

section Torn

variable (S : SerdeJson ν F)

/-- The text of an entry. -/
def entryText (key : String) : List Char := S.toString (LedgerEntry.toDoc ⟨key⟩)

/-- What `record` appends for keys that the ledger does not know. -/
def entryLines (keys : List String) : List UInt8 := keys.flatMap (FileLedger.line S ⟨∅⟩)

/-- The ledger opens with the keys of the complete lines, and with the last one if its object is
there. -/
def SkipsTorn (keys : List String) (key : String) (tail : List UInt8) : Prop :=
  FileLedger.openLedger S (some (entryLines S keys ++ tail)) =
    .ok ⟨if utf8 (entryText S key) <+: tail then insert key keys.toFinset else keys.toFinset⟩

variable {S}

theorem line_eq (key : String) : FileLedger.line S ⟨∅⟩ key = lineBytes (entryText S key) := by
  simp [FileLedger.line, entryText]

theorem terminated_entryLines (keys : List String) : Terminated isNewline (entryLines S keys) := by
  induction keys with
  | nil => exact terminated_nil
  | cons key keys ih =>
    rw [entryLines, List.flatMap_cons, line_eq]
    exact terminated_append (terminated_lineBytes _) ih

/-- Complete lines are loaded. -/
theorem loadLines_entryLines (hS : S.Lawful) (set : Finset String) (keys : List String) :
    loadLines S set (splitInclusive isNewline (entryLines S keys)) = .ok (set ∪ keys.toFinset) := by
  induction keys generalizing set with
  | nil => simp [entryLines, splitInclusive, loadLines]
  | cons key keys ih =>
    have hline := loadLines_line hS set key
    rw [entryLines, List.flatMap_cons, line_eq, splitInclusive_append (terminated_lineBytes _),
      loadLines_append]
    rw [entryText, hline]
    show loadLines S (insert key set) (splitInclusive isNewline (entryLines S keys)) = _
    rw [ih]
    congr 1
    ext k
    simp

/-- A line without its newline is read too. -/
theorem loadLines_whole (hS : S.Lawful) (set : Finset String) (key : String) :
    loadLines S set [utf8 (entryText S key)] = .ok (insert key set) := by
  obtain ⟨body, hbody, hnewline⟩ := hS.toString_obj [("key", .str key)]
  have htext : entryText S key = '{' :: body ++ ['}'] := hbody
  have hread : S.fromStr (entryText S key) = some (LedgerEntry.toDoc ⟨key⟩) :=
    hS.fromStr_member "key" key
  have hstrip : stripNewline (entryText S key) = entryText S key := by
    rw [htext, stripNewline, List.getLast?_concat]
    rfl
  have htrim : trim isWhitespace (entryText S key) = entryText S key := by
    rw [htext]
    exact trim_eq_self (by decide) (by decide)
  have hne : (entryText S key).isEmpty = false := by
    rw [htext]
    rfl
  have hdoc : LedgerEntry.ofDoc (LedgerEntry.toDoc ⟨key⟩ : Doc ν) = some ⟨key⟩ := rfl
  rw [loadLines, decodeUtf8_utf8]
  dsimp only
  rw [hstrip, htrim, hne, hread, Option.bind_some, hdoc]
  rfl

/-- Whole characters of a line that is cut off are skipped. -/
theorem loadLines_torn (hS : S.Lawful) (hcomplete : S.Complete) (set : Finset String)
    {key : String} {cs u : List Char} (h : entryText S key = cs ++ u) (hcs : cs ≠ [])
    (hu : u ≠ []) :
    loadLines S set [utf8 cs] = .ok set := by
  obtain ⟨body, hbody, hnewline⟩ := hS.toString_obj [("key", .str key)]
  have htext : entryText S key = '{' :: body ++ ['}'] := hbody
  obtain ⟨c, cs, rfl⟩ := List.exists_cons_of_ne_nil hcs
  have hbrace : c = '{' := by
    rw [htext] at h
    exact (List.cons.inj h).1.symm
  subst hbrace
  have hstrip : stripNewline ('{' :: cs) = '{' :: cs := by
    refine if_neg fun hlast => ?_
    have hmem : '\n' ∈ entryText S key := by
      rw [h]
      exact List.mem_append_left _ (List.mem_of_getLast? hlast)
    exact hS.newline_not_mem _ hmem
  obtain ⟨t, w, htrim, rfl⟩ := trim_prefix (l := cs) (by decide : isWhitespace '{' = false)
  have hcut : S.toString (.obj [("key", .str key)]) = '{' :: t ++ (w ++ u) := by
    rw [← List.append_assoc]
    exact h
  have hnone : S.fromStr ('{' :: t) = none := hcomplete _ _ _ hcut (by simp [hu])
  rw [loadLines, decodeUtf8_utf8]
  dsimp only
  rw [hstrip, htrim, hnone]
  rfl

theorem openLedger_eq (hS : S.Lawful) (keys : List String) (tail : List UInt8) :
    FileLedger.openLedger S (some (entryLines S keys ++ tail)) =
      (loadLines S keys.toFinset (splitInclusive isNewline tail)).map FileLedger.mk := by
  rw [FileLedger.openLedger, loadKeys, splitInclusive_append (terminated_entryLines keys),
    loadLines_append, loadLines_entryLines hS, Finset.empty_union]
  rfl

theorem utf8_entryText_ne_nil (hS : S.Lawful) (key : String) : utf8 (entryText S key) ≠ [] := by
  obtain ⟨body, hbody, -⟩ := hS.toString_obj [("key", .str key)]
  rw [show entryText S key = '{' :: body ++ ['}'] from hbody]
  simp [utf8]

/-- What is cut off before the newline is one piece. -/
theorem splitInclusive_cut (hS : S.Lawful) {key : String} {tail rest : List UInt8}
    (h : tail ++ rest = utf8 (entryText S key)) (hne : tail ≠ []) :
    splitInclusive isNewline tail = [tail] := by
  refine splitInclusive_eq_singleton hne fun b hb => ?_
  have hnewline : b ≠ 10 := by
    rintro rfl
    exact newline_not_mem_utf8 (hS.newline_not_mem _) (h ▸ List.mem_append_left rest hb)
  simpa [isNewline] using hnewline

/-- Whole characters are skipped, unless they are the whole entry. -/
theorem loadLines_cut (hS : S.Lawful) (hcomplete : S.Complete) (set : Finset String)
    {key : String} {cs u : List Char} (h : entryText S key = cs ++ u) :
    loadLines S set (splitInclusive isNewline (utf8 cs)) =
      .ok (if utf8 (entryText S key) <+: utf8 cs then insert key set else set) := by
  have hbytes : utf8 cs ++ utf8 u = utf8 (entryText S key) := by rw [h, utf8_append]
  by_cases hnil : u = []
  · subst hnil
    rw [List.append_nil] at h
    rw [← h, if_pos List.prefix_rfl,
      splitInclusive_cut hS (List.append_nil _) (utf8_entryText_ne_nil hS key),
      loadLines_whole hS]
  · have hshort : ¬ utf8 (entryText S key) <+: utf8 cs := by
      intro hprefix
      have hlength := hprefix.length_le
      rw [← hbytes, List.length_append] at hlength
      have hu : utf8 u ≠ [] := fun hu => hnil (utf8_injective hu)
      have hpos := List.length_pos_of_ne_nil hu
      omega
    rw [if_neg hshort]
    by_cases hempty : cs = []
    · subst hempty
      rfl
    · have hne : utf8 cs ≠ [] := fun hcs => hempty (utf8_injective hcs)
      rw [splitInclusive_cut hS hbytes hne, loadLines_torn hS hcomplete _ h hempty hnil]

/-- **When a torn tail is skipped**: exactly when no character is cut. -/
theorem skipsTorn_iff (hS : S.Lawful) (hcomplete : S.Complete) (keys : List String) (key : String)
    {tail : List UInt8} (htail : tail <+: FileLedger.line S ⟨∅⟩ key) :
    SkipsTorn S keys key tail ↔ ∃ cs, tail = utf8 cs := by
  rw [line_eq, lineBytes_eq, List.prefix_concat_iff] at htail
  rw [SkipsTorn, openLedger_eq hS]
  obtain rfl | ⟨rest, hrest⟩ := htail
  · rw [if_pos (List.prefix_append _ _), ← lineBytes_eq]
    have hline : loadLines S keys.toFinset
        (splitInclusive isNewline (lineBytes (entryText S key))) = _ := loadLines_line hS _ key
    rw [hline]
    exact iff_of_true rfl ⟨entryText S key ++ ['\n'], rfl⟩
  constructor
  · intro h
    by_cases hnil : tail = []
    · exact ⟨[], hnil⟩
    rw [splitInclusive_cut hS hrest hnil, loadLines] at h
    cases hdecode : decodeUtf8 tail with
    | none =>
      rw [hdecode] at h
      cases h
    | some cs => exact ⟨cs, eq_utf8_of_decodeUtf8 hdecode⟩
  · rintro ⟨cs, rfl⟩
    obtain ⟨u, hu, rfl⟩ := utf8_append_eq hrest
    rw [loadLines_cut hS hcomplete _ hu]
    split_ifs <;> rfl

end Torn

/-- The last line is cut behind its opening brace. -/
theorem skipsTorn_iff_brace : SkipsTorn SerdeJson.integers ["a"] "b" (utf8 ['{']) :=
  (skipsTorn_iff SerdeJson.lawful_integers SerdeJson.complete_integers ["a"] "b"
    (by decide +kernel)).2 ⟨_, rfl⟩

/-- The two bytes of the key `é` are cut apart. -/
def cutChar : List UInt8 := (utf8 "\x7b\"key\":\"é".toList).dropLast

theorem not_skipsTorn_cutChar : cutChar <+: FileLedger.line SerdeJson.integers ⟨∅⟩ "é" ∧
    ¬ SkipsTorn SerdeJson.integers ["a"] "é" cutChar := by
  refine ⟨by decide +kernel, ?_⟩
  unfold SkipsTorn
  decide +kernel

end Resilience.Rust
