import Resilience.Foundations.Lines
import Resilience.Rust.Serde
import Mathlib.Data.Finset.Insert
import Mathlib.Logic.Relation

/-!
# The idempotency ledger

`rust/src/ledger.rs`: `FileLedger`, a set of keys mirrored in a file of JSON lines. A process may
crash during `record`, after any number of bytes of its line have reached the file, and a later
process opens what is there. A last line that was cut off is skipped when the file is loaded, but it
stays in the file, and the next line is appended right behind it.

`recorded_of_opened`: as long as every `record` that writes finds the file empty or ended by a
newline, no recorded key is lost. `exists_recorded_lost`: behind a cut line, a recorded key is.
-/

namespace Resilience.Rust

open Resilience

variable {ν F : Type}

/-- `char::is_whitespace`. -/
def isWhitespace (c : Char) : Bool :=
  let n := c.toNat
  (0x09 ≤ n && n ≤ 0x0D) || n == 0x20 || n == 0x85 || n == 0xA0 || n == 0x1680 ||
    (0x2000 ≤ n && n ≤ 0x200A) || n == 0x2028 || n == 0x2029 || n == 0x202F || n == 0x205F ||
    n == 0x3000

/-! ## The code -/

inductive LedgerError
  | io
  deriving DecidableEq

/-- One line of the file. -/
structure LedgerEntry where
  key : String

def LedgerEntry.toDoc (e : LedgerEntry) : Doc ν := .obj [("key", .str e.key)]

/-- The derived deserializer, which reads a struct from an object or from a sequence. -/
def LedgerEntry.ofDoc : Doc ν → Option LedgerEntry
  | .obj ms => (required "key" ms).bind fun d => (asString d).map LedgerEntry.mk
  | .arr [d] => (asString d).map LedgerEntry.mk
  | _ => none

structure FileLedger where
  seen : Finset String
  deriving DecidableEq

/-- The loop of `load_keys` over the lines of the file. -/
def loadLines (S : SerdeJson ν F) :
    Finset String → List (List UInt8) → Except LedgerError (Finset String)
  | set, [] => .ok set
  | set, line :: lines =>
    match decodeUtf8 line with
    | none => .error .io
    | some line =>
      let trimmed := trim isWhitespace (stripNewline line)
      if trimmed.isEmpty then loadLines S set lines
      else match (S.fromStr trimmed).bind LedgerEntry.ofDoc with
        | some entry => loadLines S (insert entry.key set) lines
        | none => loadLines S set lines

/-- `load_keys`; `none` is a file that does not exist. -/
def loadKeys (S : SerdeJson ν F) : Option (List UInt8) → Except LedgerError (Finset String)
  | none => .ok ∅
  | some bytes => loadLines S ∅ (splitInclusive isNewline bytes)

namespace FileLedger

/-- `FileLedger::open`. -/
def openLedger (S : SerdeJson ν F) (file : Option (List UInt8)) : Except LedgerError FileLedger :=
  (loadKeys S file).map FileLedger.mk

def contains (L : FileLedger) (key : String) : Bool := key ∈ L.seen

/-- What `record` appends to the file. -/
def line (S : SerdeJson ν F) (L : FileLedger) (key : String) : List UInt8 :=
  if key ∈ L.seen then [] else lineBytes (S.toString (LedgerEntry.toDoc ⟨key⟩))

/-- The ledger after `record` has returned. -/
def record (L : FileLedger) (key : String) : FileLedger :=
  if key ∈ L.seen then L else ⟨insert key L.seen⟩

end FileLedger

/-! ## Runs with crashes -/

/-- A ledger that is open, and the keys that had been recorded when it was opened. -/
structure Opened where
  ledger : FileLedger
  before : Finset String
  deriving DecidableEq

/-- The file, the ledgers of the running process, and the keys for which some call of `record` has
returned. -/
structure Store where
  file : Option (List UInt8)
  ledgers : List Opened := []
  recorded : Finset String := ∅
  deriving DecidableEq

inductive StoreOp
  | openLedger
  | record (i : ℕ) (key : String)
  /-- The process crashes during `record`, when `n` bytes of the line have reached the file. -/
  | crash (i : ℕ) (key : String) (n : ℕ)

namespace Store

variable (S : SerdeJson ν F)

/-- The file with some bytes appended. -/
def appended (st : Store) (bytes : List UInt8) : Option (List UInt8) :=
  if bytes = [] then st.file else some (st.file.getD [] ++ bytes)

/-- One operation; `none` if there is no ledger `i`. An `open` that fails changes nothing. -/
def step (st : Store) : StoreOp → Option Store
  | .openLedger =>
    match FileLedger.openLedger S st.file with
    | .error _ => some st
    | .ok L => some { st with ledgers := st.ledgers ++ [⟨L, st.recorded⟩] }
  | .record i key =>
    st.ledgers[i]?.map fun o => {
      file := st.appended (o.ledger.line S key)
      ledgers := st.ledgers.set i { o with ledger := o.ledger.record key }
      recorded := insert key st.recorded }
  | .crash i key n =>
    st.ledgers[i]?.map fun o => {
      st with
      file := st.appended ((o.ledger.line S key).take n)
      ledgers := [] }

/-- The call appends to the file: its ledger does not know the key. -/
def Writes (st : Store) : StoreOp → Prop
  | .openLedger => False
  | .record i key | .crash i key _ => ∃ o, st.ledgers[i]? = some o ∧ key ∉ o.ledger.seen

/-- A call that appends to the file finds it empty or ended by a newline. -/
def FindsTerminated (st : Store) (op : StoreOp) : Prop :=
  st.Writes op → Terminated isNewline (st.file.getD [])

/-- Runs, all of whose calls satisfy `G`. -/
def Run (G : Store → StoreOp → Prop) : Store → Store → Prop :=
  Relation.ReflTransGen fun st st' => ∃ op, step S st op = some st' ∧ G st op

theorem Run.cons {S : SerdeJson ν F} {G : Store → StoreOp → Prop} {st st' st'' : Store}
    (op : StoreOp) (hstep : step S st op = some st') (hG : G st op) (h : Run S G st' st'') :
    Run S G st st'' := .head ⟨op, hstep, hG⟩ h

theorem Run.of_foldlM {S : SerdeJson ν F} {ops : List StoreOp} {st st' : Store}
    (h : ops.foldlM (step S) st = some st') : Run S (fun _ _ => True) st st' := by
  induction ops generalizing st with
  | nil => exact Option.some.inj h ▸ .refl
  | cons op ops ih =>
    rw [List.foldlM_cons] at h
    obtain ⟨st₁, hstep, h⟩ := Option.bind_eq_some_iff.1 h
    exact .cons op hstep trivial (ih h)

end Store

/-! ## Loading -/

variable {S : SerdeJson ν F}

theorem loadLines_append {set : Finset String} {as bs : List (List UInt8)} :
    loadLines S set (as ++ bs) = (loadLines S set as).bind fun set => loadLines S set bs := by
  induction as generalizing set with
  | nil => rfl
  | cons a as ih =>
    rw [List.cons_append, loadLines, loadLines]
    split
    · rfl
    · dsimp only
      split_ifs
      · exact ih
      · split <;> exact ih

theorem subset_of_loadLines {set seen : Finset String} {lines : List (List UInt8)}
    (h : loadLines S set lines = .ok seen) : set ⊆ seen := by
  induction lines generalizing set with
  | nil =>
    obtain rfl := Except.ok.inj h
    exact Finset.Subset.refl _
  | cons l ls ih =>
    rw [loadLines] at h
    split at h
    · cases h
    · dsimp only at h
      split_ifs at h
      · exact ih h
      · split at h
        · exact (Finset.subset_insert _ _).trans (ih h)
        · exact ih h

/-- What was read from a terminated file is still read when something is appended to it. -/
theorem loadKeys_appended {st : Store} {bytes : List UInt8} {seen : Finset String}
    (hterm : bytes ≠ [] → Terminated isNewline (st.file.getD []))
    (h : loadKeys S (st.appended bytes) = .ok seen) :
    ∃ set, loadKeys S st.file = .ok set ∧
      loadLines S set (splitInclusive isNewline bytes) = .ok seen := by
  unfold Store.appended at h
  split at h
  case isTrue hnil =>
    subst hnil
    exact ⟨seen, h, rfl⟩
  case isFalse hne =>
    rw [loadKeys, splitInclusive_append (hterm hne), loadLines_append] at h
    cases hfile : st.file with
    | none =>
      rw [hfile] at h
      exact ⟨∅, rfl, h⟩
    | some old =>
      rw [hfile] at h
      cases hold : loadLines S ∅ (splitInclusive isNewline old) with
      | error e =>
        rw [Option.getD_some, hold] at h
        cases h
      | ok set =>
        rw [Option.getD_some, hold] at h
        exact ⟨set, hold, h⟩

/-- The line of a key is read as that key. -/
theorem loadLines_line (hS : S.Lawful) (set : Finset String) (key : String) :
    loadLines S set (splitInclusive isNewline (lineBytes (S.toString (LedgerEntry.toDoc ⟨key⟩)))) =
      .ok (insert key set) := by
  have hread : S.fromStr (S.toString (LedgerEntry.toDoc ⟨key⟩)) = some (LedgerEntry.toDoc ⟨key⟩) :=
    hS.fromStr_member "key" key
  obtain ⟨body, hbody, -⟩ := hS.toString_obj [("key", .str key)]
  have htrim : trim isWhitespace (S.toString (LedgerEntry.toDoc ⟨key⟩)) =
      S.toString (LedgerEntry.toDoc ⟨key⟩) := by
    rw [LedgerEntry.toDoc, hbody]
    exact trim_eq_self (by decide) (by decide)
  have hne : (S.toString (LedgerEntry.toDoc ⟨key⟩)).isEmpty = false := by
    rw [LedgerEntry.toDoc, hbody]
    rfl
  have hdoc : LedgerEntry.ofDoc (LedgerEntry.toDoc ⟨key⟩ : Doc ν) = some ⟨key⟩ := rfl
  have hline : '\n' ∉ S.toString (LedgerEntry.toDoc ⟨key⟩) := hS.newline_not_mem _
  have hend : (S.toString (LedgerEntry.toDoc ⟨key⟩)).getLast? ≠ some '\r' := hS.getLast?_ne _
  rw [splitInclusive_lineBytes hline, loadLines, lineBytes, decodeUtf8_utf8]
  dsimp only
  rw [stripNewline_concat hend, htrim, hne, hread, Option.bind_some, hdoc]
  rfl

/-! ## No key is lost -/

/-- Whatever the file gives when it is loaded, it gives the recorded keys and those that the open
ledgers know. -/
structure Durable (S : SerdeJson ν F) (st : Store) : Prop where
  recorded : ∀ seen, loadKeys S st.file = .ok seen → st.recorded ⊆ seen
  ledgers : ∀ seen, loadKeys S st.file = .ok seen → ∀ o ∈ st.ledgers, o.ledger.seen ⊆ seen
  before : ∀ o ∈ st.ledgers, o.before ⊆ o.ledger.seen

/-- Nothing is recorded yet, in this process or before it. -/
def Store.Fresh (st : Store) : Prop := st.ledgers = [] ∧ st.recorded = ∅

theorem Durable.of_fresh {st : Store} (h : st.Fresh) : Durable S st := by
  obtain ⟨h₁, h₂⟩ := h
  exact ⟨by simp [h₂], by simp [h₁], by simp [h₁]⟩

theorem FileLedger.seen_subset_record (L : FileLedger) (key : String) :
    L.seen ⊆ (L.record key).seen ∧ key ∈ (L.record key).seen := by
  unfold FileLedger.record
  split
  · exact ⟨Finset.Subset.refl _, ‹_›⟩
  · exact ⟨Finset.subset_insert _ _, Finset.mem_insert_self _ _⟩

theorem Durable.openLedger {st : Store} {L : FileLedger} (hd : Durable S st)
    (h : FileLedger.openLedger S st.file = .ok L) :
    Durable S { st with ledgers := st.ledgers ++ [⟨L, st.recorded⟩] } := by
  have hload : loadKeys S st.file = .ok L.seen := by
    unfold FileLedger.openLedger at h
    cases hfile : loadKeys S st.file with
    | error e =>
      rw [hfile] at h
      cases h
    | ok seen =>
      rw [hfile] at h
      rw [← Except.ok.inj h]
  refine ⟨hd.recorded, fun seen hseen o ho => ?_, fun o ho => ?_⟩
  · rcases List.mem_append.1 ho with ho | ho
    · exact hd.ledgers seen hseen o ho
    · rw [List.mem_singleton.1 ho, Except.ok.inj (hseen.symm.trans hload)]
  · rcases List.mem_append.1 ho with ho | ho
    · exact hd.before o ho
    · rw [List.mem_singleton.1 ho]
      exact hd.recorded L.seen hload

theorem Durable.record (hS : S.Lawful) {st : Store} {i : ℕ} {o : Opened} {key : String}
    (hd : Durable S st) (h : st.ledgers[i]? = some o)
    (hterm : st.FindsTerminated (.record i key)) :
    Durable S {
      file := st.appended (o.ledger.line S key)
      ledgers := st.ledgers.set i { o with ledger := o.ledger.record key }
      recorded := insert key st.recorded } := by
  have ho : o ∈ st.ledgers := List.mem_of_getElem? h
  obtain ⟨hsub, hkey⟩ := o.ledger.seen_subset_record key
  -- what is loaded afterwards was loaded before, and the key with it
  have hgrow : ∀ seen, loadKeys S (st.appended (o.ledger.line S key)) = .ok seen →
      ∃ set, loadKeys S st.file = .ok set ∧
        seen = if key ∈ o.ledger.seen then set else insert key set := by
    intro seen hseen
    have hterm' : o.ledger.line S key ≠ [] → Terminated isNewline (st.file.getD []) :=
      fun hne => hterm ⟨o, h, fun hknown => hne (if_pos hknown)⟩
    obtain ⟨set, hset, hline⟩ := loadKeys_appended hterm' hseen
    refine ⟨set, hset, ?_⟩
    unfold FileLedger.line at hline
    split_ifs at hline ⊢
    · exact (Except.ok.inj hline).symm
    · exact Except.ok.inj (hline.symm.trans (loadLines_line hS set key))
  have hmem : ∀ seen, loadKeys S (st.appended (o.ledger.line S key)) = .ok seen →
      ∃ set, loadKeys S st.file = .ok set ∧ insert key set ⊆ seen := by
    intro seen hseen
    obtain ⟨set, hset, rfl⟩ := hgrow seen hseen
    refine ⟨set, hset, ?_⟩
    split_ifs with hknown
    · exact Finset.insert_subset (hd.ledgers set hset o ho hknown) (Finset.Subset.refl _)
    · exact Finset.Subset.refl _
  refine ⟨fun seen hseen => ?_, fun seen hseen o' ho' => ?_, fun o' ho' => ?_⟩
  · obtain ⟨set, hset, hsubset⟩ := hmem seen hseen
    exact (Finset.insert_subset_insert key (hd.recorded set hset)).trans hsubset
  · obtain ⟨set, hset, hsubset⟩ := hmem seen hseen
    rcases List.mem_or_eq_of_mem_set ho' with ho' | rfl
    · exact (hd.ledgers set hset o' ho').trans ((Finset.subset_insert _ _).trans hsubset)
    · refine Finset.Subset.trans ?_ hsubset
      unfold FileLedger.record
      split_ifs
      · exact (hd.ledgers set hset o ho).trans (Finset.subset_insert _ _)
      · exact Finset.insert_subset_insert key (hd.ledgers set hset o ho)
  · rcases List.mem_or_eq_of_mem_set ho' with ho' | rfl
    · exact hd.before o' ho'
    · exact (hd.before o ho).trans hsub

theorem Durable.crash {st : Store} {i : ℕ} {o : Opened} {key : String} {n : ℕ}
    (hd : Durable S st) (h : st.ledgers[i]? = some o)
    (hterm : st.FindsTerminated (.crash i key n)) :
    Durable S {
      st with
      file := st.appended ((o.ledger.line S key).take n)
      ledgers := [] } := by
  refine ⟨fun seen hseen => ?_, by simp, by simp⟩
  have hterm' : (o.ledger.line S key).take n ≠ [] → Terminated isNewline (st.file.getD []) := by
    intro hne
    refine hterm ⟨o, h, fun hknown => hne ?_⟩
    rw [FileLedger.line, if_pos hknown, List.take_nil]
  obtain ⟨set, hset, hline⟩ := loadKeys_appended hterm' hseen
  exact (hd.recorded set hset).trans (subset_of_loadLines hline)

theorem Durable.step (hS : S.Lawful) {st st' : Store} {op : StoreOp} (hd : Durable S st)
    (hterm : st.FindsTerminated op) (h : st.step S op = some st') : Durable S st' := by
  cases op with
  | openLedger =>
    rw [Store.step] at h
    split at h
    · exact Option.some.inj h ▸ hd
    · exact Option.some.inj h ▸ hd.openLedger ‹_›
  | record i key =>
    obtain ⟨o, ho, rfl⟩ := Option.map_eq_some_iff.1 h
    exact hd.record hS ho hterm
  | crash i key n =>
    obtain ⟨o, ho, rfl⟩ := Option.map_eq_some_iff.1 h
    exact hd.crash ho hterm

theorem Durable.run (hS : S.Lawful) {st st' : Store} (hd : Durable S st)
    (hrun : Store.Run S Store.FindsTerminated st st') : Durable S st' := by
  induction hrun with
  | refl => exact hd
  | tail _ hstep ih =>
    obtain ⟨op, hstep, hterm⟩ := hstep
    exact ih.step hS hterm hstep

/-- **No recorded key is lost, as long as every call that writes finds the file empty or ended by a
newline**: every ledger opened later knows it. -/
theorem recorded_of_opened (S : SerdeJson ν F) (hS : S.Lawful) (st st' : Store) (hst : st.Fresh)
    (hrun : Store.Run S Store.FindsTerminated st st') :
    ∀ o ∈ st'.ledgers, ∀ key ∈ o.before, o.ledger.contains key = true := by
  intro o ho key hkey
  exact decide_eq_true (((Durable.of_fresh hst).run hS hrun).before o ho hkey)

/-- A key is recorded, the process crashes when one byte of the next line is in the file, and the
file is opened again. -/
theorem recorded_of_opened_again :
    ∃ (st : Store) (o : Opened),
      Store.Run SerdeJson.integers Store.FindsTerminated { file := none } st ∧
        st.file = some (lineBytes "\x7b\"key\":\"a\"\x7d".toList ++ [0x7B]) ∧
        o ∈ st.ledgers ∧ "a" ∈ o.before ∧ o.ledger.contains "a" = true := by
  have hrun : Store.Run SerdeJson.integers Store.FindsTerminated { file := none } {
      file := some (lineBytes "\x7b\"key\":\"a\"\x7d".toList ++ [0x7B])
      ledgers := [⟨⟨{"a"}⟩, {"a"}⟩]
      recorded := {"a"} } := by
    refine .cons .openLedger rfl (fun h => h.elim) ?_
    refine .cons (.record 0 "a") rfl (fun _ => terminated_nil) ?_
    refine .cons (.crash 0 "b" 1) rfl (fun _ => terminated_lineBytes _) ?_
    exact .cons .openLedger (by decide +kernel) (fun h => h.elim) .refl
  have hknown := recorded_of_opened _ SerdeJson.lawful_integers _ _ ⟨rfl, rfl⟩ hrun
  exact ⟨_, _, hrun, rfl, .head _, by decide, hknown _ (.head _) "a" (by decide)⟩

/-- The process crashes when one byte of a line is in the file. The next process skips that line and
records a key behind it, and the one after it finds no such key. -/
theorem exists_recorded_lost :
    ∃ (S : SerdeJson ℤ (Option ℤ)) (st : Store) (o : Opened) (key : String),
      S.Lawful ∧ Store.Run S (fun _ _ => True) { file := none } st ∧
        o ∈ st.ledgers ∧ key ∈ o.before ∧ o.ledger.contains key = false := by
  have hrun : [.openLedger, .crash 0 "a" 1, .openLedger, .record 0 "b", .openLedger].foldlM
      (Store.step SerdeJson.integers) { file := none } = some {
        file := some (0x7B :: lineBytes "\x7b\"key\":\"b\"\x7d".toList)
        ledgers := [⟨⟨{"b"}⟩, ∅⟩, ⟨⟨∅⟩, {"b"}⟩]
        recorded := {"b"} } := by
    decide +kernel
  exact ⟨_, _, _, "b", SerdeJson.lawful_integers, .of_foldlM hrun, .tail _ (.head _), by decide,
    by decide⟩

end Resilience.Rust
