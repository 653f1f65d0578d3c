import Resilience.Rust.FileLedger
import Mathlib.Data.Finset.Card

/-!
# Several ledgers on one file

Runs of `rust/src/ledger.rs` in which ledgers are opened on one path and called, each call as one
step and without a crash. The ledgers know different keys, and a key that two of them record is in
the file twice; still the file gives exactly the recorded keys when it is loaded (`Shared`), and no
ledger writes a key twice (`appends_nodup`).
-/

namespace Resilience.Rust

open Resilience

variable {ν F : Type}

/-- `len`. -/
def FileLedger.len (L : FileLedger) : ℕ := L.seen.card

/-- Every call runs to its end. -/
def StoreOp.Completes : StoreOp → Prop
  | .crash _ _ _ => False
  | _ => True

/-- The key that a call records. -/
def StoreOp.key? : StoreOp → Option String
  | .record _ key => some key
  | _ => none

namespace Store

/-- The ledger and the key of a call that appends to the file. -/
def appendOf (S : SerdeJson ν F) (st : Store) : StoreOp → Option (ℕ × String)
  | .record i key =>
    st.ledgers[i]?.bind fun o => if o.ledger.line S key = [] then none else some (i, key)
  | _ => none

/-- The calls that append to the file. -/
def appends (S : SerdeJson ν F) : Store → List StoreOp → List (ℕ × String)
  | _, [] => []
  | st, op :: ops =>
    (st.appendOf S op).toList ++ (st.step S op).elim [] fun st' => appends S st' ops

/-- The file gives the recorded keys, and the ledgers know no others. -/
structure Shared (S : SerdeJson ν F) (st : Store) : Prop where
  terminated : Terminated isNewline (st.file.getD [])
  loads : loadKeys S st.file = .ok st.recorded
  known : ∀ o ∈ st.ledgers, o.ledger.seen ⊆ st.recorded

variable {S : SerdeJson ν F} {st st' : Store} {i : ℕ} {o : Opened} {key : String}
  {op : StoreOp} {ops : List StoreOp}

theorem shared_start {file : Option (List UInt8)} (h : file.getD [] = []) :
    Shared S { file := file } where
  terminated := by rw [h]; exact terminated_nil
  loads := by
    cases file with
    | none => rfl
    | some bytes =>
      obtain rfl : bytes = [] := h
      rfl
  known := by simp

/-! ## One call -/

theorem lineBytes_ne_nil (l : List Char) : lineBytes l ≠ [] := by
  rw [lineBytes_eq]
  exact List.append_ne_nil_of_right_ne_nil _ (List.cons_ne_nil _ _)

theorem appendOf_record (S : SerdeJson ν F) (ho : st.ledgers[i]? = some o) (key : String) :
    st.appendOf S (.record i key) = if key ∈ o.ledger.seen then none else some (i, key) := by
  rw [appendOf, ho, Option.bind_some, FileLedger.line]
  by_cases hkey : key ∈ o.ledger.seen
  · simp [hkey]
  · simp [hkey, lineBytes_ne_nil]

/-- A line behind a terminated file adds its key to what is loaded. -/
theorem loadKeys_append_line (hS : S.Lawful) {file : Option (List UInt8)} {set : Finset String}
    (hterm : Terminated isNewline (file.getD [])) (hload : loadKeys S file = .ok set)
    (key : String) :
    loadKeys S (some (file.getD [] ++ lineBytes (S.toString (LedgerEntry.toDoc ⟨key⟩)))) =
      .ok (insert key set) := by
  have hold : loadLines S ∅ (splitInclusive isNewline (file.getD [])) = .ok set := by
    cases file with
    | none => exact hload
    | some bytes => exact hload
  rw [loadKeys, splitInclusive_append hterm, loadLines_append, hold]
  exact loadLines_line hS set key

/-- What a call does: nothing to the file, if the ledger knows the key, and else a line behind it.
Its ledger knows the key afterwards. -/
theorem step_record (S : SerdeJson ν F) (ho : st.ledgers[i]? = some o) (key : String) :
    st.step S (.record i key) = some {
      file :=
        if key ∈ o.ledger.seen then st.file
        else some (st.file.getD [] ++ lineBytes (S.toString (LedgerEntry.toDoc ⟨key⟩)))
      ledgers := st.ledgers.set i { o with ledger := o.ledger.record key }
      recorded := insert key st.recorded } := by
  rw [step, ho, Option.map_some]
  congr 2
  unfold appended FileLedger.line
  by_cases hkey : key ∈ o.ledger.seen
  · simp [hkey]
  · simp [hkey, lineBytes_ne_nil]

theorem Shared.openLedger (h : Shared S st) :
    FileLedger.openLedger S st.file = .ok ⟨st.recorded⟩ := by
  rw [FileLedger.openLedger, h.loads]
  rfl

theorem Shared.record (hS : S.Lawful) (h : Shared S st) (ho : st.ledgers[i]? = some o)
    (hstep : st.step S (.record i key) = some st') : Shared S st' := by
  obtain rfl := Option.some.inj ((step_record S ho key).symm.trans hstep)
  have hsub : o.ledger.seen ⊆ st.recorded := h.known o (List.mem_of_getElem? ho)
  refine ⟨?_, ?_, fun o' ho' => ?_⟩
  · dsimp only
    split_ifs
    · exact h.terminated
    · exact terminated_append h.terminated (terminated_lineBytes _)
  · dsimp only
    split_ifs with hkey
    · rw [h.loads, Finset.insert_eq_of_mem (hsub hkey)]
    · exact loadKeys_append_line hS h.terminated h.loads key
  · rcases List.mem_or_eq_of_mem_set ho' with ho' | rfl
    · exact (h.known o' ho').trans (Finset.subset_insert _ _)
    · dsimp only
      unfold FileLedger.record
      split_ifs
      · exact hsub.trans (Finset.subset_insert _ _)
      · exact Finset.insert_subset_insert key hsub

theorem Shared.step (hS : S.Lawful) (h : Shared S st) (hop : op.Completes)
    (hstep : st.step S op = some st') : Shared S st' := by
  cases op with
  | openLedger =>
    rw [Store.step, h.openLedger] at hstep
    obtain rfl := Option.some.inj hstep
    refine ⟨h.terminated, h.loads, fun o ho => ?_⟩
    rcases List.mem_append.1 ho with ho | ho
    · exact h.known o ho
    · rw [List.mem_singleton.1 ho]
  | record i key =>
    obtain ⟨o, ho, -⟩ := Option.map_eq_some_iff.1 hstep
    exact h.record hS ho hstep
  | crash i key n => exact hop.elim

theorem mem_recorded_step (hop : op.Completes) (hstep : st.step S op = some st') :
    key ∈ st'.recorded ↔ op.key? = some key ∨ key ∈ st.recorded := by
  cases op with
  | openLedger =>
    rw [Store.step] at hstep
    split at hstep <;> simp [← Option.some.inj hstep, StoreOp.key?]
  | record i k =>
    obtain ⟨o, -, rfl⟩ := Option.map_eq_some_iff.1 hstep
    simp [StoreOp.key?, eq_comm]
  | crash i k n => exact hop.elim

theorem file_step (hop : op.Completes) (hstep : st.step S op = some st') :
    st'.file.getD [] = st.file.getD [] ++ (st.appendOf S op).toList.flatMap fun a =>
      lineBytes (S.toString (LedgerEntry.toDoc ⟨a.2⟩)) := by
  cases op with
  | openLedger =>
    rw [Store.step] at hstep
    split at hstep <;> simp [← Option.some.inj hstep, appendOf]
  | record i key =>
    obtain ⟨o, ho, -⟩ := Option.map_eq_some_iff.1 hstep
    obtain rfl := Option.some.inj ((step_record S ho key).symm.trans hstep)
    rw [appendOf_record S ho]
    by_cases hkey : key ∈ o.ledger.seen <;> simp [hkey]
  | crash i key n => exact hop.elim

/-- Ledgers stay open, and forget nothing. -/
theorem ledger_step (ho : st.ledgers[i]? = some o) (hop : op.Completes)
    (hstep : st.step S op = some st') :
    ∃ o', st'.ledgers[i]? = some o' ∧ o.ledger.seen ⊆ o'.ledger.seen := by
  cases op with
  | openLedger =>
    rw [Store.step] at hstep
    split at hstep
    · exact ⟨o, Option.some.inj hstep ▸ ho, Finset.Subset.refl _⟩
    · refine ⟨o, ?_, Finset.Subset.refl _⟩
      rw [← Option.some.inj hstep]
      exact (List.getElem?_append_left (List.getElem?_eq_some_iff.1 ho).1).trans ho
  | record j key =>
    obtain ⟨o', ho', rfl⟩ := Option.map_eq_some_iff.1 hstep
    dsimp only
    by_cases hij : j = i
    · obtain rfl := hij
      obtain rfl := Option.some.inj (ho'.symm.trans ho)
      refine ⟨_, List.getElem?_set_self (List.getElem?_eq_some_iff.1 ho).1, ?_⟩
      exact (o'.ledger.seen_subset_record key).1
    · exact ⟨o, (List.getElem?_set_ne hij).trans ho, Finset.Subset.refl _⟩
  | crash j key n => exact hop.elim

/-- A ledger knows the key that it has written. -/
theorem appendOf_step {a : ℕ × String} (happend : st.appendOf S op = some a)
    (hstep : st.step S op = some st') :
    ∃ o, st'.ledgers[a.1]? = some o ∧ a.2 ∈ o.ledger.seen := by
  cases op with
  | record i key =>
    obtain ⟨o, ho, rfl⟩ := Option.map_eq_some_iff.1 hstep
    rw [appendOf_record S ho] at happend
    split_ifs at happend
    obtain rfl := Option.some.inj happend
    refine ⟨_, List.getElem?_set_self (List.getElem?_eq_some_iff.1 ho).1, ?_⟩
    exact (o.ledger.seen_subset_record key).2
  | openLedger => simp [appendOf] at happend
  | crash i key n => simp [appendOf] at happend

/-! ## Runs -/

/-- No ledger writes a key that it knows. -/
theorem not_mem_appends (hops : ∀ op ∈ ops, op.Completes) (ho : st.ledgers[i]? = some o)
    (hkey : key ∈ o.ledger.seen) : (i, key) ∉ appends S st ops := by
  induction ops generalizing st o with
  | nil => exact List.not_mem_nil
  | cons op ops ih =>
    obtain ⟨hop, hrest⟩ := List.forall_mem_cons.1 hops
    rw [appends, List.mem_append, not_or]
    constructor
    · intro happend
      cases op with
      | record j k =>
        cases hj : st.ledgers[j]? with
        | none => simp [appendOf, hj] at happend
        | some o' =>
          rw [appendOf_record S hj] at happend
          split_ifs at happend with hk
          · simp at happend
          · obtain ⟨rfl, rfl⟩ := Prod.mk.inj (List.mem_singleton.1 happend)
            obtain rfl := Option.some.inj (hj.symm.trans ho)
            exact hk hkey
      | openLedger => simp [appendOf] at happend
      | crash j k n => exact hop
    · cases hstep : st.step S op with
      | none => exact List.not_mem_nil
      | some st' =>
        obtain ⟨o', ho', hsub⟩ := ledger_step ho hop hstep
        exact ih hrest ho' (hsub hkey)

theorem appends_nodup (hops : ∀ op ∈ ops, op.Completes) : (appends S st ops).Nodup := by
  induction ops generalizing st with
  | nil => exact List.nodup_nil
  | cons op ops ih =>
    obtain ⟨hop, hrest⟩ := List.forall_mem_cons.1 hops
    rw [appends]
    cases hstep : st.step S op with
    | none => cases st.appendOf S op <;> simp
    | some st' =>
      cases happend : st.appendOf S op with
      | none => exact ih hrest
      | some a =>
        obtain ⟨o, ho, hkey⟩ := appendOf_step happend hstep
        exact List.nodup_cons.2 ⟨not_mem_appends hrest ho hkey, ih hrest⟩

/-- A run keeps `Shared`, records the keys of its calls, and adds their lines to the file. -/
theorem Shared.run (hS : S.Lawful) (h : Shared S st) (hops : ∀ op ∈ ops, op.Completes)
    (hrun : ops.foldlM (Store.step S) st = some st') :
    Shared S st' ∧
      (∀ key, key ∈ st'.recorded ↔ key ∈ ops.filterMap StoreOp.key? ∨ key ∈ st.recorded) ∧
      st'.file.getD [] = st.file.getD [] ++ (appends S st ops).flatMap fun a =>
        lineBytes (S.toString (LedgerEntry.toDoc ⟨a.2⟩)) := by
  induction ops generalizing st with
  | nil =>
    obtain rfl := Option.some.inj hrun
    exact ⟨h, by simp, by simp [appends]⟩
  | cons op ops ih =>
    obtain ⟨hop, hrest⟩ := List.forall_mem_cons.1 hops
    rw [List.foldlM_cons] at hrun
    obtain ⟨st₁, hstep, hrun⟩ := Option.bind_eq_some_iff.1 hrun
    obtain ⟨hshared, hrecorded, hfile⟩ := ih (h.step hS hop hstep) hrest hrun
    refine ⟨hshared, fun key => ?_, ?_⟩
    · rw [hrecorded, mem_recorded_step hop hstep]
      simp only [List.mem_filterMap, List.mem_cons, exists_eq_or_imp]
      exact or_left_comm.trans or_assoc.symm
    · rw [hfile, file_step hop hstep, appends, hstep, List.flatMap_append, List.append_assoc]
      rfl

/-- **A ledger that is opened now knows exactly the keys recorded so far**, through whatever
ledgers, and no ledger has written a key twice: the file has one line for each key that a ledger
wrote. -/
theorem opened_iff_recorded (S : SerdeJson ν F) (hS : S.Lawful) (file : Option (List UInt8))
    (hfile : file.getD [] = []) (ops : List StoreOp) (hops : ∀ op ∈ ops, op.Completes)
    (hrun : ops.foldlM (step S) { file := file } = some st) :
    (∃ L, FileLedger.openLedger S st.file = .ok L ∧
      (∀ key, L.contains key = true ↔ key ∈ ops.filterMap StoreOp.key?) ∧
      L.len = (ops.filterMap StoreOp.key?).dedup.length) ∧
    (appends S { file := file } ops).Nodup ∧
    st.file.getD [] = (appends S { file := file } ops).flatMap fun a =>
      lineBytes (S.toString (LedgerEntry.toDoc ⟨a.2⟩)) := by
  obtain ⟨hshared, hrecorded, hlines⟩ := (shared_start hfile).run hS hops hrun
  have hkeys : st.recorded = (ops.filterMap StoreOp.key?).toFinset := by
    ext key
    simpa using hrecorded key
  refine ⟨⟨_, hshared.openLedger, fun key => ?_, ?_⟩, appends_nodup hops, ?_⟩
  · rw [FileLedger.contains, decide_eq_true_iff, hkeys, List.mem_toFinset]
  · rw [FileLedger.len, hkeys, List.card_toFinset]
  · rw [hlines]
    exact congrArg (· ++ _) hfile

/-- Two ledgers record one key, and a third one, opened afterwards, knows it once. -/
theorem opened_iff_recorded_twice :
    ∃ (st : Store) (L : FileLedger),
      [.openLedger, .openLedger, .record 0 "a\nb", .record 1 "a\nb", .record 0 ""].foldlM
          (step SerdeJson.integers) { file := none } = some st ∧
        FileLedger.openLedger SerdeJson.integers st.file = .ok L ∧ L.len = 2 ∧
        (appends SerdeJson.integers { file := none }
          [.openLedger, .openLedger, .record 0 "a\nb", .record 1 "a\nb", .record 0 ""]).Nodup := by
  obtain ⟨⟨L, hopen, -, hlen⟩, hnodup, -⟩ := opened_iff_recorded SerdeJson.integers
    SerdeJson.lawful_integers none rfl
    [.openLedger, .openLedger, .record 0 "a\nb", .record 1 "a\nb", .record 0 ""]
    (by simp [StoreOp.Completes]) rfl
  exact ⟨_, L, rfl, hopen, hlen.trans (by decide), hnodup⟩

end Store

end Resilience.Rust
