import Resilience.Foundations.Files
import Resilience.Python.Objects

/-!
# Idempotency stores in Python

`python/src/cubiczan_resilience/idempotency.py` and `atomic.py`. The files are those of one
directory, by their names, with their texts; a result is a value of any type, of which a store uses
what `json` writes for it and makes of what it reads (`Results`).

`markDone_cases` says what one `mark_done` of the file store does. The map in memory is updated
before the file is written, so that a call which raises has recorded its key nevertheless, but has
left the file alone: `allOrNothing_iff`.
-/

namespace Resilience.Python

open Json

variable {ν V : Type}

/-! ## Dictionaries -/

/-- A dictionary with strings as keys. -/
structure Dict (V : Type) where
  items : List (Units × V)
  nodup : (items.map Prod.fst).Nodup

namespace Dict

def empty : Dict V := ⟨[], List.nodup_nil⟩

/-- `dict(items)`. -/
def ofList (items : List (Units × V)) : Dict V := ⟨assignAll items, nodup_assignAll items⟩

def get? (d : Dict V) (key : Units) : Option V := lookup key d.items

/-- `key in d`. -/
def contains (d : Dict V) (key : Units) : Bool := (d.get? key).isSome

/-- `d[key] = v`. -/
def set (d : Dict V) (key : Units) (v : V) : Dict V := ⟨assign key v d.items, nodup_assign d.nodup⟩

theorem get?_set (d : Dict V) (key k : Units) (v : V) :
    (d.set key v).get? k = if k = key then some v else d.get? k := lookup_assign key k v d.items

@[simp] theorem get?_set_self (d : Dict V) (key : Units) (v : V) :
    (d.set key v).get? key = some v := by rw [get?_set, if_pos rfl]

theorem get?_set_of_ne (d : Dict V) {key k : Units} (h : k ≠ key) (v : V) :
    (d.set key v).get? k = d.get? k := by rw [get?_set, if_neg h]

theorem contains_set (d : Dict V) (key k : Units) (v : V) :
    (d.set key v).contains k = (decide (k = key) || d.contains k) := by
  rw [contains, contains, get?_set]
  by_cases h : k = key <;> simp [h]

theorem get?_eq_none {d : Dict V} {key : Units} (h : d.contains key = false) :
    d.get? key = none := by
  rwa [contains, Option.isSome_eq_false_iff, Option.isNone_iff_eq_none] at h

end Dict

/-! ## Writing a file at once -/

/-- What a call of a store raises. -/
inductive StoreError
  /-- Raised by `json.dumps`. -/
  | json (error : PyError)
  | osError
  deriving DecidableEq

/-- An operation that raises: its number, how much of a write is done by then, and whether the
temporary file can be removed. -/
structure Fault where
  index : ℕ
  written : ℕ := 0
  unlinks : Bool := true

/-- What the operating system adds to a call: the name that `mkstemp` finds, and a fault. -/
structure Os where
  random : String
  fault : Option Fault := none

/-- The name of the temporary file. -/
def tempName (dest random : String) : String := "." ++ dest ++ "." ++ random ++ ".tmp"

/-- What `atomic_write` does before its `try`. -/
def prepare (tmp : String) : List (Files.Op String ℕ) := [.mkdir, .create tmp]

/-- What `atomic_write` writes in its `try`. -/
def writeTemp (tmp : String) (payload : Text) (mode : Option ℕ) (fsync : Bool) :
    List (Files.Op String ℕ) :=
  [.write tmp payload] ++ (if fsync then [.fsync tmp] else []) ++ (mode.map (.chmod tmp)).toList

/-- The file operations of `atomic_write`. -/
def writeOps (dest tmp : String) (payload : Text) (mode : Option ℕ) (fsync : Bool) :
    List (Files.Op String ℕ) :=
  prepare tmp ++ writeTemp tmp payload mode fsync ++ [.rename tmp dest]

/-- `atomic_write`; what raises in the `try` has the temporary file removed. -/
def atomicWrite (os : Os) (dest : String) (payload : Text) (mode : Option ℕ) (fsync : Bool)
    (files : Files String ℕ) : Except StoreError Unit × Files String ℕ :=
  let tmp := tempName dest os.random
  let ops := writeOps dest tmp payload mode fsync
  match os.fault with
  | none => (.ok (), Files.execAll ops files)
  | some fault =>
    if fault.index < ops.length then
      let left := Files.stopAt ops fault.index fault.written files
      (.error .osError,
        if (prepare tmp).length ≤ fault.index ∧ fault.unlinks then
          (Files.Op.unlink tmp).exec left
        else left)
    else (.ok (), Files.execAll ops files)

theorem ne_tempName (dest random : String) : dest ≠ tempName dest random := by
  intro h
  have hlength := congrArg String.length h
  simp only [tempName, String.length_append] at hlength
  have hdot : ".".length = 1 := rfl
  omega

theorem avoids_of_mem {dest tmp : String} (h : dest ≠ tmp) (payload : Text) (mode : Option ℕ)
    (fsync : Bool) : ∀ op ∈ prepare tmp ++ writeTemp tmp payload mode fsync, op.Avoids dest := by
  intro op hop
  cases mode <;> cases fsync <;>
    simp only [prepare, writeTemp, Option.map_none, Option.map_some, Option.toList_none,
      Option.toList_some, Bool.false_eq_true, if_true, if_false, List.append_nil, List.nil_append,
      List.cons_append, List.mem_cons, List.not_mem_nil, or_false] at hop <;>
    rcases hop with rfl | rfl | rfl | rfl | rfl <;> trivial

/-- The temporary file gets the payload. -/
theorem execAll_writeTemp (tmp : String) (payload : Text) (mode : Option ℕ) (fsync : Bool)
    (files : Files String ℕ) :
    Files.execAll (prepare tmp ++ writeTemp tmp payload mode fsync) files tmp = some payload := by
  cases mode <;> cases fsync <;> simp [prepare, writeTemp, Files.Op.exec]

theorem length_writeOps (dest tmp : String) (payload : Text) :
    (writeOps dest tmp payload none true).length = 5 := rfl

/-- The destination has the payload after all operations, and is as it was before the last one. -/
theorem stopAt_writeOps (dest random : String) (payload : Text) (mode : Option ℕ) (fsync : Bool)
    (i n : ℕ) (files : Files String ℕ) :
    Files.stopAt (writeOps dest (tempName dest random) payload mode fsync) i n files dest =
      if i < (writeOps dest (tempName dest random) payload mode fsync).length then files dest
      else some payload := by
  have hne := ne_tempName dest random
  have hlength : (writeOps dest (tempName dest random) payload mode fsync).length =
      (prepare (tempName dest random) ++
        writeTemp (tempName dest random) payload mode fsync).length + 1 := by
    rw [writeOps, List.length_append, List.length_singleton]
  rw [hlength, writeOps, Files.stopAt_replace hne (avoids_of_mem hne payload mode fsync),
    execAll_writeTemp]
  simp only [Nat.lt_succ_iff]

theorem execAll_writeOps (dest random : String) (payload : Text) (mode : Option ℕ) (fsync : Bool)
    (files : Files String ℕ) :
    Files.execAll (writeOps dest (tempName dest random) payload mode fsync) files dest =
      some payload := by
  rw [← Files.stopAt_of_length_le le_rfl 0, stopAt_writeOps, if_neg (lt_irrefl _)]

/-- None of the first `count` operations raises. -/
def Os.Completes (os : Os) (count : ℕ) : Prop := ∀ fault ∈ os.fault, count ≤ fault.index

instance (os : Os) (count : ℕ) : Decidable (os.Completes count) :=
  inferInstanceAs (Decidable (∀ fault ∈ os.fault, _))

section AtomicWrite

variable {os : Os} {dest : String} {payload : Text} {mode : Option ℕ} {fsync : Bool}

theorem atomicWrite_of_completes
    (h : os.Completes (writeOps dest (tempName dest os.random) payload mode fsync).length)
    (files : Files String ℕ) :
    atomicWrite os dest payload mode fsync files = (.ok (),
      Files.execAll (writeOps dest (tempName dest os.random) payload mode fsync) files) := by
  rw [atomicWrite]
  cases hfault : os.fault with
  | none => rfl
  | some fault => exact if_neg (not_lt.2 (h fault hfault))

/-- If an operation raises, the destination is untouched. -/
theorem atomicWrite_of_not_completes
    (h : ¬ os.Completes (writeOps dest (tempName dest os.random) payload mode fsync).length)
    (files : Files String ℕ) : ∃ left, left dest = files dest ∧
      atomicWrite os dest payload mode fsync files = (.error .osError, left) := by
  unfold Os.Completes at h
  push Not at h
  obtain ⟨fault, hfault, hlt⟩ := h
  refine ⟨_, ?_, (by rw [atomicWrite, Option.mem_def.1 hfault]; exact if_pos hlt)⟩
  have hleft := stopAt_writeOps dest os.random payload mode fsync fault.index fault.written files
  rw [if_pos hlt] at hleft
  split_ifs
  · rw [Files.Op.exec, Function.update_of_ne (ne_tempName dest os.random), hleft]
  · exact hleft

end AtomicWrite

/-! ## The stores -/

/-- What a store uses of results: `None`, the document that `json.dumps` writes with `sort_keys`,
and what `json.loads` makes of a document. -/
structure Results (ν V : Type) where
  none : V
  dump : V → Except PyError (Doc ν)
  load : Doc ν → V

structure InMemoryIdempotencyStore (V : Type) where
  data : Dict V

namespace InMemoryIdempotencyStore

def init : InMemoryIdempotencyStore V := ⟨.empty⟩

variable (store : InMemoryIdempotencyStore V)

def alreadyDone (key : Units) : Bool := store.data.contains key

def getResult (R : Results ν V) (key : Units) : V := (store.data.get? key).getD R.none

def markDone (key : Units) (result : V) : Bool × InMemoryIdempotencyStore V :=
  if store.data.contains key then (false, store) else (true, ⟨store.data.set key result⟩)

end InMemoryIdempotencyStore

variable (R : Results ν V) (N : Numerals ν)

/-- The map that `FileIdempotencyStore._load` finds in a file. -/
def loadMap (file : Option Text) : Dict V :=
  match file with
  | none => .empty
  | some content =>
    let raw := universalNewlines content
    if isBlank isSpace raw then .empty
    else match loads N raw with
      | .ok (.obj items) => .ofList (items.map fun m => (m.1, R.load m.2))
      | .ok _ => .empty
      | .error _ => .empty

/-- The items that `json.dumps` writes, in the order of their keys. -/
def dumpItems (data : Dict V) : Except PyError (Items ν) :=
  (sortMembers rank data.items).mapM fun m => (R.dump m.2).map fun v => (m.1, v)

/-- `json.dumps`, without blanks and with `sort_keys`. -/
def dumpMap (data : Dict V) : Except PyError Text :=
  (dumpItems R data).map fun items => render N.asciiCodec false (.obj items)

structure FileIdempotencyStore (V : Type) where
  path : String
  data : Dict V

namespace FileIdempotencyStore

/-- `FileIdempotencyStore.__init__`. -/
def init (path : String) (files : Files String ℕ) : FileIdempotencyStore V :=
  ⟨path, loadMap R N (files path)⟩

variable (store : FileIdempotencyStore V)

/-- `FileIdempotencyStore._flush`. -/
def flush (os : Os) (files : Files String ℕ) : Except StoreError Unit × Files String ℕ :=
  match dumpMap R N store.data with
  | .error e => (.error (.json e), files)
  | .ok text => atomicWrite os store.path text .none true files

def alreadyDone (key : Units) : Bool := store.data.contains key

def getResult (key : Units) : V := (store.data.get? key).getD R.none

/-- The store once a key is in its map. -/
def recorded (key : Units) (result : V) : FileIdempotencyStore V :=
  { store with data := store.data.set key result }

/-- `FileIdempotencyStore.mark_done`: what it returns or raises, the store and the files. -/
def markDone (os : Os) (files : Files String ℕ) (key : Units) (result : V) :
    Except StoreError Bool × FileIdempotencyStore V × Files String ℕ :=
  if store.data.contains key then (.ok false, store, files)
  else
    let store := store.recorded key result
    match store.flush R N os files with
    | (.error e, files) => (.error e, store, files)
    | (.ok (), files) => (.ok true, store, files)

end FileIdempotencyStore

/-! ## What is written -/

/-- `json.dumps` does not raise. -/
def Results.Dumps (v : V) : Prop := ∃ doc, R.dump v = .ok doc

/-- `json.dumps` of a map raises if it does for one of the values. -/
theorem exists_dumpMap_iff (data : Dict V) :
    (∃ text, dumpMap R N data = .ok text) ↔ ∀ m ∈ data.items, R.Dumps m.2 := by
  have hperm := sortMembers_perm rank data.items
  constructor
  · rintro ⟨text, htext⟩ m hm
    obtain ⟨items, hitems, -⟩ := map_eq_ok_iff.1 htext
    have hmem := List.mem_map_of_mem (f := fun m : Units × V => (R.dump m.2).map fun v => (m.1, v))
      (hperm.mem_iff.2 hm)
    rw [mapM_eq_ok_iff.1 hitems] at hmem
    obtain ⟨item, -, hitem⟩ := List.mem_map.1 hmem
    obtain ⟨doc, hdoc, -⟩ := map_eq_ok_iff.1 hitem.symm
    exact ⟨doc, hdoc⟩
  · intro h
    have : Nonempty (Doc ν) := ⟨.null⟩
    choose! f hf using h
    have hitems : dumpItems R data =
        .ok ((sortMembers rank data.items).map fun m => (m.1, f m)) := by
      rw [dumpItems, mapM_eq_ok_iff, List.map_map]
      refine List.map_congr_left fun m hm => ?_
      rw [hf m (hperm.mem_iff.1 hm)]
      rfl
    exact ⟨_, by rw [dumpMap, hitems]; rfl⟩

theorem dumps_items_set {data : Dict V} {key : Units} (h : data.contains key = false) (result : V) :
    (∀ m ∈ (data.set key result).items, R.Dumps m.2) ↔
      R.Dumps result ∧ ∀ m ∈ data.items, R.Dumps m.2 := by
  have hkey : key ∉ data.items.map Prod.fst := by
    intro hmem
    obtain ⟨m, hm, rfl⟩ := List.mem_map.1 hmem
    have hget := (lookup_eq_some_iff_mem data.nodup).2 hm
    cases (Dict.get?_eq_none h).symm.trans hget
  rw [show (data.set key result).items = data.items ++ [(key, result)] from assign_eq_append hkey,
    List.forall_mem_append, List.forall_mem_singleton, and_comm]

/-! ## What a call does -/

namespace FileIdempotencyStore

variable {R N} {store : FileIdempotencyStore V} {os : Os} {files : Files String ℕ} {key : Units}
  {result : V}

theorem flush_of_error {e : PyError} (h : dumpMap R N store.data = .error e) :
    store.flush R N os files = (.error (.json e), files) := by rw [flush, h]

theorem flush_of_ok {text : Text} (h : dumpMap R N store.data = .ok text) :
    store.flush R N os files = atomicWrite os store.path text none true files := by rw [flush, h]

theorem markDone_of_contains (h : store.data.contains key = true) :
    store.markDone R N os files key result = (.ok false, store, files) := if_pos h

theorem markDone_of_error (h : store.data.contains key = false) {e : PyError}
    (hdump : dumpMap R N (store.data.set key result) = .error e) :
    store.markDone R N os files key result =
      (.error (.json e), store.recorded key result, files) := by
  rw [markDone, if_neg (by simp [h])]
  dsimp only
  rw [flush_of_error hdump]

/-- A key is recorded, and the file has the whole map. -/
theorem markDone_of_completes (h : store.data.contains key = false) {text : Text}
    (hdump : dumpMap R N (store.data.set key result) = .ok text) (hos : os.Completes 5) :
    store.markDone R N os files key result = (.ok true, store.recorded key result,
      Files.execAll (writeOps store.path (tempName store.path os.random) text none true)
        files) := by
  rw [markDone, if_neg (by simp [h])]
  dsimp only
  rw [flush_of_ok hdump, atomicWrite_of_completes (by rwa [length_writeOps])]
  rfl

/-- An operation that raises leaves the key in the map and the file as it was. -/
theorem markDone_of_not_completes (files : Files String ℕ)
    (h : store.data.contains key = false) {text : Text}
    (hdump : dumpMap R N (store.data.set key result) = .ok text) (hos : ¬ os.Completes 5) :
    ∃ left, left store.path = files store.path ∧ store.markDone R N os files key result =
      (.error .osError, store.recorded key result, left) := by
  have hlt : ¬ os.Completes
      (writeOps store.path (tempName store.path os.random) text none true).length := by
    rwa [length_writeOps]
  obtain ⟨left, hleft, hwrite⟩ := atomicWrite_of_not_completes hlt files
  refine ⟨left, hleft, ?_⟩
  rw [markDone, if_neg (by simp [h])]
  dsimp only
  rw [flush_of_ok hdump, show (store.recorded key result).path = store.path from rfl, hwrite]

/-- A call that raises has recorded its key, and has left the file alone. -/
theorem markDone_of_raises (N : Numerals ν) (files : Files String ℕ)
    (h : store.data.contains key = false)
    (hraises : ¬ ((R.Dumps result ∧ ∀ m ∈ store.data.items, R.Dumps m.2) ∧ os.Completes 5)) :
    ∃ e left, left store.path = files store.path ∧ store.markDone R N os files key result =
      (.error e, store.recorded key result, left) := by
  cases hdump : dumpMap R N (store.data.set key result) with
  | error e => exact ⟨.json e, files, rfl, markDone_of_error h hdump⟩
  | ok text =>
    have hos : ¬ os.Completes 5 := fun hos =>
      hraises ⟨(dumps_items_set R h result).1 ((exists_dumpMap_iff R N _).1 ⟨text, hdump⟩), hos⟩
    obtain ⟨left, hleft, hmark⟩ := markDone_of_not_completes files h hdump hos
    exact ⟨.osError, left, hleft, hmark⟩

/-! ## All or nothing -/

/-- The states that calls can lead to, whether they raise or not. -/
inductive Reachable (R : Results ν V) (N : Numerals ν) (path : String) :
    FileIdempotencyStore V → Files String ℕ → Prop
  | init (files : Files String ℕ) : Reachable R N path (init R N path files) files
  | mark {store : FileIdempotencyStore V} {files : Files String ℕ}
      (h : Reachable R N path store files)
      (os : Os) (key : Units) (result : V) :
      Reachable R N path (store.markDone R N os files key result).2.1
        (store.markDone R N os files key result).2.2

/-- Two stores answer alike. -/
def SameAnswers (R : Results ν V) (store store' : FileIdempotencyStore V) : Prop :=
  ∀ k, store'.alreadyDone k = store.alreadyDone k ∧ store'.getResult R k = store.getResult R k

/-- A store and its files as they were, for all that calls can tell but `mark_done` of `key`. -/
structure AsBefore (R : Results ν V) (N : Numerals ν) (key : Units)
    (store store' : FileIdempotencyStore V)
    (files files' : Files String ℕ) : Prop where
  answers : SameAnswers R store store'
  file : files' store.path = files store.path
  later (key' : Units) (hkey : key' ≠ key) (os : Os) (result : V) :
    let before := store.markDone R N os files key' result
    let after := store'.markDone R N os files' key' result
    after.1 = before.1 ∧ SameAnswers R before.2.1 after.2.1 ∧
      after.2.2 store.path = before.2.2 store.path

/-- If `mark_done` raises, it is as if it had not been called. -/
def AllOrNothing (R : Results ν V) (N : Numerals ν) (store : FileIdempotencyStore V) (os : Os)
    (files : Files String ℕ) (key : Units) (result : V) : Prop :=
  ∀ e, (store.markDone R N os files key result).1 = .error e →
    AsBefore R N key store (store.markDone R N os files key result).2.1 files
      (store.markDone R N os files key result).2.2

/-- **`mark_done` is all or nothing exactly when nothing can go wrong**: the key is recorded
already, or all values of the map serialise and no file operation raises. -/
theorem allOrNothing_iff (R : Results ν V) (N : Numerals ν) (store : FileIdempotencyStore V)
    (os : Os)
    (files : Files String ℕ) (key : Units) (result : V) :
    AllOrNothing R N store os files key result ↔
      store.alreadyDone key = true ∨
        (R.Dumps result ∧ ∀ m ∈ store.data.items, R.Dumps m.2) ∧ os.Completes 5 := by
  constructor
  · intro hall
    by_contra hwrong
    rw [not_or, Bool.not_eq_true] at hwrong
    obtain ⟨h, hraises⟩ := hwrong
    obtain ⟨e, left, -, hmark⟩ := markDone_of_raises N files h hraises
    have hbefore := hall e (congrArg Prod.fst hmark)
    have hdone := (hbefore.answers key).1
    rw [hmark, h] at hdone
    have hset : (store.recorded key result).alreadyDone key = true := by
      rw [alreadyDone, recorded, Dict.contains_set]
      simp
    cases hdone.symm.trans hset
  · rintro (h | ⟨hdumps, hos⟩) e he
    · rw [markDone_of_contains h] at he
      cases he
    · cases h : store.data.contains key with
      | true =>
        rw [markDone_of_contains h] at he
        cases he
      | false =>
        obtain ⟨text, htext⟩ := (exists_dumpMap_iff R N _).2 ((dumps_items_set R h result).2 hdumps)
        rw [markDone_of_completes h htext hos] at he
        cases he

end FileIdempotencyStore

/-- Python values as results. -/
def objects : Results ν (Object ν) := ⟨.none, Object.sortedDoc, Object.ofDoc⟩

namespace FileIdempotencyStore

/-- A result whose keys do not compare is recorded in memory only. -/
theorem exists_not_allOrNothing : ¬ ∀ (store : FileIdempotencyStore (Object ℤ))
    (files : Files String ℕ), Reachable objects Numerals.integers "done.json" store files →
      ∀ os key result, AllOrNothing objects Numerals.integers store os files key result := by
  intro hall
  have h := hall _ _ (.init fun _ => none) ⟨"a", none⟩ (utf16 "pay")
    (.dict [(.none, .num 1), (.str (codePoints "a"), .num 2)])
  have hraise : (Object.dict [(.none, .num 1), (.str (codePoints "a"), .num (2 : ℤ))]).sortedDoc =
      .error .typeError := rfl
  have hbefore := h (.json .typeError) rfl
  exact absurd (hbefore.answers (utf16 "pay")).1 (by decide)

end FileIdempotencyStore

end Resilience.Python
