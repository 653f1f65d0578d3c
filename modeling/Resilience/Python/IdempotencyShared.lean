import Resilience.Python.IdempotencyRuns

/-!
# Several stores on one file

Runs in which stores are opened on one path and called, each call as one step and without a failure.
A store writes its own map over the file, whatever else is in it; so a key is claimed once, and
stays in the file, exactly as long as every store is up to date when it records a key
(`firstWriterWins_iff`).
-/

namespace Resilience.Python

open Json FileIdempotencyStore

variable {ν V : Type}

/-- The files, the stores that are open on one of them, and the keys for which `mark_done` has
returned `True`. -/
structure World (V : Type) where
  files : Files String ℕ
  stores : List (FileIdempotencyStore V)
  claimed : List Units

namespace World

/-- A store is opened or called. -/
inductive Event (V : Type)
  | init
  | alreadyDone (i : ℕ) (key : Units)
  | markDone (i : ℕ) (key : Units) (result : V) (random : String)

variable (R : Results ν V) (N : Numerals ν) (path : String)

def start (files : Files String ℕ) : World V := ⟨files, [], []⟩

def step (w : World V) : Event V → World V
  | .init => { w with stores := w.stores ++ [init R N path w.files] }
  | .alreadyDone _ _ => w
  | .markDone i key result random =>
    match w.stores[i]? with
    | none => w
    | some store =>
      match store.markDone R N ⟨random, none⟩ w.files key result with
      | (.ok true, store, files) => ⟨files, w.stores.set i store, w.claimed ++ [key]⟩
      | (_, store, files) => ⟨files, w.stores.set i store, w.claimed⟩

/-- The result of a call can be written. -/
def Event.Dumps : Event V → Prop
  | .markDone _ _ result _ => R.Dumps result
  | _ => True

/-- No key has been claimed twice, and a store that is opened now knows all that are claimed. -/
structure FirstWriterWins (w : World V) : Prop where
  once : w.claimed.Nodup
  known : ∀ key ∈ w.claimed, (init R N path w.files).alreadyDone key = true

/-- A store that is about to record a key knows all keys of the file. -/
def UpToDate (w : World V) : Event V → Prop
  | .markDone i key _ _ => ∀ store ∈ w.stores[i]?, store.alreadyDone key = false →
      ∀ k, (init R N path w.files).alreadyDone k = true → store.alreadyDone k = true
  | _ => True

/-- What holds while all stores are up to date when they record a key. -/
structure Inv (w : World V) : Prop extends FirstWriterWins R N path w where
  path_eq : ∀ store ∈ w.stores, store.path = path
  dumps : ∀ store ∈ w.stores, ∀ m ∈ store.data.items, R.Dumps m.2
  /-- The file has every key of every store. -/
  held : ∀ store ∈ w.stores, ∀ k, store.data.contains k = true →
    (init R N path w.files).alreadyDone k = true
  /-- Stores differ from the file in claimed keys only. -/
  base : ∀ store ∈ w.stores, ∀ k, (init R N path w.files).alreadyDone k = true →
    k ∈ w.claimed ∨ store.data.contains k = true

variable {R N path}

/-- What `mark_done` does to the stores and the file. -/
theorem step_markDone (hN : N.Lawful some) {w : World V} (h : Inv R N path w) {i : ℕ}
    {store : FileIdempotencyStore V} (hstore : w.stores[i]? = some store) {key : Units} {result : V}
    (hresult : R.Dumps result) (random : String) :
    store.data.contains key = true ∧ step R N path w (.markDone i key result random) = w ∨
      store.data.contains key = false ∧ ∃ files,
        (∀ k, (init R N path files).alreadyDone k = (decide (k = key) || store.data.contains k)) ∧
        step R N path w (.markDone i key result random) =
          ⟨files, w.stores.set i (store.recorded key result), w.claimed ++ [key]⟩ := by
  have hmem := List.mem_of_getElem? hstore
  cases hkey : store.data.contains key with
  | true =>
    refine .inl ⟨rfl, ?_⟩
    obtain ⟨hi, rfl⟩ := List.getElem?_eq_some_iff.1 hstore
    rw [step, hstore]
    dsimp only
    rw [markDone_of_contains hkey]
    simp
  | false =>
    obtain ⟨text, files, htext, hfile, hmark⟩ :=
      markDone_of_dumps (N := N) hkey hresult (h.dumps store hmem) random w.files
    refine .inr ⟨rfl, files, fun k => ?_, ?_⟩
    · rw [alreadyDone, init, ← h.path_eq store hmem, hfile, contains_loadMap hN htext,
        Dict.contains_set]
    · rw [step, hstore]
      dsimp only
      rw [hmark]

theorem inv_start (files : Files String ℕ) : Inv R N path (start files) where
  once := List.nodup_nil
  known := fun _ hkey => absurd hkey List.not_mem_nil
  path_eq := fun _ hstore => absurd hstore List.not_mem_nil
  dumps := fun _ hstore => absurd hstore List.not_mem_nil
  held := fun _ hstore => absurd hstore List.not_mem_nil
  base := fun _ hstore => absurd hstore List.not_mem_nil

theorem inv_init (hR : R.Rewrites) {w : World V} (h : Inv R N path w) :
    Inv R N path (step R N path w .init) where
  once := h.once
  known := h.known
  path_eq := List.forall_mem_append.2 ⟨h.path_eq, List.forall_mem_singleton.2 rfl⟩
  dumps := List.forall_mem_append.2
    ⟨h.dumps, List.forall_mem_singleton.2 (dumps_loadMap hR N (w.files path))⟩
  held := List.forall_mem_append.2 ⟨h.held, List.forall_mem_singleton.2 fun _ hk => hk⟩
  base := List.forall_mem_append.2 ⟨h.base, List.forall_mem_singleton.2 fun _ hk => .inr hk⟩

/-- A store that knows all keys of the file keeps the invariant when it records one more. -/
theorem inv_recorded {w : World V} (h : Inv R N path w) {i : ℕ} {store : FileIdempotencyStore V}
    (hstore : w.stores[i]? = some store) {key : Units} {result : V}
    (hkey : store.data.contains key = false) (hresult : R.Dumps result) {files : Files String ℕ}
    (hfiles : ∀ k, (init R N path files).alreadyDone k =
      (decide (k = key) || store.data.contains k))
    (hknows : ∀ k, (init R N path w.files).alreadyDone k = true → store.data.contains k = true) :
    Inv R N path ⟨files, w.stores.set i (store.recorded key result), w.claimed ++ [key]⟩ := by
  have hmem := List.mem_of_getElem? hstore
  have hnew : ∀ k, (init R N path files).alreadyDone k = true ↔
      k = key ∨ store.data.contains k = true := by
    intro k
    rw [hfiles, Bool.or_eq_true, decide_eq_true_iff]
  have hrecorded : ∀ k, (store.recorded key result).data.contains k = true ↔
      k = key ∨ store.data.contains k = true := by
    intro k
    rw [recorded, Dict.contains_set, Bool.or_eq_true, decide_eq_true_iff]
  have hold : ∀ {P : FileIdempotencyStore V → Prop}, (∀ s ∈ w.stores, P s) →
      P (store.recorded key result) →
      ∀ s ∈ w.stores.set i (store.recorded key result), P s := by
    intro P hP hset s hs
    rcases List.mem_or_eq_of_mem_set hs with hs | rfl
    · exact hP s hs
    · exact hset
  have hunclaimed : key ∉ w.claimed := fun hclaimed =>
    Bool.false_ne_true (hkey.symm.trans (hknows key (h.known key hclaimed)))
  refine ⟨⟨?_, ?_⟩, ?_, ?_, ?_, ?_⟩
  · exact List.nodup_append.2 ⟨h.once, List.nodup_singleton _, fun k hk k' hk' heq =>
      hunclaimed (List.mem_singleton.1 hk' ▸ heq ▸ hk)⟩
  · intro k hk
    rcases List.mem_append.1 hk with hk | hk
    · exact (hnew k).2 (.inr (hknows k (h.known k hk)))
    · exact (hnew k).2 (.inl (List.mem_singleton.1 hk))
  · exact hold h.path_eq (h.path_eq store hmem)
  · exact hold h.dumps ((dumps_items_set R hkey result).2 ⟨hresult, h.dumps store hmem⟩)
  · refine hold (fun s hs k hk => ?_) fun k hk => (hnew k).2 ((hrecorded k).1 hk)
    exact (hnew k).2 (.inr (hknows k (h.held s hs k hk)))
  · refine hold (fun s hs k hk => ?_) fun k hk => .inr ((hrecorded k).2 ((hnew k).1 hk))
    rcases (hnew k).1 hk with rfl | hk
    · exact .inl (List.mem_append.2 (.inr (List.mem_singleton.2 rfl)))
    · exact (h.base s hs k (h.held store hmem k hk)).imp (List.mem_append_left _) id

theorem inv_step (hN : N.Lawful some) (hR : R.Rewrites) (w : World V) (ev : Event V)
    (hev : ev.Dumps R) (h : Inv R N path w) (hfresh : UpToDate R N path w ev) :
    Inv R N path (step R N path w ev) := by
  cases ev with
  | init => exact inv_init hR h
  | alreadyDone i key => exact h
  | markDone i key result random =>
    cases hstore : w.stores[i]? with
    | none =>
      rw [step, hstore]
      exact h
    | some store =>
      rcases step_markDone hN h hstore hev random with ⟨-, hsame⟩ | ⟨hkey, files, hfiles, hstep⟩
      · rwa [hsame]
      · rw [hstep]
        exact inv_recorded h hstore hkey hev hfiles (hfresh store hstore hkey)

/-- A store that misses a key of the file breaks the property when it records another one: it
claims a claimed key again, or it erases one. -/
theorem upToDate_of_firstWriterWins (hN : N.Lawful some) (w : World V) (ev : Event V)
    (hev : ev.Dumps R) (h : Inv R N path w)
    (hafter : FirstWriterWins R N path (step R N path w ev)) : UpToDate R N path w ev := by
  cases ev with
  | init => trivial
  | alreadyDone i key => trivial
  | markDone i key result random =>
    intro store hstore hkey k hk
    rcases step_markDone hN h hstore hev random with ⟨hdone, -⟩ | ⟨-, files, hfiles, hstep⟩
    · cases hkey.symm.trans hdone
    rw [hstep] at hafter
    rcases h.base store (List.mem_of_getElem? hstore) k hk with hclaimed | hholds
    · have hknown := hafter.known k (List.mem_append_left _ hclaimed)
      rw [hfiles, Bool.or_eq_true, decide_eq_true_iff] at hknown
      rcases hknown with rfl | hholds
      · have hdisjoint := (List.nodup_append.1 hafter.once).2.2
        exact absurd rfl (hdisjoint k hclaimed k (List.mem_singleton.2 rfl))
      · exact hholds
    · exact hholds

/-- **The first writer wins in every state of a run exactly when every store is up to date whenever
it records a key.** -/
theorem firstWriterWins_iff (hN : N.Lawful some) (hR : R.Rewrites) (files : Files String ℕ)
    (evs : List (Event V)) (hevs : ∀ ev ∈ evs, ev.Dumps R) :
    Runs.Always (step R N path) (FirstWriterWins R N path) (start files) evs ↔
      Runs.EachStep (step R N path) (UpToDate R N path) (start files) evs :=
  Runs.always_iff_eachStep (fun _ h => h.toFirstWriterWins) (inv_step hN hR)
    (upToDate_of_firstWriterWins hN) (inv_start files) (Runs.eachStep_of_forall_mem _ hevs)

/-- A second store is opened before it records a key; the first one is not called for new keys any
more. -/
theorem firstWriterWins_iff_handover :
    Runs.Always (step values Numerals.integers "done.json")
      (FirstWriterWins values Numerals.integers "done.json") (start fun _ => none)
      [.init, .markDone 0 (utf16 "a") .none "x", .init, .markDone 1 (utf16 "b") .none "y",
        .markDone 0 (utf16 "a") .none "z"] := by
  refine (firstWriterWins_iff Numerals.lawful_integers rewrites_values _ _ fun ev hev => ?dumps).2
    ⟨trivial, ?first, trivial, ?second, ?again, trivial⟩
  case dumps =>
    simp only [List.mem_cons, List.not_mem_nil, or_false] at hev
    rcases hev with rfl | rfl | rfl | rfl | rfl
    · trivial
    · exact ⟨_, rfl⟩
    · trivial
    · exact ⟨_, rfl⟩
    · exact ⟨_, rfl⟩
  case first =>
    rintro store ⟨⟩ - k hk
    exact hk
  case second =>
    rintro store ⟨⟩ - k hk
    exact hk
  case again =>
    rintro store ⟨⟩ hunknown
    exact absurd hunknown (by decide +kernel)

/-- Two stores that are opened before a key is recorded both record it. -/
theorem exists_not_firstWriterWins : ¬ ∀ evs : List (Event (Value ℤ)),
    (∀ ev ∈ evs, ev.Dumps values) → Runs.Always (step values Numerals.integers "done.json")
      (FirstWriterWins values Numerals.integers "done.json") (start fun _ => none) evs := by
  intro hall
  have h := hall [.init, .init, .markDone 0 (utf16 "a") .none "x",
    .markDone 1 (utf16 "a") .none "y"] (by
      intro ev hev
      simp only [List.mem_cons, List.not_mem_nil, or_false] at hev
      rcases hev with rfl | rfl | rfl | rfl
      · trivial
      · trivial
      · exact ⟨_, rfl⟩
      · exact ⟨_, rfl⟩)
  have honce := h.2.2.2.2.once
  exact absurd honce (by decide +kernel)

end World

end Resilience.Python
