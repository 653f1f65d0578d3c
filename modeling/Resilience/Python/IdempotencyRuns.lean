import Resilience.Foundations.Runs
import Resilience.Python.Idempotency

/-!
# Runs of the file store

What a store finds in a file that a store has written (`get?_loadMap`, and `view_loadMap` for JSON
values), and what follows for runs with one open store: when its process crashes at any file
operation (`crash_consistent`), and when it is closed and opened again between calls
(`answers_eq`).
-/

namespace Resilience.Python

open Json

variable {ν V : Type}

/-! ## Reading what is written -/

theorem loadMap_render (R : Results ν V) {N : Numerals ν} (hN : N.Lawful some) {items : Items ν}
    (hnodup : (items.map Prod.fst).Nodup) :
    loadMap R N (some (render N.asciiCodec false (.obj items))) =
      .ofList (items.map fun m => (m.1, R.load (m.2.transform id .num assignAll))) := by
  have hcr : 0x0D ∉ render N.asciiCodec false (.obj items) := by
    intro hmem
    have := (hN.printable_asciiCodec false _ _ hmem).1
    omega
  have hblank : isBlank isSpace (render N.asciiCodec false (.obj items)) = false := by
    rw [render_obj]
    exact isBlank_cons (by decide)
  have hmap :
      ((items.map fun m => (id m.1, m.2.transform id .num assignAll)).map Prod.fst).Nodup := by
    rwa [List.map_map]
  rw [loadMap, universalNewlines_eq_self hcr, if_neg (Bool.eq_false_iff.1 hblank), loads_render hN,
    transform_obj, assignAll_eq_self hmap]
  show Dict.ofList ((items.map fun m => (m.1, m.2.transform id .num assignAll)).map
    fun m => (m.1, R.load m.2)) = _
  rw [List.map_map]
  rfl

/-- What is read back for a value. -/
def Results.reload (R : Results ν V) (v : V) : Option V :=
  (R.dump v).toOption.map fun doc => R.load (doc.transform id .num assignAll)

theorem lookup_of_map_eq_ok {f : V → Except PyError (Doc ν)} {ms : List (Units × V)}
    {items : Items ν}
    (h : (ms.map fun m => (f m.2).map fun v => (m.1, v)) = items.map .ok) (key : Units) :
    lookup key items = (lookup key ms).bind fun v => (f v).toOption := by
  induction ms generalizing items with
  | nil =>
    rw [List.map_eq_nil_iff.1 h.symm]
    rfl
  | cons m ms ih =>
    cases items with
    | nil => cases h
    | cons item items =>
      obtain ⟨hhead, htail⟩ := List.cons.inj h
      obtain ⟨doc, hdoc, rfl⟩ := map_eq_ok_iff.1 hhead
      rw [lookup_cons, lookup_cons, ih htail]
      split_ifs
      · rw [Option.bind_some, hdoc]
        rfl
      · rfl

theorem keys_of_map_eq_ok {f : V → Except PyError (Doc ν)} {ms : List (Units × V)}
    {items : Items ν}
    (h : (ms.map fun m => (f m.2).map fun v => (m.1, v)) = items.map .ok) :
    items.map Prod.fst = ms.map Prod.fst := by
  induction ms generalizing items with
  | nil => rw [List.map_eq_nil_iff.1 h.symm, List.map_nil, List.map_nil]
  | cons m ms ih =>
    cases items with
    | nil => cases h
    | cons item items =>
      obtain ⟨hhead, htail⟩ := List.cons.inj h
      obtain ⟨doc, -, rfl⟩ := map_eq_ok_iff.1 hhead
      rw [List.map_cons, List.map_cons, ih htail]

theorem get?_ofList {items : List (Units × V)} (hnodup : (items.map Prod.fst).Nodup) (key : Units) :
    (Dict.ofList items).get? key = lookup key items :=
  congrArg (lookup key) (assignAll_eq_self hnodup)

/-- **A written map is read back**, value by value. -/
theorem get?_loadMap {R : Results ν V} {N : Numerals ν} (hN : N.Lawful some) {data : Dict V}
    {text : Text} (h : dumpMap R N data = .ok text) (key : Units) :
    (loadMap R N (some text)).get? key = (data.get? key).bind R.reload := by
  obtain ⟨items, hitems, rfl⟩ := map_eq_ok_iff.1 h
  rw [dumpItems, mapM_eq_ok_iff] at hitems
  have hnodup : (items.map Prod.fst).Nodup := by
    rw [keys_of_map_eq_ok hitems]
    exact ((sortMembers_perm rank data.items).map Prod.fst).nodup_iff.2 data.nodup
  have hmap : ((items.map fun m => (m.1, R.load (m.2.transform id .num assignAll))).map
      Prod.fst).Nodup := by rwa [List.map_map]
  rw [loadMap_render R hN hnodup, get?_ofList hmap,
    lookup_map key fun d : Doc ν => R.load (d.transform id .num assignAll),
    lookup_of_map_eq_ok hitems, lookup_sortMembers rank data.nodup, Option.map_bind]
  rfl

theorem contains_loadMap {R : Results ν V} {N : Numerals ν} (hN : N.Lawful some) {data : Dict V}
    {text : Text} (h : dumpMap R N data = .ok text) (key : Units) :
    (loadMap R N (some text)).contains key = data.contains key := by
  rw [Dict.contains, Dict.contains, get?_loadMap hN h]
  cases hget : data.get? key with
  | none => rfl
  | some v =>
    obtain ⟨doc, hdoc⟩ := (exists_dumpMap_iff R N data).1 ⟨text, h⟩ _ (mem_of_lookup hget)
    rw [Option.bind_some, Results.reload, hdoc]
    rfl

/-- What `json.loads` returns can be written again. -/
def Results.Rewrites (R : Results ν V) : Prop := ∀ doc, R.Dumps (R.load doc)

theorem dumps_loadMap {R : Results ν V} (hR : R.Rewrites) (N : Numerals ν) (file : Option Text) :
    ∀ m ∈ (loadMap R N file).items, R.Dumps m.2 := by
  intro m hm
  unfold loadMap at hm
  split at hm
  · exact absurd hm List.not_mem_nil
  · dsimp only at hm
    split_ifs at hm
    · exact absurd hm List.not_mem_nil
    · split at hm
      · obtain ⟨m', -, rfl⟩ := List.mem_map.1 (assignAll_subset _ hm)
        exact hR m'.2
      · exact absurd hm List.not_mem_nil
      · exact absurd hm List.not_mem_nil

namespace FileIdempotencyStore

/-- A `mark_done` that records its key, when nothing fails. -/
theorem markDone_of_dumps {R : Results ν V} {N : Numerals ν} {store : FileIdempotencyStore V}
    {key : Units} {result : V} (h : store.data.contains key = false) (hresult : R.Dumps result)
    (hdata : ∀ m ∈ store.data.items, R.Dumps m.2) (random : String) (files : Files String ℕ) :
    ∃ text files', dumpMap R N (store.data.set key result) = .ok text ∧
      files' store.path = some text ∧
      store.markDone R N ⟨random, none⟩ files key result =
        (.ok true, store.recorded key result, files') := by
  obtain ⟨text, htext⟩ :=
    (exists_dumpMap_iff R N _).2 ((dumps_items_set R h result).2 ⟨hresult, hdata⟩)
  have hos : (Os.mk random none).Completes 5 := fun _ hfault => by cases hfault
  exact ⟨text, _, htext, execAll_writeOps .., markDone_of_completes h htext hos⟩

end FileIdempotencyStore

/-! ## JSON results -/

/-- What `json.loads` returns; its dictionaries have no duplicate keys already. -/
def Value.ofDoc (doc : Doc ν) : Value ν :=
  ⟨doc.transform id .num assignAll, within_transform_assignAll doc⟩

/-- A value without the order of its items, which `==` does not look at. -/
def Value.sorted (v : Value ν) : Doc ν := sortKeys rank v.doc

/-- JSON values as results. -/
def values : Results ν (Value ν) := ⟨.none, fun v => .ok v.sorted, .ofDoc⟩

theorem rewrites_values : (values : Results ν (Value ν)).Rewrites := fun _ => ⟨_, rfl⟩

theorem reload_values (v : Value ν) : ∃ w, values.reload v = some w ∧ w.sorted = v.sorted := by
  refine ⟨_, rfl, ?_⟩
  have hnodup := Within.sortKeys rank (fun _ _ hperm => hperm.nodup) v.nodup
  show sortKeys rank ((v.sorted.transform id .num assignAll).transform id .num assignAll) = v.sorted
  rw [Value.sorted, hnodup.transform_eq_self fun _ => assignAll_eq_self,
    hnodup.transform_eq_self fun _ => assignAll_eq_self, sortKeys_sortKeys]

/-- What a map has for each key. -/
def Dict.view (data : Dict (Value ν)) (key : Units) : Option (Doc ν) :=
  (data.get? key).map Value.sorted

theorem Dict.view_set (data : Dict (Value ν)) (key : Units) (v : Value ν) :
    (data.set key v).view = Function.update data.view key (some v.sorted) := by
  funext k
  rw [Dict.view, Dict.get?_set, Function.update_apply]
  split_ifs <;> rfl

theorem Dict.isSome_view (data : Dict (Value ν)) (key : Units) :
    (data.view key).isSome = data.contains key := Option.isSome_map

/-- **A written map of JSON values is read back.** -/
theorem view_loadMap {N : Numerals ν} (hN : N.Lawful some) {data : Dict (Value ν)} {text : Text}
    (h : dumpMap values N data = .ok text) : (loadMap values N (some text)).view = data.view := by
  funext key
  rw [Dict.view, Dict.view, get?_loadMap hN h]
  cases data.get? key with
  | none => rfl
  | some v =>
    obtain ⟨w, hw, hsorted⟩ := reload_values v
    rw [Option.bind_some, hw, Option.map_some, Option.map_some, hsorted]

theorem dumps_values (v : Value ν) : values.Dumps v := ⟨_, rfl⟩

namespace FileIdempotencyStore

/-- `mark_done` of a new key, when nothing fails. -/
theorem markDone_values {N : Numerals ν} (hN : N.Lawful some)
    {store : FileIdempotencyStore (Value ν)} {key : Units} (h : store.data.contains key = false)
    (result : Value ν) (random : String) (files : Files String ℕ) :
    ∃ files', store.markDone values N ⟨random, none⟩ files key result =
        (.ok true, store.recorded key result, files') ∧
      (loadMap values N (files' store.path)).view =
        Function.update store.data.view key (some result.sorted) := by
  obtain ⟨text, files', htext, hfile, hmark⟩ := markDone_of_dumps (N := N) h (dumps_values result)
    (fun _ _ => dumps_values _) random files
  refine ⟨files', hmark, ?_⟩
  rw [hfile, view_loadMap hN htext, Dict.view_set]

/-- The files when the process dies in `mark_done`, at operation number `i` of `atomic_write` and
after `n` characters of a write. -/
def markDoneUntil (N : Numerals ν) (store : FileIdempotencyStore (Value ν)) (random : String)
    (i n : ℕ) (files : Files String ℕ) (key : Units) (result : Value ν) : Files String ℕ :=
  if store.data.contains key then files
  else
    match dumpMap values N (store.data.set key result) with
    | .error _ => files
    | .ok text =>
      Files.stopAt (writeOps store.path (tempName store.path random) text .none true) i n files

/-- The file is as it was, or it has the whole new map. -/
theorem markDoneUntil_cases {N : Numerals ν} (hN : N.Lawful some)
    (store : FileIdempotencyStore (Value ν)) (random : String) (i n : ℕ) (files : Files String ℕ)
    (key : Units) (result : Value ν) :
    store.markDoneUntil N random i n files key result store.path = files store.path ∨
      store.data.contains key = false ∧
        (loadMap values N (store.markDoneUntil N random i n files key result store.path)).view =
          Function.update store.data.view key (some result.sorted) := by
  unfold markDoneUntil
  cases h : store.data.contains key with
  | true => exact .inl rfl
  | false =>
    rw [if_neg Bool.false_ne_true]
    cases htext : dumpMap values N (store.data.set key result) with
    | error e => exact .inl rfl
    | ok text =>
      dsimp only
      rw [stopAt_writeOps]
      split_ifs
      · exact .inl rfl
      · exact .inr ⟨rfl, by rw [view_loadMap hN htext, Dict.view_set]⟩

end FileIdempotencyStore

/-! ## Crashes -/

open FileIdempotencyStore

/-- The files, the store of the process that is alive, the calls of `mark_done` that have returned
`True`, and those that would have but for a crash. -/
structure Process (ν : Type) where
  files : Files String ℕ
  live : Option (FileIdempotencyStore (Value ν))
  completed : List (Units × Value ν)
  interrupted : List (Units × Value ν)

namespace Process

/-- A store is opened or called, or the process dies, in a call or between calls. -/
inductive Event (ν : Type)
  | init
  | markDone (key : Units) (result : Value ν) (random : String)
  | markDoneUntil (key : Units) (result : Value ν) (random : String) (i n : ℕ)
  | crash

variable (N : Numerals ν) (path : String)

def start (files : Files String ℕ) : Process ν := ⟨files, none, [], []⟩

def step (p : Process ν) : Event ν → Process ν
  | .init => { p with live := some (init values N path p.files) }
  | .markDone key result random =>
    match p.live with
    | none => p
    | some store =>
      match store.markDone values N ⟨random, none⟩ p.files key result with
      | (.ok true, store, files) =>
        { p with files := files, live := some store, completed := p.completed ++ [(key, result)] }
      | (_, store, files) => { p with files := files, live := some store }
  | .markDoneUntil key result random i n =>
    match p.live with
    | none => p
    | some store =>
      { p with
        files := store.markDoneUntil N random i n p.files key result
        live := none
        interrupted :=
          if store.data.contains key then p.interrupted else p.interrupted ++ [(key, result)] }
  | .crash => { p with live := none }

/-- The map of a store that is opened now. -/
def reopened (p : Process ν) : Dict (Value ν) := (init values N path p.files).data

/-- Nothing happens but that processes start and die. -/
def Event.Idle : Event ν → Prop
  | .init => True
  | .crash => True
  | _ => False

/-- What a store that is opened finds; `base` is what the file had at the start. -/
structure Consistent (base : Units → Option (Doc ν)) (p : Process ν) : Prop where
  /-- Between calls, the map of the store that was open. -/
  closed : ∀ store ∈ p.live, (reopened N path p).view = store.data.view
  /-- After a call that was interrupted, the map from before it or the map from after it. -/
  atomic : ∀ store ∈ p.live, ∀ key result random i n idle, (∀ ev ∈ idle, Event.Idle ev) →
    let crashed := step N path p (.markDoneUntil key result random i n)
    let found := (reopened N path (Runs.run (step N path) crashed idle)).view
    found = store.data.view ∨
      found = (store.markDone values N ⟨random, none⟩ p.files key result).2.1.data.view
  present : ∀ m ∈ p.completed, (reopened N path p).view m.1 = some m.2.sorted
  only : ∀ key doc, (reopened N path p).view key = some doc →
    base key = some doc ∨ ∃ m ∈ p.completed ++ p.interrupted, m.1 = key ∧ m.2.sorted = doc

/-- What holds of every process. -/
structure Inv (base : Units → Option (Doc ν)) (p : Process ν) : Prop where
  path_eq : ∀ store ∈ p.live, store.path = path
  closed : ∀ store ∈ p.live, (reopened N path p).view = store.data.view
  present : ∀ m ∈ p.completed, (reopened N path p).view m.1 = some m.2.sorted
  only : ∀ key doc, (reopened N path p).view key = some doc →
    base key = some doc ∨ ∃ m ∈ p.completed ++ p.interrupted, m.1 = key ∧ m.2.sorted = doc

variable {N path} {base : Units → Option (Doc ν)} {p : Process ν}

theorem inv_start (files : Files String ℕ) :
    Inv N path (loadMap values N (files path)).view (start files) where
  path_eq := fun _ hstore => by cases hstore
  closed := fun _ hstore => by cases hstore
  present := fun _ hm => absurd hm List.not_mem_nil
  only := fun _ _ hdoc => .inl hdoc

theorem run_idle {idle : List (Event ν)} (h : ∀ ev ∈ idle, ev.Idle) (p : Process ν) :
    (Runs.run (step N path) p idle).files = p.files := by
  induction idle generalizing p with
  | nil => rfl
  | cons ev idle ih =>
    obtain ⟨hev, hidle⟩ := List.forall_mem_cons.1 h
    rw [Runs.run_cons, ih hidle]
    cases ev with
    | init => rfl
    | crash => rfl
    | markDone key result random => exact hev.elim
    | markDoneUntil key result random i n => exact hev.elim

/-- A new key in the file, for a call that has completed or was interrupted. -/
theorem Inv.recorded (h : Inv N path base p) {p' : Process ν} {key : Units} {result : Value ν}
    (hkey : (reopened N path p).view key = none)
    (hview : (reopened N path p').view =
      Function.update (reopened N path p).view key (some result.sorted))
    (hlive : ∀ store ∈ p'.live, store.path = path ∧ (reopened N path p').view = store.data.view)
    (hcalls : p'.completed = p.completed ++ [(key, result)] ∧ p'.interrupted = p.interrupted ∨
      p'.completed = p.completed ∧ p'.interrupted = p.interrupted ++ [(key, result)]) :
    Inv N path base p' := by
  have hold : ∀ m ∈ p.completed, (reopened N path p').view m.1 = some m.2.sorted := by
    intro m hm
    have hm' := h.present m hm
    have hne : m.1 ≠ key := by
      intro heq
      rw [heq, hkey] at hm'
      cases hm'
    rw [hview, Function.update_of_ne hne, hm']
  have hself : (reopened N path p').view key = some result.sorted := by
    rw [hview, Function.update_self]
  have hmem : ∀ m, m ∈ p'.completed ++ p'.interrupted ↔
      m ∈ p.completed ++ p.interrupted ∨ m = (key, result) := by
    intro m
    rcases hcalls with ⟨hc, hi⟩ | ⟨hc, hi⟩ <;> rw [hc, hi] <;>
      simp only [List.mem_append, List.mem_singleton] <;> tauto
  refine ⟨fun store hstore => (hlive store hstore).1, fun store hstore => (hlive store hstore).2,
    ?_, ?_⟩
  · intro m hm
    rcases hcalls with ⟨hc, -⟩ | ⟨hc, -⟩
    · rw [hc] at hm
      rcases List.mem_append.1 hm with hm | hm
      · exact hold m hm
      · rw [List.mem_singleton.1 hm, hself]
    · exact hold m (hc ▸ hm)
  · intro k doc hdoc
    by_cases hk : k = key
    · rw [hk, hself, Option.some.injEq] at hdoc
      exact .inr ⟨(key, result), (hmem _).2 (.inr rfl), hk.symm, hdoc⟩
    · rw [hview, Function.update_of_ne hk] at hdoc
      rcases h.only k doc hdoc with hbase | ⟨m, hm, heq⟩
      · exact .inl hbase
      · exact .inr ⟨m, (hmem m).2 (.inl hm), heq⟩

/-- The file as it was, for a call that was interrupted. -/
theorem Inv.untouched (h : Inv N path base p) {p' : Process ν}
    (hfile : p'.files path = p.files path) (hlive : p'.live = none)
    (hcompleted : p'.completed = p.completed) (hinterrupted : p.interrupted ⊆ p'.interrupted) :
    Inv N path base p' := by
  have hreopened : reopened N path p' = reopened N path p := by
    rw [reopened, reopened, init, init, hfile]
  refine ⟨fun store hstore => ?_, fun store hstore => ?_, ?_, ?_⟩
  · cases hlive.symm.trans hstore
  · cases hlive.symm.trans hstore
  · rw [hcompleted, hreopened]
    exact h.present
  · intro key doc hdoc
    rw [hreopened] at hdoc
    refine (h.only key doc hdoc).imp id ?_
    rintro ⟨m, hm, heq⟩
    refine ⟨m, ?_, heq⟩
    rw [hcompleted]
    exact (List.mem_append.1 hm).elim (List.mem_append_left _) fun hm =>
      List.mem_append_right _ (hinterrupted hm)

theorem view_eq_none {store : FileIdempotencyStore (Value ν)} {view : Units → Option (Doc ν)}
    (hview : view = store.data.view) {key : Units} (h : store.data.contains key = false) :
    view key = none := by
  rw [hview, Dict.view, Dict.get?_eq_none h]
  rfl

theorem Inv.step (hN : N.Lawful some) (p : Process ν) (ev : Event ν) (h : Inv N path base p) :
    Inv N path base (step N path p ev) := by
  cases ev with
  | init =>
    refine ⟨fun store hstore => ?_, fun store hstore => ?_, h.present, h.only⟩ <;>
    · rw [← Option.some.inj hstore]
      rfl
  | crash =>
    refine ⟨fun store hstore => ?_, fun store hstore => ?_, h.present, h.only⟩
    · exact absurd hstore (Option.not_mem_none store)
    · exact absurd hstore (Option.not_mem_none store)
  | markDone key result random =>
    cases hlive : p.live with
    | none =>
      rw [Process.step, hlive]
      exact h
    | some store =>
      have hpath := h.path_eq store hlive
      have hclosed := h.closed store hlive
      cases hkey : store.data.contains key with
      | true =>
        rw [Process.step, hlive]
        dsimp only
        rw [markDone_of_contains hkey]
        dsimp only
        rw [← hlive]
        exact h
      | false =>
        obtain ⟨files, hmark, hview⟩ := markDone_values hN hkey result random p.files
        rw [hpath, ← hclosed] at hview
        rw [Process.step, hlive]
        dsimp only
        rw [hmark]
        refine h.recorded (view_eq_none hclosed hkey) hview (fun s hs => ?_) (.inl ⟨rfl, rfl⟩)
        rw [← Option.some.inj hs]
        refine ⟨hpath, ?_⟩
        exact hview.trans (by rw [FileIdempotencyStore.recorded, Dict.view_set, hclosed])
  | markDoneUntil key result random i n =>
    cases hlive : p.live with
    | none =>
      rw [Process.step, hlive]
      exact h
    | some store =>
      have hpath := h.path_eq store hlive
      have hclosed := h.closed store hlive
      rw [Process.step, hlive]
      dsimp only
      rcases markDoneUntil_cases hN store random i n p.files key result with hsame | ⟨hkey, hview⟩
      · rw [hpath] at hsame
        refine h.untouched hsame rfl rfl ?_
        split_ifs
        · exact List.Subset.refl _
        · exact List.subset_append_left _ _
      · rw [hpath, ← hclosed] at hview
        rw [hkey]
        refine h.recorded (view_eq_none hclosed hkey) hview (fun s hs => ?_) (.inr ⟨rfl, rfl⟩)
        exact absurd hs (Option.not_mem_none s)

theorem Inv.consistent (hN : N.Lawful some) (h : Inv N path base p) : Consistent N path base p where
  closed := h.closed
  atomic := by
    intro store hstore key result random i n idle hidle
    dsimp only
    have hpath := h.path_eq store hstore
    have hclosed := h.closed store hstore
    have hfiles : (Runs.run (Process.step N path)
        (Process.step N path p (.markDoneUntil key result random i n)) idle).files =
          store.markDoneUntil N random i n p.files key result := by
      rw [run_idle hidle, Process.step, Option.mem_def.1 hstore]
    rw [reopened, init, hfiles, ← hpath]
    rcases markDoneUntil_cases hN store random i n p.files key result with hsame | ⟨hkey, hview⟩
    · rw [hsame, hpath]
      exact .inl hclosed
    · obtain ⟨files, hmark, -⟩ := markDone_values hN hkey result random p.files
      rw [hmark, FileIdempotencyStore.recorded, Dict.view_set]
      exact .inr hview
  present := h.present
  only := h.only

/-- **A crash leaves the map from before the interrupted call or the one from after it**, after
every run: what has completed is there, and nothing is there that no call has brought. -/
theorem crash_consistent (hN : N.Lawful some) (path : String) (files : Files String ℕ)
    (evs : List (Event ν)) :
    Consistent N path (loadMap values N (files path)).view
      (Runs.run (Process.step N path) (start files) evs) :=
  (Runs.run_of_step (Inv.step hN) (inv_start files) evs).consistent hN

theorem crash_consistent_one : Consistent Numerals.integers "done.json"
    (loadMap values Numerals.integers none).view
    (Runs.run (Process.step Numerals.integers "done.json") (start fun _ => none)
      [.init, .markDone (utf16 "a") .none "x", .markDoneUntil (utf16 "b") .none "y" 2 7, .init]) :=
  crash_consistent Numerals.lawful_integers "done.json" (fun _ => none) _

end Process

/-! ## Closing and opening again -/

/-- The calls of a store. -/
inductive Call (V : Type)
  | alreadyDone (key : Units)
  | getResult (key : Units)
  | markDone (key : Units) (result : V)

inductive Answer (V : Type)
  | bool (b : Bool)
  | value (v : V)

def Answer.map {W : Type} (f : V → W) : Answer V → Answer W
  | .bool b => .bool b
  | .value v => .value (f v)

/-- A call, with the name of the temporary file, or the store is closed and opened again. -/
inductive Use (V : Type)
  | call (c : Call V) (random : String)
  | reopen

/-- The calls among the uses. -/
def calls : List (Use V) → List (Call V)
  | [] => []
  | .call c _ :: uses => c :: calls uses
  | .reopen :: uses => calls uses

namespace InMemoryIdempotencyStore

def call (R : Results ν V) (store : InMemoryIdempotencyStore V) :
    Call V → Answer V × InMemoryIdempotencyStore V
  | .alreadyDone key => (.bool (store.alreadyDone key), store)
  | .getResult key => (.value (store.getResult R key), store)
  | .markDone key result =>
    let (recorded, store) := store.markDone key result
    (.bool recorded, store)

/-- The answers to one call after the other. -/
def answers (R : Results ν V) : InMemoryIdempotencyStore V → List (Call V) → List (Answer V)
  | _, [] => []
  | store, c :: cs => (store.call R c).1 :: answers R (store.call R c).2 cs

end InMemoryIdempotencyStore

namespace FileIdempotencyStore

def call (R : Results ν V) (N : Numerals ν) (store : FileIdempotencyStore V) (random : String)
    (files : Files String ℕ) : Call V →
      Except StoreError (Answer V) × FileIdempotencyStore V × Files String ℕ
  | .alreadyDone key => (.ok (.bool (store.alreadyDone key)), store, files)
  | .getResult key => (.ok (.value (store.getResult R key)), store, files)
  | .markDone key result =>
    let (recorded, store, files) := store.markDone R N ⟨random, none⟩ files key result
    (recorded.map .bool, store, files)

/-- The answers to the calls, with the store opened again in between. -/
def answers (R : Results ν V) (N : Numerals ν) : FileIdempotencyStore V → Files String ℕ →
    List (Use V) → List (Except StoreError (Answer V))
  | _, _, [] => []
  | store, files, .call c random :: uses =>
    let (answer, store, files) := store.call R N random files c
    answer :: answers R N store files uses
  | store, files, .reopen :: uses => answers R N (init R N store.path files) files uses

end FileIdempotencyStore

/-! ### What the answers are -/

/-- The result of the first `mark_done` of a key. -/
def firstResult (key : Units) : List (Call V) → Option V
  | [] => none
  | .markDone k result :: cs => if k = key then some result else firstResult key cs
  | _ :: cs => firstResult key cs

/-- The answer to a call after others: only the first `mark_done` of a key counts. -/
def answerAfter (R : Results ν V) (past : List (Call V)) : Call V → Answer V
  | .alreadyDone key => .bool (firstResult key past).isSome
  | .getResult key => .value ((firstResult key past).getD R.none)
  | .markDone key _ => .bool (firstResult key past).isNone

theorem firstResult_append (key : Units) (cs cs' : List (Call V)) :
    firstResult key (cs ++ cs') = (firstResult key cs).or (firstResult key cs') := by
  induction cs with
  | nil => rfl
  | cons c cs ih =>
    cases c with
    | alreadyDone k => exact ih
    | getResult k => exact ih
    | markDone k result =>
      rw [List.cons_append, firstResult, firstResult, ih]
      split_ifs <;> rfl

namespace InMemoryIdempotencyStore

/-- The map has the result of the first `mark_done` of every key. -/
theorem call_answerAfter (R : Results ν V) {store : InMemoryIdempotencyStore V}
    {past : List (Call V)} (h : ∀ key, store.data.get? key = firstResult key past) (c : Call V) :
    (store.call R c).1 = answerAfter R past c ∧
      ∀ key, (store.call R c).2.data.get? key = firstResult key (past ++ [c]) := by
  have hsame : ∀ key, firstResult key [c] = none →
      firstResult key (past ++ [c]) = store.data.get? key := by
    intro key hc
    rw [firstResult_append, hc, Option.or_none, h]
  cases c with
  | alreadyDone k =>
    exact ⟨by rw [call, alreadyDone, Dict.contains, h]; rfl, fun key => (hsame key rfl).symm⟩
  | getResult k =>
    exact ⟨by rw [call, getResult, h]; rfl, fun key => (hsame key rfl).symm⟩
  | markDone k result =>
    have happend : ∀ key, firstResult key (past ++ [.markDone k result]) =
        (store.data.get? key).or (if k = key then some result else none) := by
      intro key
      rw [firstResult_append, h]
      rfl
    rw [call, markDone, answerAfter, ← h]
    cases hk : store.data.contains k with
    | true =>
      obtain ⟨v, hv⟩ := Option.isSome_iff_exists.1 hk
      refine ⟨by rw [hv]; rfl, fun key => ?_⟩
      rw [if_pos rfl, happend]
      split_ifs with heq
      · rw [← heq, hv]
        rfl
      · rw [Option.or_none]
    | false =>
      have hnone := Dict.get?_eq_none hk
      refine ⟨by rw [hnone]; rfl, fun key => ?_⟩
      rw [if_neg Bool.false_ne_true, happend]
      show (store.data.set k result).get? key = _
      by_cases heq : k = key
      · rw [← heq, hnone, Dict.get?_set_self, if_pos rfl, Option.none_or]
      · rw [Dict.get?_set_of_ne _ (Ne.symm heq), if_neg heq, Option.or_none]

/-- Every answer is the one that the calls before it determine. -/
theorem answers_eq_answerAfter (R : Results ν V) {store : InMemoryIdempotencyStore V}
    {past : List (Call V)} (h : ∀ key, store.data.get? key = firstResult key past)
    (cs : List (Call V)) {i : ℕ} {c : Call V} (hc : cs[i]? = some c) :
    (store.answers R cs)[i]? = some (answerAfter R (past ++ cs.take i) c) := by
  induction cs generalizing store past i with
  | nil => cases hc
  | cons c' cs ih =>
    obtain ⟨hanswer, hnext⟩ := store.call_answerAfter R h c'
    cases i with
    | zero =>
      rw [List.getElem?_cons_zero, Option.some.injEq] at hc
      rw [answers, List.getElem?_cons_zero, hanswer, hc, List.take_zero, List.append_nil]
    | succ i =>
      rw [List.getElem?_cons_succ] at hc
      rw [answers, List.getElem?_cons_succ, ih hnext hc, List.take_succ_cons, List.append_assoc,
        List.singleton_append]

end InMemoryIdempotencyStore

/-! ### Refinement -/

/-- A file store, its file and a store in memory that have the same map. -/
structure Refines (N : Numerals ν) (path : String) (store : FileIdempotencyStore (Value ν))
    (files : Files String ℕ) (memory : InMemoryIdempotencyStore (Value ν)) : Prop where
  path_eq : store.path = path
  view : store.data.view = memory.data.view
  file : (loadMap values N (files path)).view = memory.data.view

namespace Refines

variable {N : Numerals ν} {path : String} {store : FileIdempotencyStore (Value ν)}
  {files : Files String ℕ} {memory : InMemoryIdempotencyStore (Value ν)}

theorem reopen (h : Refines N path store files memory) :
    Refines N path (init values N store.path files) files memory where
  path_eq := h.path_eq
  view := by
    rw [init, h.path_eq]
    exact h.file
  file := h.file

theorem contains_eq (h : Refines N path store files memory) (key : Units) :
    store.data.contains key = memory.data.contains key := by
  rw [← Dict.isSome_view, ← Dict.isSome_view, h.view]

theorem getResult_eq (h : Refines N path store files memory) (key : Units) :
    (store.getResult values key).sorted = (memory.getResult values key).sorted := by
  have hview := congrFun h.view key
  rw [Dict.view, Dict.view] at hview
  rw [FileIdempotencyStore.getResult, InMemoryIdempotencyStore.getResult,
    ← Option.getD_map Value.sorted, ← Option.getD_map Value.sorted, hview]

/-- A call is answered alike, and leaves both with the same map. -/
theorem call (hN : N.Lawful some) (h : Refines N path store files memory) (random : String)
    (c : Call (Value ν)) :
    (store.call values N random files c).1.map (Answer.map Value.sorted) =
        .ok ((memory.call values c).1.map Value.sorted) ∧
      Refines N path (store.call values N random files c).2.1
        (store.call values N random files c).2.2 (memory.call values c).2 := by
  cases c with
  | alreadyDone key =>
    refine ⟨?_, h⟩
    rw [FileIdempotencyStore.call, FileIdempotencyStore.alreadyDone, h.contains_eq]
    rfl
  | getResult key =>
    refine ⟨?_, h⟩
    show Except.ok (Answer.value (store.getResult values key).sorted) = _
    rw [h.getResult_eq]
    rfl
  | markDone key result =>
    rw [FileIdempotencyStore.call, InMemoryIdempotencyStore.call, InMemoryIdempotencyStore.markDone,
      ← h.contains_eq]
    cases hkey : store.data.contains key with
    | true =>
      rw [markDone_of_contains hkey]
      exact ⟨rfl, h⟩
    | false =>
      obtain ⟨files', hmark, hview⟩ := markDone_values hN hkey result random files
      rw [hmark]
      refine ⟨rfl, h.path_eq, ?_, ?_⟩
      · show (store.data.set key result).view = (memory.data.set key result).view
        rw [Dict.view_set, Dict.view_set, h.view]
      · show (loadMap values N (files' path)).view = (memory.data.set key result).view
        rw [← h.path_eq, hview, Dict.view_set, h.view]

theorem answers (hN : N.Lawful some) (h : Refines N path store files memory)
    (uses : List (Use (Value ν))) :
    (store.answers values N files uses).map (Except.map (Answer.map Value.sorted)) =
      (memory.answers values (calls uses)).map fun a => .ok (a.map Value.sorted) := by
  induction uses generalizing store files memory with
  | nil => rfl
  | cons use uses ih =>
    cases use with
    | reopen => exact ih h.reopen
    | call c random =>
      obtain ⟨hanswer, hnext⟩ := h.call hN random c
      exact List.cons_eq_cons.2 ⟨hanswer, ih hnext⟩

end Refines

/-- **The file store answers like the store in memory**, however often it is opened again: for each
key the first `mark_done` returns `True`, and its result is what `get_result` returns afterwards. -/
theorem answers_eq {N : Numerals ν} (hN : N.Lawful some) (path : String) (files : Files String ℕ)
    (hfile : loadMap (values : Results ν (Value ν)) N (files path) = .empty)
    (uses : List (Use (Value ν))) :
    ((init values N path files).answers values N files uses).map
        (Except.map (Answer.map Value.sorted)) =
      (InMemoryIdempotencyStore.init.answers values (calls uses)).map
        (fun a => .ok (a.map Value.sorted)) ∧
    ∀ i c, (calls uses)[i]? = some c →
      (InMemoryIdempotencyStore.init.answers values (calls uses))[i]? =
        some (answerAfter values ((calls uses).take i) c) := by
  constructor
  · have hview : (loadMap values N (files path)).view =
        (InMemoryIdempotencyStore.init : InMemoryIdempotencyStore (Value ν)).data.view := by
      rw [hfile]
      rfl
    exact Refines.answers hN ⟨rfl, hview, hview⟩ uses
  · intro i c hc
    have hinit : ∀ key,
        (InMemoryIdempotencyStore.init : InMemoryIdempotencyStore (Value ν)).data.get? key =
          firstResult key ([] : List (Call (Value ν))) := fun _ => rfl
    exact InMemoryIdempotencyStore.answers_eq_answerAfter values hinit (calls uses) hc

theorem answers_eq_absent :
    let uses := [.call (.markDone (utf16 "a") .none) "x", .reopen,
      .call (.getResult (utf16 "a")) "y"]
    ((init values Numerals.integers "done.json" fun _ => none).answers values Numerals.integers
        (fun _ => none) uses).map (Except.map (Answer.map Value.sorted)) =
      (InMemoryIdempotencyStore.init.answers values (calls uses)).map
        (fun a => .ok (a.map Value.sorted)) ∧
    ∀ i c, (calls uses)[i]? = some c →
      (InMemoryIdempotencyStore.init.answers values (calls uses))[i]? =
        some (answerAfter values ((calls uses).take i) c) :=
  answers_eq Numerals.lawful_integers "done.json" (fun _ => none) rfl _

end Resilience.Python
