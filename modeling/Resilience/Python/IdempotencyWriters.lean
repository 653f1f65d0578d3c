import Resilience.Python.AtomicShared
import Resilience.Python.IdempotencyRuns

/-!
# Stores on one file, by their file operations

Any number of stores are opened on one path, at any time. The file operations of their calls of
`mark_done` interleave in any order, any of them may raise, and a process may die in any of them.

A store that is opened then finds the whole map of the call that replaced the file last
(`found_of_run`). What a call has put there is only lost to a store that was opened before
(`kept_of_run`).
-/

namespace Resilience.Python

open Json FileIdempotencyStore

/-- A call of `mark_done` that writes: its store, the map that it finds there, and what it
records. -/
structure Flush {ν : Type} (N : Numerals ν) (I : Type) where
  owner : I
  before : Dict (Value ν)
  key : Units
  result : Value ν
  text : Text
  new : before.contains key = false
  dumped : dumpMap values N (before.set key result) = .ok text

/-- A store that has been opened: how often the file had been replaced by then, the call that holds
its lock, and whether its process is alive. -/
structure Session (ν K : Type) where
  store : FileIdempotencyStore (Value ν)
  seen : ℕ
  flushing : Option K := none
  alive : Bool := true

/-- The stores, their calls that write, and what these do to the files. -/
structure Sessions {ν : Type} (N : Numerals ν) (I K : Type) where
  writers : Writers K
  flushes : K → Option (Flush N I)
  sessions : I → Option (Session ν K)

variable {ν I K : Type} {N : Numerals ν}

/-- The map that the call writes. -/
def Flush.data (f : Flush N I) : Dict (Value ν) := f.before.set f.key f.result

/-- A store whose call comes to a stage: the lock is released at its end. -/
def Session.after (σ : Session ν K) : Stage → Session ν K
  | .returned => { σ with flushing := none }
  | .raised _ => { σ with flushing := none }
  | .dead _ => { σ with flushing := none, alive := false }
  | _ => σ

namespace Sessions

/-- A store is opened or called, a call goes on, or a process dies between calls. A call that
writes has a number that is not in use. Opening is one step, as it reads one file and calls only
replace that file. -/
inductive Event (ν I K : Type)
  | init (i : I)
  | markDone (i : I) (n : K) (key : Units) (result : Value ν)
  | file (ev : Writers.Event K)
  | crash (i : I)

def start (files : Files String ℕ) : Sessions N I K :=
  ⟨Writers.start files, fun _ => none, fun _ => none⟩

/-- What a call passes to `atomic_write`. -/
def calls (s : Sessions N I K) (n : K) : WriteCall :=
  match s.flushes n with
  | some f => { payload := f.text }
  | none => { payload := [] }

variable (path : String)

/-- The map of a store that is opened now. -/
def found (s : Sessions N I K) : Dict (Value ν) := (init values N path s.writers.files).data

/-- The call that has replaced the file last. -/
def last (s : Sessions N I K) : Option (Flush N I) := s.writers.replaced.head?.bind s.flushes

section Step

variable [DecidableEq I] [DecidableEq K]

/-- A session is at another point. -/
def set (s : Sessions N I K) (i : I) (σ : Session ν K) : Sessions N I K :=
  { s with sessions := Function.update s.sessions i (some σ) }

/-- A call has recorded its key, and takes a number. -/
def begin (s : Sessions N I K) (n : K) (σ : Session ν K) (f : Flush N I) : Sessions N I K :=
  { s with flushes := Function.update s.flushes n (some f) }.set f.owner
    { σ with store := σ.store.recorded f.key f.result, flushing := some n }

/-- An event happens, if it can. -/
def step (s : Sessions N I K) : Event ν I K → Sessions N I K
  | .init i => match s.sessions i with
    | none => s.set i ⟨init values N path s.writers.files, s.writers.replaced.length, none, true⟩
    | some _ => s
  | .markDone i n key result => match s.sessions i, s.flushes n with
    | some ⟨store, seen, none, true⟩, none =>
      if hkey : store.data.contains key = true then s
      else match hdump : dumpMap values N (store.data.set key result) with
        | .error _ => s.set i ⟨store.recorded key result, seen, none, true⟩
        | .ok text => s.begin n ⟨store, seen, none, true⟩
          ⟨i, store.data, key, result, text, Bool.eq_false_iff.2 hkey, hdump⟩
    | _, _ => s
  | .file ev => match s.flushes ev.call with
    | none => s
    | some f => match s.sessions f.owner with
      | none => s
      | some σ =>
        if σ.alive = true ∧ σ.flushing = some ev.call then
          let writers := s.writers.step path s.calls ev
          { s with writers }.set f.owner (σ.after (writers.stage ev.call))
        else s
  | .crash i => match s.sessions i with
    | some ⟨store, seen, none, _⟩ => s.set i ⟨store, seen, none, false⟩
    | _ => s

/-! ## What an event does -/

/-- The store of a session stays as it is, and no call begins. -/
structure Continues (σ' σ : Session ν K) : Prop where
  store_eq : σ'.store = σ.store
  seen_eq : σ'.seen = σ.seen
  flushing : ∀ n, σ'.flushing = some n → σ.flushing = some n

omit [DecidableEq I] [DecidableEq K] in
theorem continues_after (σ : Session ν K) (stage : Stage) : Continues (σ.after stage) σ := by
  cases stage <;> exact ⟨rfl, rfl, by simp [Session.after]⟩

variable (s : Sessions N I K)

inductive Change : Sessions N I K → Prop
  | same : Change s
  | opened {i : I} (hi : s.sessions i = none) :
    Change (s.set i ⟨init values N path s.writers.files, s.writers.replaced.length, none, true⟩)
  | begun {n : K} {σ : Session ν K} {f : Flush N I} (hn : s.flushes n = none)
    (hσ : s.sessions f.owner = some σ) (hlock : σ.flushing = none)
    (hbefore : f.before = σ.store.data) : Change (s.begin n σ f)
  | worked {ev : Writers.Event K} {σ : Session ν K} {f : Flush N I}
    (hf : s.flushes ev.call = some f) (hσ : s.sessions f.owner = some σ)
    (hlock : σ.flushing = some ev.call) :
    Change ({ s with writers := s.writers.step path s.calls ev }.set f.owner
      (σ.after ((s.writers.step path s.calls ev).stage ev.call)))
  | crashed {i : I} {σ σ' : Session ν K} (hσ : s.sessions i = some σ) (hσ' : Continues σ' σ) :
    Change (s.set i σ')

/-- An event changes nothing else. -/
theorem change_step (ev : Event ν I K) : Change path s (s.step path ev) := by
  cases ev with
  | init i =>
    unfold step
    dsimp only
    split
    · rename_i hi
      exact .opened hi
    · exact .same
  | markDone i n key result =>
    unfold step
    dsimp only
    split
    · rename_i store seen hσ hn
      split_ifs with hkey
      · exact .same
      · split
        · rename_i e hdump
          -- JSON values can be written
          obtain ⟨text, htext⟩ := (exists_dumpMap_iff values N (store.data.set key result)).2
            fun m _ => dumps_values m.2
          cases hdump.symm.trans htext
        · exact .begun (f := ⟨_, _, _, _, _, _, _⟩) hn hσ rfl rfl
    · exact .same
  | file ev =>
    unfold step
    dsimp only
    split
    · exact .same
    · rename_i f hf
      split
      · exact .same
      · rename_i σ hσ
        split_ifs with hlock
        · exact .worked hf hσ hlock.2
        · exact .same
  | crash i =>
    unfold step
    dsimp only
    split
    · rename_i hσ
      exact .crashed hσ ⟨rfl, rfl, fun _ => id⟩
    · exact .same

end Step

/-! ## What the file has in it -/

section Invariant

variable {path} {s : Sessions N I K} {files₀ : Files String ℕ}

/-- What has an entry has it still. -/
def Grows (v w : Units → Option (Doc ν)) : Prop := ∀ key doc, v key = some doc → w key = some doc

theorem Grows.refl (v : Units → Option (Doc ν)) : Grows v v := fun _ _ => id

theorem Grows.trans {u v w : Units → Option (Doc ν)} (h : Grows u v) (h' : Grows v w) :
    Grows u w := fun key doc hkey => h' key doc (h key doc hkey)

theorem grows_set {data : Dict (Value ν)} {key : Units} (h : data.contains key = false)
    (v : Value ν) : Grows data.view (data.set key v).view := by
  intro k doc hk
  have hne : k ≠ key := by
    rintro rfl
    rw [← Dict.isSome_view, hk] at h
    cases h
  rw [Dict.view_set, Function.update_of_ne hne]
  exact hk

/-- An entry is from before, or a call has recorded it. -/
def Brought (flushes : K → Option (Flush N I)) (base : Units → Option (Doc ν)) (key : Units)
    (doc : Doc ν) : Prop :=
  base key = some doc ∨ ∃ n f, flushes n = some f ∧ f.key = key ∧ f.result.sorted = doc

/-- A map has what was there before, and nothing that no call has brought. -/
structure Sound (flushes : K → Option (Flush N I)) (base view : Units → Option (Doc ν)) :
    Prop where
  kept : Grows base view
  brought : ∀ key doc, view key = some doc → Brought flushes base key doc

variable (path) in
/-- What holds throughout, where `files₀` are the files from before. -/
structure Inv (files₀ : Files String ℕ) (s : Sessions N I K) : Prop where
  writers : Writers.Inv path s.calls files₀ s.writers
  idle : ∀ n, s.flushes n = none → s.writers.stage n = .ready
  /-- The call that holds the lock of a store writes the map of the store. -/
  lock : ∀ i σ n, s.sessions i = some σ → σ.flushing = some n →
    ∃ f, s.flushes n = some f ∧ f.owner = i ∧ f.data = σ.store.data
  grown : ∀ n f, s.flushes n = some f →
    ∃ σ, s.sessions f.owner = some σ ∧ Grows f.data.view σ.store.data.view
  once : ∀ n m f g, s.flushes n = some f → s.flushes m = some g → f.owner = g.owner →
    f.key = g.key → n = m
  stores : ∀ i σ, s.sessions i = some σ →
    Sound s.flushes (loadMap values N (files₀ path)).view σ.store.data.view
  flushed : ∀ n f, s.flushes n = some f →
    Sound s.flushes (loadMap values N (files₀ path)).view f.data.view

theorem view_data_self (f : Flush N I) : f.data.view f.key = some f.result.sorted := by
  rw [Flush.data, Dict.view_set, Function.update_self]

theorem grows_data (f : Flush N I) : Grows f.before.view f.data.view := grows_set f.new f.result

/-- A call that has replaced the file is one that writes. -/
theorem Inv.exists_flush (h : Inv path files₀ s) {n : K} (hn : n ∈ s.writers.replaced) :
    ∃ f, s.flushes n = some f := by
  cases hf : s.flushes n with
  | some f => exact ⟨f, rfl⟩
  | none =>
    have hready := h.idle n hf
    rcases h.writers.done n hn with hstage | hstage | ⟨_, hstage⟩ <;> rw [hready] at hstage <;>
      cases hstage

/-- A store that is opened finds the map of the last call. -/
theorem Inv.view_found (hN : N.Lawful some) (h : Inv path files₀ s) :
    (s.found path).view =
      (s.last.map fun f => f.data.view).getD (loadMap values N (files₀ path)).view := by
  rw [found, init, h.writers.content, last]
  cases hreplaced : s.writers.replaced with
  | nil => rfl
  | cons n rest =>
    obtain ⟨f, hf⟩ := h.exists_flush (hreplaced ▸ List.mem_cons_self ..)
    have hpayload : (s.calls n).payload = f.text := by rw [calls, hf]
    rw [List.head?_cons, Option.map_some, Option.getD_some, hpayload, Option.bind_some, hf,
      Option.map_some, Option.getD_some, view_loadMap hN f.dumped]
    rfl

theorem Inv.sound_found (hN : N.Lawful some) (h : Inv path files₀ s) :
    Sound s.flushes (loadMap values N (files₀ path)).view (s.found path).view := by
  rw [h.view_found hN, last]
  cases hreplaced : s.writers.replaced with
  | nil => exact ⟨.refl _, fun _ _ => .inl⟩
  | cons n rest =>
    obtain ⟨f, hf⟩ := h.exists_flush (hreplaced ▸ List.mem_cons_self ..)
    rw [List.head?_cons, Option.bind_some, hf]
    exact h.flushed n f hf

section Mono

variable {flushes flushes' : K → Option (Flush N I)} {base view : Units → Option (Doc ν)}

theorem Brought.mono (hflushes : ∀ n f, flushes n = some f → flushes' n = some f) {key : Units}
    {doc : Doc ν} (h : Brought flushes base key doc) : Brought flushes' base key doc := by
  rcases h with h | ⟨n, f, hf, hkey, hdoc⟩
  · exact .inl h
  · exact .inr ⟨n, f, hflushes n f hf, hkey, hdoc⟩

theorem Sound.mono (hflushes : ∀ n f, flushes n = some f → flushes' n = some f)
    (h : Sound flushes base view) : Sound flushes' base view where
  kept := h.kept
  brought := fun key doc hkey => (h.brought key doc hkey).mono hflushes

end Mono

theorem inv_start (path : String) (files : Files String ℕ) :
    Inv path files (start files : Sessions N I K) where
  writers := Writers.inv_start
  idle := fun _ _ => rfl
  lock := by simp [start]
  grown := by simp [start]
  once := by simp [start]
  stores := by simp [start]
  flushed := by simp [start]

/-- The map of the store is what the call writes. -/
theorem data_recorded {σ : Session ν K} {f : Flush N I} (hbefore : f.before = σ.store.data) :
    (σ.store.recorded f.key f.result).data = f.data := by
  rw [recorded, Flush.data, hbefore]

variable [DecidableEq I]

@[simp] theorem sessions_set_self (i : I) (σ : Session ν K) :
    (s.set i σ).sessions i = some σ := Function.update_self ..

theorem sessions_set_of_ne {i j : I} (h : j ≠ i) (σ : Session ν K) :
    (s.set i σ).sessions j = s.sessions j := Function.update_of_ne h ..

/-- A session that continues is the only one that changes. -/
theorem continues_of_set {i : I} {σ σ' : Session ν K} (hσ : s.sessions i = some σ)
    (hσ' : Continues σ' σ) {j : I} {τ' : Session ν K} (hτ' : (s.set i σ').sessions j = some τ') :
    ∃ τ, s.sessions j = some τ ∧ Continues τ' τ := by
  by_cases hj : j = i
  · subst hj
    rw [sessions_set_self] at hτ'
    exact ⟨σ, hσ, Option.some.inj hτ' ▸ hσ'⟩
  · rw [sessions_set_of_ne hj] at hτ'
    exact ⟨τ', hτ', rfl, rfl, fun _ => id⟩

theorem exists_set_of_continues {i : I} {σ σ' : Session ν K} (hσ : s.sessions i = some σ)
    (hσ' : Continues σ' σ) {j : I} {τ : Session ν K} (hτ : s.sessions j = some τ) :
    ∃ τ', (s.set i σ').sessions j = some τ' ∧ Continues τ' τ := by
  by_cases hj : j = i
  · subst hj
    exact ⟨σ', sessions_set_self .., Option.some.inj (hσ.symm.trans hτ) ▸ hσ'⟩
  · exact ⟨τ, (sessions_set_of_ne hj σ').trans hτ, rfl, rfl, fun _ => id⟩

/-- A session continues, and a call that writes may go on. -/
theorem Inv.continues (h : Inv path files₀ s) {i : I} {σ σ' : Session ν K}
    (hσ : s.sessions i = some σ) (hσ' : Continues σ' σ) {writers : Writers K}
    (hwriters : Writers.Inv path s.calls files₀ writers)
    (hidle : ∀ n, s.flushes n = none → writers.stage n = .ready) :
    Inv path files₀ ({ s with writers }.set i σ') where
  writers := hwriters
  idle := hidle
  lock := by
    intro j τ' n hτ' hflushing
    obtain ⟨τ, hτ, hcontinues⟩ := continues_of_set hσ hσ' hτ'
    rw [hcontinues.store_eq]
    exact h.lock j τ n hτ (hcontinues.flushing n hflushing)
  grown := by
    intro n f hf
    obtain ⟨τ, hτ, hgrows⟩ := h.grown n f hf
    obtain ⟨τ', hτ', hcontinues⟩ := exists_set_of_continues hσ hσ' hτ
    exact ⟨τ', hτ', hcontinues.store_eq ▸ hgrows⟩
  once := h.once
  stores := by
    intro j τ' hτ'
    obtain ⟨τ, hτ, hcontinues⟩ := continues_of_set hσ hσ' hτ'
    rw [hcontinues.store_eq]
    exact h.stores j τ hτ
  flushed := h.flushed

/-- A store is opened. -/
theorem Inv.opened (hN : N.Lawful some) (h : Inv path files₀ s) {i : I}
    (hi : s.sessions i = none) :
    Inv path files₀
      (s.set i ⟨init values N path s.writers.files, s.writers.replaced.length, none, true⟩) where
  writers := h.writers
  idle := h.idle
  lock := by
    intro j σ n hσ hflushing
    by_cases hj : j = i
    · subst hj
      rw [sessions_set_self] at hσ
      cases hσ
      cases hflushing
    · rw [sessions_set_of_ne hj] at hσ
      exact h.lock j σ n hσ hflushing
  grown := by
    intro n f hf
    obtain ⟨σ, hσ, hgrows⟩ := h.grown n f hf
    have hne : f.owner ≠ i := by
      rintro rfl
      cases hi.symm.trans hσ
    exact ⟨σ, (sessions_set_of_ne hne _).trans hσ, hgrows⟩
  once := h.once
  stores := by
    intro j σ hσ
    by_cases hj : j = i
    · subst hj
      rw [sessions_set_self] at hσ
      cases hσ
      have hfound := h.sound_found hN
      exact hfound
    · rw [sessions_set_of_ne hj] at hσ
      exact h.stores j σ hσ
  flushed := h.flushed

section Begin

variable [DecidableEq K] {n : K} {σ : Session ν K} {f : Flush N I}

theorem flushes_begin_self : (s.begin n σ f).flushes n = some f := Function.update_self ..

theorem flushes_begin_of_ne {m : K} (h : m ≠ n) : (s.begin n σ f).flushes m = s.flushes m :=
  Function.update_of_ne h ..

theorem sessions_begin_self : (s.begin n σ f).sessions f.owner =
    some { σ with store := σ.store.recorded f.key f.result, flushing := some n } :=
  sessions_set_self ..

theorem sessions_begin_of_ne {j : I} (h : j ≠ f.owner) :
    (s.begin n σ f).sessions j = s.sessions j := sessions_set_of_ne h ..

/-- The calls are those from before, and the new one. -/
theorem flushes_begin {m : K} {g : Flush N I} (h : (s.begin n σ f).flushes m = some g) :
    m = n ∧ g = f ∨ m ≠ n ∧ s.flushes m = some g := by
  by_cases hm : m = n
  · subst hm
    rw [flushes_begin_self] at h
    exact .inl ⟨rfl, (Option.some.inj h).symm⟩
  · rw [flushes_begin_of_ne hm] at h
    exact .inr ⟨hm, h⟩

theorem le_flushes_begin (hn : s.flushes n = none) {m : K} {g : Flush N I}
    (h : s.flushes m = some g) : (s.begin n σ f).flushes m = some g := by
  have hne : m ≠ n := by
    rintro rfl
    cases hn.symm.trans h
  rw [flushes_begin_of_ne hne, h]

/-- The maps of the stores are those from before, and the one that is written. -/
theorem sessions_begin (hbefore : f.before = σ.store.data) {j : I} {τ' : Session ν K}
    (h : (s.begin n σ f).sessions j = some τ') :
    j = f.owner ∧ τ'.store.data = f.data ∧ τ'.seen = σ.seen ∧ τ'.flushing = some n ∨
      j ≠ f.owner ∧ s.sessions j = some τ' := by
  by_cases hj : j = f.owner
  · subst hj
    rw [sessions_begin_self] at h
    cases h
    exact .inl ⟨rfl, data_recorded hbefore, rfl, rfl⟩
  · rw [sessions_begin_of_ne hj] at h
    exact .inr ⟨hj, h⟩

/-- A call begins. -/
theorem Inv.begun (h : Inv path files₀ s) (hn : s.flushes n = none)
    (hσ : s.sessions f.owner = some σ) (hbefore : f.before = σ.store.data) :
    Inv path files₀ (s.begin n σ f) := by
  have hnew : Sound (s.begin n σ f).flushes (loadMap values N (files₀ path)).view f.data.view := by
    have hstore := h.stores f.owner σ hσ
    rw [← hbefore] at hstore
    refine ⟨hstore.kept.trans (grows_data f), fun key doc hkey => ?_⟩
    rw [Flush.data, Dict.view_set] at hkey
    by_cases hk : key = f.key
    · rw [hk, Function.update_self] at hkey
      exact .inr ⟨n, f, flushes_begin_self, hk.symm, Option.some.inj hkey⟩
    · rw [Function.update_of_ne hk] at hkey
      exact (hstore.brought key doc hkey).mono fun m g => le_flushes_begin hn
  have hfresh : ∀ m g, s.flushes m = some g → g.owner = f.owner → g.key ≠ f.key := by
    intro m g hg howner hkey
    obtain ⟨τ, hτ, hgrows⟩ := h.grown m g hg
    rw [howner, hσ] at hτ
    cases hτ
    have hhas := hgrows g.key g.result.sorted (view_data_self g)
    rw [hkey, ← hbefore] at hhas
    have hcontains := f.new
    rw [← Dict.isSome_view, hhas] at hcontains
    cases hcontains
  constructor
  case writers =>
    refine h.writers.congr fun m hm => ?_
    have hne : m ≠ n := fun hmn => hm (hmn ▸ h.idle n hn)
    rw [calls, flushes_begin_of_ne hne, calls]
  case idle =>
    intro m hm
    by_cases hmn : m = n
    · exact hmn ▸ h.idle n hn
    · rw [flushes_begin_of_ne hmn] at hm
      exact h.idle m hm
  case lock =>
    intro j τ' m hτ' hflushing
    rcases sessions_begin hbefore hτ' with ⟨rfl, hdata, -, hlock⟩ | ⟨hj, hτ⟩
    · cases hlock.symm.trans hflushing
      exact ⟨f, flushes_begin_self, rfl, hdata.symm⟩
    · obtain ⟨g, hg, howner, hdata⟩ := h.lock j τ' m hτ hflushing
      exact ⟨g, le_flushes_begin hn hg, howner, hdata⟩
  case grown =>
    intro m g hg
    rcases flushes_begin hg with ⟨-, rfl⟩ | ⟨-, hg⟩
    · exact ⟨_, sessions_begin_self, data_recorded hbefore ▸ .refl _⟩
    · obtain ⟨τ, hτ, hgrows⟩ := h.grown m g hg
      by_cases howner : g.owner = f.owner
      · rw [howner, hσ] at hτ
        cases hτ
        refine ⟨_, howner.symm ▸ sessions_begin_self, ?_⟩
        dsimp only
        rw [data_recorded hbefore]
        exact hgrows.trans (hbefore ▸ grows_data f)
      · exact ⟨τ, (sessions_begin_of_ne howner).trans hτ, hgrows⟩
  case once =>
    intro m m' g g' hg hg' howner hkey
    rcases flushes_begin hg with ⟨hm, hgf⟩ | ⟨-, hold⟩ <;>
      rcases flushes_begin hg' with ⟨hm', hgf'⟩ | ⟨-, hold'⟩
    · rw [hm, hm']
    · subst hgf
      exact absurd hkey.symm (hfresh m' g' hold' howner.symm)
    · subst hgf'
      exact absurd hkey (hfresh m g hold howner)
    · exact h.once m m' g g' hold hold' howner hkey
  case stores =>
    intro j τ' hτ'
    rcases sessions_begin hbefore hτ' with ⟨-, hdata, -⟩ | ⟨-, hτ⟩
    · rw [hdata]
      exact hnew
    · exact (h.stores j τ' hτ).mono fun m g => le_flushes_begin hn
  case flushed =>
    intro m g hg
    rcases flushes_begin hg with ⟨-, rfl⟩ | ⟨-, hg⟩
    · exact hnew
    · exact (h.flushed m g hg).mono fun m g => le_flushes_begin hn

end Begin

variable [DecidableEq K]

/-- Every event keeps the invariant. -/
theorem Inv.change (hN : N.Lawful some) (h : Inv path files₀ s) {t : Sessions N I K}
    (ht : Change path s t) : Inv path files₀ t := by
  cases ht with
  | same => exact h
  | opened hi => exact h.opened hN hi
  | begun hn hσ _ hbefore => exact h.begun hn hσ hbefore
  | @worked ev σ f hf hσ =>
    refine h.continues hσ (continues_after ..) (h.writers.step ev) fun m hm => ?_
    have hne : m ≠ ev.call := by
      rintro rfl
      cases hm.symm.trans hf
    rw [Writers.stage_step_of_ne path s.calls hne]
    exact h.idle m hm
  | crashed hσ hσ' => exact h.continues hσ hσ' h.writers h.idle

/-- **An opened store finds a whole map, whatever happens meanwhile.** After any events of any
number of stores and calls: the map in the file is the one that the call has written which replaced
the file last, or the one from before; it has all that was there before, and nothing else that no
call has recorded; a call that has returned has replaced the file, and one that has raised has
not. -/
theorem found_of_run (hN : N.Lawful some) (path : String) (files₀ : Files String ℕ)
    (evs : List (Event ν I K)) :
    let s : Sessions N I K := Runs.run (step path) (start files₀) evs
    let base := (loadMap values N (files₀ path)).view
    (s.found path).view = (s.last.map fun f => f.data.view).getD base ∧
      Sound s.flushes base (s.found path).view ∧
      (∀ n, s.writers.stage n = .returned → n ∈ s.writers.replaced) ∧
      ∀ n left, s.writers.stage n = .raised left → n ∉ s.writers.replaced := by
  intro s base
  have h : Inv path files₀ s :=
    Runs.run_of_step (fun s ev h => h.change hN (change_step path s ev)) (inv_start path files₀) evs
  refine ⟨h.view_found hN, h.sound_found hN, fun n hn => h.writers.replaced n (.inl hn), ?_⟩
  intro n left hn hmem
  rcases h.writers.done n hmem with hstage | hstage | ⟨_, hstage⟩ <;> rw [hn] at hstage <;>
    cases hstage

end Invariant

/-! ## What is kept -/

/-- A store knows of a call that replaced the file after `count` others: the call is its own, or it
was opened later. -/
def Knows (sessions : I → Option (Session ν K)) (f : Flush N I) (count : ℕ) (i : I) : Prop :=
  i = f.owner ∨ ∃ σ, sessions i = some σ ∧ count < σ.seen

theorem Knows.of_seen {sessions sessions' : I → Option (Session ν K)} {f : Flush N I} {count : ℕ}
    {i : I} (h : Knows sessions' f count i)
    (hseen : ∀ σ', sessions' i = some σ' → ∃ σ, sessions i = some σ ∧ σ'.seen = σ.seen) :
    Knows sessions f count i := by
  refine h.imp_right ?_
  rintro ⟨σ', hσ', hlt⟩
  obtain ⟨σ, hσ, hseen⟩ := hseen σ' hσ'
  exact ⟨σ, hσ, hseen ▸ hlt⟩

section Keeping

variable (path : String) (s : Sessions N I K)

/-- What the call `n` has put into the file is there, and the stores that know of it do not record
its key again. -/
structure Keeps (n : K) (f : Flush N I) (count : ℕ) : Prop where
  file : (s.found path).view f.key = some f.result.sorted
  stores : ∀ i σ, s.sessions i = some σ → Knows s.sessions f count i →
    σ.store.data.view f.key = some f.result.sorted
  keys : ∀ m g, s.flushes m = some g → m ≠ n → Knows s.sessions f count g.owner → g.key ≠ f.key

/-- Only stores that know of the call have replaced the file after it. -/
def KnownTo (later : List K) (f : Flush N I) (count : ℕ) : Prop :=
  ∀ m ∈ later, ∀ g, s.flushes m = some g → Knows s.sessions f count g.owner

/-- Calls keep what they have put into the file. -/
structure Keeping : Prop where
  seen : ∀ i σ, s.sessions i = some σ → σ.seen ≤ s.writers.replaced.length
  keeps : ∀ later n earlier f, s.writers.replaced = later ++ n :: earlier → s.flushes n = some f →
    s.KnownTo later f earlier.length → Keeps path s n f earlier.length

variable {path s} {files₀ : Files String ℕ}

theorem keeping_start (path : String) (files : Files String ℕ) :
    Keeping path (start files : Sessions N I K) where
  seen := by simp [start]
  keeps := by simp [start, Writers.start]

variable [DecidableEq I]

/-- A session continues, and what is kept is still in the file. -/
theorem Keeps.continues {n : K} {f : Flush N I} {count : ℕ} (h : Keeps path s n f count) {i : I}
    {σ σ' : Session ν K} (hσ : s.sessions i = some σ) (hσ' : Continues σ' σ) {writers : Writers K}
    (hfound : (found path { s with writers }).view f.key = some f.result.sorted) :
    Keeps path ({ s with writers }.set i σ') n f count := by
  have hseen : ∀ j τ', (s.set i σ').sessions j = some τ' →
      ∃ τ, s.sessions j = some τ ∧ τ'.seen = τ.seen := by
    intro j τ' hτ'
    obtain ⟨τ, hτ, hcontinues⟩ := continues_of_set hσ hσ' hτ'
    exact ⟨τ, hτ, hcontinues.seen_eq⟩
  constructor
  case file => exact hfound
  case stores =>
    intro j τ' hτ' hknows
    obtain ⟨τ, hτ, hcontinues⟩ := continues_of_set hσ hσ' hτ'
    rw [hcontinues.store_eq]
    exact h.stores j τ hτ (hknows.of_seen (hseen j))
  case keys =>
    intro m g hg hm hknows
    exact h.keys m g hg hm (hknows.of_seen (hseen g.owner))

/-- A session continues, and no call replaces the file. -/
theorem Keeping.continues (hN : N.Lawful some) (hinv : Inv path files₀ s) (h : Keeping path s)
    {i : I} {σ σ' : Session ν K} (hσ : s.sessions i = some σ) (hσ' : Continues σ' σ)
    {writers : Writers K} (hinv' : Inv path files₀ ({ s with writers }.set i σ'))
    (hreplaced : writers.replaced = s.writers.replaced) :
    Keeping path ({ s with writers }.set i σ') := by
  have hfound : (found path { s with writers }).view = (s.found path).view := by
    have hview := hinv'.view_found hN
    rw [show last (set { s with writers } i σ') = s.last by
      rw [last, last]; exact congrArg (fun l => l.head?.bind s.flushes) hreplaced,
      ← hinv.view_found hN] at hview
    exact hview
  have hseen : ∀ j τ', (s.set i σ').sessions j = some τ' →
      ∃ τ, s.sessions j = some τ ∧ τ'.seen = τ.seen := by
    intro j τ' hτ'
    obtain ⟨τ, hτ, hcontinues⟩ := continues_of_set hσ hσ' hτ'
    exact ⟨τ, hτ, hcontinues.seen_eq⟩
  constructor
  case seen =>
    intro j τ' hτ'
    obtain ⟨τ, hτ, hseen⟩ := hseen j τ' hτ'
    have hle := h.seen j τ hτ
    rw [← hseen, ← hreplaced] at hle
    exact hle
  case keeps =>
    intro later n earlier f hsplit hf hknown
    have hkeeps := h.keeps later n earlier f (hreplaced.symm.trans hsplit) hf fun m hm g hg =>
      (hknown m hm g hg).of_seen (hseen g.owner)
    exact hkeeps.continues hσ hσ' (hfound ▸ hkeeps.file)

/-- A call replaces the file. -/
theorem Keeping.replaced (hN : N.Lawful some) (hinv : Inv path files₀ s) (h : Keeping path s)
    {n : K} {f : Flush N I} {σ σ' : Session ν K} (hf : s.flushes n = some f)
    (hσ : s.sessions f.owner = some σ) (hlock : σ.flushing = some n) (hσ' : Continues σ' σ)
    {writers : Writers K} (hinv' : Inv path files₀ ({ s with writers }.set f.owner σ'))
    (hreplaced : writers.replaced = n :: s.writers.replaced) :
    Keeping path ({ s with writers }.set f.owner σ') := by
  have hfound : (found path { s with writers }).view = f.data.view := by
    have hview := hinv'.view_found hN
    rw [show last (set { s with writers } f.owner σ') = some f by
      rw [last]
      exact (congrArg (fun l => l.head?.bind s.flushes) hreplaced).trans hf] at hview
    exact hview
  have hdata : f.data = σ.store.data := by
    obtain ⟨f', hf', -, hdata⟩ := hinv.lock f.owner σ n hσ hlock
    cases hf.symm.trans hf'
    exact hdata
  have hback : ∀ j τ', (s.set f.owner σ').sessions j = some τ' →
      ∃ τ, s.sessions j = some τ ∧ Continues τ' τ := fun j τ' => continues_of_set hσ hσ'
  have hseen : ∀ j τ', (s.set f.owner σ').sessions j = some τ' →
      ∃ τ, s.sessions j = some τ ∧ τ'.seen = τ.seen := by
    intro j τ' hτ'
    obtain ⟨τ, hτ, hcontinues⟩ := hback j τ' hτ'
    exact ⟨τ, hτ, hcontinues.seen_eq⟩
  have hlate : ∀ j, ¬ ∃ τ, s.sessions j = some τ ∧ s.writers.replaced.length < τ.seen := by
    rintro j ⟨τ, hτ, hlt⟩
    exact absurd (h.seen j τ hτ) (not_le.2 hlt)
  constructor
  case seen =>
    intro j τ' hτ'
    obtain ⟨τ, hτ, hseen⟩ := hseen j τ' hτ'
    have hle := h.seen j τ hτ
    have hlength := congrArg List.length hreplaced
    rw [List.length_cons] at hlength
    show τ'.seen ≤ writers.replaced.length
    omega
  case keeps =>
    intro later m earlier g hsplit hg hknown
    have hsplit : n :: s.writers.replaced = later ++ m :: earlier := hreplaced.symm.trans hsplit
    cases later with
    | nil =>
      -- the call itself: no store has been opened since
      obtain ⟨rfl, rfl⟩ := List.cons.inj hsplit
      cases hf.symm.trans hg
      constructor
      case file => exact hfound ▸ view_data_self f
      case stores =>
        intro j τ' hτ' hknows
        obtain ⟨τ, hτ, hcontinues⟩ := hback j τ' hτ'
        rcases hknows.of_seen (hseen j) with rfl | hlt
        · cases hσ.symm.trans hτ
          rw [hcontinues.store_eq, ← hdata]
          exact view_data_self f
        · exact absurd hlt (hlate j)
      case keys =>
        intro m g hg hm hknows hkey
        rcases hknows.of_seen (hseen g.owner) with howner | hlt
        · exact hm (hinv.once m n g f hg hf howner hkey)
        · exact absurd hlt (hlate g.owner)
    | cons n' later =>
      obtain ⟨rfl, hrest⟩ := List.cons.inj hsplit
      have hkeeps := h.keeps later m earlier g hrest hg fun k hk f' hf' =>
        (hknown k (List.mem_cons_of_mem _ hk) f' hf').of_seen (hseen f'.owner)
      have hknows := (hknown n (List.mem_cons_self ..) f hf).of_seen (hseen f.owner)
      refine hkeeps.continues hσ hσ' ?_
      rw [hfound, hdata]
      exact hkeeps.stores f.owner σ hσ hknows

/-- A store is opened. -/
theorem Keeping.opened (hinv : Inv path files₀ s) (h : Keeping path s) {i : I}
    (hi : s.sessions i = none) :
    Keeping path
      (s.set i ⟨init values N path s.writers.files, s.writers.replaced.length, none, true⟩) := by
  have hne : ∀ {m g}, s.flushes m = some g → g.owner ≠ i := by
    rintro m g hg rfl
    obtain ⟨σ, hσ, -⟩ := hinv.grown m g hg
    cases hi.symm.trans hσ
  have hseen : ∀ {j τ'}, j ≠ i → (s.set i ⟨init values N path s.writers.files,
      s.writers.replaced.length, none, true⟩).sessions j = some τ' →
      ∃ τ, s.sessions j = some τ ∧ τ'.seen = τ.seen := by
    intro j τ' hj hτ'
    rw [sessions_set_of_ne hj] at hτ'
    exact ⟨τ', hτ', rfl⟩
  constructor
  case seen =>
    intro j τ hτ
    by_cases hj : j = i
    · subst hj
      rw [sessions_set_self] at hτ
      cases hτ
      exact le_rfl
    · rw [sessions_set_of_ne hj] at hτ
      exact h.seen j τ hτ
  case keeps =>
    intro later n earlier f hsplit hf hknown
    have hkeeps := h.keeps later n earlier f hsplit hf fun m hm g hg =>
      (hknown m hm g hg).of_seen fun τ' => hseen (hne hg)
    constructor
    case file => exact hkeeps.file
    case stores =>
      intro j τ hτ hknows
      by_cases hj : j = i
      · subst hj
        rw [sessions_set_self] at hτ
        cases hτ
        exact hkeeps.file
      · have hknows := hknows.of_seen fun τ' => hseen hj
        rw [sessions_set_of_ne hj] at hτ
        exact hkeeps.stores j τ hτ hknows
    case keys =>
      intro m g hg hm hknows
      exact hkeeps.keys m g hg hm (hknows.of_seen fun τ' => hseen (hne hg))

variable [DecidableEq K]

/-- A call begins. -/
theorem Keeping.begun (hinv : Inv path files₀ s) (h : Keeping path s) {n : K} {σ : Session ν K}
    {f : Flush N I} (hn : s.flushes n = none) (hσ : s.sessions f.owner = some σ)
    (hbefore : f.before = σ.store.data) : Keeping path (s.begin n σ f) := by
  have hseen : ∀ j τ', (s.begin n σ f).sessions j = some τ' →
      ∃ τ, s.sessions j = some τ ∧ τ'.seen = τ.seen := by
    intro j τ' hτ'
    rcases sessions_begin hbefore hτ' with ⟨rfl, -, hseen, -⟩ | ⟨-, hτ⟩
    · exact ⟨σ, hσ, hseen⟩
    · exact ⟨τ', hτ, rfl⟩
  have hold : ∀ {m g}, m ∈ s.writers.replaced → (s.begin n σ f).flushes m = some g →
      s.flushes m = some g := by
    intro m g hm hg
    obtain ⟨g', hg'⟩ := hinv.exists_flush hm
    rcases flushes_begin hg with ⟨rfl, -⟩ | ⟨-, hg⟩
    · cases hn.symm.trans hg'
    · exact hg
  constructor
  case seen =>
    intro j τ' hτ'
    obtain ⟨τ, hτ, hseen⟩ := hseen j τ' hτ'
    exact hseen ▸ h.seen j τ hτ
  case keeps =>
    intro later m earlier g hsplit hg hknown
    have hmem : ∀ {k}, k ∈ later ++ m :: earlier → k ∈ s.writers.replaced := fun hk => hsplit ▸ hk
    have hg := hold (hmem (by simp)) hg
    have hkeeps := h.keeps later m earlier g hsplit hg fun k hk f' hf' =>
      (hknown k hk f' (le_flushes_begin hn hf')).of_seen (hseen f'.owner)
    -- the store of the new call has the entry, if it knows of the old one
    have hhas : Knows (s.begin n σ f).sessions g earlier.length f.owner →
        f.before.view g.key = some g.result.sorted := by
      intro hknows
      rw [hbefore]
      exact hkeeps.stores f.owner σ hσ (hknows.of_seen (hseen f.owner))
    constructor
    case file => exact hkeeps.file
    case stores =>
      intro j τ' hτ' hknows
      rcases sessions_begin hbefore hτ' with ⟨rfl, hdata, -⟩ | ⟨-, hτ⟩
      · rw [hdata]
        exact grows_data f g.key g.result.sorted (hhas hknows)
      · exact hkeeps.stores j τ' hτ (hknows.of_seen (hseen j))
    case keys =>
      intro k f' hf' hk hknows
      rcases flushes_begin hf' with ⟨-, rfl⟩ | ⟨-, hf'⟩
      · intro hkey
        have hcontains := f'.new
        rw [← Dict.isSome_view, hkey, hhas hknows] at hcontains
        cases hcontains
      · exact hkeeps.keys k f' hf' hk (hknows.of_seen (hseen f'.owner))

/-- Every event keeps what is kept. -/
theorem Keeping.change (hN : N.Lawful some) (hinv : Inv path files₀ s) (h : Keeping path s)
    {t : Sessions N I K} (ht : Change path s t) : Keeping path t := by
  have hinv' := hinv.change hN ht
  cases ht with
  | same => exact h
  | opened hi => exact h.opened hinv hi
  | begun hn hσ _ hbefore => exact h.begun hinv hn hσ hbefore
  | @worked ev σ f hf hσ hlock =>
    rcases Writers.replaced_step path s.calls ev with hsame | hreplaced
    · exact h.continues hN hinv hσ (continues_after ..) hinv' hsame
    · exact h.replaced hN hinv hf hσ hlock (continues_after ..) hinv' hreplaced
  | crashed hσ hσ' => exact h.continues hN hinv hσ hσ' hinv' rfl

/-- **What a call has put into the file is lost only to a store that was opened before.** After any
events, if the stores that have replaced the file since a call are its own and those that were
opened later: the file has the key of the call with its result, and none of them has recorded the
key again. -/
theorem kept_of_run (hN : N.Lawful some) (path : String) (files₀ : Files String ℕ)
    (evs : List (Event ν I K)) :
    let s : Sessions N I K := Runs.run (step path) (start files₀) evs
    ∀ later n earlier f, s.writers.replaced = later ++ n :: earlier → s.flushes n = some f →
      s.KnownTo later f earlier.length →
      (s.found path).view f.key = some f.result.sorted ∧
        ∀ m ∈ later, ∀ g, s.flushes m = some g → g.key ≠ f.key := by
  intro s later n earlier f hsplit hf hknown
  have h : Inv path files₀ s ∧ Keeping path s := by
    refine Runs.run_of_step (I := fun s => Inv path files₀ s ∧ Keeping path s) (fun s ev h => ?_)
      ⟨inv_start path files₀, keeping_start path files₀⟩ evs
    have hchange := change_step path s ev
    exact ⟨h.1.change hN hchange, h.2.change hN h.1 hchange⟩
  have hkeeps := h.2.keeps later n earlier f hsplit hf hknown
  refine ⟨hkeeps.file, fun m hm g hg => hkeeps.keys m g hg ?_ (hknown m hm g hg)⟩
  rintro rfl
  have honce := h.1.writers.once
  rw [hsplit] at honce
  exact (List.nodup_append.1 honce).2.2 m hm m (List.mem_cons_self ..) rfl

end Keeping

/-! ## Two stores -/

/-- A store records a key, and another one is opened. -/
def recordThenOpen : List (Event ℤ ℕ ℕ) :=
  [.init 0, .markDone 0 0 (utf16 "a") .none, .file (.create 0 "x"), .file (.advance 0),
    .file (.advance 0), .file (.advance 0), .init 1]

theorem found_of_run_recordThenOpen :
    let s : Sessions Numerals.integers ℕ ℕ :=
      Runs.run (step "done.json") (start fun _ => none) recordThenOpen
    Sound s.flushes (loadMap values Numerals.integers none).view (s.found "done.json").view :=
  (found_of_run Numerals.lawful_integers "done.json" (fun _ => none) recordThenOpen).2.1

/-- The other one records a key, too. -/
def recordTwice : List (Event ℤ ℕ ℕ) :=
  recordThenOpen ++ [.markDone 1 1 (utf16 "b") .none, .file (.create 1 "y"), .file (.advance 1),
    .file (.advance 1), .file (.advance 1)]

theorem kept_of_run_recordTwice :
    let s : Sessions Numerals.integers ℕ ℕ :=
      Runs.run (step "done.json") (start fun _ => none) recordTwice
    s.writers.replaced = [1, 0] ∧
      ∃ f, s.flushes 0 = some f ∧ (s.found "done.json").view f.key = some f.result.sorted := by
  intro s
  have hreplaced : s.writers.replaced = [1] ++ 0 :: [] := by decide +kernel
  obtain ⟨f, hf⟩ : ∃ f, s.flushes 0 = some f := Option.isSome_iff_exists.1 (by decide +kernel)
  have howner : (s.flushes 1).map Flush.owner = some 1 := by decide +kernel
  obtain ⟨σ, hσ, hseen⟩ : ∃ σ, s.sessions 1 = some σ ∧ σ.seen = 1 :=
    Option.map_eq_some_iff.1 (by decide +kernel)
  have hknown : s.KnownTo [1] f 0 := by
    intro m hm g hg
    obtain rfl := List.mem_singleton.1 hm
    rw [hg] at howner
    refine .inr ⟨σ, Option.some.inj howner ▸ hσ, ?_⟩
    rw [hseen]
    exact Nat.one_pos
  exact ⟨hreplaced, f, hf, (kept_of_run Numerals.lawful_integers "done.json" (fun _ => none)
    recordTwice [1] 0 [] f hreplaced hf hknown).1⟩

end Sessions

end Resilience.Python
