import Resilience.Foundations.Paths

/-!
# Confined paths

`confine_path` of `rust/src/audit.rs`, with what it uses of `std::path` on Unix. A path is given by
its components, as `Path` compares them; `components` finds those of a text.

`confine_path` accepts a path exactly when the node that it denotes is the one of the base directory
or below it (`confinePath_iff`).
-/

namespace Resilience.Rust

open Paths

abbrev OsStr := List UInt8

/-! ## `std::path` -/

/-- `std::path::Component`; a `Normal` one has a name other than `.` and `..`. -/
inductive Component
  | rootDir
  | curDir
  | parentDir
  | normal (name : OsStr)
  deriving DecidableEq

abbrev PathBuf := List Component

def separator : UInt8 := 0x2F

def dot : UInt8 := 0x2E

/-- The component that is written between separators, if there is one. -/
def component (segment : OsStr) : Option Component :=
  if segment = [] ∨ segment = [dot] then none
  else if segment = [dot, dot] then some .parentDir
  else some (.normal segment)

/-- `Path::components`: a `.` is one at the beginning of a relative path only. -/
def components (text : OsStr) : PathBuf :=
  (if text.head? = some separator then [.rootDir]
    else if (text.splitOn separator).head? = some [dot] then [.curDir] else []) ++
    (text.splitOn separator).filterMap component

namespace PathBuf

def isAbsolute (self : PathBuf) : Bool := self.head? = some .rootDir

/-- `PathBuf::push`: an absolute path replaces the path. -/
def push (self path : PathBuf) : PathBuf :=
  if isAbsolute path then path
  else if self = [] then path
  else self ++ path.filter (· ≠ .curDir)

/-- `PathBuf::pop`: the root has no parent. -/
def pop (self : PathBuf) : PathBuf :=
  if self.getLast? = some .rootDir then self else self.dropLast

/-- `Path::join`. -/
def join (self path : PathBuf) : PathBuf := push self path

/-- `Path::starts_with`. -/
def startsWith (self base : PathBuf) : Bool := base.isPrefixOf self

end PathBuf

open PathBuf

/-! ## `audit.rs` -/

/-- The errors that have to do with paths. -/
inductive ConfineError
  | io
  | pathEscape
  deriving DecidableEq

/-- The body of the loop of `normalize_lexically`. -/
def normalizeComponent (out : PathBuf) : Component → PathBuf
  | .rootDir => push out [.rootDir]
  | .curDir => out
  | .parentDir => pop out
  | .normal c => push out [.normal c]

def normalizeLexically (path : PathBuf) : PathBuf := path.foldl normalizeComponent []

/-- `resolve_base_dir`; `currentDir` is what `std::env::current_dir` returns. -/
def resolveBaseDir (currentDir : Except ConfineError PathBuf) (baseDir : PathBuf) :
    Except ConfineError PathBuf :=
  if isAbsolute baseDir then .ok (normalizeLexically baseDir)
  else currentDir.map fun cwd => normalizeLexically (join cwd baseDir)

def confinePath (currentDir : Except ConfineError PathBuf) (userPath baseDir : PathBuf) :
    Except ConfineError PathBuf := do
  let base ← resolveBaseDir currentDir baseDir
  let resolved :=
    if isAbsolute userPath then normalizeLexically userPath
    else normalizeLexically (join base userPath)
  if !startsWith resolved base then throw .pathEscape
  return resolved

/-! ## What a path denotes -/

def Component.step : Component → Step OsStr
  | .rootDir | .curDir => .stay
  | .parentDir => .up
  | .normal name => .down name

/-- The node that an absolute path denotes. -/
def node (path : PathBuf) : List OsStr := walk [] (path.map Component.step)

/-- What is between separators, as a step. -/
def segmentStep (segment : OsStr) : Step OsStr :=
  if segment = [] ∨ segment = [dot] then .stay
  else if segment = [dot, dot] then .up
  else .down segment

/-- The node that a text denotes, taken relative to a directory if it is relative. -/
def denoted (directory : List OsStr) (text : OsStr) : List OsStr :=
  walk (if text.head? = some separator then [] else directory)
    ((text.splitOn separator).map segmentStep)

/-- The path of a node. -/
def pathOf (names : List OsStr) : PathBuf := .rootDir :: names.map .normal

section Confine

variable {currentDir : Except ConfineError PathBuf} {names dir : List OsStr} {path : PathBuf}
  {text : OsStr}

/-- The components are the steps between the separators. -/
theorem walk_segments (directory : List OsStr) (text : OsStr) :
    walk directory (((text.splitOn separator).filterMap component).map Component.step) =
      walk directory ((text.splitOn separator).map segmentStep) := by
  refine walk_filterMap (fun segment h => ?_) (fun segment c h => ?_) directory _
  · unfold component at h
    unfold segmentStep
    split_ifs at h ⊢
    rfl
  · unfold component at h
    unfold segmentStep
    split_ifs at h ⊢ <;> cases h <;> rfl

theorem map_step_normal (names : List OsStr) :
    (names.map Component.normal).map Component.step = names.map .down := by
  simp [Component.step, Function.comp_def]

theorem node_pathOf (names : List OsStr) : node (pathOf names) = names := by
  rw [node, pathOf, List.map_cons, map_step_normal, walk_cons]
  exact walk_down [] names

@[simp] theorem pop_pathOf (names : List OsStr) : pop (pathOf names) = pathOf names.dropLast := by
  unfold pop pathOf
  cases names using List.reverseRecOn with
  | nil => rfl
  | append_singleton names name =>
    rw [if_neg]
    · rw [List.dropLast_cons_of_ne_nil (by simp)]
      simp
    · simp [List.getLast?_cons]

@[simp] theorem push_pathOf (names : List OsStr) (name : OsStr) :
    push (pathOf names) [.normal name] = pathOf (names ++ [name]) := by
  simp [push, pathOf, isAbsolute]

/-- The loop takes the steps of the walk. -/
theorem foldl_normalizeComponent (names : List OsStr) (hpath : .rootDir ∉ path) :
    path.foldl normalizeComponent (pathOf names) =
      pathOf (walk names (path.map Component.step)) := by
  induction path generalizing names with
  | nil => rfl
  | cons c path ih =>
    have hpath' : .rootDir ∉ path := fun h => hpath (List.mem_cons_of_mem c h)
    rw [List.foldl_cons, List.map_cons, walk_cons, ← ih _ hpath']
    congr 1
    cases c with
    | rootDir => exact absurd List.mem_cons_self hpath
    | curDir => rfl
    | parentDir => exact pop_pathOf names
    | normal name => exact push_pathOf names name

theorem normalizeLexically_cons (hpath : .rootDir ∉ path) :
    normalizeLexically (.rootDir :: path) = pathOf (walk [] (path.map Component.step)) :=
  foldl_normalizeComponent [] hpath

theorem normalizeLexically_pathOf (names : List OsStr) :
    normalizeLexically (pathOf names) = pathOf names := by
  rw [pathOf, normalizeLexically_cons (by simp), map_step_normal, walk_down]
  rfl

/-- Between separators there are parents and names only. -/
theorem not_mem_segments (text : OsStr) :
    .rootDir ∉ (text.splitOn separator).filterMap component ∧
      .curDir ∉ (text.splitOn separator).filterMap component := by
  constructor <;>
  · intro h
    obtain ⟨segment, -, hsegment⟩ := List.mem_filterMap.1 h
    unfold component at hsegment
    split_ifs at hsegment <;> cases hsegment

/-- An absolute text. -/
theorem components_absolute (h : text.head? = some separator) :
    components text = .rootDir :: (text.splitOn separator).filterMap component := by
  rw [components, if_pos h]
  rfl

theorem normalizeLexically_components (h : text.head? = some separator) :
    normalizeLexically (components text) = pathOf (denoted dir text) := by
  rw [components_absolute h, normalizeLexically_cons (not_mem_segments text).1, walk_segments,
    denoted, if_pos h]

/-- A relative text. -/
theorem isAbsolute_components (h : text.head? ≠ some separator) :
    isAbsolute (components text) = false := by
  obtain ⟨hroot, -⟩ := not_mem_segments text
  unfold isAbsolute components
  rw [if_neg h]
  refine decide_eq_false fun hhead => ?_
  have hmem := List.mem_of_head? hhead
  split_ifs at hmem <;> simp [hroot] at hmem

theorem normalizeLexically_join (h : text.head? ≠ some separator) (names : List OsStr) :
    normalizeLexically (join (pathOf names) (components text)) = pathOf (denoted names text) := by
  obtain ⟨hroot, hcur⟩ := not_mem_segments text
  have hbody : ((text.splitOn separator).filterMap component).filter (· ≠ .curDir) =
      (text.splitOn separator).filterMap component := by
    refine List.filter_eq_self.2 fun c hc => decide_eq_true ?_
    rintro rfl
    exact hcur hc
  have hfilter : (components text).filter (· ≠ .curDir) =
      (text.splitOn separator).filterMap component := by
    rw [components, if_neg h, List.filter_append, hbody]
    split_ifs <;> rfl
  have hjoin : join (pathOf names) (components text) =
      .rootDir :: (names.map .normal ++ (text.splitOn separator).filterMap component) := by
    rw [join, push, isAbsolute_components h, hfilter]
    rfl
  rw [hjoin, normalizeLexically_cons (by simpa using hroot), List.map_append, map_step_normal,
    walk_append, walk_down, List.nil_append, walk_segments, denoted, if_neg h]

theorem startsWith_pathOf {names names' : List OsStr} :
    startsWith (pathOf names') (pathOf names) = true ↔ names <+: names' := by
  have hinj : Function.Injective Component.normal := fun a b h => by cases h; rfl
  rw [startsWith, List.isPrefixOf_iff_prefix, pathOf, pathOf, List.cons_prefix_cons,
    List.prefix_map_iff_of_injective hinj]
  simp

/-- What is confined is the path of its node. -/
theorem confinePath_eq {userPath baseDir : PathBuf} {target : List OsStr}
    (hbase : resolveBaseDir currentDir baseDir = .ok (pathOf dir))
    (htarget : (if isAbsolute userPath then normalizeLexically userPath
      else normalizeLexically (join (pathOf dir) userPath)) = pathOf target) :
    confinePath currentDir userPath baseDir =
      if dir <+: target then .ok (pathOf target) else .error .pathEscape := by
  unfold confinePath
  rw [hbase]
  show (if !startsWith (ite _ _ _) (pathOf dir) then _ else _ : Except ConfineError PathBuf) = _
  rw [htarget]
  by_cases hprefix : dir <+: target
  · rw [startsWith_pathOf.2 hprefix, if_pos hprefix]
    rfl
  · have hfalse : startsWith (pathOf target) (pathOf dir) = false := by
      rw [← Bool.not_eq_true, startsWith_pathOf]
      exact hprefix
    rw [hfalse, if_neg hprefix]
    rfl

theorem resolveBaseDir_components {baseDir : OsStr} (hbase : baseDir.head? = some separator) :
    resolveBaseDir currentDir (components baseDir) = .ok (pathOf (denoted [] baseDir)) := by
  have habsolute : isAbsolute (components baseDir) = true := by
    rw [components_absolute hbase]
    rfl
  rw [resolveBaseDir, if_pos habsolute, normalizeLexically_components hbase]

theorem confinePath_components (userPath : OsStr) {baseDir : OsStr}
    (hbase : baseDir.head? = some separator) :
    confinePath currentDir (components userPath) (components baseDir) =
      if denoted [] baseDir <+: denoted (denoted [] baseDir) userPath then
        .ok (pathOf (denoted (denoted [] baseDir) userPath)) else .error .pathEscape := by
  apply confinePath_eq (resolveBaseDir_components hbase)
  by_cases huser : userPath.head? = some separator
  · have habsolute : isAbsolute (components userPath) = true := by
      rw [components_absolute huser]
      rfl
    rw [if_pos habsolute, normalizeLexically_components huser]
  · rw [isAbsolute_components huser, normalizeLexically_join huser]
    rfl

theorem resolveBaseDir_pathOf (dir : List OsStr) :
    resolveBaseDir currentDir (pathOf dir) = .ok (pathOf dir) :=
  congrArg Except.ok (normalizeLexically_pathOf dir)

/-- A path that is confined is confined to itself. -/
theorem confinePath_pathOf {target : List OsStr} (h : dir <+: target) :
    confinePath currentDir (pathOf target) (pathOf dir) = .ok (pathOf target) := by
  have htarget : (if isAbsolute (pathOf target) then normalizeLexically (pathOf target)
      else normalizeLexically (join (pathOf dir) (pathOf target))) = pathOf target := by
    have habsolute : isAbsolute (pathOf target) = true := rfl
    rw [if_pos habsolute, normalizeLexically_pathOf]
  rw [confinePath_eq (resolveBaseDir_pathOf dir) htarget, if_pos h]

theorem forall_mem_pathOf (names : List OsStr) :
    ∀ c ∈ pathOf names, c ≠ .curDir ∧ c ≠ .parentDir := by
  intro c hc
  rcases List.mem_cons.1 hc with rfl | hc
  · simp
  · obtain ⟨name, -, rfl⟩ := List.mem_map.1 hc
    simp

/-- **Confinement is exact.** -/
theorem confinePath_iff (currentDir : Except ConfineError PathBuf) (userPath : OsStr)
    {baseDir : OsStr} (hbase : baseDir.head? = some separator) :
    ((∃ p, confinePath currentDir (components userPath) (components baseDir) = .ok p) ↔
      denoted [] baseDir <+: denoted (denoted [] baseDir) userPath) ∧
    ∀ p, confinePath currentDir (components userPath) (components baseDir) = .ok p →
      isAbsolute p = true ∧ (∀ c ∈ p, c ≠ .curDir ∧ c ≠ .parentDir) ∧
        node p = denoted (denoted [] baseDir) userPath ∧
        confinePath currentDir p (normalizeLexically (components baseDir)) = .ok p := by
  rw [confinePath_components userPath hbase, normalizeLexically_components hbase]
  by_cases hbelow : denoted [] baseDir <+: denoted (denoted [] baseDir) userPath
  · rw [if_pos hbelow]
    refine ⟨iff_of_true ⟨_, rfl⟩ hbelow, ?_⟩
    rintro _ ⟨rfl⟩
    exact ⟨rfl, forall_mem_pathOf _, node_pathOf _, confinePath_pathOf hbelow⟩
  · rw [if_neg hbelow]
    refine ⟨iff_of_false ?_ hbelow, ?_⟩
    · rintro ⟨p, hp⟩
      cases hp
    · intro p hp
      cases hp

/-- Under `/srv/x/..` the path `logs/./a` is confined. -/
theorem confinePath_iff_srv :
    ∃ p, confinePath (.error .io)
      (components [0x6C, 0x6F, 0x67, 0x73, 0x2F, 0x2E, 0x2F, 0x61])
      (components [0x2F, 0x73, 0x72, 0x76, 0x2F, 0x78, 0x2F, 0x2E, 0x2E]) = .ok p :=
  (confinePath_iff (.error .io) _ rfl).1.2 (by decide)

end Confine

end Resilience.Rust
