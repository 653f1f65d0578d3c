import Resilience.Foundations.Json.Escape
import Resilience.Foundations.PathTexts

/-!
# Confined paths in TypeScript

`confinePath` of `typescript/src/auditLedger.ts`, with `resolve` and `relative` of `node:path` on
POSIX.
-/

namespace Resilience.TypeScript

open Json Paths

/-! ## `node:path` -/

def slash : Fin 0x10000 := toUnit 0x2F

def point : Fin 0x10000 := toUnit 0x2E

/-- `path.isAbsolute`. -/
def isAbsolutePath (path : Units) : Bool := path.head? = some slash

/-- The names of a normalized absolute path. -/
def normalizeString (path : Units) : List Units :=
  (path.splitOn slash).foldl (fun names segment =>
    if segment = [] ∨ segment = [point] then names
    else if segment = [point, point] then names.dropLast
    else names ++ [segment]) []

/-- Put paths before `resolved`, the last one first, up to one that is absolute. -/
def prepend (resolved : Units) : List Units → Units
  | [] => resolved
  | path :: paths =>
    if path = [] then prepend resolved paths
    else if isAbsolutePath path then path ++ slash :: resolved
    else prepend (path ++ slash :: resolved) paths

/-- The names of `path.resolve(...paths)`. -/
def resolveNames (cwd : Units) (paths : List Units) : List Units :=
  normalizeString (prepend [] (paths.reverse ++ [cwd]))

/-- `path.resolve`, in the working directory `cwd`. -/
def resolvePath (cwd : Units) (paths : List Units) : Units :=
  slash :: [slash].intercalate (resolveNames cwd paths)

/-- The way from a node to another, by the nearest node above both. -/
def relativeNames : List Units → List Units → List Units
  | name :: names, name' :: names' =>
    if name = name' then relativeNames names names'
    else (name :: names).map (fun _ => [point, point]) ++ name' :: names'
  | names, names' => names.map (fun _ => [point, point]) ++ names'

/-- `path.relative`. -/
def relativePath (cwd source target : Units) : Units :=
  [slash].intercalate (relativeNames (resolveNames cwd [source]) (resolveNames cwd [target]))

/-! ## `auditLedger.ts` -/

/-- `confinePath`, with the message of its `Error`. -/
def confinePath (cwd userPath baseDir : Units) : Except Units Units :=
  let resolvedBase := resolvePath cwd [baseDir]
  let resolved := resolvePath cwd [resolvedBase, userPath]
  let rel := relativePath cwd resolvedBase resolved
  if rel = [point, point] ∨ [point, point, slash].isPrefixOf rel ∨ isAbsolutePath rel then
    .error (utf16 "audit ledger path escapes allowed base directory: " ++ userPath)
  else .ok resolved

section Confine

variable {dir names : List Units} {cwd : Units}

theorem normalizeString_eq (path : Units) :
    normalizeString path = Paths.walk [] (stepsOf slash point path) := by
  have hfold : ∀ (segments dir : List Units), segments.foldl (fun names segment =>
      if segment = [] ∨ segment = [point] then names
      else if segment = [point, point] then names.dropLast
      else names ++ [segment]) dir = Paths.walk dir (segments.map (segmentStep point)) := by
    intro segments
    induction segments with
    | nil => exact fun _ => rfl
    | cons segment segments ih =>
      intro dir
      rw [List.foldl_cons, List.map_cons, walk_cons, ih, segmentStep]
      split_ifs <;> rfl
  exact hfold _ []

/-- The node of paths that are taken one relative to the next. -/
def nodeOf (paths : List Units) : List Units :=
  paths.foldr (fun path dir => denoted slash point dir path) []

@[simp] theorem nodeOf_nil : nodeOf [] = [] := rfl

@[simp] theorem nodeOf_cons (path : Units) (paths : List Units) :
    nodeOf (path :: paths) = denoted slash point (nodeOf paths) path := rfl

theorem walk_prepend (resolved : Units) (paths : List Units) :
    Paths.walk [] (stepsOf slash point (prepend resolved paths)) =
      Paths.walk (nodeOf paths) (stepsOf slash point resolved) := by
  induction paths generalizing resolved with
  | nil => rfl
  | cons path paths ih =>
    rw [prepend, nodeOf_cons]
    split_ifs with hnil habsolute
    · rw [ih, hnil, denoted_nil]
    · rw [stepsOf_append, walk_append, denoted, if_pos (of_decide_eq_true habsolute)]
    · rw [ih, stepsOf_append, walk_append, denoted,
        if_neg fun h => habsolute (decide_eq_true h)]

theorem resolveNames_eq (cwd : Units) (paths : List Units) :
    resolveNames cwd paths = nodeOf (paths.reverse ++ [cwd]) := by
  rw [resolveNames, normalizeString_eq, walk_prepend]
  rfl

/-- Below a directory, the way starts with a name or is empty. -/
theorem relativeNames_append (dir names : List Units) :
    relativeNames dir (dir ++ names) = names := by
  induction dir with
  | nil => cases names <;> rfl
  | cons name dir ih => rw [List.cons_append, relativeNames, if_pos rfl, ih]

/-- Elsewhere, the way goes up first. -/
theorem relativeNames_of_not_prefix (h : ¬ dir <+: names) :
    ∃ rest, relativeNames dir names = [point, point] :: rest := by
  induction dir generalizing names with
  | nil => exact absurd (List.nil_prefix ..) h
  | cons name dir ih =>
    cases names with
    | nil => exact ⟨_, rfl⟩
    | cons name' names =>
      rw [relativeNames]
      split_ifs with hname
      · rw [hname, List.cons_prefix_cons] at h
        exact ih fun hprefix => h ⟨rfl, hprefix⟩
      · exact ⟨_, rfl⟩

/-- A way that starts with a name does not leave the directory. -/
theorem not_escapes (h : ∀ name ∈ names, IsName slash point name) :
    ¬ ([slash].intercalate names = [point, point] ∨
      [point, point, slash].isPrefixOf ([slash].intercalate names) ∨
      isAbsolutePath ([slash].intercalate names)) := by
  rcases eq_or_ne names [] with rfl | hnames
  · simp [isAbsolutePath]
  · have hsplit := List.splitOn_intercalate slash (fun name hname => (h name hname).2.2.2) hnames
    have hhead : ∀ segment rest, ([slash].intercalate names).splitOn slash = segment :: rest →
        IsName slash point segment := by
      intro segment rest hsegment
      exact h segment (by rw [← hsplit, hsegment]; exact List.mem_cons_self ..)
    rintro (hup | hup | habsolute)
    · refine (hhead [point, point] [] ?_).2.2.1 rfl
      rw [hup]
      decide
    · obtain ⟨rest, hrest⟩ := List.isPrefixOf_iff_prefix.1 hup
      refine (hhead [point, point] (rest.splitOn slash) ?_).2.2.1 rfl
      rw [← hrest]
      have hup : slash ∉ [point, point] := by decide
      exact List.splitOn_append_cons_self_of_not_mem hup rest
    · obtain ⟨rest, hrest⟩ := List.head?_eq_some_iff.1 (of_decide_eq_true habsolute)
      refine (hhead [] (rest.splitOn slash) ?_).1 rfl
      rw [hrest]
      exact List.splitOn_append_cons_self [] rest

/-- A way that goes up leaves it. -/
theorem escapes (rest : List Units) :
    [slash].intercalate ([point, point] :: rest) = [point, point] ∨
      [point, point, slash].isPrefixOf ([slash].intercalate ([point, point] :: rest)) := by
  cases rest with
  | nil => exact .inl rfl
  | cons name rest =>
    refine .inr (List.isPrefixOf_iff_prefix.2 ⟨[slash].intercalate (name :: rest), ?_⟩)
    rw [List.intercalate_cons_cons, List.append_assoc]
    rfl

theorem confinePath_eq (hdir : ∀ name ∈ dir, IsName slash point name)
    (userPath baseDir : Units) :
    confinePath (absolute slash dir) userPath baseDir =
      if denoted slash point dir baseDir <+:
          denoted slash point (denoted slash point dir baseDir) userPath then
        .ok (absolute slash (denoted slash point (denoted slash point dir baseDir) userPath))
      else .error (utf16 "audit ledger path escapes allowed base directory: " ++ userPath) := by
  have hcwd : denoted slash point [] (absolute slash dir) = dir := denoted_absolute hdir
  set base := denoted slash point dir baseDir with hbase
  set node := denoted slash point base userPath with hnode
  have hbasenames : ∀ name ∈ base, IsName slash point name := forall_isName_denoted hdir baseDir
  have hnames : ∀ name ∈ node, IsName slash point name := forall_isName_denoted hbasenames userPath
  have hresolve : ∀ {names : List Units}, (∀ name ∈ names, IsName slash point name) →
      resolveNames (absolute slash dir) [absolute slash names] = names := by
    intro names h
    rw [resolveNames_eq]
    exact denoted_absolute h
  have hresolvedBase : resolvePath (absolute slash dir) [baseDir] = absolute slash base := by
    rw [resolvePath, resolveNames_eq]
    simp only [List.reverse_singleton, List.singleton_append, nodeOf_cons, nodeOf_nil, hcwd]
    rfl
  have hresolved : resolvePath (absolute slash dir) [absolute slash base, userPath] =
      absolute slash node := by
    rw [resolvePath, resolveNames_eq]
    simp only [List.reverse_cons, List.reverse_nil, List.nil_append, List.cons_append, nodeOf_cons,
      nodeOf_nil, denoted_absolute hbasenames]
    rfl
  have hrel : relativePath (absolute slash dir) (absolute slash base) (absolute slash node) =
      [slash].intercalate (relativeNames base node) := by
    rw [relativePath, hresolve hbasenames, hresolve hnames]
  unfold confinePath
  rw [hresolvedBase]
  dsimp only
  rw [hresolved, hrel]
  by_cases hprefix : base <+: node
  · obtain ⟨rest, hrest⟩ := hprefix
    have hsub : ∀ name ∈ rest, IsName slash point name :=
      fun name h => hnames name (hrest ▸ List.mem_append_right _ h)
    rw [if_pos (show base <+: node from ⟨rest, hrest⟩), ← hrest, relativeNames_append,
      if_neg (not_escapes hsub)]
  · obtain ⟨rest, hrest⟩ := relativeNames_of_not_prefix hprefix
    rw [if_neg hprefix, hrest, if_pos]
    exact (escapes rest).imp_right .inl

end Confine

end Resilience.TypeScript
