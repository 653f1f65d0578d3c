import Resilience.Foundations.PathTexts

/-!
# Confined paths in Python

`_confine_path` of `python/src/cubiczan_resilience/audit_ledger.py`, with what it uses of `pathlib`
on Unix, where the file system has no links. Texts are without the character 0, for which `resolve`
raises.
-/

namespace Resilience.Python

open Paths

/-- A `pathlib.Path`: whether it has a root, and its parts. -/
structure PosixPath where
  root : Bool
  parts : List (List Char)
  deriving DecidableEq

namespace PosixPath

/-- `Path(text)`: empty parts are dropped, and those that are `.`. -/
def ofText (text : List Char) : PosixPath where
  root := text.head? = some '/'
  parts := (text.splitOn '/').filter fun part => part ≠ [] ∧ part ≠ ['.']

/-- `self / other`. -/
def joinpath (self other : PosixPath) : PosixPath :=
  if other.root then other else ⟨self.root, self.parts ++ other.parts⟩

/-- `self.resolve()`, in the working directory `cwd`: a `..` leads to the parent. -/
def resolve (cwd self : PosixPath) : PosixPath where
  root := true
  parts := (joinpath cwd self).parts.foldl
    (fun parts part => if part = ['.', '.'] then parts.dropLast else parts ++ [part]) []

/-- `self.relative_to(other)`, or the `ValueError` that it raises. -/
def relativeTo (self other : PosixPath) : Option PosixPath :=
  if self.root = other.root ∧ other.parts.isPrefixOf self.parts then
    some ⟨false, self.parts.drop other.parts.length⟩
  else none

end PosixPath

open PosixPath

/-- `_confine_path`, with the text of its `ValueError`. -/
def confinePath (cwd : PosixPath) (path : List Char) (baseDir : Option (List Char)) :
    Except String PosixPath :=
  let base := resolve cwd ((baseDir.map ofText).getD cwd)
  let candidate := ofText path
  let resolved := resolve cwd (if candidate.root then candidate else joinpath base candidate)
  match resolved.relativeTo base with
  | some _ => .ok resolved
  | none => .error ("audit ledger path escapes allowed base directory: " ++ String.ofList path)

section Confine

variable {cwd dir names : List (List Char)} {text path : List Char}

/-- The parts of a text are its steps, but for those that stay. -/
theorem walk_parts (dir : List (List Char)) (text : List Char) :
    Paths.walk dir ((ofText text).parts.map (segmentStep '.')) =
      Paths.walk dir (stepsOf '/' '.' text) := by
  rw [ofText, stepsOf]
  induction text.splitOn '/' generalizing dir with
  | nil => rfl
  | cons segment segments ih =>
    rw [List.filter_cons, List.map_cons, Paths.walk_cons]
    split_ifs with hsegment
    · rw [List.map_cons, Paths.walk_cons, ih]
    · have hstay : segment = [] ∨ segment = ['.'] := by
        by_contra hne
        push Not at hne
        exact hsegment (decide_eq_true hne)
      rw [ih, segmentStep, if_pos hstay]
      rfl

/-- The loop over the parts takes their steps. -/
theorem foldl_parts (hparts : ∀ part ∈ names, part ≠ [] ∧ part ≠ ['.']) :
    names.foldl (fun parts part =>
      if part = ['.', '.'] then parts.dropLast else parts ++ [part]) dir =
      Paths.walk dir (names.map (segmentStep '.')) := by
  induction names generalizing dir with
  | nil => rfl
  | cons part parts ih =>
    obtain ⟨⟨hnil, hdot⟩, hrest⟩ := List.forall_mem_cons.1 hparts
    have hstep : segmentStep '.' part = if part = ['.', '.'] then .up else .down part := by
      rw [segmentStep, if_neg (by simp [hnil, hdot])]
    rw [List.foldl_cons, List.map_cons, Paths.walk_cons, ih hrest, hstep]
    split_ifs <;> rfl

theorem parts_ofText (text : List Char) : ∀ part ∈ (ofText text).parts, part ≠ [] ∧ part ≠ ['.'] :=
  fun _ h => of_decide_eq_true (List.mem_filter.1 h).2

theorem proper_of_isName (h : ∀ name ∈ names, IsName '/' '.' name) :
    ∀ name ∈ names, name ≠ [] ∧ name ≠ ['.'] :=
  fun name hname => ⟨(h name hname).1, (h name hname).2.1⟩

theorem walk_names (h : ∀ name ∈ names, IsName '/' '.' name) (dir : List (List Char)) :
    Paths.walk dir (names.map (segmentStep '.')) = dir ++ names := by
  rw [map_segmentStep h, Paths.walk_down]

/-- An absolute path without `..` is resolved. -/
theorem resolve_names (cwd : PosixPath) (h : ∀ name ∈ names, IsName '/' '.' name) :
    resolve cwd ⟨true, names⟩ = ⟨true, names⟩ := by
  rw [resolve, joinpath, if_pos rfl, foldl_parts (proper_of_isName h), walk_names h]
  rfl

/-- A text is resolved to what it denotes. -/
theorem resolve_ofText (hcwd : ∀ name ∈ cwd, IsName '/' '.' name) (text : List Char) :
    resolve ⟨true, cwd⟩ (ofText text) = ⟨true, denoted '/' '.' cwd text⟩ := by
  rw [resolve, joinpath, denoted]
  by_cases hroot : text.head? = some '/'
  · have habsolute : (ofText text).root = true := decide_eq_true hroot
    rw [if_pos habsolute, if_pos hroot, foldl_parts (parts_ofText text), walk_parts]
  · have hrelative : (ofText text).root = false := decide_eq_false hroot
    rw [hrelative, if_neg Bool.false_ne_true, if_neg hroot, foldl_parts, List.map_append,
      Paths.walk_append, walk_names hcwd, walk_parts]
    · rfl
    · exact List.forall_mem_append.2 ⟨proper_of_isName hcwd, parts_ofText text⟩

/-- A text is resolved under a directory to what it denotes there. -/
theorem resolve_under (cwd : PosixPath) (hdir : ∀ name ∈ dir, IsName '/' '.' name)
    (text : List Char) :
    resolve cwd (if (ofText text).root then ofText text else joinpath ⟨true, dir⟩ (ofText text)) =
      ⟨true, denoted '/' '.' dir text⟩ := by
  have hjoin : (if (ofText text).root then ofText text else joinpath ⟨true, dir⟩ (ofText text)) =
      joinpath ⟨true, dir⟩ (ofText text) := by
    rw [joinpath]
    split_ifs <;> rfl
  have hroot : (joinpath ⟨true, dir⟩ (ofText text)).root = true := by
    rw [joinpath]
    split_ifs with h
    · exact h
    · rfl
  rw [hjoin, ← resolve_ofText hdir text]
  unfold resolve
  rw [joinpath, if_pos hroot]

/-- The directory that paths are confined to. -/
def baseOf (cwd : List (List Char)) : Option (List Char) → List (List Char)
  | none => cwd
  | some baseDir => denoted '/' '.' cwd baseDir

theorem confinePath_eq (hcwd : ∀ name ∈ cwd, IsName '/' '.' name) (path : List Char)
    (baseDir : Option (List Char)) :
    confinePath ⟨true, cwd⟩ path baseDir =
      if baseOf cwd baseDir <+: denoted '/' '.' (baseOf cwd baseDir) path then
        .ok ⟨true, denoted '/' '.' (baseOf cwd baseDir) path⟩
      else
        .error ("audit ledger path escapes allowed base directory: " ++ String.ofList path) := by
  have hbase : resolve ⟨true, cwd⟩ ((baseDir.map ofText).getD ⟨true, cwd⟩) =
      ⟨true, baseOf cwd baseDir⟩ := by
    cases baseDir with
    | none => exact resolve_names _ hcwd
    | some text => exact resolve_ofText hcwd text
  have hnames : ∀ name ∈ baseOf cwd baseDir, IsName '/' '.' name := by
    cases baseDir with
    | none => exact hcwd
    | some text => exact forall_isName_denoted hcwd text
  unfold confinePath
  rw [hbase]
  dsimp only
  rw [resolve_under _ hnames, relativeTo]
  by_cases hprefix : baseOf cwd baseDir <+: denoted '/' '.' (baseOf cwd baseDir) path
  · rw [if_pos hprefix, if_pos ⟨rfl, List.isPrefixOf_iff_prefix.2 hprefix⟩]
  · rw [if_neg hprefix, if_neg fun h => hprefix (List.isPrefixOf_iff_prefix.1 h.2)]

end Confine

end Resilience.Python
