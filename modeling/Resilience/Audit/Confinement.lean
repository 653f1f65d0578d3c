import Resilience.Foundations.Lines
import Resilience.Python.Paths
import Resilience.Rust.Paths
import Resilience.TypeScript.Paths

/-!
# The ports confine paths alike

The paths of a ledger and of its base directory are given as texts, which Rust has in UTF-8 and
TypeScript in UTF-16. `confine_path`, `_confine_path` and `confinePath` accept the same ones: those
that lead, from the base directory, to it or to below it. What they return stands for the same file
(`confinements_agree`).
-/

namespace Resilience

open Json Paths

/-! ## Encodings of paths -/

/-- The UTF-16 code of a character. -/
def utf16Char (c : Char) : Units := units (Json.toUnits c.toNat)

theorem utf16_ofList (text : List Char) : utf16 (String.ofList text) = text.flatMap utf16Char := by
  rw [utf16, String.toList_ofList, units, List.map_flatMap]
  rfl

theorem utf16_append (s t : String) : utf16 (s ++ t) = utf16 s ++ utf16 t := by
  rw [utf16, utf16, utf16, String.toList_append, List.flatMap_append, units, units, units,
    List.map_append]

theorem encodes_utf16 : Encodes utf16Char '/' '.' TypeScript.slash TypeScript.point where
  sep_eq := rfl
  dot_eq := rfl
  not_mem c hc hmem := by
    obtain ⟨n, hn, hunit⟩ := List.mem_map.1 hmem
    have hlt := toUnits_lt (toNat_lt c) hn
    have hslash : n = 0x2F := by
      have hval := congrArg Fin.val hunit
      change n % 0x10000 = 0x2F at hval
      omega
    unfold Json.toUnits at hn
    split at hn
    · rw [List.mem_singleton] at hn
      exact hc (Char.ext (UInt32.toNat.inj (hn.symm.trans hslash)))
    · simp only [List.mem_cons, List.not_mem_nil, or_false] at hn
      omega
  ne_nil c := by
    unfold utf16Char Json.toUnits
    split <;> simp [units]
  injective := by
    intro text text' h
    have hstring : utf16 (String.ofList text) = utf16 (String.ofList text') := by
      rw [utf16_ofList, utf16_ofList]
      exact h
    exact String.ofList_injective (utf16_injective hstring)

theorem encodes_utf8 : Encodes String.utf8EncodeChar '/' '.' Rust.separator Rust.dot where
  sep_eq := rfl
  dot_eq := rfl
  not_mem c hc hmem := by
    have hnat := toNat_of_mem_utf8EncodeChar hmem (by decide)
    exact hc (Char.ext (UInt32.toNat.inj hnat.symm))
  ne_nil c := String.utf8EncodeChar_ne_nil
  injective := utf8_injective

/-! ## Rust -/

namespace Rust

open PathBuf

theorem denoted_eq (directory : List OsStr) (text : OsStr) :
    denoted directory text = Paths.denoted separator dot directory text := rfl

/-- A base directory is resolved to what it denotes in the working directory. -/
theorem resolveBaseDir_denoted (cwd : List OsStr) (baseDir : OsStr) :
    resolveBaseDir (.ok (pathOf cwd)) (components baseDir) =
      .ok (pathOf (denoted cwd baseDir)) := by
  by_cases hbase : baseDir.head? = some separator
  · rw [resolveBaseDir_components hbase, denoted, denoted, if_pos hbase, if_pos hbase]
  · rw [resolveBaseDir, isAbsolute_components hbase, if_neg Bool.false_ne_true]
    exact congrArg Except.ok (normalizeLexically_join hbase cwd)

theorem confinePath_denoted (cwd : List OsStr) (userPath baseDir : OsStr) :
    confinePath (.ok (pathOf cwd)) (components userPath) (components baseDir) =
      if denoted cwd baseDir <+: denoted (denoted cwd baseDir) userPath then
        .ok (pathOf (denoted (denoted cwd baseDir) userPath)) else .error .pathEscape := by
  apply confinePath_eq (resolveBaseDir_denoted cwd baseDir)
  by_cases huser : userPath.head? = some separator
  · have habsolute : isAbsolute (components userPath) = true := by
      rw [components_absolute huser]
      rfl
    rw [if_pos habsolute, normalizeLexically_components huser]
  · rw [isAbsolute_components huser, normalizeLexically_join huser]
    rfl

end Rust

/-! ## The three ports -/

/-- A text that can be a path on Unix. -/
structure PathText where
  chars : List Char
  noNull : '\x00' ∉ chars

section Ports

variable (cwd : List (List Char)) (path baseDir : PathText)

/-- The node of the base directory, in a working directory. -/
def baseNode : List (List Char) := denoted '/' '.' cwd baseDir.chars

/-- Where a path leads from the base directory. -/
def destination : List (List Char) := denoted '/' '.' (baseNode cwd baseDir) path.chars

/-- The path stays in the base directory. -/
def Confined : Prop := baseNode cwd baseDir <+: destination cwd path baseDir

def confineRust : Except Rust.ConfineError Rust.PathBuf :=
  Rust.confinePath (.ok (Rust.pathOf (cwd.map utf8))) (Rust.components (utf8 path.chars))
    (Rust.components (utf8 baseDir.chars))

def confinePython : Except String Python.PosixPath :=
  Python.confinePath ⟨true, cwd⟩ path.chars (some baseDir.chars)

def confineTypeScript : Except Units Units :=
  TypeScript.confinePath (absolute TypeScript.slash (cwd.map (·.flatMap utf16Char)))
    (utf16 (String.ofList path.chars)) (utf16 (String.ofList baseDir.chars))

/-- The text of the errors. -/
def escapeMessage : String :=
  "audit ledger path escapes allowed base directory: " ++ String.ofList path.chars

variable {cwd path baseDir}

theorem rust_denoted (dir : List (List Char)) (text : List Char) :
    Rust.denoted (dir.map utf8) (utf8 text) = (denoted '/' '.' dir text).map utf8 := by
  rw [Rust.denoted_eq]
  exact denoted_encoded encodes_utf8 dir text

theorem typescript_denoted (dir : List (List Char)) (text : List Char) :
    denoted TypeScript.slash TypeScript.point (dir.map (·.flatMap utf16Char))
      (utf16 (String.ofList text)) = (denoted '/' '.' dir text).map (·.flatMap utf16Char) := by
  rw [utf16_ofList]
  exact denoted_encoded encodes_utf16 dir text

theorem confineRust_eq :
    confineRust cwd path baseDir =
      if (baseNode cwd baseDir).map utf8 <+: (destination cwd path baseDir).map utf8 then
        .ok (Rust.pathOf ((destination cwd path baseDir).map utf8))
      else .error .pathEscape := by
  rw [confineRust, Rust.confinePath_denoted, rust_denoted, rust_denoted]
  rfl

theorem confineTypeScript_eq (hcwd : ∀ name ∈ cwd, IsName '/' '.' name) :
    confineTypeScript cwd path baseDir =
      if (baseNode cwd baseDir).map (·.flatMap utf16Char) <+:
          (destination cwd path baseDir).map (·.flatMap utf16Char) then
        .ok (utf16 (String.ofList (absolute '/' (destination cwd path baseDir))))
      else .error (utf16 (escapeMessage path)) := by
  have hnames : ∀ name ∈ cwd.map (·.flatMap utf16Char),
      IsName TypeScript.slash TypeScript.point name :=
    List.forall_mem_map.2 fun name h => (hcwd name h).encoded encodes_utf16
  have hmessage : utf16 "audit ledger path escapes allowed base directory: " ++
      utf16 (String.ofList path.chars) = utf16 (escapeMessage path) := (utf16_append _ _).symm
  rw [confineTypeScript, TypeScript.confinePath_eq hnames, typescript_denoted, typescript_denoted,
    hmessage, utf16_ofList (absolute _ _), absolute_encoded encodes_utf16]
  rfl

/-- **The ports confine paths alike**: exactly to the base directory, and to the same file, which is
confined to itself. -/
theorem confinements_agree (path baseDir : PathText) (hcwd : ∀ name ∈ cwd, IsName '/' '.' name) :
    (Confined cwd path baseDir →
      confineRust cwd path baseDir = .ok (Rust.pathOf ((destination cwd path baseDir).map utf8)) ∧
      confinePython cwd path baseDir = .ok ⟨true, destination cwd path baseDir⟩ ∧
      confineTypeScript cwd path baseDir =
        .ok (utf16 (String.ofList (absolute '/' (destination cwd path baseDir)))) ∧
      ∀ again : PathText, again.chars = absolute '/' (destination cwd path baseDir) →
        Confined cwd again baseDir ∧
          destination cwd again baseDir = destination cwd path baseDir) ∧
    (¬ Confined cwd path baseDir →
      confineRust cwd path baseDir = .error .pathEscape ∧
      confinePython cwd path baseDir = .error (escapeMessage path) ∧
      confineTypeScript cwd path baseDir = .error (utf16 (escapeMessage path))) := by
  have hrust : (baseNode cwd baseDir).map utf8 <+: (destination cwd path baseDir).map utf8 ↔
      Confined cwd path baseDir := List.prefix_map_iff_of_injective utf8_injective
  have htypescript : (baseNode cwd baseDir).map (·.flatMap utf16Char) <+:
      (destination cwd path baseDir).map (·.flatMap utf16Char) ↔ Confined cwd path baseDir :=
    List.prefix_map_iff_of_injective encodes_utf16.injective
  have hnames : ∀ name ∈ destination cwd path baseDir, IsName '/' '.' name :=
    forall_isName_denoted (forall_isName_denoted hcwd baseDir.chars) path.chars
  rw [confineRust_eq, confinePython, Python.confinePath_eq hcwd, confineTypeScript_eq hcwd]
  constructor
  · intro h
    refine ⟨if_pos (hrust.2 h), if_pos h, if_pos (htypescript.2 h), fun again hagain => ?_⟩
    have hsame : destination cwd again baseDir = destination cwd path baseDir := by
      rw [destination, hagain]
      exact denoted_absolute hnames
    refine ⟨?_, hsame⟩
    rw [Confined, hsame]
    exact h
  · intro h
    exact ⟨if_neg (hrust.not.2 h), if_neg h, if_neg (htypescript.not.2 h)⟩

/-- In `/srv`, the path `a/../b` stays in the directory `d`. -/
theorem confinements_agree_srv : ∃ path baseDir : PathText,
    path.chars = ['a', '/', '.', '.', '/', 'b'] ∧ baseDir.chars = ['d'] ∧
      confinePython [['s', 'r', 'v']] path baseDir =
        .ok ⟨true, [['s', 'r', 'v'], ['d'], ['b']]⟩ := by
  have hcwd : ∀ name ∈ [['s', 'r', 'v']], IsName '/' '.' name := by simp [IsName]
  refine ⟨⟨['a', '/', '.', '.', '/', 'b'], by decide⟩, ⟨['d'], by decide⟩, rfl, rfl, ?_⟩
  exact ((confinements_agree _ _ hcwd).1 ⟨[['b']], by decide⟩).2.1

end Ports

end Resilience
