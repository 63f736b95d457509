import RustExtensions.Lib.Paths
import RustExtensions.Shim.Error

/-!
# Paths and binaries for the runtime

The arguments of a runtime call name files by their absolute paths, without any
dots, and the runtime itself is looked for along `PATH`.
-/
namespace RustExtensions.Runc

open RustExtensions.Shim (joinPath)
open RustExtensions.Paths

inductive Error where
  | invalidPath (err : String)
  | notFound
  deriving DecidableEq, Repr

def Error.display : Error → String
  | .invalidPath e => s!"Invalid path: {e}"
  | .notFound => "Unable to locate the runc"

/-! ## Absolute paths -/

inductive Component where
  | rootDir | curDir | parentDir
  | normal (n : Name)
  deriving DecidableEq, Repr

def Component.ofName (n : Name) : Component :=
  if n = ['.'] then .curDir else if n = ['.', '.'] then .parentDir else .normal n

/-- `Path::components`. A dot counts only at the head of a relative path. -/
def components (path : List Char) : List Component :=
  let cs := (segments path).map Component.ofName
  if IsAbsolute path then .rootDir :: cs.filter (· ≠ .curDir)
  else cs.take 1 ++ (cs.drop 1).filter (· ≠ .curDir)

/-- Exactly two slashes at the head are kept. -/
def absoluteBase (path : List Char) : List Char :=
  if ['/', '/'] <+: path ∧ ¬['/', '/', '/'] <+: path then ['/', '/'] else ['/']

/-- `std::path::absolute`: no dots but those of a parent are left out, and no link is read. -/
def absolute (cwd : Directory) (path : List Char) : Except Error (List Char) :=
  if path = [] then .error (.invalidPath "cannot make an empty path absolute")
  else
    let base := if IsAbsolute path then absoluteBase path else cwd.path
    let normalized := ((segments path).filter (· ≠ ['.'])).foldl join base
    .ok (if path.getLast? = some '/' then join normalized [] else normalized)

/-- A `PathBuf` that is built of components. -/
structure PathBuf where
  root : Bool := false
  names : List Name := []
  deriving DecidableEq, Repr

namespace PathBuf

def push (p : PathBuf) (c : Component) : PathBuf :=
  match c with
  | .rootDir => { root := true }
  | .curDir => { p with names := p.names ++ [['.']] }
  | .parentDir => { p with names := p.names ++ [['.', '.']] }
  | .normal n => { p with names := p.names ++ [n] }

/-- The root stays. -/
def pop (p : PathBuf) : PathBuf := { p with names := p.names.dropLast }

def text (p : PathBuf) : List Char :=
  if p.root then render p.names else ['/'].intercalate p.names

end PathBuf

def normalizeStep (normalized : PathBuf) (component : Component) : PathBuf :=
  match component with
  | .parentDir => normalized.pop
  | .curDir => normalized
  | c => normalized.push c

def absPathBuf (cwd : Directory) (path : List Char) : Except Error PathBuf := do
  let abs ← absolute cwd path
  return (components abs).foldl normalizeStep {}

def absString (cwd : Directory) (path : String) : Except Error String :=
  (absPathBuf cwd path.toList).map fun p => String.ofList p.text

/-- `binary_path`: the first directory of `PATH` with a file at that path. A path that is absolute
is looked up as it is. -/
def binaryPath (paths : Option (List String)) (isFile : String → Bool) (path : String) :
    Option String :=
  paths.bind fun dirs => dirs.findSome? fun dir =>
    let fullPath := joinPath dir path
    if isFile fullPath then some fullPath else none

/-! ## What is resolved -/

variable {cwd : Directory} {path : List Char}

theorem isAbsolute_absoluteBase : IsAbsolute (absoluteBase path) := by
  unfold absoluteBase
  split
  · rfl
  · rfl

theorem segments_absoluteBase : segments (absoluteBase path) = [] := by
  unfold absoluteBase
  split
  · decide
  · decide

/-- What is made absolute begins at the root, and goes the same way. -/
theorem absolute_spec (cwd : Directory) (h : path ≠ []) :
    ∃ abs, absolute cwd path = .ok abs ∧ IsAbsolute abs ∧
      segments abs = (if IsAbsolute path then [] else cwd.names) ++
        (segments path).filter (· ≠ ['.']) := by
  have hns : ∀ n ∈ (segments path).filter (· ≠ ['.']), n ≠ [] ∧ '/' ∉ n :=
    fun n hn => isName_of_mem_segments (List.mem_of_mem_filter hn)
  have hbase : IsAbsolute (if IsAbsolute path then absoluteBase path else cwd.path) := by
    split
    · exact isAbsolute_absoluteBase
    · exact cwd.isAbsolute_path
  have hsegments : segments (if IsAbsolute path then absoluteBase path else cwd.path) =
      if IsAbsolute path then [] else cwd.names := by
    split
    · exact segments_absoluteBase
    · exact cwd.segments_path
  refine ⟨_, if_neg h, ?_, ?_⟩
  · split
    · exact isAbsolute_join.mpr (Or.inr (isAbsolute_foldl_join hbase))
    · exact isAbsolute_foldl_join hbase
  · have hnil : ¬IsAbsolute [] := fun h => nomatch h
    have hempty : segments [] = [] := by decide
    split
    · rw [segments_join hnil, hempty, List.append_nil, segments_foldl_join hns, hsegments]
    · rw [segments_foldl_join hns, hsegments]

/-- One component does to the stack what one name does to the directory. -/
theorem normalizeStep_ofName (dir : List Name) (n : Name) :
    normalizeStep { root := true, names := dir } (Component.ofName n) =
      { root := true, names := step dir n } := by
  rw [Component.ofName, step]
  split
  · rfl
  · split
    · rfl
    · rfl

theorem foldl_normalizeStep (ns dir : List Name) :
    ((ns.map Component.ofName).filter (· ≠ .curDir)).foldl normalizeStep
      { root := true, names := dir } = { root := true, names := walk dir ns } := by
  induction ns generalizing dir with
  | nil => rfl
  | cons n ns ih =>
    have hstep := normalizeStep_ofName dir n
    rw [List.map_cons, List.filter_cons]
    split
    · rw [List.foldl_cons, hstep, ih (step dir n)]
      rfl
    · next hcur =>
      -- the component of a single dot is the one that is left out
      have hdot : Component.ofName n = .curDir := by simpa using hcur
      rw [hdot] at hstep
      have hnames : step dir n = dir := (PathBuf.mk.inj hstep).2.symm
      rw [ih dir, walk, walk, List.foldl_cons, hnames]

/-- The loop over the components resolves the path. -/
theorem absPathBuf_eq (h : path ≠ []) :
    absPathBuf cwd path = .ok { root := true, names := (cwd.goto path).names } := by
  obtain ⟨abs, habs, habsolute, hsegments⟩ := absolute_spec cwd h
  have hwalk : walk [] (segments abs) = (cwd.goto path).names := by
    rw [hsegments, walk_append, walk_filter_dot, Directory.names_goto, resolve]
    split
    · rfl
    · rw [walk_of_isName cwd.proper, List.nil_append]
  have hloop : (components abs).foldl normalizeStep {} =
      { root := true, names := walk [] (segments abs) } := by
    rw [components, if_pos habsolute, List.foldl_cons]
    exact foldl_normalizeStep (segments abs) []
  rw [absPathBuf, habs, ← hwalk, ← hloop]
  rfl

theorem absString_eq {path : String} (h : path ≠ "") :
    absString cwd path = .ok (String.ofList (cwd.goto path.toList).path) := by
  have hne : path.toList ≠ [] := fun hnil => h (String.toList_eq_nil_iff.mp hnil)
  rw [absString, absPathBuf_eq hne]
  rfl

/-! ## What is left of a path -/

theorem ofName_of_isName {n : Name} (h : IsName n) : Component.ofName n = .normal n := by
  rw [Component.ofName, if_neg h.dot, if_neg h.dots]

/-- The components of the path of a directory are the root and its names. -/
theorem components_path (d : Directory) : components d.path = .rootDir :: d.names.map .normal := by
  have hnames : d.names.map Component.ofName = d.names.map .normal :=
    List.map_congr_left fun n hn => ofName_of_isName (d.proper n hn)
  have hdots : (d.names.map Component.normal).filter (· ≠ .curDir) = d.names.map .normal := by
    rw [List.filter_eq_self]
    intro c hc
    obtain ⟨n, -, rfl⟩ := List.mem_map.mp hc
    rfl
  rw [components, if_pos d.isAbsolute_path, d.segments_path, hnames, hdots]

/-- A path that is not empty is made one that begins at the root and has the names that it leads
along from the working directory. Another pass changes nothing, in whatever directory. -/
theorem abs_path_canonical (cwd : Directory) (path : List Char) :
    (path ≠ [] → ∃ p, absPathBuf cwd path = .ok p ∧ IsAbsolute p.text ∧
      components p.text = .rootDir :: (resolve cwd.names path).map .normal ∧
      (∀ c ∈ components p.text, c ≠ .curDir ∧ c ≠ .parentDir) ∧
      ∀ cwd' : Directory, absPathBuf cwd' p.text = .ok p) ∧
    (path = [] →
      absPathBuf cwd path = .error (.invalidPath "cannot make an empty path absolute")) := by
  refine ⟨fun hne => ?_, fun hnil => ?_⟩
  · have hcomponents := components_path (cwd.goto path)
    refine ⟨_, absPathBuf_eq hne, (cwd.goto path).isAbsolute_path, hcomponents, ?_, fun cwd' => ?_⟩
    · intro c hc
      have hc : c ∈ components (cwd.goto path).path := hc
      rw [hcomponents] at hc
      rcases List.mem_cons.mp hc with rfl | hc
      · exact ⟨by simp, by simp⟩
      · obtain ⟨n, -, rfl⟩ := List.mem_map.mp hc
        exact ⟨by simp, by simp⟩
    · have hpath : (cwd.goto path).path ≠ [] := List.cons_ne_nil _ _
      have hagain : absPathBuf cwd' (cwd.goto path).path = _ := absPathBuf_eq hpath
      rw [Directory.names_goto, Directory.resolve_path] at hagain
      exact hagain
  · rw [hnil]
    rfl

/-- The empty path is refused, not resolved. -/
theorem empty_path_refused :
    ¬∀ (cwd : Directory) (path : List Char), ∃ p, absPathBuf cwd path = .ok p ∧
      IsAbsolute p.text ∧ components p.text = .rootDir :: (resolve cwd.names path).map .normal ∧
      (∀ c ∈ components p.text, c ≠ .curDir ∧ c ≠ .parentDir) ∧
      ∀ cwd' : Directory, absPathBuf cwd' p.text = .ok p := by
  intro h
  obtain ⟨p, hp, -⟩ := h { names := [], proper := fun n hn => absurd hn List.not_mem_nil } []
  cases hp

end RustExtensions.Runc
