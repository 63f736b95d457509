import RustExtensions.Lib.Substring
import RustExtensions.Shim.MountInfo

/-!
# The memory cgroup of a process

To watch a container for running out of memory the shim looks for the memory
line of `/proc/<pid>/cgroup`, and takes the mount root off the path there to get
a directory below the mount point. Both are done on text.
-/
namespace RustExtensions.RuncShim

open RustExtensions.Shim
open RustExtensions.Fallible
open RustExtensions.Fields
open RustExtensions.Substring (trimStart)

namespace CgroupMemory

/-- `str::split_once`, at a pattern. -/
def splitOnce (s pat : String) : Option (String × String) :=
  (Substring.splitOnce pat.toList s.toList).map fun r => (String.ofList r.1, String.ofList r.2)

/-- `str::trim_start_matches`, of a pattern. -/
def trimStartMatches (s pat : String) : String := String.ofList (trimStart pat.toList s.toList)

/-- What the files hold, or the text of the error that comes of reading one. -/
abbrev Files := String → Except String String

def readToString (files : Files) (path : String) : Except Error String :=
  (files path).mapError (.ioError s!"open {path}.")

def okOr {α : Type} (x : Option α) (e : Error) : Except Error α :=
  match x with
  | some a => .ok a
  | none => .error e

def getPathFromCgorup (files : Files) (pid : UInt32) : Except Error String := do
  let pathString ← readToString files s!"/proc/{pid}/cgroup"
  let line ← okOr ((lines pathString).find? (containsStr · "memory"))
    (.other "Memory line not found")
  let (_, path) ← okOr (splitOnce line ":memory:") (.other "Failed to parse memory line")
  return path

def parseMemoryMountroot (line : String) : Except Error (String × String) := do
  let columns := MountInfo.splitWhitespace line
  let mountRoot ← okOr columns[3]? (.other "Invalid input information about mountinfo")
  let mountPoint ← okOr columns[4]? (.other "Invalid input information about mountinfo")
  return (mountRoot, mountPoint)

def getPathFromMountinfo (files : Files) : Except Error (String × String) := do
  let mountinfoString ← readToString files "/proc/self/mountinfo"
  let line ← okOr
    ((lines mountinfoString).find? fun line =>
      containsStr line "cgroup" && containsStr line "memory")
    (.other "Lines containers cgroup and memory not found in mountinfo")
  parseMemoryMountroot line

def getExistingCgroupMemPath (files : Files) (pidPath : String) :
    Except Error (String × String) := do
  let (mountRoot, mountPoint) ← getPathFromMountinfo files
  let mountRoot := if mountRoot = "/" then "" else mountRoot
  return (trimStartMatches pidPath mountRoot, mountPoint)

/-- `monitor_oom`, up to the directory it watches. On a unified hierarchy there is none. -/
def monitorOom (files : Files) (unified : Bool) (pid : UInt32) : Except Error (Option String) := do
  if !unified then
    let pathFromCgorup ← getPathFromCgorup files pid
    let (mountRoot, mountPoint) ← getExistingCgroupMemPath files pathFromCgorup
    return some (mountPoint ++ mountRoot)
  else return none

end CgroupMemory

open CgroupMemory

/-! ## The memory line -/

/-- A line of a cgroup file of the first version: a hierarchy, its controllers, and the path of
the process in it. -/
structure CgroupLine where
  hierarchy : String
  controllers : List String
  path : String
  hierarchy_plain : ∀ c ∈ hierarchy.toList, c ≠ ':' ∧ c ≠ '\n'
  controllers_plain : ∀ k ∈ controllers, ∀ c ∈ k.toList, c ≠ ':' ∧ c ≠ ',' ∧ c ≠ '\n'
  path_absolute : path.toList.head? = some '/'
  path_plain : '\n' ∉ path.toList

namespace CgroupLine

def text (l : CgroupLine) : String :=
  l.hierarchy ++ ":" ++ String.intercalate "," l.controllers ++ ":" ++ l.path

def ListsMemory (l : CgroupLine) : Prop := "memory" ∈ l.controllers

instance (l : CgroupLine) : Decidable l.ListsMemory := inferInstanceAs (Decidable (_ ∈ _))

/-- The word stands somewhere in the line. -/
def mentionsMemory (l : CgroupLine) : Bool := containsStr l.text "memory"

/-- The path as it is read: a carriage return at the end belongs to the end of the line. -/
def readPath (l : CgroupLine) : String := String.ofList (dropCarriage l.path.toList)

end CgroupLine

def cgroupFile (ls : List CgroupLine) : String := String.join (ls.map (·.text ++ "\n"))

/-- The word is first met in the memory line, which lists no other controller and does not end
with a carriage return; or it is first met in another line, and the memory line's path is what
follows `:memory:` in the path of that one. -/
def FoundRight (before : List CgroupLine) (m : CgroupLine) : Prop :=
  match before.find? (·.mentionsMemory) with
  | none => m.controllers = ["memory"] ∧ m.path.toList.getLast? ≠ some '\r'
  | some l => (splitOnce l.readPath ":memory:").map (·.2) = some m.path

instance (before : List CgroupLine) (m : CgroupLine) : Decidable (FoundRight before m) :=
  match h : before.find? (·.mentionsMemory) with
  | none =>
    decidable_of_iff (m.controllers = ["memory"] ∧ m.path.toList.getLast? ≠ some '\r')
      (by rw [FoundRight, h])
  | some l =>
    decidable_of_iff ((splitOnce l.readPath ":memory:").map (·.2) = some m.path)
      (by rw [FoundRight, h])

variable {l m : CgroupLine} {before after : List CgroupLine} {files : Files} {pid : UInt32}

/-! ## Carriage returns -/

theorem dropCarriage_append {a b : List Char} (hb : b ≠ []) :
    dropCarriage (a ++ b) = a ++ dropCarriage b := by
  rw [dropCarriage, dropCarriage, List.getLast?_append_of_ne_nil a hb,
    List.dropLast_append_of_ne_nil hb]
  split
  · rfl
  · rfl

theorem dropCarriage_eq_self {line : List Char} :
    dropCarriage line = line ↔ line.getLast? ≠ some '\r' := by
  rw [dropCarriage]
  split
  · next h =>
    obtain ⟨init, rfl⟩ := List.getLast?_eq_some_iff.mp h
    simp
  · next h => simp [h]

theorem length_dropCarriage_le (line : List Char) :
    (dropCarriage line).length ≤ line.length := by
  rw [dropCarriage]
  split
  · rw [List.length_dropLast]
    exact Nat.sub_le _ _
  · exact Nat.le_refl _

/-- Dropping a carriage return hides no word that has none. -/
theorem infix_dropCarriage {pat line : List Char} (hpat : '\r' ∉ pat) :
    pat <:+: dropCarriage line ↔ pat <:+: line := by
  rw [dropCarriage]
  split
  · next h =>
    obtain ⟨init, rfl⟩ := List.getLast?_eq_some_iff.mp h
    rw [List.dropLast_concat, List.infix_concat_iff]
    refine ⟨Or.inr, fun h => h.elim (fun hsuffix => ?_) id⟩
    rcases List.suffix_concat_iff.mp hsuffix with rfl | ⟨t, rfl, -⟩
    · exact List.nil_infix
    · exact absurd (List.mem_append_right t List.mem_cons_self) hpat
  · rfl

/-! ## What a line reads as -/

namespace CgroupLine

def listed (l : CgroupLine) : List Char := (String.intercalate "," l.controllers).toList

theorem toList_text (l : CgroupLine) :
    l.text.toList = l.hierarchy.toList ++ ':' :: (l.listed ++ ':' :: l.path.toList) := by
  simp [text, listed, String.toList_append]

theorem toList_listed (l : CgroupLine) :
    l.listed = [','].intercalate (l.controllers.map String.toList) := by
  rw [listed, String.toList_intercalate]
  rfl

/-- What the list of controllers is made of. -/
theorem mem_listed {c : Char} (hc : c ∈ l.listed) : c ≠ ':' ∧ c ≠ '\n' := by
  rw [toList_listed] at hc
  rcases mem_intercalate hc with hc | ⟨w, hw, hc⟩
  · obtain rfl := List.mem_singleton.mp hc
    decide
  · obtain ⟨k, hk, rfl⟩ := List.mem_map.mp hw
    exact ⟨(l.controllers_plain k hk c hc).1, (l.controllers_plain k hk c hc).2.2⟩

theorem newline_not_mem_text : '\n' ∉ l.text.toList := by
  have hhierarchy : '\n' ∉ l.hierarchy.toList := fun h => (l.hierarchy_plain _ h).2 rfl
  have hlisted : '\n' ∉ l.listed := fun h => (mem_listed h).2 rfl
  simp [toList_text, hhierarchy, hlisted, l.path_plain]

/-- A list that reads as one name is the list of that name. -/
theorem listed_eq_memory : l.listed = "memory".toList ↔ l.controllers = ["memory"] := by
  rw [toList_listed]
  constructor
  · intro h
    match hl : l.controllers with
    | [] =>
      rw [hl] at h
      exact absurd h (by decide)
    | [k] =>
      rw [hl, List.map_singleton, List.intercalate_singleton, String.toList_inj] at h
      rw [h]
    | k :: k' :: ks =>
      have hcomma : ',' ∉ "memory".toList := by decide
      rw [hl, List.map_cons, List.map_cons, List.intercalate_cons_cons] at h
      rw [← h] at hcomma
      exact absurd (by simp) hcomma
  · intro h
    rw [h]
    rfl

/-- A line as it is read. -/
def readText (l : CgroupLine) : List Char :=
  l.hierarchy.toList ++ ':' :: (l.listed ++ ':' :: l.readPath.toList)

theorem toList_readPath (l : CgroupLine) : l.readPath.toList = dropCarriage l.path.toList :=
  String.toList_ofList

theorem path_ne_nil : l.path.toList ≠ [] := by
  intro h
  have habs := l.path_absolute
  rw [h] at habs
  cases habs

/-- What is read of a path is absolute as well. -/
theorem readPath_absolute (l : CgroupLine) : ∃ p, l.readPath.toList = '/' :: p := by
  obtain ⟨q, hq⟩ := List.head?_eq_some_iff.mp l.path_absolute
  rw [toList_readPath, hq]
  cases q with
  | nil => exact ⟨[], rfl⟩
  | cons c q => exact ⟨_, dropCarriage_append (a := ['/']) (List.cons_ne_nil c q)⟩

theorem readPath_eq_path : l.readPath = l.path ↔ l.path.toList.getLast? ≠ some '\r' := by
  rw [← String.toList_inj, toList_readPath, dropCarriage_eq_self]

theorem dropCarriage_text (l : CgroupLine) : dropCarriage l.text.toList = l.readText := by
  rw [toList_text, readText, toList_readPath]
  rw [show l.hierarchy.toList ++ ':' :: (l.listed ++ ':' :: l.path.toList) =
    (l.hierarchy.toList ++ ':' :: (l.listed ++ [':'])) ++ l.path.toList by simp]
  rw [dropCarriage_append path_ne_nil]
  simp

theorem containsStr_readText (l : CgroupLine) :
    containsStr (String.ofList l.readText) "memory" = l.mentionsMemory := by
  have hword : '\r' ∉ "memory".toList := by decide
  have hread : (String.ofList (dropCarriage l.text.toList)).toList = dropCarriage l.text.toList :=
    String.toList_ofList
  rw [← dropCarriage_text, mentionsMemory, containsStr, containsStr, hread, decide_eq_decide]
  exact infix_dropCarriage hword

/-- The pattern is met around the name of a controller that is listed alone, or in the path. -/
theorem splitOnce_readText (l : CgroupLine) :
    Substring.splitOnce ":memory:".toList l.readText =
      if l.controllers = ["memory"] then some (l.hierarchy.toList, l.readPath.toList)
      else (Substring.splitOnce ":memory:".toList l.readPath.toList).map fun r =>
        (l.hierarchy.toList ++ ':' :: (l.listed ++ ':' :: r.1), r.2) := by
  have hpat : ":memory:".toList = ':' :: ("memory".toList ++ [':']) := rfl
  have hhierarchy : ':' ∉ l.hierarchy.toList := fun h => (l.hierarchy_plain _ h).1 rfl
  have hlisted : ':' ∉ l.listed := fun h => (mem_listed h).1 rfl
  have hword : ':' ∉ "memory".toList := by decide
  rw [hpat, readText, Substring.splitOnce_append_of_not_mem hhierarchy]
  split
  · next hmem =>
    rw [listed_eq_memory.mpr hmem]
    have hsplit := Substring.splitOnce_append (':' :: ("memory".toList ++ [':'])) l.readPath.toList
    rw [List.cons_append, List.append_assoc, List.singleton_append] at hsplit
    rw [hsplit, Option.map_some, List.append_nil]
  · next hne =>
    obtain ⟨p, hp⟩ := l.readPath_absolute
    have hfirst : ¬(':' :: ("memory".toList ++ [':'])) <+:
        ':' :: (l.listed ++ ':' :: l.readPath.toList) := by
      rw [List.cons_prefix_cons, Substring.append_singleton_prefix hword hlisted]
      exact fun h => hne (listed_eq_memory.mp h.2.symm)
    have hsecond : ¬(':' :: ("memory".toList ++ [':'])) <+: ':' :: l.readPath.toList := by
      rw [hp]
      exact fun h => absurd (List.cons_prefix_cons.mp (List.cons_prefix_cons.mp h).2).1 (by decide)
    rw [Substring.splitOnce_cons_of_not hfirst, Substring.splitOnce_append_of_not_mem hlisted,
      Substring.splitOnce_cons_of_not hsecond]
    simp [Function.comp_def]

/-- The path that is taken out of a line, if the line is the one that is looked at. -/
def taken (l : CgroupLine) : Option String :=
  (splitOnce (String.ofList l.readText) ":memory:").map (·.2)

theorem taken_eq (l : CgroupLine) :
    l.taken = if l.controllers = ["memory"] then some l.readPath
      else (splitOnce l.readPath ":memory:").map (·.2) := by
  have hread : (String.ofList l.readText).toList = l.readText := String.toList_ofList
  rw [taken, splitOnce, splitOnce, hread, splitOnce_readText]
  split
  · simp
  · simp [Function.comp_def]

/-- A line that lists the memory controller gives its own path only if it lists no other. -/
theorem taken_eq_path : l.taken = some l.path ↔
    l.controllers = ["memory"] ∧ l.path.toList.getLast? ≠ some '\r' := by
  rw [taken_eq]
  split
  · next hmem => rw [Option.some_inj, readPath_eq_path, and_iff_right hmem]
  · next hne =>
    refine ⟨fun h => ?_, fun h => absurd h.1 hne⟩
    rw [splitOnce, Option.map_map, Option.map_eq_some_iff] at h
    obtain ⟨r, hr, hpath⟩ := h
    have hlt := Substring.length_lt_of_splitOnce (by decide) hr
    have hle := length_dropCarriage_le l.path.toList
    rw [← toList_readPath, ← hpath] at hle
    simp at hle
    omega

/-- A line of another controller gives what its path has behind the pattern. -/
theorem taken_of_not (h : ¬l.ListsMemory) :
    l.taken = (splitOnce l.readPath ":memory:").map (·.2) := by
  rw [taken_eq, if_neg]
  intro hmem
  exact h (by rw [ListsMemory, hmem]; exact List.mem_singleton_self _)

theorem mentionsMemory_of_lists (h : l.ListsMemory) : l.mentionsMemory = true := by
  have hlisted : "memory".toList <:+: l.listed := by
    rw [toList_listed]
    exact infix_intercalate (List.mem_map_of_mem h)
  have htext : l.listed <:+: l.text.toList :=
    ⟨l.hierarchy.toList ++ [':'], ':' :: l.path.toList, by simp [toList_text]⟩
  rw [mentionsMemory, containsStr, decide_eq_true_iff]
  exact hlisted.trans htext

end CgroupLine

theorem okOr_ok {α : Type} {x : Option α} {e : Error} {a : α} : okOr x e = .ok a ↔ x = some a := by
  cases x <;> simp [okOr]

theorem lines_cgroupFile (ls : List CgroupLine) :
    lines (cgroupFile ls) = ls.map fun l => String.ofList l.readText := by
  have htext : ls.map (·.text ++ "\n") = (ls.map (·.text)).map (· ++ "\n") := by simp
  have hplain : ∀ s ∈ ls.map (·.text), '\n' ∉ s.toList :=
    List.forall_mem_map.mpr fun l _ => l.newline_not_mem_text
  rw [cgroupFile, htext, lines_join hplain, List.map_map]
  simp [Function.comp_def, CgroupLine.dropCarriage_text]

theorem find_mentionsMemory (ls : List CgroupLine) :
    (lines (cgroupFile ls)).find? (containsStr · "memory") =
      (ls.find? (·.mentionsMemory)).map fun l => String.ofList l.readText := by
  rw [lines_cgroupFile, List.find?_map]
  simp only [Function.comp_def, CgroupLine.containsStr_readText]

/-- What is found is taken out of the first line with the word in it. -/
theorem getPathFromCgorup_ok {ls : List CgroupLine} {path : String}
    (hfile : files s!"/proc/{pid}/cgroup" = .ok (cgroupFile ls)) :
    getPathFromCgorup files pid = .ok path ↔
      (ls.find? (·.mentionsMemory)).bind (·.taken) = some path := by
  rw [getPathFromCgorup, readToString, hfile]
  simp only [Except.mapError, except_bind_ok, okOr_ok]
  simp only [Except.ok.injEq, exists_eq_left', find_mentionsMemory]
  simp [CgroupLine.taken, Option.bind_eq_some_iff, pure, Except.pure]

/-- The path of the memory line is found exactly if nothing misleads the search for it. -/
theorem memory_path_found_iff (files : Files) (pid : UInt32) (before after : List CgroupLine)
    (m : CgroupLine) (hm : m.ListsMemory) (hothers : ∀ l ∈ before ++ after, ¬l.ListsMemory)
    (hfile : files s!"/proc/{pid}/cgroup" = .ok (cgroupFile (before ++ m :: after))) :
    getPathFromCgorup files pid = .ok m.path ↔ FoundRight before m := by
  have hmention := CgroupLine.mentionsMemory_of_lists hm
  rw [getPathFromCgorup_ok hfile, List.find?_append, FoundRight]
  split
  · next hnone =>
    rw [hnone, List.find?_cons_of_pos hmention]
    exact CgroupLine.taken_eq_path
  · next l hl =>
    have hl_mem := List.mem_append_left after (List.mem_of_find?_eq_some hl)
    rw [hl, ← CgroupLine.taken_of_not (hothers l hl_mem)]
    rfl

/-- A line of a file with two hierarchies. -/
def memoryLine : CgroupLine where
  hierarchy := "4"
  controllers := ["memory"]
  path := "/docker/x"
  hierarchy_plain := by simp
  controllers_plain := by simp
  path_absolute := by decide
  path_plain := by decide

def cpuLine : CgroupLine where
  hierarchy := "3"
  controllers := ["cpu", "cpuacct"]
  path := "/memory-hog"
  hierarchy_plain := by simp
  controllers_plain := by simp
  path_absolute := by decide
  path_plain := by decide

theorem memory_path_found_behind :
    getPathFromCgorup (fun _ => .ok (cgroupFile [memoryLine, cpuLine])) 7 = .ok "/docker/x" :=
  (memory_path_found_iff (fun _ => .ok (cgroupFile [memoryLine, cpuLine])) 7 [] [cpuLine]
    memoryLine (by decide) (by decide) rfl).mpr (by decide)

/-- The word in the path of another line hides the memory line behind it. -/
theorem memory_path_missed :
    ¬∀ (files : Files) (pid : UInt32) (before after : List CgroupLine) (m : CgroupLine),
      m.ListsMemory → (∀ l ∈ before ++ after, ¬l.ListsMemory) →
      files s!"/proc/{pid}/cgroup" = .ok (cgroupFile (before ++ m :: after)) →
      getPathFromCgorup files pid = .ok m.path := by
  intro h
  have hfound := h (fun _ => .ok (cgroupFile [cpuLine, memoryLine])) 7 [cpuLine] [] memoryLine
    (by decide) (by decide) rfl
  rw [getPathFromCgorup_ok rfl] at hfound
  exact absurd hfound (by decide)

/-! ## The directory that is watched -/

/-- The names along a path, which say what directory it is. -/
def names (path : String) : List (List Char) := fields (· = '/') path.toList

/-- A mount root is the root, or it is absolute and does not end with a slash. -/
def IsMountRoot (r : String) : Prop :=
  r = "/" ∨ r.toList.head? = some '/' ∧ r.toList.getLast? ≠ some '/'

instance (r : String) : Decidable (IsMountRoot r) := inferInstanceAs (Decidable (_ ∨ _))

/-- What stands below a mount root: nothing, or something that begins with a slash. -/
def IsBelow (s : String) : Prop := s = "" ∨ s.toList.head? = some '/'

instance (s : String) : Decidable (IsBelow s) := inferInstanceAs (Decidable (_ ∨ _))

/-- The process path `p` is `s` below the mount root `r`. The root itself adds nothing to it. -/
def IsProcessPath (r s p : String) : Prop := p = r ++ s ∨ r = "/" ∧ p = s

variable {r mp s p : String}

theorem monitorOom_eq (hmountinfo : getPathFromMountinfo files = .ok (r, mp))
    (hcgroup : getPathFromCgorup files pid = .ok p) :
    monitorOom files false pid =
      .ok (some (mp ++ trimStartMatches p (if r = "/" then "" else r))) := by
  simp [monitorOom, getExistingCgroupMemPath, hcgroup, hmountinfo, bind, Except.bind, pure,
    Except.pure]

theorem trimStartMatches_empty (p : String) : trimStartMatches p "" = p := by
  have hempty : "".toList = ([] : List Char) := rfl
  rw [trimStartMatches, hempty, Substring.trimStart_nil, String.ofList_toList]

/-- The mount root is taken off, and once more for each time what follows begins with it. -/
theorem toList_trimStartMatches_append (hr : r ≠ "") :
    (trimStartMatches (r ++ s) r).toList = trimStart r.toList s.toList := by
  have hne : r.toList ≠ [] := fun h => hr (String.toList_eq_nil_iff.mp h)
  rw [trimStartMatches, String.toList_ofList, String.toList_append,
    Substring.trimStart_append hne]

theorem trimStartMatches_append_of_not (hr : r ≠ "") (h : ¬r.toList <+: s.toList) :
    trimStartMatches (r ++ s) r = s := by
  rw [← String.toList_inj, toList_trimStartMatches_append hr, Substring.trimStart_of_not_prefix h]

/-- How much of a path is names. -/
def nameLength (cs : List Char) : Nat := (cs.filter fun c => !decide (c = '/')).length

theorem nameLength_append (cs ds : List Char) :
    nameLength (cs ++ ds) = nameLength cs + nameLength ds := by
  rw [nameLength, List.filter_append, List.length_append]
  rfl

theorem nameLength_of_names_eq {p q : String} (h : names p = names q) :
    nameLength p.toList = nameLength q.toList := by
  have hflatten := congrArg List.flatten h
  rw [names, names, flatten_fields, flatten_fields] at hflatten
  exact congrArg List.length hflatten

/-- A mount root other than the root has a name in it. -/
theorem IsMountRoot.nameLength_pos (hroot : IsMountRoot r) (hr : r ≠ "/") :
    0 < nameLength r.toList := by
  obtain ⟨hhead, hlast⟩ := hroot.resolve_left hr
  obtain ⟨q, hq⟩ := List.head?_eq_some_iff.mp hhead
  obtain ⟨c, hc⟩ : ∃ c, r.toList.getLast? = some c := by
    rw [← Option.isSome_iff_exists, hq]
    rfl
  have hne : c ≠ '/' := fun heq => hlast (heq ▸ hc)
  have hmem : c ∈ r.toList.filter fun c => !decide (c = '/') :=
    List.mem_filter.mpr ⟨List.mem_of_getLast? hc, by simpa using hne⟩
  exact List.length_pos_of_mem hmem

theorem IsMountRoot.ne_empty (hroot : IsMountRoot r) : r ≠ "" := by
  intro heq
  subst heq
  exact absurd hroot (by decide)

/-- Taking too much off leaves another directory. -/
theorem names_ne_of_prefix (mp : String) (hroot : IsMountRoot r) (hr : r ≠ "/")
    (h : r.toList <+: s.toList) :
    names (mp ++ trimStartMatches (r ++ s) r) ≠ names (mp ++ s) := by
  intro heq
  have hlen := nameLength_of_names_eq heq
  have hpos := hroot.nameLength_pos hr
  obtain ⟨t, ht⟩ := h
  have hne : r.toList ≠ [] := fun hnil => hroot.ne_empty (String.toList_eq_nil_iff.mp hnil)
  obtain ⟨u, hu⟩ := Substring.trimStart_suffix r.toList t
  have htrim := toList_trimStartMatches_append (s := s) hroot.ne_empty
  rw [← ht, Substring.trimStart_append hne] at htrim
  rw [String.toList_append, String.toList_append, htrim, ← ht, ← hu, nameLength_append,
    nameLength_append, nameLength_append, nameLength_append, hu] at hlen
  omega

/-- A slash more at the mount point makes no other directory of it. -/
theorem names_append_slash (hs : IsBelow s) : names (mp ++ ("/" ++ s)) = names (mp ++ s) := by
  have hslash : "/".toList = ['/'] := rfl
  rw [names, names, String.toList_append, String.toList_append, String.toList_append, hslash,
    List.singleton_append, fields_append_cons (by decide)]
  rcases hs with rfl | hs
  · simp [fields]
  · obtain ⟨t, ht⟩ := List.head?_eq_some_iff.mp hs
    rw [ht, fields_append_cons (by decide), fields_cons (by decide)]

/-- Relocating a path under its mount is exact unless what is below the mount root begins with
the text of the mount root again. -/
theorem relocation_exact_iff (files : Files) (pid : UInt32) (r mp s p : String)
    (hroot : IsMountRoot r) (hs : IsBelow s) (hp : IsProcessPath r s p)
    (hmountinfo : getPathFromMountinfo files = .ok (r, mp))
    (hcgroup : getPathFromCgorup files pid = .ok p) :
    ∃ dir, monitorOom files false pid = .ok (some dir) ∧
      (names dir = names (mp ++ s) ↔ r = "/" ∨ ¬r.toList <+: s.toList) ∧
      (r ≠ "/" → (dir = mp ++ s ↔ ¬r.toList <+: s.toList)) := by
  refine ⟨_, monitorOom_eq hmountinfo hcgroup, ?_⟩
  by_cases hr : r = "/"
  · refine ⟨iff_of_true ?_ (Or.inl hr), fun hne => absurd hr hne⟩
    rw [if_pos hr, trimStartMatches_empty]
    rcases hp with rfl | ⟨-, rfl⟩
    · rw [hr]
      exact names_append_slash hs
    · rfl
  · obtain rfl := hp.resolve_right fun h => hr h.1
    rw [if_neg hr, or_iff_right hr]
    by_cases hpre : r.toList <+: s.toList
    · have hne := names_ne_of_prefix mp hroot hr hpre
      refine ⟨iff_of_false hne (not_not_intro hpre), fun _ => iff_of_false ?_ (not_not_intro hpre)⟩
      exact fun heq => hne (congrArg names heq)
    · rw [trimStartMatches_append_of_not hroot.ne_empty hpre]
      exact ⟨iff_of_true rfl hpre, fun _ => iff_of_true rfl hpre⟩

/-- A memory hierarchy mounted at a cgroup of its own, and a cgroup file. -/
def dockerFiles (cgroup : String) : Files := fun path =>
  if path = "/proc/self/mountinfo" then
    .ok "36 35 0:31 /docker /sys/fs/cgroup/memory rw - cgroup cgroup rw,memory\n"
  else .ok cgroup

theorem relocation_of_child :
    ∃ dir, monitorOom (dockerFiles "4:memory:/docker/x\n") false 7 = .ok (some dir) ∧
      dir = "/sys/fs/cgroup/memory" ++ "/x" := by
  obtain ⟨dir, hdir, -, hexact⟩ := relocation_exact_iff (dockerFiles "4:memory:/docker/x\n") 7
    "/docker" "/sys/fs/cgroup/memory" "/x" "/docker/x" (by decide) (by decide) (Or.inl rfl) rfl rfl
  exact ⟨dir, hdir, (hexact (by decide)).mpr (by decide)⟩

/-- A container in a container is looked for beside the one it is in. -/
theorem nested_relocation_wrong :
    ¬∀ (files : Files) (pid : UInt32) (r mp s p : String), IsMountRoot r → IsBelow s →
      IsProcessPath r s p → getPathFromMountinfo files = .ok (r, mp) →
      getPathFromCgorup files pid = .ok p →
      ∃ dir, monitorOom files false pid = .ok (some dir) ∧ names dir = names (mp ++ s) := by
  intro h
  have hnested : IsMountRoot "/docker" := by decide
  have hmountinfo : getPathFromMountinfo (dockerFiles "4:memory:/docker/docker/x\n") =
      .ok ("/docker", "/sys/fs/cgroup/memory") := rfl
  obtain ⟨dir, hdir, hnames⟩ := h (dockerFiles "4:memory:/docker/docker/x\n") 7 "/docker"
    "/sys/fs/cgroup/memory" "/docker/x" "/docker/docker/x" hnested (by decide) (Or.inl rfl)
    hmountinfo rfl
  rw [monitorOom_eq hmountinfo rfl] at hdir
  obtain rfl := Option.some.inj (Except.ok.inj hdir)
  exact names_ne_of_prefix "/sys/fs/cgroup/memory" (s := "/docker/x") hnested (by decide)
    (by decide) hnames

end RustExtensions.RuncShim
