import RustExtensions.Lib.Fields

/-!
# Paths

A path is a text with slashes in it. The names along it lead from one directory
to another, and a name of two dots leads back. A directory is the list of the
names that lead to it from the root. Links are left out.
-/
namespace RustExtensions.Paths

open Fields

abbrev Name := List Char

/-- The names along a path. -/
def segments (path : List Char) : List Name := fields (· = '/') path

def IsAbsolute (path : List Char) : Prop := path.head? = some '/'

instance (path : List Char) : Decidable (IsAbsolute path) := inferInstanceAs (Decidable (_ = _))

def join (base name : List Char) : List Char :=
  if IsAbsolute name then name
  else if base.getLast?.all (· = '/') then base ++ name
  else base ++ '/' :: name

def step (dir : List Name) (n : Name) : List Name :=
  if n = ['.'] then dir else if n = ['.', '.'] then dir.dropLast else dir ++ [n]

/-- Where names lead to from a directory. The root is its own parent. -/
def walk (dir : List Name) (ns : List Name) : List Name := ns.foldl step dir

/-- The directory that a path means in a working directory. -/
def resolve (cwd : List Name) (path : List Char) : List Name :=
  walk (if IsAbsolute path then [] else cwd) (segments path)

/-- The path of a directory from the root. -/
def render (dir : List Name) : List Char := '/' :: ['/'].intercalate dir

/-- A name that stands for a directory entry. -/
structure IsName (n : Name) : Prop where
  nonempty : n ≠ []
  slash : '/' ∉ n
  dot : n ≠ ['.']
  dots : n ≠ ['.', '.']

instance (n : Name) : Decidable (IsName n) :=
  decidable_of_iff (n ≠ [] ∧ '/' ∉ n ∧ n ≠ ['.'] ∧ n ≠ ['.', '.'])
    ⟨fun h => ⟨h.1, h.2.1, h.2.2.1, h.2.2.2⟩, fun h => ⟨h.nonempty, h.slash, h.dot, h.dots⟩⟩

/-- A directory, as the names that lead to it. -/
structure Directory where
  names : List Name
  proper : ∀ n ∈ names, IsName n

variable {a b p : List Char} {n : Name} {ns dir cwd : List Name}

/-! ## Joined paths -/

theorem segments_append_slash (a b : List Char) :
    segments (a ++ '/' :: b) = segments a ++ segments b := fields_append_cons (by decide) a b

theorem segments_join (hb : ¬IsAbsolute b) : segments (join a b) = segments a ++ segments b := by
  rw [join, if_neg hb]
  split
  · next hlast =>
    rcases a.eq_nil_or_concat' with rfl | ⟨init, c, rfl⟩
    · simp [segments, fields]
    · obtain rfl : c = '/' := by simpa using hlast
      rw [List.append_assoc, List.singleton_append, segments_append_slash, segments, segments,
        segments, fields_append_separator (by decide)]
  · exact segments_append_slash a b

theorem isAbsolute_append (ha : a ≠ []) : IsAbsolute (a ++ b) ↔ IsAbsolute a := by
  obtain ⟨c, a, rfl⟩ := List.exists_cons_of_ne_nil ha
  rfl

theorem isAbsolute_join : IsAbsolute (join a b) ↔ IsAbsolute b ∨ IsAbsolute a := by
  rw [join]
  split
  · next hb => exact iff_of_true hb (Or.inl hb)
  · next hb =>
    rw [or_iff_right hb]
    by_cases ha : a = []
    · subst ha
      exact iff_of_false hb (fun h => nomatch h)
    · split
      · exact isAbsolute_append ha
      · exact isAbsolute_append ha

/-- A name is the one segment of itself. -/
theorem segments_name (hne : n ≠ []) (hslash : '/' ∉ n) : segments n = [n] := by
  have hfield : ∀ w ∈ [n], IsField (fun c => decide (c = '/')) w := by
    intro w hw
    obtain rfl := List.mem_singleton.mp hw
    refine ⟨hne, fun c hc => ?_⟩
    have hc_ne : c ≠ '/' := fun heq => hslash (heq ▸ hc)
    simpa using hc_ne
  have h := fields_intercalate (s := '/') (by decide) (List.cons_ne_nil n []) hfield
  rwa [List.intercalate_singleton] at h

theorem not_isAbsolute_name (hslash : '/' ∉ n) : ¬IsAbsolute n :=
  fun h => hslash (List.mem_of_mem_head? h)

/-- Names that are joined one after the other are the segments that follow. -/
theorem segments_foldl_join (hns : ∀ n ∈ ns, n ≠ [] ∧ '/' ∉ n) :
    segments (ns.foldl join a) = segments a ++ ns := by
  induction ns generalizing a with
  | nil => exact (List.append_nil _).symm
  | cons n ns ih =>
    obtain ⟨hne, hslash⟩ := hns n List.mem_cons_self
    rw [List.foldl_cons, ih fun m hm => hns m (List.mem_cons_of_mem n hm),
      segments_join (not_isAbsolute_name hslash), segments_name hne hslash, List.append_assoc]
    rfl

theorem isAbsolute_foldl_join (ha : IsAbsolute a) : IsAbsolute (ns.foldl join a) := by
  induction ns generalizing a with
  | nil => exact ha
  | cons n ns ih => exact ih (isAbsolute_join.mpr (Or.inr ha))

theorem resolve_join (hb : ¬IsAbsolute b) :
    resolve cwd (join a b) = walk (resolve cwd a) (segments b) := by
  rw [resolve, resolve, segments_join hb]
  simp only [isAbsolute_join, or_iff_right hb]
  exact List.foldl_append

/-! ## Directories -/

theorem isName_of_mem_segments (h : n ∈ segments p) : n ≠ [] ∧ '/' ∉ n := by
  obtain ⟨hne, hslash⟩ := isField_of_mem_fields h
  exact ⟨hne, fun hmem => by simpa using hslash _ hmem⟩

theorem step_of_isName (h : IsName n) : step dir n = dir ++ [n] := by
  rw [step, if_neg h.dot, if_neg h.dots]

theorem walk_of_isName (h : ∀ n ∈ ns, IsName n) : walk dir ns = dir ++ ns := by
  induction ns generalizing dir with
  | nil => exact (List.append_nil dir).symm
  | cons n ns ih =>
    rw [walk, List.foldl_cons, step_of_isName (h n List.mem_cons_self)]
    exact (ih fun m hm => h m (List.mem_cons_of_mem n hm)).trans (by simp)

theorem walk_append (dir ns ms : List Name) : walk dir (ns ++ ms) = walk (walk dir ns) ms :=
  List.foldl_append

/-- A name of one dot leads nowhere. -/
theorem walk_filter_dot (dir ns : List Name) : walk dir (ns.filter (· ≠ ['.'])) = walk dir ns := by
  induction ns generalizing dir with
  | nil => rfl
  | cons n ns ih =>
    rw [List.filter_cons]
    split
    · exact ih (step dir n)
    · next hdot =>
      have hn : n = ['.'] := by simpa using hdot
      rw [ih dir, walk, walk, List.foldl_cons, step, if_pos hn]

theorem isName_walk (hdir : ∀ n ∈ dir, IsName n) (hns : ∀ n ∈ ns, n ≠ [] ∧ '/' ∉ n) :
    ∀ n ∈ walk dir ns, IsName n := by
  induction ns generalizing dir with
  | nil => exact hdir
  | cons n ns ih =>
    refine ih (fun m hm => ?_) fun m hm => hns m (List.mem_cons_of_mem n hm)
    rw [step] at hm
    split at hm
    · exact hdir m hm
    · next hdot =>
      split at hm
      · exact hdir m (List.dropLast_subset _ hm)
      · next hdots =>
        rcases List.mem_append.mp hm with hm | hm
        · exact hdir m hm
        · obtain rfl := List.mem_singleton.mp hm
          obtain ⟨hne, hslash⟩ := hns m List.mem_cons_self
          exact ⟨hne, hslash, hdot, hdots⟩

namespace Directory

/-- The directory that a path means in this one. -/
def goto (d : Directory) (path : List Char) : Directory where
  names := resolve d.names path
  proper := by
    refine isName_walk ?_ fun n hn => isName_of_mem_segments hn
    split
    · exact fun n hn => absurd hn List.not_mem_nil
    · exact d.proper

@[simp] theorem names_goto (d : Directory) (path : List Char) :
    (d.goto path).names = resolve d.names path := rfl

def path (d : Directory) : List Char := render d.names

theorem isAbsolute_path (d : Directory) : IsAbsolute d.path := rfl

theorem segments_path (d : Directory) : segments d.path = d.names := by
  have hslash : segments d.path = segments (['/'].intercalate d.names) := fields_cons (by decide) _
  rw [hslash]
  by_cases hnil : d.names = []
  · rw [hnil]
    simp [segments, fields]
  · refine fields_intercalate (by decide) hnil fun n hn => ?_
    refine ⟨(d.proper n hn).nonempty, fun c hc => ?_⟩
    have hne : c ≠ '/' := fun heq => (d.proper n hn).slash (heq ▸ hc)
    simpa using hne

theorem path_inj {d d' : Directory} : d.path = d'.path ↔ d.names = d'.names := by
  constructor
  · intro h
    rw [← d.segments_path, h, d'.segments_path]
  · intro h
    rw [path, path, h]

/-- The path of a directory means the directory, wherever it is resolved. -/
theorem resolve_path (d : Directory) (cwd : List Name) : resolve cwd d.path = d.names := by
  rw [resolve, if_pos d.isAbsolute_path, d.segments_path, walk_of_isName d.proper]
  rfl

end Directory

/-! ## How far up a relative path leads -/

/-- The directory some levels above. -/
def above (k : Nat) (dir : List Name) : List Name := dir.take (dir.length - k)

/-- One name more after a path that leads `r.1` levels up and from there along `r.2`. -/
def reachStep (r : Nat × List Name) (n : Name) : Nat × List Name :=
  if n = ['.'] then r
  else if n = ['.', '.'] then if r.2 = [] then (r.1 + 1, []) else (r.1, r.2.dropLast)
  else (r.1, r.2 ++ [n])

/-- How many levels names lead up, and along which names they go from there. -/
def reach (ns : List Name) : Nat × List Name := ns.foldl reachStep (0, [])

theorem above_zero (dir : List Name) : above 0 dir = dir := List.take_length

theorem dropLast_above (k : Nat) (dir : List Name) :
    (above k dir).dropLast = above (k + 1) dir := by
  rw [above, above, List.dropLast_eq_take, List.take_take, List.length_take]
  congr 1
  omega

theorem step_above (r : Nat × List Name) (n : Name) :
    step (above r.1 dir ++ r.2) n =
      above (reachStep r n).1 dir ++ (reachStep r n).2 := by
  rw [step, reachStep]
  split
  · rfl
  · split
    · split
      · next hnil =>
        rw [hnil, List.append_nil, dropLast_above, List.append_nil]
      · next hne => exact List.dropLast_append_of_ne_nil hne
    · exact List.append_assoc ..

/-- A relative path leads to what is above by so many levels, and on from there. -/
theorem walk_eq_above (dir ns : List Name) :
    walk dir ns = above (reach ns).1 dir ++ (reach ns).2 := by
  have hfold : ∀ r : Nat × List Name, walk (above r.1 dir ++ r.2) ns =
      above (ns.foldl reachStep r).1 dir ++ (ns.foldl reachStep r).2 := by
    induction ns with
    | nil => exact fun r => rfl
    | cons n ns ih =>
      intro r
      rw [List.foldl_cons, ← ih (reachStep r n), ← step_above]
      rfl
  have hzero := hfold (0, [])
  rwa [above_zero, List.append_nil] at hzero

/-- Two directories are told apart by a relative path unless they agree above it. -/
theorem walk_eq_walk_iff {dir' : List Name} :
    walk dir ns = walk dir' ns ↔ above (reach ns).1 dir = above (reach ns).1 dir' := by
  rw [walk_eq_above, walk_eq_above]
  exact List.append_left_inj _

end RustExtensions.Paths
