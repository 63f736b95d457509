import RustExtensions.Lib.Fallible
import RustExtensions.Lib.Fields
import RustExtensions.Shim.Compaction
import RustExtensions.Shim.Error

/-!
# Reading the mount table

`get_mounts` reads `/proc/self/mountinfo` line by line. A line is cut at white
space, and the separator field is searched from the end. Reading a line may end
early: it returns `None`, or it panics at an index.
-/
namespace RustExtensions.Shim

open RustExtensions.Fields
open RustExtensions.Fallible

structure MountInfo where
  id : UInt32
  parent : UInt32
  major : UInt32
  minor : UInt32
  root : String
  mountpoint : String
  options : String
  optional : String
  fsType : String
  source : String
  vfsOptions : String
  deriving DecidableEq, Repr

inductive Early where
  | returnedNone
  | panicked
  deriving DecidableEq, Repr

namespace MountInfo

/-- `str::split_whitespace`. -/
def splitWhitespace (s : String) : List String :=
  (fields isWhitespace s.toList).map String.ofList

/-- `str::splitn` at a colon. -/
def splitnColon (n : Nat) (s : String) : List String :=
  let pieces := splitColon s
  if pieces.length ≤ n then pieces
  else pieces.take (n - 1) ++ [String.intercalate ":" (pieces.drop (n - 1))]

/-- The number that digits stand for, if it is a `u32`. -/
def digitsU32 (ds : List Char) : Option UInt32 :=
  if ds ≠ [] ∧ ds.all Char.isDigit ∧ Nat.ofDigitChars 10 ds 0 < UInt32.size then
    some (UInt32.ofNat (Nat.ofDigitChars 10 ds 0))
  else none

/-- `str::parse::<u32>`: a plus sign may stand before the digits. -/
def parseU32 (s : String) : Option UInt32 :=
  match s.toList with
  | '+' :: ds => digitsU32 ds
  | ds => digitsU32 ds

/-- `x?` on an `Option`. -/
def orNone {α : Type} (x : Option α) : Except Early α :=
  match x with
  | some a => .ok a
  | none => .error .returnedNone

/-- `parts[i]`. -/
def index (parts : List String) (i : Nat) : Except Early String :=
  match parts[i]? with
  | some s => .ok s
  | none => .error .panicked

/-- `parts[a..b]`. -/
def slice (parts : List String) (a b : Nat) : Except Early (List String) :=
  if a ≤ b ∧ b ≤ parts.length then .ok ((parts.take b).drop a) else .error .panicked

/-- The loop that searches the separator field, from `i - 1` down. -/
def findSep (parts : List String) (sepIdx : Nat) : Nat → Except Early Nat
  | 0 => .ok sepIdx
  | i + 1 => do
    if (← index parts i) = "-" then return i
    if sepIdx = 5 then throw .returnedNone
    findSep parts sepIdx i

/-- The two numbers of a device, which one colon separates. -/
def majorMinor (s : String) : Except Early (UInt32 × UInt32) :=
  match splitnColon 3 s with
  | [major, minor] => do
    let major ← orNone (parseU32 major)
    let minor ← orNone (parseU32 minor)
    return (major, minor)
  | _ => throw .returnedNone

/-- The fields of a line, with the separator field at `sepIdx`. -/
def ofParts (parts : List String) (sepIdx : Nat) : Except Early MountInfo := do
  let id ← orNone (parseU32 (← index parts 0))
  let parent ← orNone (parseU32 (← index parts 1))
  let root ← index parts 3
  let mountpoint ← index parts 4
  let options ← index parts 5
  let optional := String.intercalate " " (← slice parts 6 sepIdx)
  let fsType ← index parts (sepIdx + 1)
  let source ← index parts (sepIdx + 2)
  let vfsOptions ← index parts (sepIdx + 3)
  let device ← majorMinor (← index parts 2)
  return ⟨id, parent, device.1, device.2, root, mountpoint, options, optional, fsType, source,
    vfsOptions⟩

/-- The closure that reads one line. The filter `f` is true of what it skips. -/
def ofLine (f : Option (MountInfo → Bool)) (line : String) : Except Early MountInfo := do
  let parts := splitWhitespace line
  if parts.length < 10 then throw .returnedNone
  let sepIdx ← findSep parts (parts.length - 4) (parts.length - 4)
  let mountInfo ← ofParts parts sepIdx
  if f.any (· mountInfo) then throw .returnedNone
  return mountInfo

end MountInfo

/-- `BufRead::lines`, on a text without invalid characters. -/
def lines (text : String) : List String :=
  let pieces := text.toList.splitOn '\n'
  let ended := pieces.dropLast.map fun line =>
    if line.getLast? = some '\r' then line.dropLast else line
  let last := pieces.getLast?.toList.filter fun line => !line.isEmpty
  (ended ++ last).map String.ofList

/-- A line without the carriage return that ends it. -/
def dropCarriage (line : List Char) : List Char :=
  if line.getLast? = some '\r' then line.dropLast else line

/-- A text of whole lines is read line by line. -/
theorem lines_join {ls : List String} (hls : ∀ l ∈ ls, '\n' ∉ l.toList) :
    lines (String.join (ls.map (· ++ "\n"))) =
      ls.map fun l => String.ofList (dropCarriage l.toList) := by
  have htext : (String.join (ls.map (· ++ "\n"))).toList =
      (ls.map String.toList).flatMap (· ++ ['\n']) := by
    rw [String.toList_join, List.flatMap_map, List.flatMap_map]
    congr
    funext l
    exact String.toList_append
  have hsplit := splitOn_terminated (s := '\n') (List.forall_mem_map.mpr hls)
  rw [lines, htext, hsplit, List.dropLast_concat, List.getLast?_concat]
  show ((_ : List (List Char)) ++ []).map String.ofList = _
  rw [List.append_nil, List.map_map, List.map_map]
  rfl

/-- The mounts of a table; `none` is a panic. -/
def mountsOfLines (f : Option (MountInfo → Bool)) : List String → Option (List MountInfo)
  | [] => some []
  | line :: rest =>
    match MountInfo.ofLine f line with
    | .ok m => (mountsOfLines f rest).map (m :: ·)
    | .error .returnedNone => mountsOfLines f rest
    | .error .panicked => none

def getMounts (f : Option (MountInfo → Bool)) (mountinfo : String) : Option (List MountInfo) :=
  mountsOfLines f (lines mountinfo)

/-- `prefix_filter`: whether a mount is neither `target` nor below it. -/
def prefixFilter (target : String) (m : MountInfo) : Bool :=
  !(target ++ "/").toList.isPrefixOf (m.mountpoint ++ "/").toList

namespace MountInfo

variable {parts : List String} {line s : String} {sep i n k : Nat} {m : MountInfo}
  {f : Option (MountInfo → Bool)}
/-! ## What one step of the closure returns -/

theorem orNone_ok {α : Type} {x : Option α} {a : α} : orNone x = .ok a ↔ x = some a := by
  cases x <;> simp [orNone]

theorem orNone_not_panicked {α : Type} {x : Option α} : orNone x ≠ .error .panicked := by
  cases x <;> simp [orNone]

theorem index_ok : index parts i = .ok s ↔ parts[i]? = some s := by
  rw [index]
  split <;> simp [*]

theorem index_of_lt (h : i < parts.length) : index parts i = .ok parts[i] :=
  index_ok.mpr (List.getElem?_eq_getElem h)

theorem slice_ok {ws : List String} : slice parts i n = .ok ws ↔
    i ≤ n ∧ n ≤ parts.length ∧ (parts.take n).drop i = ws := by
  rw [slice]
  split <;> simp [*]
  grind

theorem slice_panicked : slice parts i n = .error .panicked ↔ n < i ∨ parts.length < n := by
  rw [slice]
  split <;> simp <;> omega

/-- The last separator field among those that `k` fields end at. -/
def LastDash (parts : List String) (k i : Nat) : Prop :=
  i < k ∧ parts[i]? = some "-" ∧ ∀ j < k, i < j → parts[j]? ≠ some "-"

theorem findSep_spec (hn : n ≠ 5) (hk : k ≤ parts.length) :
    ∃ sep, findSep parts n k = .ok sep ∧
      (LastDash parts k sep ∨ sep = n ∧ ∀ j < k, parts[j]? ≠ some "-") := by
  induction k with
  | zero => exact ⟨n, rfl, Or.inr ⟨rfl, fun j hj => absurd hj (Nat.not_lt_zero j)⟩⟩
  | succ k ih =>
    have hlt : k < parts.length := hk
    have hget := List.getElem?_eq_getElem hlt
    by_cases hdash : parts[k] = "-"
    · refine ⟨k, ?_, Or.inl ⟨Nat.lt_succ_self k, hdash ▸ hget, fun j hj _ => by omega⟩⟩
      simp [findSep, index_of_lt hlt, hdash, bind, Except.bind, pure, Except.pure]
    · have hstep : findSep parts n (k + 1) = findSep parts n k := by
        simp [findSep, index_of_lt hlt, hdash, hn, bind, Except.bind]
      have hother : parts[k]? ≠ some "-" := by
        rw [hget]
        exact fun h => hdash (Option.some.inj h)
      obtain ⟨sep, hsep, hplace⟩ := ih (Nat.le_of_lt hlt)
      refine ⟨sep, hstep.trans hsep, ?_⟩
      rcases hplace with ⟨hlt, hat, hafter⟩ | ⟨rfl, hnone⟩
      · refine Or.inl ⟨Nat.lt_succ_of_lt hlt, hat, fun j hj hij => ?_⟩
        rcases Nat.lt_succ_iff_lt_or_eq.mp hj with hj | rfl
        · exact hafter j hj hij
        · exact hother
      · refine Or.inr ⟨rfl, fun j hj => ?_⟩
        rcases Nat.lt_succ_iff_lt_or_eq.mp hj with hj | rfl
        · exact hnone j hj
        · exact hother

/-! ## What the closure returns -/

def numberAt (parts : List String) (i : Nat) : Option UInt32 := parts[i]?.bind parseU32

/-- The major and the minor component of a device. -/
def deviceOf (s : String) : Option (UInt32 × UInt32) :=
  match splitColon s with
  | [major, minor] => (parseU32 major).bind fun a => (parseU32 minor).map fun b => (a, b)
  | _ => none

def deviceAt (parts : List String) (i : Nat) : Option (UInt32 × UInt32) := parts[i]?.bind deviceOf

/-- A mount has what stands in the fields of a line. -/
structure Records (parts : List String) (sep : Nat) (m : MountInfo) : Prop where
  id : numberAt parts 0 = some m.id
  parent : numberAt parts 1 = some m.parent
  device : deviceAt parts 2 = some (m.major, m.minor)
  root : parts[3]? = some m.root
  mountpoint : parts[4]? = some m.mountpoint
  options : parts[5]? = some m.options
  behind : 6 ≤ sep
  optional : String.intercalate " " ((parts.take sep).drop 6) = m.optional
  fsType : parts[sep + 1]? = some m.fsType
  source : parts[sep + 2]? = some m.source
  vfsOptions : parts[sep + 3]? = some m.vfsOptions

theorem splitnColon_eq_pair {a b : String} : splitnColon 3 s = [a, b] ↔ splitColon s = [a, b] := by
  rw [splitnColon]
  split
  · rfl
  · next hmany =>
    constructor
    · intro h
      have hlen := congrArg List.length h
      simp only [List.length_append, List.length_take, List.length_cons, List.length_nil] at hlen
      omega
    · intro h
      rw [h] at hmany
      simp at hmany

theorem majorMinor_ok {d : UInt32 × UInt32} : majorMinor s = .ok d ↔ deviceOf s = some d := by
  rw [majorMinor, deviceOf]
  by_cases hpair : ∃ a b, splitColon s = [a, b]
  · obtain ⟨a, b, hsplit⟩ := hpair
    rw [splitnColon_eq_pair.mpr hsplit, hsplit]
    constructor
    · intro h
      obtain ⟨major, hmajor, h⟩ := except_bind_ok.mp h
      obtain ⟨minor, hminor, h⟩ := except_bind_ok.mp h
      obtain rfl := Except.ok.inj h
      simp [orNone_ok.mp hmajor, orNone_ok.mp hminor]
    · intro h
      obtain ⟨major, hmajor, h⟩ := Option.bind_eq_some_iff.mp h
      obtain ⟨minor, hminor, rfl⟩ := Option.map_eq_some_iff.mp h
      simp only [orNone_ok.mpr hmajor, orNone_ok.mpr hminor]
      rfl
  · split
    · next a b h => exact absurd ⟨a, b, splitnColon_eq_pair.mp h⟩ hpair
    · split
      · next a b h => exact absurd ⟨a, b, h⟩ hpair
      · simp [throw, throwThe, MonadExceptOf.throw]

theorem majorMinor_not_panicked : majorMinor s ≠ .error .panicked := by
  rw [majorMinor]
  split
  · intro h
    rcases except_bind_error.mp h with h | ⟨a, -, h⟩
    · exact orNone_not_panicked h
    · rcases except_bind_error.mp h with h | ⟨b, -, h⟩
      · exact orNone_not_panicked h
      · cases h
  · intro h
    cases h

theorem numberAt_eq_some {n : UInt32} :
    numberAt parts i = some n ↔ ∃ s, index parts i = .ok s ∧ orNone (parseU32 s) = .ok n := by
  simp only [numberAt, Option.bind_eq_some_iff, index_ok, orNone_ok]

theorem ofParts_ok : ofParts parts sep = .ok m ↔ Records parts sep m := by
  rw [ofParts]
  constructor
  · intro h
    obtain ⟨sid, hsid, h⟩ := except_bind_ok.mp h
    obtain ⟨id, hid, h⟩ := except_bind_ok.mp h
    obtain ⟨sparent, hsparent, h⟩ := except_bind_ok.mp h
    obtain ⟨parent, hparent, h⟩ := except_bind_ok.mp h
    obtain ⟨root, hroot, h⟩ := except_bind_ok.mp h
    obtain ⟨mountpoint, hmountpoint, h⟩ := except_bind_ok.mp h
    obtain ⟨options, hoptions, h⟩ := except_bind_ok.mp h
    obtain ⟨optional, hoptional, h⟩ := except_bind_ok.mp h
    obtain ⟨fsType, hfsType, h⟩ := except_bind_ok.mp h
    obtain ⟨source, hsource, h⟩ := except_bind_ok.mp h
    obtain ⟨vfsOptions, hvfsOptions, h⟩ := except_bind_ok.mp h
    obtain ⟨sdevice, hsdevice, h⟩ := except_bind_ok.mp h
    obtain ⟨device, hdevice, h⟩ := except_bind_ok.mp h
    obtain rfl := Except.ok.inj h
    obtain ⟨hbehind, -, rfl⟩ := slice_ok.mp hoptional
    exact {
      id := numberAt_eq_some.mpr ⟨sid, hsid, hid⟩
      parent := numberAt_eq_some.mpr ⟨sparent, hsparent, hparent⟩
      device := Option.bind_eq_some_iff.mpr
        ⟨sdevice, index_ok.mp hsdevice, majorMinor_ok.mp hdevice⟩
      root := index_ok.mp hroot
      mountpoint := index_ok.mp hmountpoint
      options := index_ok.mp hoptions
      behind := hbehind
      optional := rfl
      fsType := index_ok.mp hfsType
      source := index_ok.mp hsource
      vfsOptions := index_ok.mp hvfsOptions }
  · intro h
    obtain ⟨sid, hsid, hid⟩ := numberAt_eq_some.mp h.id
    obtain ⟨sparent, hsparent, hparent⟩ := numberAt_eq_some.mp h.parent
    obtain ⟨sdevice, hsdevice, hdevice⟩ := Option.bind_eq_some_iff.mp h.device
    have hlen : sep ≤ parts.length := by
      obtain ⟨hlt, -⟩ := List.getElem?_eq_some_iff.mp h.fsType
      omega
    rw [hsid, index_ok.mpr h.root, index_ok.mpr h.mountpoint, index_ok.mpr h.options,
      slice_ok.mpr ⟨h.behind, hlen, rfl⟩, index_ok.mpr h.fsType, index_ok.mpr h.source,
      index_ok.mpr h.vfsOptions, index_ok.mpr hsdevice]
    simp only [bind, Except.bind, hid, hsparent, hparent, majorMinor_ok.mpr hdevice, h.optional]
    rfl


/-- Only the slice of the optional fields can go wrong, and it comes behind the two ids. -/
theorem ofParts_panicked (hlen : 10 ≤ parts.length) (hsep : sep + 3 < parts.length) :
    ofParts parts sep = .error .panicked ↔
      (numberAt parts 0).isSome ∧ (numberAt parts 1).isSome ∧ sep < 6 := by
  have hnumber : ∀ i, (hi : i < parts.length) → numberAt parts i = parseU32 parts[i] := by
    intro i hi
    rw [numberAt, List.getElem?_eq_getElem hi, Option.bind_some]
  rw [ofParts, index_of_lt (by omega), index_of_lt (by omega), index_of_lt (by omega),
    index_of_lt (by omega), index_of_lt (by omega), index_of_lt (by omega), index_of_lt (by omega),
    index_of_lt (by omega), index_of_lt (by omega), hnumber 0 (by omega), hnumber 1 (by omega)]
  constructor
  · intro h
    simp only [except_bind_error, reduceCtorEq, false_or, Except.ok.injEq,
      exists_eq_left', orNone_ok, orNone_not_panicked, slice_panicked, slice_ok,
      majorMinor_not_panicked] at h
    obtain ⟨id, hid, parent, hparent, h⟩ := h
    refine ⟨Option.isSome_of_eq_some hid, Option.isSome_of_eq_some hparent, ?_⟩
    rcases h with hslice | ⟨optional, -, device, -, hreturn⟩
    · omega
    · cases hreturn
  · intro h
    obtain ⟨hid, hparent, hbehind⟩ := h
    obtain ⟨id, hid⟩ := Option.isSome_iff_exists.mp hid
    obtain ⟨parent, hparent⟩ := Option.isSome_iff_exists.mp hparent
    simp only [bind, Except.bind, orNone_ok.mpr hid, orNone_ok.mpr hparent,
      slice_panicked.mpr (Or.inl hbehind)]

/-- Where the loop ends: at a separator field, or where it began. -/
def SepIdx (parts : List String) (sep : Nat) : Prop :=
  LastDash parts (parts.length - 4) sep ∨
    sep = parts.length - 4 ∧ ∀ j < parts.length - 4, parts[j]? ≠ some "-"

theorem SepIdx.unique (h : SepIdx parts sep) (hi : SepIdx parts i) : sep = i := by
  rcases h with ⟨hlt, hat, hafter⟩ | ⟨rfl, hnone⟩
  · rcases hi with ⟨hi, hati, hafteri⟩ | ⟨rfl, hnone⟩
    · rcases Nat.lt_trichotomy sep i with hlt' | heq | hlt'
      · exact absurd hati (hafter i hi hlt')
      · exact heq
      · exact absurd hat (hafteri sep hlt hlt')
    · exact absurd hat (hnone sep hlt)
  · rcases hi with ⟨hi, hati, -⟩ | ⟨rfl, -⟩
    · exact absurd hati (hnone i hi)
    · rfl

theorem SepIdx.lt (h : SepIdx parts sep) (hlen : 10 ≤ parts.length) : sep + 3 < parts.length := by
  rcases h with ⟨hlt, -⟩ | ⟨rfl, -⟩ <;> omega

theorem exists_sepIdx (hlen : 10 ≤ parts.length) :
    ∃ sep, findSep parts (parts.length - 4) (parts.length - 4) = .ok sep ∧ SepIdx parts sep :=
  findSep_spec (by omega) (by omega)

/-- A line with ten fields is read at the place where the loop ends. -/
theorem ofLine_eq (hlen : 10 ≤ (splitWhitespace line).length)
    (hsep : SepIdx (splitWhitespace line) sep) :
    ofLine f line = ofParts (splitWhitespace line) sep >>= fun mountInfo =>
      if f.any (· mountInfo) then .error .returnedNone else .ok mountInfo := by
  obtain ⟨i, hfind, hi⟩ := exists_sepIdx hlen
  obtain rfl := hsep.unique hi
  simp only [ofLine, if_neg (Nat.not_lt.mpr hlen), hfind]
  show (ofParts (splitWhitespace line) sep >>= fun mountInfo => _) = _
  congr

theorem ofLine_short (hlen : (splitWhitespace line).length < 10) :
    ofLine f line = .error .returnedNone := by
  simp only [ofLine, if_pos hlen]
  rfl

theorem ofLine_ok : ofLine f line = .ok m ↔ 10 ≤ (splitWhitespace line).length ∧
    ∃ sep, SepIdx (splitWhitespace line) sep ∧ Records (splitWhitespace line) sep m ∧
      f.any (· m) = false := by
  by_cases hlen : 10 ≤ (splitWhitespace line).length
  · obtain ⟨sep, -, hsep⟩ := exists_sepIdx hlen
    rw [ofLine_eq hlen hsep, except_bind_ok]
    constructor
    · intro hexists
      obtain ⟨m', hm', hfilter⟩ := hexists
      split at hfilter
      · cases hfilter
      · next hkept =>
        obtain rfl := Except.ok.inj hfilter
        exact ⟨hlen, sep, hsep, ofParts_ok.mp hm', Bool.not_eq_true _ ▸ hkept⟩
    · intro hexists
      obtain ⟨-, i, hi, hrecords, hkept⟩ := hexists
      obtain rfl := hsep.unique hi
      refine ⟨m, ofParts_ok.mpr hrecords, ?_⟩
      rw [hkept]
      rfl
  · rw [ofLine_short (Nat.not_le.mp hlen)]
    simp [hlen]

theorem ofLine_panicked : ofLine f line = .error .panicked ↔
    10 ≤ (splitWhitespace line).length ∧ (numberAt (splitWhitespace line) 0).isSome ∧
      (numberAt (splitWhitespace line) 1).isSome ∧ ∃ sep < 6, SepIdx (splitWhitespace line) sep := by
  by_cases hlen : 10 ≤ (splitWhitespace line).length
  · obtain ⟨sep, -, hsep⟩ := exists_sepIdx hlen
    have hpanicked := ofParts_panicked hlen (hsep.lt hlen)
    rw [ofLine_eq hlen hsep, except_bind_error, hpanicked]
    constructor
    · intro h
      rcases h with ⟨hid, hparent, hbehind⟩ | ⟨m, -, hfilter⟩
      · exact ⟨hlen, hid, hparent, sep, hbehind, hsep⟩
      · split at hfilter <;> cases hfilter
    · intro hexists
      obtain ⟨-, hid, hparent, i, hbehind, hi⟩ := hexists
      obtain rfl := hsep.unique hi
      exact Or.inl ⟨hid, hparent, hbehind⟩
  · rw [ofLine_short (Nat.not_le.mp hlen)]
    simp [hlen]

/-! ## Which lines are read as they are -/

structure WellFormed (parts : List String) : Prop where
  separator : ∃ sep, 6 ≤ sep ∧ sep + 3 < parts.length ∧ parts[sep]? = some "-"
  id : (numberAt parts 0).isSome
  parent : (numberAt parts 1).isSome
  device : (deviceAt parts 2).isSome

/-- The closure gives the line up before it looks at the separator, or the loop ends at one
that is behind the six fields. -/
def Separated (parts : List String) : Prop :=
  parts.length < 10 ∨ numberAt parts 0 = none ∨ numberAt parts 1 = none ∨
    (∃ sep ≥ 6, LastDash parts (parts.length - 4) sep) ∨
    (∀ j < parts.length - 4, parts[j]? ≠ some "-") ∧
      (parts[parts.length - 4]? = some "-" ∨ deviceAt parts 2 = none)

theorem Records.wellFormed (h : Records parts sep m) (hsep : parts[sep]? = some "-") :
    WellFormed parts where
  separator := by
    obtain ⟨hlt, -⟩ := List.getElem?_eq_some_iff.mp h.vfsOptions
    exact ⟨sep, h.behind, hlt, hsep⟩
  id := Option.isSome_of_eq_some h.id
  parent := Option.isSome_of_eq_some h.parent
  device := Option.isSome_of_eq_some h.device

theorem exists_records (hsep : SepIdx parts sep) (hlen : 10 ≤ parts.length) (hbehind : 6 ≤ sep)
    (hid : (numberAt parts 0).isSome) (hparent : (numberAt parts 1).isSome)
    (hdevice : (deviceAt parts 2).isSome) : ∃ m, Records parts sep m := by
  have hlt := hsep.lt hlen
  obtain ⟨id, hid⟩ := Option.isSome_iff_exists.mp hid
  obtain ⟨parent, hparent⟩ := Option.isSome_iff_exists.mp hparent
  obtain ⟨device, hdevice⟩ := Option.isSome_iff_exists.mp hdevice
  exact ⟨⟨id, parent, device.1, device.2, parts[3], parts[4], parts[5],
    String.intercalate " " ((parts.take sep).drop 6), parts[sep + 1], parts[sep + 2],
    parts[sep + 3]⟩, hid, hparent, hdevice, List.getElem?_eq_getElem _, List.getElem?_eq_getElem _,
    List.getElem?_eq_getElem _, hbehind, rfl, List.getElem?_eq_getElem _,
    List.getElem?_eq_getElem _, List.getElem?_eq_getElem _⟩

theorem Separated.not_panicked {line : String} (h : Separated (splitWhitespace line))
    (f : Option (MountInfo → Bool)) : ofLine f line ≠ .error .panicked := by
  intro hpanicked
  obtain ⟨hlen, hid, hparent, sep, hlt, hsep⟩ := ofLine_panicked.mp hpanicked
  rcases h with hshort | hnone | hnone | ⟨i, hbehind, hi⟩ | ⟨hnone, -⟩
  · omega
  · rw [hnone] at hid
    cases hid
  · rw [hnone] at hparent
    cases hparent
  · obtain rfl := hsep.unique (Or.inl hi)
    omega
  · obtain rfl := hsep.unique (Or.inr ⟨rfl, hnone⟩)
    omega

theorem Separated.wellFormed {line : String} (h : Separated (splitWhitespace line))
    {f : Option (MountInfo → Bool)} {m : MountInfo} (hm : ofLine f line = .ok m) :
    WellFormed (splitWhitespace line) := by
  obtain ⟨hlen, sep, hsep, hrecords, -⟩ := ofLine_ok.mp hm
  rcases h with hshort | hnone | hnone | ⟨i, hbehind, hi⟩ | ⟨hnone, hat | hdevice⟩
  · omega
  · rw [hrecords.id] at hnone
    cases hnone
  · rw [hrecords.parent] at hnone
    cases hnone
  · obtain rfl := hsep.unique (Or.inl hi)
    exact hrecords.wellFormed hi.2.1
  · obtain rfl := hsep.unique (Or.inr ⟨rfl, hnone⟩)
    exact hrecords.wellFormed hat
  · rw [hrecords.device] at hdevice
    cases hdevice

theorem separated_of_sound {line : String} (hnotPanicked : ofLine none line ≠ .error .panicked)
    (hwellFormed : ∀ m, ofLine none line = .ok m → WellFormed (splitWhitespace line)) :
    Separated (splitWhitespace line) := by
  by_contra hnot
  simp only [Separated, not_or, not_lt] at hnot
  obtain ⟨hlen, hid, hparent, hbehind, hdefault⟩ := hnot
  have hid := Option.isSome_iff_ne_none.mpr hid
  have hparent := Option.isSome_iff_ne_none.mpr hparent
  obtain ⟨sep, -, hsep⟩ := exists_sepIdx hlen
  by_cases hlt : sep < 6
  · exact hnotPanicked (ofLine_panicked.mpr ⟨hlen, hid, hparent, sep, hlt, hsep⟩)
  · rcases hsep with hdash | ⟨rfl, hnone⟩
    · exact hbehind ⟨sep, Nat.not_lt.mp hlt, hdash⟩
    · simp only [not_and, not_or] at hdefault
      obtain ⟨hlast, hdevice⟩ := hdefault hnone
      obtain ⟨m, hm⟩ := exists_records (Or.inr ⟨rfl, hnone⟩) hlen (Nat.not_lt.mp hlt) hid hparent
        (Option.isSome_iff_ne_none.mpr hdevice)
      have hread := hwellFormed m (ofLine_ok.mpr ⟨hlen, _, Or.inr ⟨rfl, hnone⟩, hm, rfl⟩)
      obtain ⟨sep, -, hfits, hat⟩ := hread.separator
      rcases Nat.lt_or_ge sep ((splitWhitespace line).length - 4) with hlt' | hge
      · exact hnone sep hlt' hat
      · obtain rfl : sep = (splitWhitespace line).length - 4 := by omega
        exact hlast hat

/-- The position from which the search starts is taken without a look at it. -/
theorem ofLine_sound_iff (line : String) :
    (∀ f, ofLine f line ≠ .error .panicked ∧
      ∀ m, ofLine f line = .ok m → WellFormed (splitWhitespace line)) ↔
    Separated (splitWhitespace line) := by
  constructor
  · intro h
    obtain ⟨hnotPanicked, hwellFormed⟩ := h none
    exact separated_of_sound hnotPanicked hwellFormed
  · intro h f
    exact ⟨h.not_panicked f, fun m hm => h.wellFormed hm⟩

/-- A line without a separator is accepted, and one with a dash among the six fields panics. -/
theorem unseparated_line_accepted :
    (∃ m, ofLine none "36 35 98:0 / /mnt rw master:1 ext3 /dev/sda rw" = .ok m) ∧
      ¬WellFormed (splitWhitespace "36 35 98:0 / /mnt rw master:1 ext3 /dev/sda rw") ∧
      ofLine none "36 35 98:0 / - rw master:1 - ext3 /dev/sda rw" = .error .panicked := by
  refine ⟨⟨⟨36, 35, 98, 0, "/", "/mnt", "rw", "", "ext3", "/dev/sda", "rw"⟩, by decide +kernel⟩, ?_,
    by decide +kernel⟩
  intro h
  obtain ⟨sep, -, -, hsep⟩ := h.separator
  have hmem := List.mem_of_getElem? hsep
  have hnone : "-" ∉ splitWhitespace "36 35 98:0 / /mnt rw master:1 ext3 /dev/sda rw" := by
    decide +kernel
  exact hnone hmem

end MountInfo

end RustExtensions.Shim
