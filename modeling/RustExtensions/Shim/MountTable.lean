import Mathlib.Data.List.DropRight
import RustExtensions.Lib.Decimal
import RustExtensions.Shim.MountInfo

/-!
# The table that the kernel writes

The kernel writes one line for each mount, with octal codes for the characters
that would end a field. Reading does not undo the codes, and takes every other
white space for the end of a field too.
-/
namespace RustExtensions.Shim

open RustExtensions.Fields
open RustExtensions.Fallible
open MountInfo

/-! ## Rendering -/

/-- A field of the form `tag[:value]`. -/
structure OptionalField where
  text : String
  nonempty : text ≠ ""
  plain : ∀ c ∈ text.toList, isWhitespace c = false ∧ c ≠ '\\'
  notSeparator : text ≠ "-"

structure KernelMount where
  id : UInt32
  parent : UInt32
  major : UInt32
  minor : UInt32
  root : String
  mountpoint : String
  options : String
  optional : List OptionalField
  fsType : String
  source : String
  vfsOptions : String

def octal (c : Char) : List Char :=
  if c = ' ' then ['\\', '0', '4', '0']
  else if c = '\t' then ['\\', '0', '1', '1']
  else if c = '\n' then ['\\', '0', '1', '2']
  else if c = '\\' then ['\\', '1', '3', '4']
  else [c]

def escape (s : String) : String := String.ofList (s.toList.flatMap octal)

namespace KernelMount

def head (m : KernelMount) : List String :=
  [m.id.toNat.repr, m.parent.toNat.repr, m.major.toNat.repr ++ ":" ++ m.minor.toNat.repr,
    escape m.root, escape m.mountpoint, escape m.options]

def tail (m : KernelMount) : List String :=
  ["-", escape m.fsType, escape m.source, escape m.vfsOptions]

def columns (m : KernelMount) : List String := m.head ++ m.optional.map (·.text) ++ m.tail

def line (m : KernelMount) : String := String.intercalate " " m.columns

/-- The mount as a reader should see it. -/
def toInfo (m : KernelMount) : MountInfo where
  id := m.id
  parent := m.parent
  major := m.major
  minor := m.minor
  root := m.root
  mountpoint := m.mountpoint
  options := m.options
  optional := String.intercalate " " (m.optional.map (·.text))
  fsType := m.fsType
  source := m.source
  vfsOptions := m.vfsOptions

/-- The texts of a mount that the kernel does not choose. -/
def texts (m : KernelMount) : List String :=
  [m.root, m.mountpoint, m.options, m.fsType, m.source, m.vfsOptions]

/-- No text of a mount is empty, has white space or a backslash, and none that comes before the
separator looks like it. -/
structure Plain (m : KernelMount) : Prop where
  nonempty : ∀ s ∈ m.texts, s ≠ ""
  plain : ∀ s ∈ m.texts, ∀ c ∈ s.toList, isWhitespace c = false ∧ c ≠ '\\'
  root : m.root ≠ "-"
  mountpoint : m.mountpoint ≠ "-"
  options : m.options ≠ "-"

end KernelMount

/-- The content of `/proc/self/mountinfo`. -/
def render (ms : List KernelMount) : String := String.join (ms.map fun m => m.line ++ "\n")

variable {m : KernelMount} {ms : List KernelMount} {f : Option (MountInfo → Bool)} {s t : String}
  {c d : Char} {sep i : Nat}

/-! ## Octal codes -/

theorem octal_cases (c : Char) : octal c = [c] ∨ 1 < (octal c).length := by
  rw [octal]
  split_ifs <;> simp

theorem octal_eq_self (hc : isWhitespace c = false) : octal c = [c] ↔ c ≠ '\\' := by
  have hspace : c ≠ ' ' := ne_of_isWhitespace hc (by decide)
  have htab : c ≠ '\t' := ne_of_isWhitespace hc (by decide)
  have hnewline : c ≠ '\n' := ne_of_isWhitespace hc (by decide)
  rw [octal, if_neg hspace, if_neg htab, if_neg hnewline]
  split
  · next h => simp [h]
  · next h => simp [h]

theorem isWhitespace_octal (hc : isWhitespace c = false) (hd : d ∈ octal c) :
    isWhitespace d = false := by
  by_cases hslash : c = '\\'
  · subst hslash
    have hplain : (octal '\\').all (fun d => !isWhitespace d) = true := by decide
    exact (Bool.not_eq_true' _).mp (List.all_eq_true.mp hplain d hd)
  · rw [(octal_eq_self hc).mpr hslash, List.mem_singleton] at hd
    rwa [hd]

theorem newline_not_mem_octal : '\n' ∉ octal c := by
  rw [octal]
  split_ifs with hspace htab hnewline hslash <;> simp [eq_comm, *]

theorem toList_escape : (escape s).toList = s.toList.flatMap octal := String.toList_ofList

theorem newline_not_mem_escape : '\n' ∉ (escape s).toList := by
  rw [toList_escape, List.mem_flatMap]
  intro hexists
  obtain ⟨c, -, hc⟩ := hexists
  exact newline_not_mem_octal hc

theorem isField_escape (h : IsField isWhitespace s.toList) :
    IsField isWhitespace (escape s).toList := by
  obtain ⟨hne, hplain⟩ := h
  rw [toList_escape]
  constructor
  · intro hnil
    rw [List.flatMap_eq_nil_iff] at hnil
    obtain ⟨c, hc⟩ := List.exists_mem_of_ne_nil _ hne
    rcases octal_cases c with hself | hlen
    · rw [hnil c hc] at hself
      cases hself
    · rw [hnil c hc] at hlen
      exact absurd hlen (Nat.not_lt_zero _)
  · intro d hd
    obtain ⟨c, hc, hd⟩ := List.mem_flatMap.mp hd
    exact isWhitespace_octal (hplain c hc) hd

/-- A text without white space is written as it is if it has no backslash. -/
theorem escape_eq_self (h : IsField isWhitespace s.toList) : escape s = s ↔ '\\' ∉ s.toList := by
  rw [escape, ofList_eq_iff, flatMap_eq_self octal_cases]
  constructor
  · intro hself hslash
    exact (octal_eq_self (h.2 _ hslash)).mp (hself _ hslash) rfl
  · intro hslash c hc
    rw [octal_eq_self (h.2 c hc)]
    exact fun heq => hslash (heq ▸ hc)

/-! ## Lines -/

/-- A carriage return before the end of a line is white space as much as it is dropped. -/
theorem ofLine_dropCarriage (cs : List Char) :
    ofLine f (String.ofList (if cs.getLast? = some '\r' then cs.dropLast else cs)) =
      ofLine f (String.ofList cs) := by
  split
  · next hlast =>
    obtain ⟨init, rfl⟩ := List.getLast?_eq_some_iff.mp hlast
    have hparts : splitWhitespace (String.ofList (init ++ ['\r']).dropLast) =
        splitWhitespace (String.ofList (init ++ ['\r'])) := by
      rw [List.dropLast_concat, splitWhitespace, splitWhitespace, String.toList_ofList,
        String.toList_ofList, fields_append_separator (by decide)]
    simp only [ofLine, hparts]
  · rfl

theorem mountsOfLines_congr {ls : List String} {g : String → String}
    (hg : ∀ l ∈ ls, ofLine f (g l) = ofLine f l) :
    mountsOfLines f (ls.map g) = mountsOfLines f ls := by
  induction ls with
  | nil => rfl
  | cons l ls ih =>
    rw [List.map_cons, mountsOfLines, mountsOfLines, hg l List.mem_cons_self,
      ih fun l' hl' => hg l' (List.mem_cons_of_mem l hl')]

/-- A text of whole lines is read line by line. -/
theorem getMounts_join {ls : List String} (hls : ∀ l ∈ ls, '\n' ∉ l.toList) :
    getMounts f (String.join (ls.map (· ++ "\n"))) = mountsOfLines f ls := by
  rw [getMounts, lines_join hls]
  apply mountsOfLines_congr
  intro l hl
  rw [dropCarriage, ofLine_dropCarriage, String.ofList_toList]

/-! ## Numbers -/

theorem digitsU32_eq (ds : List Char) :
    digitsU32 ds = (Decimal.readDigits UInt32.size ds).map UInt32.ofNat := by
  rw [digitsU32, Decimal.readDigits]
  split <;> rfl

theorem parseU32_eq (s : String) :
    parseU32 s = (Decimal.read UInt32.size s.toList).map UInt32.ofNat := by
  rw [parseU32, Decimal.read.eq_def]
  cases s.toList with
  | nil => exact digitsU32_eq []
  | cons c ds =>
    by_cases hc : c = '+'
    · subst hc
      exact digitsU32_eq ds
    · simp [hc, digitsU32_eq]

theorem parseU32_repr (n : UInt32) : parseU32 n.toNat.repr = some n := by
  rw [parseU32_eq, Decimal.read_repr n.toNat_lt_size, Option.map_some, UInt32.ofNat_toNat]

theorem isWhitespace_of_isDigit (hc : c.isDigit = true) : isWhitespace c = false := by
  have hbounds : 48 ≤ c.toNat ∧ c.toNat ≤ 57 := Char.isDigit_iff_toNat.mp hc
  simp only [isWhitespace, Bool.or_eq_false_iff, Bool.and_eq_false_imp, decide_eq_true_eq,
    decide_eq_false_iff_not, beq_eq_false_iff_ne]
  omega

theorem isField_repr (n : Nat) : IsField isWhitespace n.repr.toList :=
  ⟨Decimal.repr_ne_nil n, fun _ hc => isWhitespace_of_isDigit (Decimal.isDigit_of_mem_repr hc)⟩

theorem deviceOf_repr (a b : UInt32) :
    deviceOf (a.toNat.repr ++ ":" ++ b.toNat.repr) = some (a, b) := by
  have hcolon : ∀ s ∈ [a.toNat.repr, b.toNat.repr], ':' ∉ s.toList := by
    intro s hs hmem
    have hdigit : (':').isDigit = true := by
      rcases List.mem_pair.mp hs with rfl | rfl <;> exact Decimal.isDigit_of_mem_repr hmem
    exact absurd hdigit (by decide)
  have hsplit := splitColon_intercalate (List.cons_ne_nil _ _) hcolon
  rw [String.intercalate_cons_cons, String.intercalate_singleton] at hsplit
  rw [deviceOf, hsplit]
  simp only [parseU32_repr]
  rfl

/-! ## Columns -/

namespace OptionalField

theorem isField (o : OptionalField) : IsField isWhitespace o.text.toList := by
  constructor
  · intro hnil
    exact o.nonempty (String.toList_eq_nil_iff.mp hnil)
  · exact fun c hc => (o.plain c hc).1

end OptionalField

namespace KernelMount

/-- The position of the separator. -/
def sepIdx (m : KernelMount) : Nat := 6 + m.optional.length

theorem length_columns : m.columns.length = m.sepIdx + 4 := by
  simp only [columns, head, tail, sepIdx, List.length_append, List.length_map, List.length_cons,
    List.length_nil]

theorem getElem?_head (hi : i < 6) : m.columns[i]? = m.head[i]? := by
  have hlen : m.head.length = 6 := rfl
  rw [columns, List.append_assoc, List.getElem?_append_left (by omega)]

theorem getElem?_tail : m.columns[m.sepIdx + i]? = m.tail[i]? := by
  have hlen : (m.head ++ m.optional.map (·.text)).length = m.sepIdx := by
    simp [head, sepIdx]
    omega
  rw [columns, List.getElem?_append_right (by omega), hlen, Nat.add_sub_cancel_left]

theorem optional_columns : (m.columns.take m.sepIdx).drop 6 = m.optional.map (·.text) := by
  have hlen : (m.head ++ m.optional.map (·.text)).length = m.sepIdx := by
    simp [head, sepIdx]
    omega
  rw [columns, List.take_left' hlen]
  rfl

/-- Behind the six fields and before the separator stand the optional fields. -/
theorem mem_optional (hge : 6 ≤ i) (hlt : i < m.sepIdx) (hs : m.columns[i]? = some s) :
    ∃ o ∈ m.optional, o.text = s := by
  have hget : ((m.columns.take m.sepIdx).drop 6)[i - 6]? = some s := by
    rw [List.getElem?_drop, List.getElem?_take_of_lt (by omega), ← hs]
    congr 1
    omega
  rw [optional_columns] at hget
  exact List.mem_map.mp (List.mem_of_getElem? hget)

theorem forall_texts {P : String → Prop} : (∀ s ∈ m.texts, P s) ↔ P m.root ∧ P m.mountpoint ∧
    P m.options ∧ P m.fsType ∧ P m.source ∧ P m.vfsOptions := by
  simp only [texts, List.forall_mem_cons, List.not_mem_nil, false_imp_iff, implies_true, and_true]

theorem forall_columns {P : String → Prop} (hnumber : ∀ n : Nat, P n.repr)
    (hdevice : ∀ a b : Nat, P (a.repr ++ ":" ++ b.repr)) (htext : ∀ s ∈ m.texts, P (escape s))
    (hoptional : ∀ o ∈ m.optional, P o.text) (hseparator : P "-") : ∀ s ∈ m.columns, P s := by
  intro s hs
  rw [columns, List.mem_append, List.mem_append] at hs
  obtain ⟨hroot, hmountpoint, hoptions, hfsType, hsource, hvfsOptions⟩ := forall_texts.mp htext
  rcases hs with (hhead | hoption) | htail
  · simp only [head, List.mem_cons, List.not_mem_nil, or_false] at hhead
    rcases hhead with rfl | rfl | rfl | rfl | rfl | rfl
    · exact hnumber _
    · exact hnumber _
    · exact hdevice _ _
    · exact hroot
    · exact hmountpoint
    · exact hoptions
  · obtain ⟨o, ho, rfl⟩ := List.mem_map.mp hoption
    exact hoptional o ho
  · simp only [tail, List.mem_cons, List.not_mem_nil, or_false] at htail
    rcases htail with rfl | rfl | rfl | rfl
    · exact hseparator
    · exact hfsType
    · exact hsource
    · exact hvfsOptions

theorem isField_separator : IsField isWhitespace ("-").toList := by
  constructor
  · decide
  · intro c hc
    rw [List.mem_singleton.mp hc]
    decide

theorem isField_device (a b : Nat) : IsField isWhitespace (a.repr ++ ":" ++ b.repr).toList := by
  have ha := isField_repr a
  have hb := isField_repr b
  rw [String.toList_append, String.toList_append]
  constructor
  · exact List.append_ne_nil_of_right_ne_nil _ hb.1
  · intro c hc
    rcases List.mem_append.mp hc with hc | hc
    · rcases List.mem_append.mp hc with hc | hc
      · exact ha.2 c hc
      · rw [List.mem_singleton.mp hc]
        decide
    · exact hb.2 c hc

theorem newline_not_mem_line (m : KernelMount) : '\n' ∉ m.line.toList := by
  have hfield : ∀ {s : String}, IsField isWhitespace s.toList → '\n' ∉ s.toList :=
    fun h hmem => absurd (h.2 _ hmem) (by decide)
  have hcolumns : ∀ s ∈ m.columns, '\n' ∉ s.toList :=
    forall_columns (fun n => hfield (isField_repr n)) (fun a b => hfield (isField_device a b))
      (fun s _ => newline_not_mem_escape) (fun o _ => hfield o.isField) (by decide)
  rw [line, String.toList_intercalate]
  intro h
  rcases mem_intercalate h with hsep | ⟨w, hw, hnewline⟩
  · exact absurd hsep (by decide)
  · obtain ⟨s, hs, rfl⟩ := List.mem_map.mp hw
    exact hcolumns s hs hnewline

/-- A line whose texts are fields is cut into the columns it was made of. -/
theorem splitWhitespace_line (h : ∀ s ∈ m.texts, IsField isWhitespace s.toList) :
    splitWhitespace m.line = m.columns := by
  have hcolumns : ∀ s ∈ m.columns, IsField isWhitespace s.toList :=
    forall_columns isField_repr isField_device (fun s hs => isField_escape (h s hs))
      (fun o _ => o.isField) isField_separator
  have hne : m.columns.map String.toList ≠ [] :=
    List.map_eq_nil_iff.not.mpr (List.cons_ne_nil _ _)
  have hfields := fields_intercalate (p := isWhitespace) (s := ' ') (by decide) hne
    (List.forall_mem_map.mpr hcolumns)
  rw [splitWhitespace, line, String.toList_intercalate]
  show (fields isWhitespace ([' '].intercalate _)).map String.ofList = m.columns
  rw [hfields, List.map_map]
  have hid : String.ofList ∘ String.toList = fun s => s := funext fun _ => String.ofList_toList
  rw [hid, List.map_id']

/-! ## What a line is read as -/

theorem getMounts_render (ms : List KernelMount) :
    getMounts f (render ms) = mountsOfLines f (ms.map line) := by
  have hlines : ∀ l ∈ ms.map line, '\n' ∉ l.toList :=
    List.forall_mem_map.mpr fun m _ => newline_not_mem_line m
  rw [← getMounts_join hlines, List.map_map]
  rfl

theorem le_sepIdx (m : KernelMount) : 6 ≤ m.sepIdx := Nat.le_add_right 6 _

/-- The search ends behind the six fields only at the separator. -/
theorem sepIdx_unique (hsep : SepIdx m.columns sep) (hbehind : 6 ≤ sep) : sep = m.sepIdx := by
  have hlength : m.columns.length - 4 = m.sepIdx := by
    rw [length_columns]
    omega
  rcases hsep with ⟨hlt, hat, -⟩ | ⟨heq, -⟩
  · obtain ⟨o, -, ho⟩ := mem_optional hbehind (hlength ▸ hlt) hat
    exact absurd ho o.notSeparator
  · exact heq.trans hlength

/-- The search ends at the separator if none of the six fields looks like it. -/
theorem sepIdx_columns : SepIdx m.columns m.sepIdx ↔ ∀ j < 6, m.columns[j]? ≠ some "-" := by
  have hlength : m.columns.length - 4 = m.sepIdx := by
    rw [length_columns]
    omega
  have hle := m.le_sepIdx
  constructor
  · intro h j hj
    rcases h with ⟨hlt, -⟩ | ⟨-, hnone⟩
    · omega
    · exact hnone j (by omega)
  · intro h
    refine Or.inr ⟨hlength.symm, fun j hj => ?_⟩
    rcases Nat.lt_or_ge j 6 with hj' | hge
    · exact h j hj'
    · intro hdash
      obtain ⟨o, -, ho⟩ := mem_optional hge (hlength ▸ hj) hdash
      exact absurd ho o.notSeparator

theorem forall_head : (∀ j < 6, m.columns[j]? ≠ some "-") ↔
    escape m.root ≠ "-" ∧ escape m.mountpoint ≠ "-" ∧ escape m.options ≠ "-" := by
  have hnumber : ∀ n : Nat, n.repr ≠ "-" := by
    intro n hn
    have hmem : '-' ∈ n.repr.toList := by
      rw [hn]
      decide
    exact absurd (Decimal.isDigit_of_mem_repr hmem) (by decide)
  have hdevice : ∀ a b : Nat, a.repr ++ ":" ++ b.repr ≠ "-" := by
    intro a b hab
    have hmem : ':' ∈ (a.repr ++ ":" ++ b.repr).toList := by
      simp
    rw [hab] at hmem
    exact absurd hmem (by decide)
  constructor
  · intro h
    have hroot := h 3 (by omega)
    have hmountpoint := h 4 (by omega)
    have hoptions := h 5 (by omega)
    exact ⟨fun heq => hroot (congrArg some heq), fun heq => hmountpoint (congrArg some heq),
      fun heq => hoptions (congrArg some heq)⟩
  · intro h j hj
    obtain ⟨hroot, hmountpoint, hoptions⟩ := h
    rw [getElem?_head hj]
    intro heq
    have hmem := List.mem_of_getElem? heq
    simp only [head, List.mem_cons, List.not_mem_nil, or_false] at hmem
    rcases hmem with hid | hparent | hdash | hdash | hdash | hdash
    · exact hnumber _ hid.symm
    · exact hnumber _ hparent.symm
    · exact hdevice _ _ hdash.symm
    · exact hroot hdash.symm
    · exact hmountpoint hdash.symm
    · exact hoptions hdash.symm

theorem isField_texts (h : m.Plain) : ∀ s ∈ m.texts, IsField isWhitespace s.toList := by
  intro s hs
  constructor
  · intro hnil
    exact h.nonempty s hs (String.toList_eq_nil_iff.mp hnil)
  · exact fun c hc => (h.plain s hs c hc).1

theorem escape_texts (h : m.Plain) : ∀ s ∈ m.texts, escape s = s := by
  intro s hs
  rw [escape_eq_self (isField_texts h s hs)]
  exact fun hslash => (h.plain s hs _ hslash).2 rfl

/-- The columns of a plain mount hold what the mount holds. -/
theorem records_iff : Records m.columns m.sepIdx m.toInfo ↔ ∀ s ∈ m.texts, escape s = s := by
  have hle := m.le_sepIdx
  rw [forall_texts]
  constructor
  · intro h
    have hfsType := h.fsType
    have hsource := h.source
    have hvfsOptions := h.vfsOptions
    rw [getElem?_tail] at hfsType hsource hvfsOptions
    exact ⟨Option.some.inj h.root, Option.some.inj h.mountpoint, Option.some.inj h.options,
      Option.some.inj hfsType, Option.some.inj hsource, Option.some.inj hvfsOptions⟩
  · intro h
    obtain ⟨hroot, hmountpoint, hoptions, hfsType, hsource, hvfsOptions⟩ := h
    exact {
      id := parseU32_repr m.id
      parent := parseU32_repr m.parent
      device := deviceOf_repr m.major m.minor
      root := congrArg some hroot
      mountpoint := congrArg some hmountpoint
      options := congrArg some hoptions
      behind := hle
      optional := congrArg (String.intercalate " ") optional_columns
      fsType := getElem?_tail.trans (congrArg some hfsType)
      source := getElem?_tail.trans (congrArg some hsource)
      vfsOptions := getElem?_tail.trans (congrArg some hvfsOptions) }

/-- What is read has no text that is empty or has white space in it. -/
theorem isField_of_records {parts : List String} (h : Records parts sep m.toInfo)
    (hparts : ∀ s ∈ parts, IsField isWhitespace s.toList) :
    ∀ s ∈ m.texts, IsField isWhitespace s.toList := by
  have hpart : ∀ {i : Nat} {s : String}, parts[i]? = some s → IsField isWhitespace s.toList :=
    fun hs => hparts _ (List.mem_of_getElem? hs)
  rw [forall_texts]
  exact ⟨hpart h.root, hpart h.mountpoint, hpart h.options, hpart h.fsType, hpart h.source,
    hpart h.vfsOptions⟩

theorem isField_splitWhitespace (line : String) :
    ∀ s ∈ splitWhitespace line, IsField isWhitespace s.toList := by
  intro s hs
  obtain ⟨w, hw, rfl⟩ := List.mem_map.mp hs
  rw [String.toList_ofList]
  exact isField_of_mem_fields hw

/-- A line gives its mount back exactly if the mount is plain. -/
theorem ofLine_line : ofLine none m.line = .ok m.toInfo ↔ m.Plain := by
  rw [ofLine_ok]
  constructor
  · intro h
    obtain ⟨-, sep, hsep, hrecords, -⟩ := h
    have hfields := isField_of_records hrecords (isField_splitWhitespace m.line)
    rw [splitWhitespace_line hfields] at hsep hrecords
    obtain rfl := sepIdx_unique hsep hrecords.behind
    have hself := records_iff.mp hrecords
    have hdashes := forall_head.mp (sepIdx_columns.mp hsep)
    obtain ⟨hroot, hmountpoint, hoptions, -⟩ := forall_texts.mp hself
    rw [hroot, hmountpoint, hoptions] at hdashes
    refine ⟨?_, ?_, hdashes.1, hdashes.2.1, hdashes.2.2⟩
    · intro s hs hempty
      exact (hfields s hs).1 (String.toList_eq_nil_iff.mpr hempty)
    · intro s hs c hc
      refine ⟨(hfields s hs).2 c hc, fun hslash => ?_⟩
      exact (escape_eq_self (hfields s hs)).mp (hself s hs) (hslash ▸ hc)
  · intro h
    have hself := escape_texts h
    obtain ⟨hroot, hmountpoint, hoptions, -⟩ := forall_texts.mp hself
    rw [splitWhitespace_line (isField_texts h)]
    refine ⟨?_, m.sepIdx, sepIdx_columns.mpr (forall_head.mpr ?_), records_iff.mpr hself, rfl⟩
    · have hle := m.le_sepIdx
      rw [length_columns]
      omega
    · rw [hroot, hmountpoint, hoptions]
      exact ⟨h.root, h.mountpoint, h.options⟩

end KernelMount

/-! ## The whole table -/

theorem length_mountsOfLines {ls : List String} {r : List MountInfo}
    (h : mountsOfLines f ls = some r) : r.length ≤ ls.length := by
  induction ls generalizing r with
  | nil =>
    obtain rfl := Option.some.inj h
    exact Nat.le_refl 0
  | cons l ls ih =>
    rw [mountsOfLines] at h
    split at h
    · obtain ⟨r', hr', rfl⟩ := Option.map_eq_some_iff.mp h
      exact Nat.succ_le_succ (ih hr')
    · exact Nat.le_succ_of_le (ih h)
    · cases h

/-- As many mounts as lines: every line was read as its mount. -/
theorem mountsOfLines_eq_map {g : KernelMount → String} {info : KernelMount → MountInfo} :
    mountsOfLines f (ms.map g) = some (ms.map info) ↔ ∀ m ∈ ms, ofLine f (g m) = .ok (info m) := by
  induction ms with
  | nil => simp [mountsOfLines]
  | cons m ms ih =>
    rw [List.map_cons, List.map_cons, mountsOfLines, List.forall_mem_cons, ← ih]
    split
    · next mount hmount =>
      rw [hmount, Option.map_eq_some_iff, Except.ok.injEq]
      constructor
      · intro hexists
        obtain ⟨r, hr, heq⟩ := hexists
        obtain ⟨rfl, rfl⟩ := List.cons.inj heq
        exact ⟨rfl, hr⟩
      · intro h
        obtain ⟨rfl, hr⟩ := h
        exact ⟨_, hr, rfl⟩
    · next hskipped =>
      rw [hskipped]
      constructor
      · intro h
        have hle := length_mountsOfLines h
        simp only [List.length_cons, List.length_map] at hle
        omega
      · exact fun h => absurd h.1 (by simp)
    · next hpanicked =>
      rw [hpanicked]
      simp

/-- The filter looks at what was read. -/
theorem ofLine_filter {line : String} {info : MountInfo} {g : MountInfo → Bool}
    (h : ofLine none line = .ok info) :
    ofLine (some g) line = if g info then .error .returnedNone else .ok info := by
  obtain ⟨hlen, sep, hsep, hrecords, -⟩ := ofLine_ok.mp h
  rw [ofLine_eq hlen hsep, ofParts_ok.mpr hrecords]
  rfl

theorem mountsOfLines_filter {g : MountInfo → Bool}
    (h : ∀ m ∈ ms, ofLine none m.line = .ok m.toInfo) :
    mountsOfLines (some g) (ms.map KernelMount.line) =
      some ((ms.map KernelMount.toInfo).filter fun m => !g m) := by
  induction ms with
  | nil => rfl
  | cons m ms ih =>
    rw [List.forall_mem_cons] at h
    rw [List.map_cons, List.map_cons, mountsOfLines, ofLine_filter h.1, ih h.2]
    cases hg : g m.toInfo <;> simp [hg]

/-! ## What a recursive unmount looks for -/

def Below (target p : String) : Prop := (target ++ "/").toList <+: p.toList

/-- The path is the target or lies below it; slashes at the end of the target mean nothing. -/
def AtOrBelow (target p : String) : Prop :=
  p.toList = target.toList.rdropWhile (· = '/') ∨
    target.toList.rdropWhile (· = '/') ++ ['/'] <+: p.toList

theorem prefixFilter_eq_false {info : MountInfo} :
    prefixFilter t info = false ↔ info.mountpoint = t ∨ Below t info.mountpoint := by
  rw [prefixFilter, Bool.not_eq_false', List.isPrefixOf_iff_prefix, Below]
  rw [String.toList_append (s := info.mountpoint)]
  show _ <+: _ ++ ['/'] ↔ _
  rw [List.prefix_concat_iff, String.toList_append]
  show t.toList ++ ['/'] = info.mountpoint.toList ++ ['/'] ∨ _ ↔ _
  rw [List.append_left_inj, String.toList_inj, eq_comm]

theorem atOrBelow_iff (h : t.toList.getLast? ≠ some '/') :
    AtOrBelow t s ↔ s = t ∨ Below t s := by
  have hself : t.toList.rdropWhile (· = '/') = t.toList := by
    rw [List.rdropWhile_eq_self_iff]
    intro hne hslash
    rw [List.getLast?_eq_getLast_of_ne_nil hne] at h
    exact h (congrArg some (of_decide_eq_true hslash))
  rw [AtOrBelow, hself, String.toList_inj, Below, String.toList_append]
  rfl

/-- Reading gives the table back, with every mount at or below the target. -/
theorem getMounts_restores_iff (ms : List KernelMount) (target : String) :
    (getMounts none (render ms) = some (ms.map KernelMount.toInfo) ∧
      ∃ seen, getMounts (some (prefixFilter target)) (render ms) = some seen ∧
        ∀ m ∈ ms, AtOrBelow target m.mountpoint → m.toInfo ∈ seen) ↔
    (∀ m ∈ ms, m.Plain) ∧ (target.toList.getLast? = some '/' → ∀ m ∈ ms,
      AtOrBelow target m.mountpoint → m.mountpoint = target ∨ Below target m.mountpoint) := by
  rw [KernelMount.getMounts_render, KernelMount.getMounts_render, mountsOfLines_eq_map]
  simp only [KernelMount.ofLine_line]
  apply and_congr_right
  intro hplain
  have hseen := mountsOfLines_filter (g := prefixFilter target)
    fun m hm => KernelMount.ofLine_line.mpr (hplain m hm)
  rw [hseen]
  simp only [Option.some.injEq, exists_eq_left']
  constructor
  · intro h _ m hm hbelow
    have hmem := List.mem_filter.mp (h m hm hbelow)
    have hkept := Bool.not_eq_true' _ ▸ hmem.2
    exact prefixFilter_eq_false.mp hkept
  · intro h m hm hbelow
    rw [List.mem_filter, Bool.not_eq_true', prefixFilter_eq_false]
    refine ⟨List.mem_map_of_mem hm, ?_⟩
    by_cases hslash : target.toList.getLast? = some '/'
    · exact h hslash m hm hbelow
    · exact (atOrBelow_iff hslash).mp hbelow

def spacedMount : KernelMount :=
  ⟨36, 35, 98, 0, "/", "/run/my rootfs", "rw", [], "ext3", "/dev/sda", "rw"⟩

/-- A mount whose path has a space is read under another path, and the filter skips it. -/
theorem spaced_mountpoint_missed :
    getMounts none (render [spacedMount]) ≠ some [spacedMount.toInfo] ∧
      AtOrBelow "/run/my rootfs" spacedMount.mountpoint ∧
      getMounts (some (prefixFilter "/run/my rootfs")) (render [spacedMount]) = some [] := by
  refine ⟨by decide +kernel, Or.inl (by decide +kernel), by decide +kernel⟩

end RustExtensions.Shim
