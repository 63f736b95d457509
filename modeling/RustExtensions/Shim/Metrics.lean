import RustExtensions.Lib.Decimal
import RustExtensions.Lib.Fallible
import RustExtensions.Shim.Cgroup
import RustExtensions.Shim.MountInfo

/-!
# The metrics of a cgroup

`collect_metrics` goes over the subsystems of a cgroup and puts what their
controllers read into one message. The statistics of the CPU are a text of keys
and numbers, of which the collector knows six keys.
-/
namespace RustExtensions.Shim

open RustExtensions.Fallible
open RustExtensions.Fields

/-- What `cgroups-rs` reads of a limit. -/
inductive MaxValue where
  | max
  | value (v : Int64)
  deriving DecidableEq, Repr

/-- What the memory controllers count. -/
structure MemoryCounters where
  usageInBytes : UInt64
  totalInactiveFile : UInt64
  kmemUsageInBytes : UInt64
  memswUsageInBytes : UInt64
  oomKill : UInt64

/-- A subsystem, with what its controller reads. -/
inductive Reading where
  | cpu (stat : String)
  | mem (counters : MemoryCounters)
  | pid (current : Except CgroupError UInt64) (max : Except CgroupError MaxValue)
  | other

structure CPUUsage where
  total : UInt64 := 0
  user : UInt64 := 0
  kernel : UInt64 := 0
  deriving DecidableEq, Repr

structure Throttle where
  periods : UInt64 := 0
  throttledPeriods : UInt64 := 0
  throttledTime : UInt64 := 0
  deriving DecidableEq, Repr

structure CPUStat where
  usage : CPUUsage := {}
  throttling : Throttle := {}
  deriving DecidableEq, Repr

structure MemoryEntry where
  usage : UInt64 := 0
  deriving DecidableEq, Repr

structure MemoryStat where
  usage : MemoryEntry
  totalInactiveFile : UInt64
  kernel : MemoryEntry
  swap : MemoryEntry
  deriving DecidableEq, Repr

structure MemoryOomControl where
  oomKill : UInt64
  deriving DecidableEq, Repr

structure PidsStat where
  current : UInt64
  limit : UInt64
  deriving DecidableEq, Repr

structure Metrics where
  cpu : Option CPUStat := none
  memory : Option MemoryStat := none
  memoryOomControl : Option MemoryOomControl := none
  pids : Option PidsStat := none
  deriving DecidableEq, Repr

inductive Metrics.Stop where
  | failed (e : Error)
  | panicked
  deriving DecidableEq, Repr

namespace Metrics

/-- `str::parse::<u64>`. -/
def parseU64 (s : String) : Option UInt64 :=
  (Decimal.read UInt64.size s.toList).map UInt64.ofNat

/-- `s.split(' ')`. -/
def splitSpace (s : String) : List String := (s.toList.splitOn ' ').map String.ofList

/-- The field that the value of a key is put into, if the key is known. -/
def setter (key : String) : Option (UInt64 → CPUStat → CPUStat) :=
  match key with
  | "usage_usec" => some fun v r => { r with usage := { r.usage with total := v } }
  | "user_usec" => some fun v r => { r with usage := { r.usage with user := v } }
  | "system_usec" => some fun v r => { r with usage := { r.usage with kernel := v } }
  | "nr_periods" => some fun v r => { r with throttling := { r.throttling with periods := v } }
  | "nr_throttled" =>
    some fun v r => { r with throttling := { r.throttling with throttledPeriods := v } }
  | "throttled_usec" =>
    some fun v r => { r with throttling := { r.throttling with throttledTime := v } }
  | _ => none

/-- One line of `cpu.stat`. -/
def cpuLine (r : CPUStat) (line : String) : Except Stop CPUStat :=
  match splitSpace line with
  | [key, value] =>
    match setter key with
    | some set =>
      match parseU64 value with
      | some v => .ok (set v r)
      | none => .error .panicked
    | none => .ok r
  | _ => .error (.failed (.other s!"invalid cpu stat line: {line}"))

def cpuStat (stat : String) : Except Stop CPUStat := (lines stat).foldlM cpuLine {}

def memoryEntry (usage : UInt64) : MemoryEntry := { usage }

def ignoreNotFound (r : Except CgroupError UInt64) : Except CgroupError UInt64 :=
  match r with
  | .ok v => .ok v
  | .error e => if e.notFound then .ok 0 else .error e

/-- The current and the maximal number of pids, which is 0 where there is no limit. -/
def pidCounts (current : Except CgroupError UInt64) (max : Except CgroupError MaxValue) :
    Except Error (UInt64 × UInt64) := do
  let current ← (ignoreNotFound current).mapError (·.other "get current pid")
  let limit ← (ignoreNotFound (max.map fun
    | .max => 0
    | .value v => v.toUInt64)).mapError (·.other "get pid limit")
  return (current, limit)

def collectSubsystem (metrics : Metrics) (subsystem : Reading) : Except Stop Metrics :=
  match subsystem with
  | .cpu stat => do
    let cpuStats ← cpuStat stat
    return { metrics with cpu := some cpuStats }
  | .mem mem => return { metrics with
      memory := some {
        usage := memoryEntry mem.usageInBytes
        totalInactiveFile := mem.totalInactiveFile
        kernel := memoryEntry mem.kmemUsageInBytes
        swap := memoryEntry mem.memswUsageInBytes }
      memoryOomControl := some { oomKill := mem.oomKill } }
  | .pid current max => do
    let (current, limit) ← (pidCounts current max).mapError .failed
    return { metrics with pids := some { current, limit } }
  | .other => return metrics

def collectMetrics (subsystems : List Reading) : Except Stop Metrics :=
  subsystems.foldlM collectSubsystem {}

end Metrics

/-! ## The lines of a file -/

/-- A word has something in it, and no white space. -/
def IsWord (s : String) : Prop := IsField isWhitespace s.toList

instance (s : String) : Decidable (IsWord s) :=
  @instDecidableAnd _ _ inferInstance (List.decidableBAll _ s.toList)

/-- A line of two words. -/
structure StatLine where
  key : String
  value : String
  key_word : IsWord key
  value_word : IsWord value

namespace StatLine

def text (l : StatLine) : String := l.key ++ " " ++ l.value

/-- The number in the line, if its value is one. -/
def number (l : StatLine) : Option UInt64 := Metrics.parseU64 l.value

/-- The value of a key that the collector knows has to be a number. -/
def Readable (l : StatLine) : Prop := (Metrics.setter l.key).isSome → l.number.isSome

instance (l : StatLine) : Decidable l.Readable := inferInstanceAs (Decidable (_ → _))

/-- What a line does to the message. -/
def record (r : CPUStat) (l : StatLine) : CPUStat :=
  match Metrics.setter l.key, l.number with
  | some set, some v => set v r
  | _, _ => r

variable {l : StatLine} {c : Char}

theorem toList_text (l : StatLine) :
    l.text.toList = [' '].intercalate [l.key.toList, l.value.toList] := by
  simp [text, String.toList_append]

theorem splitSpace_text (l : StatLine) : Metrics.splitSpace l.text = [l.key, l.value] := by
  have hplain : ∀ w ∈ [l.key.toList, l.value.toList], ∀ c ∈ w, (c == ' ') = false := by
    intro w hw c hc
    have hnot : isWhitespace c = false := by
      rcases List.mem_pair.mp hw with rfl | rfl
      · exact l.key_word.2 c hc
      · exact l.value_word.2 c hc
    exact beq_eq_false_iff_ne.mpr (ne_of_isWhitespace hnot (by decide))
  have hsplit : l.text.toList.splitOn ' ' = [l.key.toList, l.value.toList] := by
    rw [toList_text, List.splitOn]
    exact splitOnP_intercalate (by decide) (List.cons_ne_nil _ _) hplain
  rw [Metrics.splitSpace, hsplit]
  simp [String.ofList_toList]

/-- A line neither holds a line feed nor ends with a carriage return. -/
theorem mem_text (hc : c ∈ l.text.toList) : c = ' ' ∨ isWhitespace c = false := by
  rw [toList_text] at hc
  rcases mem_intercalate hc with hc | ⟨w, hw, hc⟩
  · exact Or.inl (List.mem_singleton.mp hc)
  · rcases List.mem_pair.mp hw with rfl | rfl
    · exact Or.inr (l.key_word.2 c hc)
    · exact Or.inr (l.value_word.2 c hc)

theorem newline_not_mem_text (l : StatLine) : '\n' ∉ l.text.toList := by
  intro hc
  rcases mem_text hc with hspace | hplain
  · exact absurd hspace (by decide)
  · exact absurd hplain (by decide)

theorem dropCarriage_text (l : StatLine) : dropCarriage l.text.toList = l.text.toList := by
  rw [dropCarriage, if_neg]
  intro hlast
  rcases mem_text (List.mem_of_getLast? hlast) with hspace | hplain
  · exact absurd hspace (by decide)
  · exact absurd hplain (by decide)

end StatLine

/-- A file of such lines. -/
def statFile (ls : List StatLine) : String := String.join (ls.map (·.text ++ "\n"))

/-- What the last line of a key says. -/
def lastNumber (key : String) (ls : List StatLine) : Option UInt64 :=
  (ls.filter (·.key = key)).getLast?.bind (·.number)

namespace Metrics
open StatLine

variable {ls : List StatLine} {l : StatLine} {r r' : CPUStat} {key : String} {v : UInt64}

/-! ## Reading the file -/

theorem lines_statFile (ls : List StatLine) : lines (statFile ls) = ls.map (·.text) := by
  have hls : ∀ t ∈ ls.map (·.text), '\n' ∉ t.toList :=
    List.forall_mem_map.mpr fun l _ => newline_not_mem_text l
  have hread := lines_join hls
  rw [List.map_map, List.map_map] at hread
  refine hread.trans (List.map_congr_left fun l _ => ?_)
  show String.ofList (dropCarriage l.text.toList) = l.text
  rw [dropCarriage_text, String.ofList_toList]

theorem cpuLine_ok : cpuLine r l.text = .ok r' ↔ l.Readable ∧ l.record r = r' := by
  rw [cpuLine, splitSpace_text]
  simp only [Readable, record, number]
  cases hset : setter l.key with
  | none => simp
  | some set =>
    cases hvalue : parseU64 l.value with
    | none => simp
    | some v => simp

/-- The collector gets through lines that are readable, and does what each of them says. -/
theorem foldlM_cpuLine_ok : (ls.map (·.text)).foldlM cpuLine r = .ok r' ↔
    (∀ l ∈ ls, l.Readable) ∧ ls.foldl record r = r' := by
  induction ls generalizing r with
  | nil => simp [pure, Except.pure]
  | cons l ls ih =>
    rw [List.map_cons, List.foldlM_cons, except_bind_ok, List.forall_mem_cons, List.foldl_cons]
    constructor
    · rintro ⟨r₁, hl, hls⟩
      obtain ⟨hreadable, rfl⟩ := cpuLine_ok.mp hl
      obtain ⟨hrest, hfold⟩ := ih.mp hls
      exact ⟨⟨hreadable, hrest⟩, hfold⟩
    · rintro ⟨⟨hreadable, hrest⟩, hfold⟩
      exact ⟨record r l, cpuLine_ok.mpr ⟨hreadable, rfl⟩, ih.mpr ⟨hrest, hfold⟩⟩

theorem cpuStat_ok : cpuStat (statFile ls) = .ok r ↔
    (∀ l ∈ ls, l.Readable) ∧ ls.foldl record {} = r := by
  rw [cpuStat, lines_statFile, foldlM_cpuLine_ok]

/-! ## One counter -/

/-- A number of the message that the lines of one key set, and no others. -/
structure Counter where
  key : String
  get : CPUStat → UInt64
  set : UInt64 → CPUStat → CPUStat
  known : setter key = some set
  get_set : ∀ v r, get (set v r) = v
  get_other : ∀ k f, setter k = some f → k ≠ key → ∀ v r, get (f v r) = get r

namespace Counter

theorem get_record (c : Counter) (hkey : l.key = c.key) :
    c.get (l.record r) = l.number.getD (c.get r) := by
  rw [record, hkey, c.known]
  cases l.number with
  | none => rfl
  | some v => exact c.get_set v r

theorem get_record_other (c : Counter) (hkey : l.key ≠ c.key) : c.get (l.record r) = c.get r := by
  rw [record]
  split
  · next set v hset _ => exact c.get_other l.key set hset hkey v r
  · rfl

def periods : Counter where
  key := "nr_periods"
  get r := r.throttling.periods
  set v r := { r with throttling := { r.throttling with periods := v } }
  known := rfl
  get_set _ _ := rfl
  get_other k f hset hkey v r := by
    unfold setter at hset
    split at hset <;> first | exact absurd rfl hkey | cases hset <;> rfl

def throttledPeriods : Counter where
  key := "nr_throttled"
  get r := r.throttling.throttledPeriods
  set v r := { r with throttling := { r.throttling with throttledPeriods := v } }
  known := rfl
  get_set _ _ := rfl
  get_other k f hset hkey v r := by
    unfold setter at hset
    split at hset <;> first | exact absurd rfl hkey | cases hset <;> rfl

def throttledTime : Counter where
  key := "throttled_usec"
  get r := r.throttling.throttledTime
  set v r := { r with throttling := { r.throttling with throttledTime := v } }
  known := rfl
  get_set _ _ := rfl
  get_other k f hset hkey v r := by
    unfold setter at hset
    split at hset <;> first | exact absurd rfl hkey | cases hset <;> rfl

end Counter

theorem lastNumber_concat : lastNumber key (ls ++ [l]) =
    if l.key = key then l.number else lastNumber key ls := by
  rw [lastNumber, List.filter_append, List.filter_singleton]
  split
  · next hkey => simp [hkey]
  · next hkey => simp [hkey, lastNumber]

/-- Of the lines of one key, the last one counts. -/
theorem Counter.get_foldl (c : Counter) (hls : ∀ l ∈ ls, l.Readable) :
    c.get (ls.foldl record r) = (lastNumber c.key ls).getD (c.get r) := by
  induction ls using List.reverseRecOn with
  | nil => rfl
  | append_singleton ls l ih =>
    have hbefore := ih fun l' hl' => hls l' (List.mem_append_left _ hl')
    rw [List.foldl_concat, lastNumber_concat]
    by_cases hkey : l.key = c.key
    · have hread := hls l (List.mem_append_right _ List.mem_cons_self)
      obtain ⟨v, hv⟩ := Option.isSome_iff_exists.mp (hread (by rw [hkey, c.known]; rfl))
      rw [c.get_record hkey, if_pos hkey, hv, Option.getD_some, Option.getD_some]
    · rw [c.get_record_other hkey, if_neg hkey, hbefore]

/-! ## Numbers -/

theorem parseU64_toString (v : UInt64) : parseU64 (toString v) = some v := by
  show (Decimal.read UInt64.size v.toNat.repr.toList).map UInt64.ofNat = some v
  rw [Decimal.read_repr v.toNat_lt]
  exact congrArg some UInt64.ofNat_toNat

/-- A file that gives a key one number gives it in one line. -/
def Gives (ls : List StatLine) (key : String) (v : UInt64) : Prop :=
  (ls.filter (·.key = key)).map (·.value) = [toString v]

instance (ls : List StatLine) (key : String) (v : UInt64) : Decidable (Gives ls key v) :=
  inferInstanceAs (Decidable (_ = _))

theorem Gives.lastNumber (h : Gives ls key v) : lastNumber key ls = some v := by
  obtain ⟨l, hl, hvalue⟩ := List.map_eq_singleton_iff.mp h
  show (ls.filter (·.key = key)).getLast?.bind (·.number) = some v
  rw [hl, List.getLast?_singleton, Option.bind_some, number, hvalue, parseU64_toString]

/-- A `cpu.stat` of the first version, with lines of other keys perhaps. -/
structure IsCpuStat (ls : List StatLine) (p t n : UInt64) : Prop where
  periods : Gives ls "nr_periods" p
  throttled : Gives ls "nr_throttled" t
  time : Gives ls "throttled_time" n

/-! ## The message -/

theorem collectSubsystem_cpu {m m' : Metrics} {stat : String}
    (h : collectSubsystem m (.cpu stat) = .ok m') :
    ∃ cpu, cpuStat stat = .ok cpu ∧ m'.cpu = some cpu := by
  obtain ⟨cpu, hcpu, hm'⟩ := except_bind_ok.mp h
  obtain rfl := Except.ok.inj hm'
  exact ⟨cpu, hcpu, rfl⟩

theorem collectSubsystem_other {m m' : Metrics} {s : Reading} (hs : ∀ stat, s ≠ .cpu stat)
    (h : collectSubsystem m s = .ok m') : m'.cpu = m.cpu := by
  cases s with
  | cpu stat => exact absurd rfl (hs stat)
  | mem counters =>
    obtain rfl := Except.ok.inj h
    rfl
  | pid current max =>
    obtain ⟨counts, _, hm'⟩ := except_bind_ok.mp h
    obtain rfl := Except.ok.inj hm'
    rfl
  | other =>
    obtain rfl := Except.ok.inj h
    rfl

def PidsReadable (subsystems : List Reading) : Prop :=
  ∀ current max, .pid current max ∈ subsystems → ∃ counts, pidCounts current max = .ok counts

variable {subsystems : List Reading} {stat : String} {cpu : CPUStat} {m : Metrics}

/-- The message says of the CPU what the only file of statistics says. -/
theorem cpu_of_collectMetrics (hcpu : .cpu stat ∈ subsystems)
    (hone : ∀ stat', .cpu stat' ∈ subsystems → stat' = stat)
    (h : collectMetrics subsystems = .ok m) : ∃ cpu, cpuStat stat = .ok cpu ∧ m.cpu = some cpu := by
  obtain ⟨before, after, rfl⟩ := List.append_of_mem hcpu
  rw [collectMetrics, List.foldlM_append, except_bind_ok] at h
  obtain ⟨m₁, _, hrest⟩ := h
  rw [List.foldlM_cons, except_bind_ok] at hrest
  obtain ⟨m₂, hm₂, hafter⟩ := hrest
  obtain ⟨cpu, hread, hset⟩ := collectSubsystem_cpu hm₂
  refine ⟨cpu, hread, foldlM_keeps (P := fun m => m.cpu = some cpu) ?_ hafter hset⟩
  intro s hs b c hstep hb
  by_cases hother : ∀ stat', s ≠ .cpu stat'
  · exact (collectSubsystem_other hother hstep).trans hb
  · obtain ⟨stat', rfl⟩ := Classical.not_forall_not.mp hother
    obtain rfl := hone stat' (List.mem_append_right _ (List.mem_cons_of_mem _ hs))
    obtain ⟨cpu', hread', hset'⟩ := collectSubsystem_cpu hstep
    rw [hset', Except.ok.inj (hread'.symm.trans hread)]

theorem exists_collectMetrics (hpids : PidsReadable subsystems)
    (hread : ∀ stat, .cpu stat ∈ subsystems → ∃ cpu, cpuStat stat = .ok cpu) :
    ∃ m, collectMetrics subsystems = .ok m := by
  refine exists_foldlM_ok (fun s hs (m : Metrics) => ?_) {}
  cases s with
  | cpu stat =>
    obtain ⟨cpu, hcpu⟩ := hread stat hs
    exact ⟨{ m with cpu := some cpu }, except_bind_ok.mpr ⟨cpu, hcpu, rfl⟩⟩
  | mem counters => exact ⟨_, rfl⟩
  | pid current max =>
    obtain ⟨counts, hcounts⟩ := hpids current max hs
    refine ⟨{ m with pids := some ⟨counts.1, counts.2⟩ }, except_bind_ok.mpr ⟨counts, ?_, rfl⟩⟩
    rw [hcounts]
    rfl
  | other => exact ⟨m, rfl⟩

/-! ## Throttling -/

theorem throttling_foldl {p t n : UInt64} (hfile : IsCpuStat ls p t n)
    (hls : ∀ l ∈ ls, l.Readable) :
    (ls.foldl record {}).throttling = ⟨p, t, (lastNumber "throttled_usec" ls).getD 0⟩ := by
  have hperiods := Counter.periods.get_foldl (r := {}) hls
  have hthrottled := Counter.throttledPeriods.get_foldl (r := {}) hls
  have htime := Counter.throttledTime.get_foldl (r := {}) hls
  rw [show Counter.periods.key = "nr_periods" from rfl, hfile.periods.lastNumber] at hperiods
  rw [show Counter.throttledPeriods.key = "nr_throttled" from rfl,
    hfile.throttled.lastNumber] at hthrottled
  show Throttle.mk _ _ _ = _
  exact congr (congr (congrArg Throttle.mk hperiods) hthrottled) htime

/-- On a file of the first version, the collector gets through and reports the periods, the
throttled periods and the throttled time exactly if the values of the keys it knows are numbers
and the time is what the last `throttled_usec` line says: nothing, where the file has none of the
keys of the second version. -/
theorem throttling_reported_iff {p t n : UInt64} (hfile : IsCpuStat ls p t n)
    (hcpu : .cpu (statFile ls) ∈ subsystems)
    (hone : ∀ stat, .cpu stat ∈ subsystems → stat = statFile ls) :
    (∃ cpu, cpuStat (statFile ls) = .ok cpu ∧ cpu.throttling = ⟨p, t, n⟩ ∧
      (∀ m, collectMetrics subsystems = .ok m → m.cpu = some cpu) ∧
      (PidsReadable subsystems → ∃ m, collectMetrics subsystems = .ok m)) ↔
    (∀ l ∈ ls, l.Readable) ∧ (lastNumber "throttled_usec" ls).getD 0 = n := by
  constructor
  · rintro ⟨cpu, hread, hthrottling, -, -⟩
    obtain ⟨hls, rfl⟩ := cpuStat_ok.mp hread
    rw [throttling_foldl hfile hls] at hthrottling
    exact ⟨hls, congrArg Throttle.throttledTime hthrottling⟩
  · rintro ⟨hls, hn⟩
    have hread : cpuStat (statFile ls) = .ok (ls.foldl record {}) := cpuStat_ok.mpr ⟨hls, rfl⟩
    refine ⟨_, hread, ?_, ?_, ?_⟩
    · rw [throttling_foldl hfile hls, hn]
    · intro m hm
      obtain ⟨cpu, hcpuRead, hset⟩ := cpu_of_collectMetrics hcpu hone hm
      rw [hset, Except.ok.inj (hcpuRead.symm.trans hread)]
    · intro hpids
      refine exists_collectMetrics hpids fun stat hstat => ?_
      rw [hone stat hstat]
      exact ⟨_, hread⟩

/-- A group that was never held back has no time to report. -/
theorem never_held_back_reported :
    ∃ ls : List StatLine, statFile ls = "nr_periods 10\nnr_throttled 0\nthrottled_time 0\n" ∧
      ∃ cpu, cpuStat (statFile ls) = .ok cpu ∧ cpu.throttling = ⟨10, 0, 0⟩ ∧
        (∀ m, collectMetrics [.other, .cpu (statFile ls)] = .ok m → m.cpu = some cpu) ∧
        (PidsReadable [.other, .cpu (statFile ls)] →
          ∃ m, collectMetrics [.other, .cpu (statFile ls)] = .ok m) := by
  refine ⟨[⟨"nr_periods", "10", by decide, by decide⟩, ⟨"nr_throttled", "0", by decide, by decide⟩,
    ⟨"throttled_time", "0", by decide, by decide⟩], by decide, ?_⟩
  exact (throttling_reported_iff ⟨by decide, by decide, by decide⟩
    (List.mem_cons_of_mem _ List.mem_cons_self) (by simp)).mpr ⟨by decide, by decide⟩

/-- A file of the first version, of a group that was held back for some time. -/
def heldBack : List StatLine := [
  ⟨"nr_periods", "10", by decide, by decide⟩,
  ⟨"nr_throttled", "3", by decide, by decide⟩,
  ⟨"throttled_time", "5000", by decide, by decide⟩]

/-- The time that it was held back is reported as none. -/
theorem throttled_time_lost :
    statFile heldBack = "nr_periods 10\nnr_throttled 3\nthrottled_time 5000\n" ∧
      IsCpuStat heldBack 10 3 5000 ∧
      ∃ cpu, collectMetrics [.cpu (statFile heldBack)] = .ok { cpu := some cpu } ∧
        cpu.throttling = ⟨10, 3, 0⟩ ∧ cpu.throttling ≠ ⟨10, 3, 5000⟩ := by
  have hread : cpuStat (statFile heldBack) = .ok (heldBack.foldl record {}) :=
    cpuStat_ok.mpr ⟨by decide, rfl⟩
  refine ⟨by decide, ⟨by decide, by decide, by decide⟩, heldBack.foldl record {}, ?_, by decide,
    by decide⟩
  show collectMetrics [.cpu (statFile heldBack)] = _
  rw [collectMetrics, List.foldlM_cons, collectSubsystem, hread]
  rfl

end Metrics

end RustExtensions.Shim
