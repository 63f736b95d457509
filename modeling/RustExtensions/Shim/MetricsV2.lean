import Mathlib.Algebra.Group.Nat.Defs
import RustExtensions.Lib.KeyedMap
import RustExtensions.Lib.Substring
import RustExtensions.Shim.Metrics
import RustExtensions.Shim.MountTable

/-!
# The metrics of a cgroup of the second version

`collect_metrics_v2` reads files of keys and numbers into a map, and puts what
the map holds under the keys it knows into the message. No line of such a file
makes it fail.
-/
namespace RustExtensions.Shim

open RustExtensions.Fallible
open RustExtensions.KeyedMap (Map)

/-- Why a file could not be read. -/
inductive ReadError where
  | notFound
  | other (err : String)
  deriving DecidableEq

/-- What the memory controller and the two files beside it say. `raw` is `memory.stat`, as
`cgroups-rs` has read it. -/
structure MemoryReadings where
  raw : Map String UInt64 := ∅
  usageInBytes : UInt64 := 0
  limitInBytes : Int64 := 0
  maxUsageInBytes : UInt64 := 0
  swapUsageInBytes : UInt64 := 0
  swapMaxUsageInBytes : UInt64 := 0
  swapMax : Except ReadError String := .error .notFound
  events : Except ReadError String := .error .notFound

inductive ReadingV2 where
  | cpu (stat : String)
  | mem (readings : MemoryReadings)
  | pid (current : Except CgroupError UInt64) (max : Except CgroupError MaxValue)
  | other

structure CPUStatV2 where
  usageUsec : UInt64 := 0
  userUsec : UInt64 := 0
  systemUsec : UInt64 := 0
  nrPeriods : UInt64 := 0
  nrThrottled : UInt64 := 0
  throttledUsec : UInt64 := 0
  nrBursts : UInt64 := 0
  burstUsec : UInt64 := 0
  deriving DecidableEq

structure MemoryStatV2 where
  anon : UInt64 := 0
  file : UInt64 := 0
  kernelStack : UInt64 := 0
  slab : UInt64 := 0
  sock : UInt64 := 0
  shmem : UInt64 := 0
  fileMapped : UInt64 := 0
  fileDirty : UInt64 := 0
  fileWriteback : UInt64 := 0
  anonThp : UInt64 := 0
  inactiveAnon : UInt64 := 0
  activeAnon : UInt64 := 0
  inactiveFile : UInt64 := 0
  activeFile : UInt64 := 0
  unevictable : UInt64 := 0
  slabReclaimable : UInt64 := 0
  slabUnreclaimable : UInt64 := 0
  pgfault : UInt64 := 0
  pgmajfault : UInt64 := 0
  workingsetRefault : UInt64 := 0
  workingsetActivate : UInt64 := 0
  workingsetNodereclaim : UInt64 := 0
  pgrefill : UInt64 := 0
  pgscan : UInt64 := 0
  pgsteal : UInt64 := 0
  pgactivate : UInt64 := 0
  pgdeactivate : UInt64 := 0
  pglazyfree : UInt64 := 0
  pglazyfreed : UInt64 := 0
  thpFaultAlloc : UInt64 := 0
  thpCollapseAlloc : UInt64 := 0
  usage : UInt64 := 0
  usageLimit : UInt64 := 0
  maxUsage : UInt64 := 0
  swapUsage : UInt64 := 0
  swapLimit : UInt64 := 0
  swapMaxUsage : UInt64 := 0
  deriving DecidableEq

structure MemoryEvents where
  low : UInt64 := 0
  high : UInt64 := 0
  max : UInt64 := 0
  oom : UInt64 := 0
  oomKill : UInt64 := 0
  oomGroupKill : UInt64 := 0
  deriving DecidableEq

structure MetricsV2 where
  cpu : Option CPUStatV2 := none
  memory : Option MemoryStatV2 := none
  memoryEvents : Option MemoryEvents := none
  pids : Option PidsStat := none
  deriving DecidableEq

/-- A key of a file, and the number of a message that it sets. -/
structure StatField (R : Type) where
  key : String
  get : R → UInt64
  set : UInt64 → R → R

namespace MetricsV2

/-- A line of `flat_keyed`. -/
def flatLine (line : String) : Option (String × UInt64) := do
  let (key, value) ← Substring.splitOnce [' '] line.toList
  let v ← Metrics.parseU64 (trim (String.ofList value))
  return (String.ofList key, v)

def flatKeyed (content : String) : Map String UInt64 :=
  ((lines content).filterMap flatLine).foldl (fun m p => m.insert p.1 p.2) ∅

/-- A limit as `cgroups-rs` reports it, where a negative value means none. -/
def limit (value : Int64) : UInt64 :=
  if value < 0 then UInt64.ofNat (UInt64.size - 1) else value.toUInt64

/-- Every key that the map does not have counts as 0. -/
def setAll {R : Type} (fields : List (StatField R)) (stat : Map String UInt64) (r : R) : R :=
  fields.foldl (fun r f => f.set ((stat.lookup f.key).getD 0) r) r

def cpuFields : List (StatField CPUStatV2) := [
  ⟨"usage_usec", (·.usageUsec), fun v r => { r with usageUsec := v }⟩,
  ⟨"user_usec", (·.userUsec), fun v r => { r with userUsec := v }⟩,
  ⟨"system_usec", (·.systemUsec), fun v r => { r with systemUsec := v }⟩,
  ⟨"nr_periods", (·.nrPeriods), fun v r => { r with nrPeriods := v }⟩,
  ⟨"nr_throttled", (·.nrThrottled), fun v r => { r with nrThrottled := v }⟩,
  ⟨"throttled_usec", (·.throttledUsec), fun v r => { r with throttledUsec := v }⟩,
  ⟨"nr_bursts", (·.nrBursts), fun v r => { r with nrBursts := v }⟩,
  ⟨"burst_usec", (·.burstUsec), fun v r => { r with burstUsec := v }⟩]

def memoryFields : List (StatField MemoryStatV2) := [
  ⟨"anon", (·.anon), fun v r => { r with anon := v }⟩,
  ⟨"file", (·.file), fun v r => { r with file := v }⟩,
  ⟨"kernel_stack", (·.kernelStack), fun v r => { r with kernelStack := v }⟩,
  ⟨"slab", (·.slab), fun v r => { r with slab := v }⟩,
  ⟨"sock", (·.sock), fun v r => { r with sock := v }⟩,
  ⟨"shmem", (·.shmem), fun v r => { r with shmem := v }⟩,
  ⟨"file_mapped", (·.fileMapped), fun v r => { r with fileMapped := v }⟩,
  ⟨"file_dirty", (·.fileDirty), fun v r => { r with fileDirty := v }⟩,
  ⟨"file_writeback", (·.fileWriteback), fun v r => { r with fileWriteback := v }⟩,
  ⟨"anon_thp", (·.anonThp), fun v r => { r with anonThp := v }⟩,
  ⟨"inactive_anon", (·.inactiveAnon), fun v r => { r with inactiveAnon := v }⟩,
  ⟨"active_anon", (·.activeAnon), fun v r => { r with activeAnon := v }⟩,
  ⟨"inactive_file", (·.inactiveFile), fun v r => { r with inactiveFile := v }⟩,
  ⟨"active_file", (·.activeFile), fun v r => { r with activeFile := v }⟩,
  ⟨"unevictable", (·.unevictable), fun v r => { r with unevictable := v }⟩,
  ⟨"slab_reclaimable", (·.slabReclaimable), fun v r => { r with slabReclaimable := v }⟩,
  ⟨"slab_unreclaimable", (·.slabUnreclaimable), fun v r => { r with slabUnreclaimable := v }⟩,
  ⟨"pgfault", (·.pgfault), fun v r => { r with pgfault := v }⟩,
  ⟨"pgmajfault", (·.pgmajfault), fun v r => { r with pgmajfault := v }⟩,
  ⟨"workingset_refault", (·.workingsetRefault), fun v r => { r with workingsetRefault := v }⟩,
  ⟨"workingset_activate", (·.workingsetActivate),
    fun v r => { r with workingsetActivate := v }⟩,
  ⟨"workingset_nodereclaim", (·.workingsetNodereclaim),
    fun v r => { r with workingsetNodereclaim := v }⟩,
  ⟨"pgrefill", (·.pgrefill), fun v r => { r with pgrefill := v }⟩,
  ⟨"pgscan", (·.pgscan), fun v r => { r with pgscan := v }⟩,
  ⟨"pgsteal", (·.pgsteal), fun v r => { r with pgsteal := v }⟩,
  ⟨"pgactivate", (·.pgactivate), fun v r => { r with pgactivate := v }⟩,
  ⟨"pgdeactivate", (·.pgdeactivate), fun v r => { r with pgdeactivate := v }⟩,
  ⟨"pglazyfree", (·.pglazyfree), fun v r => { r with pglazyfree := v }⟩,
  ⟨"pglazyfreed", (·.pglazyfreed), fun v r => { r with pglazyfreed := v }⟩,
  ⟨"thp_fault_alloc", (·.thpFaultAlloc), fun v r => { r with thpFaultAlloc := v }⟩,
  ⟨"thp_collapse_alloc", (·.thpCollapseAlloc), fun v r => { r with thpCollapseAlloc := v }⟩]

def eventFields : List (StatField MemoryEvents) := [
  ⟨"low", (·.low), fun v r => { r with low := v }⟩,
  ⟨"high", (·.high), fun v r => { r with high := v }⟩,
  ⟨"max", (·.max), fun v r => { r with max := v }⟩,
  ⟨"oom", (·.oom), fun v r => { r with oom := v }⟩,
  ⟨"oom_kill", (·.oomKill), fun v r => { r with oomKill := v }⟩,
  ⟨"oom_group_kill", (·.oomGroupKill), fun v r => { r with oomGroupKill := v }⟩]

def cpuStat (stat : String) : CPUStatV2 := setAll cpuFields (flatKeyed stat) {}

/-- What `memory.swap.max` says, read by hand. -/
def swapLimit : Except ReadError String → UInt64
  | .ok value =>
    if trim value = "max" then UInt64.ofNat (UInt64.size - 1)
    else (Metrics.parseU64 (trim value)).getD 0
  | .error _ => 0

def memoryStat (mem : MemoryReadings) : MemoryStatV2 :=
  { setAll memoryFields mem.raw {} with
    usage := mem.usageInBytes
    usageLimit := limit mem.limitInBytes
    maxUsage := mem.maxUsageInBytes
    swapUsage := mem.swapUsageInBytes
    swapLimit := swapLimit mem.swapMax
    swapMaxUsage := mem.swapMaxUsageInBytes }

/-- A group without the file has had no events. -/
def readEvents : Except ReadError String → Except Error MemoryEvents
  | .ok events => .ok (setAll eventFields (flatKeyed events) {})
  | .error .notFound => .ok (setAll eventFields (flatKeyed "") {})
  | .error (.other err) => .error (.ioError "read memory.events" err)

def collectSubsystem (metrics : MetricsV2) : ReadingV2 → Except Error MetricsV2
  | .cpu stat => return { metrics with cpu := some (cpuStat stat) }
  | .mem mem => do
    let events ← readEvents mem.events
    return { metrics with memory := some (memoryStat mem), memoryEvents := some events }
  | .pid current max => do
    let (current, limit) ← Metrics.pidCounts current max
    return { metrics with pids := some { current, limit } }
  | .other => return metrics

def collectMetricsV2 (subsystems : List ReadingV2) : Except Error MetricsV2 :=
  subsystems.foldlM collectSubsystem {}

/-! ## What the fields hold -/

theorem cpuFields_set (stat : Map String UInt64) (r : CPUStatV2) :
    ∀ f ∈ cpuFields, f.get (setAll cpuFields stat r) = (stat.lookup f.key).getD 0 := by
  simp only [cpuFields, List.forall_mem_cons, List.not_mem_nil, false_imp_iff, implies_true,
    and_true]
  refine ⟨rfl, rfl, rfl, rfl, rfl, rfl, rfl, rfl⟩

theorem memoryFields_set (mem : MemoryReadings) :
    ∀ f ∈ memoryFields, f.get (memoryStat mem) = (mem.raw.lookup f.key).getD 0 := by
  simp only [memoryFields, List.forall_mem_cons, List.not_mem_nil, false_imp_iff, implies_true,
    and_true]
  repeat' apply And.intro
  all_goals rfl

theorem eventFields_set (stat : Map String UInt64) (r : MemoryEvents) :
    ∀ f ∈ eventFields, f.get (setAll eventFields stat r) = (stat.lookup f.key).getD 0 := by
  simp only [eventFields, List.forall_mem_cons, List.not_mem_nil, false_imp_iff, implies_true,
    and_true]
  exact ⟨rfl, rfl, rfl, rfl, rfl, rfl⟩

/-! ## Reading a file -/

/-- The line has the number `v` behind its key. -/
def Says (line key : String) (v : UInt64) : Prop := ∃ value, line = key ++ " " ++ value ∧
  ' ' ∉ key.toList ∧ Metrics.parseU64 (trim value) = some v

/-- The file counts `n` under the key: its last line that says a number there says this one,
or there is none and `n` is 0. -/
def Counts (content key : String) (n : UInt64) : Prop :=
  (∃ before line after, lines content = before ++ line :: after ∧ Says line key n ∧
    ∀ l ∈ after, ∀ v, ¬Says l key v) ∨
  n = 0 ∧ ∀ l ∈ lines content, ∀ v, ¬Says l key v

theorem flatLine_eq_some {line key : String} {v : UInt64} :
    flatLine line = some (key, v) ↔ Says line key v := by
  simp only [flatLine, Option.bind_eq_bind, Option.bind_eq_some_iff, Option.pure_def,
    Option.some.injEq, Prod.mk.injEq, Prod.exists, Substring.splitOnce_singleton]
  constructor
  · rintro ⟨a, b, ⟨ha, hline⟩, _, hv, rfl, rfl⟩
    refine ⟨String.ofList b, ?_, by simpa using ha, hv⟩
    rw [← String.toList_inj, hline]
    simp
  · rintro ⟨value, rfl, hkey, hv⟩
    refine ⟨key.toList, value.toList, ⟨hkey, by simp⟩, v, ?_, String.ofList_toList, rfl⟩
    rwa [String.ofList_toList]

theorem dropWhile_of_not {p : Char → Bool} {l : List Char} (h : ∀ c ∈ l, p c = false) :
    l.dropWhile p = l := by
  cases l with
  | nil => rfl
  | cons c l => rw [List.dropWhile_cons_of_neg (by simp [h c List.mem_cons_self])]

/-- Trimming leaves a word as it is. -/
theorem trim_word {s : String} (h : IsWord s) : trim s = s := by
  have hrev : ∀ c ∈ s.toList.reverse, isWhitespace c = false :=
    fun c hc => h.2 c (List.mem_reverse.mp hc)
  rw [trim, dropWhile_of_not h.2, dropWhile_of_not hrev, List.reverse_reverse, String.ofList_toList]

theorem lookup_insertAll (ps : List (String × UInt64)) (m : Map String UInt64) (key : String) :
    (ps.foldl (fun m p => m.insert p.1 p.2) m).lookup key =
      ((ps.filterMap fun p => if p.1 = key then some p.2 else none).getLast?).or
        (m.lookup key) := by
  induction ps using List.reverseRecOn with
  | nil => rfl
  | append_singleton ps p ih =>
    rw [List.foldl_concat, KeyedMap.Map.lookup_insert_eq, ih, List.filterMap_append]
    by_cases hkey : p.1 = key
    · simp [hkey]
    · simp [hkey, Ne.symm hkey]

theorem flatKeyed_lookup (content key : String) : (flatKeyed content).lookup key =
    (lines content).reverse.findSome? fun line =>
      (flatLine line).bind fun p => if p.1 = key then some p.2 else none := by
  rw [flatKeyed, lookup_insertAll, AList.lookup_empty, Option.or_none, List.filterMap_filterMap,
    List.getLast?_filterMap]

/-- Under each key the map has what the file counts there. -/
theorem counts_flatKeyed (content key : String) :
    Counts content key (((flatKeyed content).lookup key).getD 0) := by
  have hline_iff (line : String) (v : UInt64) :
      ((flatLine line).bind fun p => if p.1 = key then some p.2 else none) = some v ↔
        Says line key v := by
    rw [← flatLine_eq_some, Option.bind_eq_some_iff]
    constructor
    · rintro ⟨⟨k, n⟩, hline, hkey⟩
      obtain ⟨rfl, hn⟩ := Option.ite_none_right_eq_some.mp hkey
      obtain rfl := Option.some.inj hn
      exact hline
    · intro hline
      exact ⟨_, hline, if_pos rfl⟩
  have hnone (line : String) :
      ((flatLine line).bind fun p => if p.1 = key then some p.2 else none) = none →
        ∀ v, ¬Says line key v := by
    intro hline v hv
    rw [← hline_iff, hline] at hv
    cases hv
  rw [flatKeyed_lookup]
  cases hfind : (lines content).reverse.findSome? _ with
  | none =>
    rw [List.findSome?_eq_none_iff] at hfind
    exact Or.inr ⟨rfl, fun l hl => hnone l (hfind l (List.mem_reverse.mpr hl))⟩
  | some n =>
    obtain ⟨after, line, before, hlines, hn, hafter⟩ := List.findSome?_eq_some_iff.mp hfind
    refine Or.inl ⟨before.reverse, line, after.reverse, ?_, (hline_iff line n).mp hn, fun l hl => ?_⟩
    · rw [← List.reverse_inj, hlines]
      simp
    · exact hnone l (hafter l (List.mem_reverse.mp hl))

/-- The kernel ends a file of one value with a line feed. -/
theorem trim_line {s : String} (h : IsWord s) : trim (s ++ "\n") = s := by
  obtain ⟨hne, hword⟩ := h
  obtain ⟨c, l, hl⟩ := List.exists_cons_of_ne_nil hne
  have hc : ¬isWhitespace c = true := by
    rw [hword c (hl ▸ List.mem_cons_self)]
    exact Bool.false_ne_true
  have hrev : ∀ d ∈ s.toList.reverse, isWhitespace d = false :=
    fun d hd => hword d (List.mem_reverse.mp hd)
  have hstart : (s ++ "\n").toList.dropWhile isWhitespace = s.toList ++ ['\n'] := by
    rw [String.toList_append, hl]
    exact List.dropWhile_cons_of_neg hc
  rw [trim, hstart, List.reverse_append, List.reverse_singleton, List.singleton_append,
    List.dropWhile_cons_of_pos (by decide), dropWhile_of_not hrev, List.reverse_reverse,
    String.ofList_toList]

theorem swapLimit_number (v : UInt64) : swapLimit (.ok (toString v ++ "\n")) = v := by
  have hword : IsWord (toString v) := isField_repr v.toNat
  have hmax : toString v ≠ "max" := fun hmax => by
    have hparse := Metrics.parseU64_toString v
    rw [hmax] at hparse
    cases (show Metrics.parseU64 "max" = none by decide).symm.trans hparse
  rw [swapLimit, trim_line hword, if_neg hmax, Metrics.parseU64_toString, Option.getD_some]

/-! ## The message -/

/-- What the last CPU controller reads. -/
def lastCpu (subsystems : List ReadingV2) : Option String :=
  (subsystems.filterMap fun | .cpu stat => some stat | _ => none).getLast?

def lastMem (subsystems : List ReadingV2) : Option MemoryReadings :=
  (subsystems.filterMap fun | .mem mem => some mem | _ => none).getLast?

theorem collectMetricsV2_ok {subsystems : List ReadingV2} {m : MetricsV2}
    (h : collectMetricsV2 subsystems = .ok m) :
    m.cpu = (lastCpu subsystems).map cpuStat ∧ m.memory = (lastMem subsystems).map memoryStat ∧
      ∀ mem, lastMem subsystems = some mem →
        ∃ events, readEvents mem.events = .ok events ∧ m.memoryEvents = some events := by
  induction subsystems using List.reverseRecOn generalizing m with
  | nil =>
    obtain rfl := Except.ok.inj h
    exact ⟨rfl, rfl, nofun⟩
  | append_singleton subsystems s ih =>
    rw [collectMetricsV2, List.foldlM_append, except_bind_ok] at h
    obtain ⟨before, hbefore, hs⟩ := h
    obtain ⟨hcpu, hmemory, hevents⟩ := ih hbefore
    have hs : collectSubsystem before s = .ok m := by simpa using hs
    cases s with
    | cpu stat =>
      obtain rfl := Except.ok.inj hs
      refine ⟨by simp [lastCpu], ?_, ?_⟩
      · simpa [lastMem] using hmemory
      · simpa [lastMem] using hevents
    | mem mem =>
      obtain ⟨events, hread, hm⟩ := except_bind_ok.mp hs
      obtain rfl := Except.ok.inj hm
      refine ⟨by simpa [lastCpu] using hcpu, by simp [lastMem], fun mem' hmem' => ?_⟩
      obtain rfl : mem = mem' := by simpa [lastMem] using hmem'
      exact ⟨events, hread, rfl⟩
    | pid current max =>
      obtain ⟨counts, -, hm⟩ := except_bind_ok.mp hs
      obtain rfl := Except.ok.inj hm
      refine ⟨by simpa [lastCpu] using hcpu, ?_, ?_⟩
      · simpa [lastMem] using hmemory
      · simpa [lastMem] using hevents
    | other =>
      obtain rfl := Except.ok.inj hs
      refine ⟨by simpa [lastCpu] using hcpu, ?_, ?_⟩
      · simpa [lastMem] using hmemory
      · simpa [lastMem] using hevents

/-- Whatever text the files hold, every count is what the last line says that says a number under
its key, and 0 where none does; and a limit of swap is reported as it was set. -/
theorem counts_reported {subsystems : List ReadingV2} {m : MetricsV2}
    (h : collectMetricsV2 subsystems = .ok m) :
    (∀ stat, lastCpu subsystems = some stat → ∃ cpu, m.cpu = some cpu ∧
      ∀ f ∈ cpuFields, Counts stat f.key (f.get cpu)) ∧
    ∀ mem, lastMem subsystems = some mem → ∃ memory events, m.memory = some memory ∧
      m.memoryEvents = some events ∧
      (∀ f ∈ memoryFields, f.get memory = (mem.raw.lookup f.key).getD 0) ∧
      (∀ v : UInt64, mem.swapMax = .ok (toString v ++ "\n") → memory.swapLimit = v) ∧
      (mem.swapMax = .ok "max\n" → memory.swapLimit.toNat = 2 ^ 64 - 1) ∧
      (∀ text, mem.events = .ok text → ∀ f ∈ eventFields, Counts text f.key (f.get events)) ∧
      (mem.events = .error .notFound → ∀ f ∈ eventFields, f.get events = 0) := by
  obtain ⟨hcpu, hmemory, hevents⟩ := collectMetricsV2_ok h
  refine ⟨fun stat hstat => ?_, fun mem hmem => ?_⟩
  · rw [hstat] at hcpu
    refine ⟨cpuStat stat, hcpu, fun f hf => ?_⟩
    rw [cpuStat, cpuFields_set _ _ f hf]
    exact counts_flatKeyed stat f.key
  · rw [hmem] at hmemory
    obtain ⟨events, hread, hset⟩ := hevents mem hmem
    refine ⟨memoryStat mem, events, hmemory, hset, memoryFields_set mem, fun v hv => ?_,
      fun hv => ?_, fun text htext f hf => ?_, fun hmissing f hf => ?_⟩
    · show swapLimit mem.swapMax = v
      rw [hv, swapLimit_number]
    · show (swapLimit mem.swapMax).toNat = 2 ^ 64 - 1
      rw [hv]
      decide
    · rw [htext] at hread
      obtain rfl := Except.ok.inj hread
      rw [eventFields_set _ _ f hf]
      exact counts_flatKeyed text f.key
    · rw [hmissing] at hread
      obtain rfl := Except.ok.inj hread
      have hempty : flatKeyed "" = ∅ := by simp [flatKeyed, lines]
      rw [eventFields_set _ _ f hf, hempty, AList.lookup_empty, Option.getD_none]

/-- The last line of a key need not be readable. -/
def unreadableStat : String := "nr_periods 10\nusage_usec 7\nnr_periods x\n"

/-- A group without a limit of swap, and without a file of events. -/
def unlimited : List ReadingV2 := [
  .cpu unreadableStat,
  .mem { raw := (∅ : Map String UInt64).insert "anon" 5, swapMax := .ok "max\n" }]

theorem counts_reported_unlimited : ∃ m, collectMetricsV2 unlimited = .ok m ∧
    (∃ cpu, m.cpu = some cpu ∧ cpu.nrPeriods = 10 ∧
      ∀ f ∈ cpuFields, Counts unreadableStat f.key (f.get cpu)) ∧
    ∃ memory events, m.memory = some memory ∧ m.memoryEvents = some events ∧
      (∀ f ∈ memoryFields,
        f.get memory = (((∅ : Map String UInt64).insert "anon" 5).lookup f.key).getD 0) ∧
      memory.swapLimit.toNat = 2 ^ 64 - 1 ∧ ∀ f ∈ eventFields, f.get events = 0 := by
  obtain ⟨m, hm, hperiods⟩ : ∃ m, collectMetricsV2 unlimited = .ok m ∧
      m.cpu.map (·.nrPeriods) = some 10 := ⟨_, rfl, by decide +kernel⟩
  obtain ⟨hcpu, hmem⟩ := counts_reported hm
  obtain ⟨cpu, hcpu, hcounts⟩ := hcpu unreadableStat rfl
  obtain ⟨memory, events, hmemory, hevents, hstat, -, hlimit, -, hmissing⟩ := hmem _ rfl
  rw [hcpu] at hperiods
  exact ⟨m, hm, ⟨cpu, hcpu, Option.some.inj hperiods, hcounts⟩,
    memory, events, hmemory, hevents, hstat, hlimit rfl, hmissing rfl⟩

/-! ## The two versions -/

end MetricsV2

namespace Metrics.Counter

def total : Counter where
  key := "usage_usec"
  get r := r.usage.total
  set v r := { r with usage := { r.usage with total := v } }
  known := rfl
  get_set _ _ := rfl
  get_other k f hset hkey v r := by
    unfold setter at hset
    split at hset <;> first | exact absurd rfl hkey | cases hset <;> rfl

def user : Counter where
  key := "user_usec"
  get r := r.usage.user
  set v r := { r with usage := { r.usage with user := v } }
  known := rfl
  get_set _ _ := rfl
  get_other k f hset hkey v r := by
    unfold setter at hset
    split at hset <;> first | exact absurd rfl hkey | cases hset <;> rfl

def kernel : Counter where
  key := "system_usec"
  get r := r.usage.kernel
  set v r := { r with usage := { r.usage with kernel := v } }
  known := rfl
  get_set _ _ := rfl
  get_other k f hset hkey v r := by
    unfold setter at hset
    split at hset <;> first | exact absurd rfl hkey | cases hset <;> rfl

end Metrics.Counter

namespace MetricsV2

/-- What the last line of a key says that says a number. -/
def lastCount (key : String) (ls : List StatLine) : Option UInt64 :=
  (ls.filterMap fun l => if l.key = key then l.number else none).getLast?

theorem flatLine_text (l : StatLine) : flatLine l.text = l.number.map fun v => (l.key, v) := by
  have hkey : ' ' ∉ l.key.toList := fun hc => by
    have hspace := l.key_word.2 _ hc
    cases hspace
  have htext : l.text.toList = l.key.toList ++ ([' '] ++ l.value.toList) := by
    simp [StatLine.text, String.toList_append]
  have hsplit : Substring.splitOnce [' '] l.text.toList = some (l.key.toList, l.value.toList) := by
    rw [htext, Substring.splitOnce_append_of_not_mem hkey, Substring.splitOnce_append]
    simp
  simp only [flatLine, hsplit, String.ofList_toList, trim_word l.value_word, StatLine.number,
    Option.bind_eq_bind, Option.bind_some]
  cases Metrics.parseU64 l.value with
  | none => rfl
  | some v => rfl

theorem flatKeyed_statFile (key : String) (ls : List StatLine) :
    (flatKeyed (statFile ls)).lookup key = lastCount key ls := by
  rw [flatKeyed, Metrics.lines_statFile, lookup_insertAll, AList.lookup_empty, Option.or_none,
    lastCount, List.filterMap_map, List.filterMap_filterMap]
  congr 1
  refine List.filterMap_congr fun l _ => ?_
  rw [Function.comp_apply, flatLine_text]
  cases l.number with
  | none => simp
  | some v => simp

variable {ls : List StatLine} {key : String} {r : CPUStat}

theorem lastCount_concat (l : StatLine) : lastCount key (ls ++ [l]) =
    (if l.key = key then l.number else none).or (lastCount key ls) := by
  rw [lastCount, List.filterMap_append]
  by_cases hkey : l.key = key
  · cases hnumber : l.number with
    | none => simp [hkey, hnumber, lastCount]
    | some v => simp [hkey, hnumber]
  · simp [hkey, lastCount]

/-- Where all lines of a key are readable, the last one is the last that says a number. -/
theorem lastCount_eq (h : ∀ l ∈ ls, l.key = key → l.number.isSome) :
    lastCount key ls = lastNumber key ls := by
  induction ls using List.reverseRecOn with
  | nil => rfl
  | append_singleton ls l ih =>
    have hbefore := ih fun l' hl' => h l' (List.mem_append_left _ hl')
    rw [lastCount_concat, Metrics.lastNumber_concat, hbefore]
    by_cases hkey : l.key = key
    · obtain ⟨v, hv⟩ := Option.isSome_iff_exists.mp
        (h l (List.mem_append_right _ List.mem_cons_self) hkey)
      rw [if_pos hkey, if_pos hkey, hv, Option.some_or]
    · rw [if_neg hkey, if_neg hkey, Option.none_or]

theorem counter_eq (c : Metrics.Counter) (hls : ∀ l ∈ ls, l.Readable) :
    c.get (ls.foldl StatLine.record {}) = (lastCount c.key ls).getD (c.get {}) := by
  rw [c.get_foldl hls, lastCount_eq fun l hl hkey => hls l hl (by rw [hkey, c.known]; rfl)]

theorem cpuStat_eq (stat : String) : cpuStat stat = {
    usageUsec := ((flatKeyed stat).lookup "usage_usec").getD 0
    userUsec := ((flatKeyed stat).lookup "user_usec").getD 0
    systemUsec := ((flatKeyed stat).lookup "system_usec").getD 0
    nrPeriods := ((flatKeyed stat).lookup "nr_periods").getD 0
    nrThrottled := ((flatKeyed stat).lookup "nr_throttled").getD 0
    throttledUsec := ((flatKeyed stat).lookup "throttled_usec").getD 0
    nrBursts := ((flatKeyed stat).lookup "nr_bursts").getD 0
    burstUsec := ((flatKeyed stat).lookup "burst_usec").getD 0 } := by
  simp only [cpuStat, setAll, cpuFields, List.foldl_cons, List.foldl_nil]

/-- Of a file of two-word lines that the collector of the first version gets through, the second
version reports the same usage and throttling. -/
theorem versions_agree (h : Metrics.cpuStat (statFile ls) = .ok r) :
    (cpuStat (statFile ls)).usageUsec = r.usage.total ∧
      (cpuStat (statFile ls)).userUsec = r.usage.user ∧
      (cpuStat (statFile ls)).systemUsec = r.usage.kernel ∧
      (cpuStat (statFile ls)).nrPeriods = r.throttling.periods ∧
      (cpuStat (statFile ls)).nrThrottled = r.throttling.throttledPeriods ∧
      (cpuStat (statFile ls)).throttledUsec = r.throttling.throttledTime := by
  obtain ⟨hls, rfl⟩ := Metrics.cpuStat_ok.mp h
  have hcount (c : Metrics.Counter) (key : String) (hkey : c.key = key) (hzero : c.get {} = 0) :
      ((flatKeyed (statFile ls)).lookup key).getD 0 = c.get (ls.foldl StatLine.record {}) := by
    rw [flatKeyed_statFile, counter_eq c hls, hzero, hkey]
  simp only [cpuStat_eq]
  exact ⟨hcount .total _ rfl rfl, hcount .user _ rfl rfl, hcount .kernel _ rfl rfl,
    hcount .periods _ rfl rfl, hcount .throttledPeriods _ rfl rfl,
    hcount .throttledTime _ rfl rfl⟩

/-- Two lines of one key, and one that the first version does not know. -/
def usedTwice : List StatLine := [
  ⟨"usage_usec", "7", by decide, by decide⟩,
  ⟨"nr_bursts", "2", by decide, by decide⟩,
  ⟨"usage_usec", "9", by decide, by decide⟩]

theorem versions_agree_usedTwice : (cpuStat (statFile usedTwice)).usageUsec = 9 := by
  have hread : Metrics.cpuStat (statFile usedTwice) = .ok { usage := { total := 9 } } := by
    decide +kernel
  exact (versions_agree hread).1

end MetricsV2
end RustExtensions.Shim
