import RustExtensions.Lib.Program
import RustExtensions.Shim.Error

/-!
# Updating the resources of a container

`update_resources` as a program over the calls that it makes of the controllers
of a cgroup. A limit of memory and one of memory plus swap are converted for
cgroup v2, and the order of the two writes is chosen before the first of them.
-/
namespace RustExtensions.Shim

open RustExtensions.Calls

/-! ## Resources -/

/-- The memory limits of an update; -1 is no limit. -/
structure LinuxMemory where
  limit : Option Int64 := none
  swap : Option Int64 := none

structure LinuxCpu where
  cpus : Option String := none
  mems : Option String := none
  shares : Option UInt64 := none
  quota : Option Int64 := none
  period : Option UInt64 := none

structure LinuxHugepageLimit where
  pageSize : String
  limit : Int64

/-- What an update asks for, the number of pids by its limit alone. -/
structure LinuxResources where
  pids : Option Int64 := none
  memory : Option LinuxMemory := none
  cpu : Option LinuxCpu := none
  hugepageLimits : Option (List LinuxHugepageLimit) := none

/-! ## Controllers -/

inductive Subsystem where
  | pid | mem | cpuSet | cpu | hugeTlb | other
  deriving DecidableEq

/-- An error of a controller: its text, and whether a file that is not there is its source. -/
structure CgroupError where
  text : String
  notFound : Bool := false
  deriving DecidableEq

inductive CgroupCall where
  | setPidMax (limit : Int64)
  | limitInBytes
  | setLimit (limit : Int64)
  | setMemswapLimit (limit : Int64)
  | setCpus (cpus : String)
  | setMems (mems : String)
  | setShares (shares : UInt64)
  | setCfsQuota (quota : Int64)
  | setCfsPeriod (period : UInt64)
  | setLimitInBytes (pageSize : String) (limit : UInt64)
  deriving DecidableEq

/-- An answer carries a number only where one was asked for. -/
abbrev CgroupAnswer := Except CgroupError Int64

abbrev Update := ExceptT Error (Program CgroupCall CgroupAnswer)

def CgroupError.other (e : CgroupError) (context : String) : Error :=
  .other s!"{context}: {e.text}"

/-- `controller.set(..).map_err(other_error!(context))?`. -/
def writeLimit (c : CgroupCall) (context : String) : Update Unit :=
  .mk (.call c fun
    | .ok _ => .ret (.ok ())
    | .error e => .ret (.error (e.other context)))

/-- `memory_stat().limit_in_bytes`, which panics where the files cannot be read. -/
def limitInBytes : Update Int64 :=
  .mk (.call .limitInBytes fun
    | .ok limit => .ret (.ok limit)
    | .error _ => .panic)

def writeSome {α : Type} (x : Option α) (c : α → CgroupCall) (context : String) : Update Unit :=
  match x with
  | some a => writeLimit (c a) context
  | none => pure ()

/-! ## Memory -/

/-- `a - b`, where an overflow panics. -/
def checkedSub (a b : Int64) : Option Int64 :=
  if Int64.minValue.toInt ≤ a.toInt - b.toInt ∧ a.toInt - b.toInt ≤ Int64.maxValue.toInt then
    some (a - b)
  else none

/-- Memory plus swap as swap alone; `none` is an overflow, and `some (.ok none)` an unset limit. -/
def swapForV2 (swap : Int64) (limit : Option Int64) : Option (Except Error (Option Int64)) :=
  let limit := limit.getD 0
  if swap = 0 ∧ limit = -1 then some (.ok (some (-1)))
  else if swap = 0 then some (.ok none)
  else if swap = -1 ∨ limit = -1 then some (.ok (some swap))
  else if limit = 0 then some (.error (.other "unable to set swap limit without memory limit"))
  else if limit < 0 then some (.error (.other s!"invalid memory limit {limit}"))
  else if swap < limit then
    some (.error (.other s!"memory+swap limit {swap} should be >= memory limit {limit}"))
  else (checkedSub swap limit).map fun v => .ok (some v)

/-- A zero limit means unset. -/
def LinuxMemory.requested (memory : LinuxMemory) : Option Int64 := memory.limit.filter (· ≠ 0)

/-- The limit of swap that is to be written. -/
def swapLimit (v2 : Bool) (memory : LinuxMemory) : Update (Option Int64) :=
  if v2 then do
    let swap := memory.swap.getD 0
    let limit ← match memory.requested with
      | none => if swap > 0 then some <$> limitInBytes else pure none
      | some limit => pure (some limit)
    match swapForV2 swap limit with
    | some (.ok v) => pure v
    | some (.error e) => throw e
    | none => .mk .panic
  else pure (memory.swap.filter (· ≠ 0))

def setLimit (limit : Option Int64) : Update Unit := writeSome limit .setLimit "set mem limit"

/-- On v2 a host without swap accounting has no file for the limit, which is as good as no limit. -/
def setSwap (v2 : Bool) : Option Int64 → Update Unit
  | some swap =>
    .mk (.call (.setMemswapLimit swap) fun
      | .ok _ => .ret (.ok ())
      | .error e =>
        if v2 ∧ (swap = 0 ∨ swap = -1) ∧ e.notFound then .ret (.ok ())
        else .ret (.error (e.other "set memsw limit")))
  | none => pure ()

/-- On v1 the limit that counts both goes first only when it is raised along with the other. -/
def swapFirst (v2 : Bool) (limit swap : Option Int64) : Update Bool :=
  if v2 then pure true
  else
    match limit, swap with
    | some _, some swap =>
      if swap = -1 then pure true else (fun current => decide (current < swap)) <$> limitInBytes
    | _, _ => pure false

def updateMemory (v2 : Bool) (memory : LinuxMemory) : Update Unit := do
  let limit := memory.requested
  let swap ← swapLimit v2 memory
  if ← swapFirst v2 limit swap then
    setSwap v2 swap
    setLimit limit
  else
    setLimit limit
    setSwap v2 swap

/-! ## All controllers -/

def updateSubsystem (v2 : Bool) (resources : LinuxResources) : Subsystem → Update Unit
  | .pid => writeSome resources.pids .setPidMax "set pid max"
  | .mem =>
    match resources.memory with
    | some memory => updateMemory v2 memory
    | none => pure ()
  | .cpuSet =>
    match resources.cpu with
    | some cpu => do
      writeSome cpu.cpus .setCpus "set CPU sets"
      writeSome cpu.mems .setMems "set CPU memes"
    | none => pure ()
  | .cpu =>
    match resources.cpu with
    | some cpu => do
      writeSome cpu.shares .setShares "set CPU share"
      writeSome cpu.quota .setCfsQuota "set CPU quota"
      writeSome cpu.period .setCfsPeriod "set CPU period"
    | none => pure ()
  | .hugeTlb =>
    match resources.hugepageLimits with
    | some limits =>
      limits.forM fun l =>
        writeLimit (.setLimitInBytes l.pageSize l.limit.toUInt64) "set huge page limit"
    | none => pure ()
  | .other => pure ()

def updateResources (v2 : Bool) (subsystems : List Subsystem) (resources : LinuxResources) :
    Update Unit := subsystems.forM (updateSubsystem v2 resources)

end RustExtensions.Shim
