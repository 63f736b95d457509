import RustExtensions.Lib.Transition
import RustExtensions.RuncShim.Task

/-!
# The shim

The exit pump and the `delete` action of the shim binary, and the running shim:
any number of requests between their sections, the exit pump, and the channel
of published events, as a partial step function.
-/
namespace RustExtensions.RuncShim

open RustExtensions.Shim
open RustExtensions.Fallible
open RustExtensions.Transition
open RustExtensions.KeyedMap (Map)

/-! ## The exit pump -/

/-- What the pump meets while it handles one event. `order` is the iteration
order of the containers, each with the iteration order of its execs. -/
structure PumpAnswers where
  order : List (String × List String)
  /-- `should_kill_all_on_exit`, by bundle. -/
  killAll : String → Bool := fun _ => false
  kill : Answers := {}
  now : OffsetDateTime

/-- A run of `set_exited`: the entry, its process, and what was recorded. -/
structure Exit where
  inst : Nat
  proc : Option Nat
  code : Int32
  exitedAt : OffsetDateTime
  deriving DecidableEq

/-- `set_exited` on the process found, and the event to publish. -/
def exitProcess (containerId : String) (execId : Option String) (code : Int32)
    (now : OffsetDateTime) : Method Container (Published × Exit) :=
  Container.onMutProcess execId fun S => do
    ProcessTemplate.setExited code now
    let p ← getProcess (P := ProcessTemplate S)
    let ts := convertToTimestamp p.exitedAt
    let event := .taskExit containerId p.id p.pid.toUInt32 p.exitCode.toUInt32 ts
    return (.about (some p.toRecord) event,
      { inst := p.inst, proc := p.proc, code, exitedAt := now })

/-- The loop body of `process_exits`: the init process first, then the first exec. -/
def exitIn (a : PumpAnswers) (execs : List String) (pid code : Int32) :
    Method Container (Option (Published × Exit)) := do
  let c ← getProcess
  if c.pid = pid then
    if a.killAll c.bundle then
      -- children that cannot be killed are only logged
      let _ ← attempt (δ := Error) (Container.kill a.kill none 9 true)
    return some (← exitProcess c.id none code a.now)
  else
    match c.execWithPid execs pid with
    | some e => return some (← exitProcess c.id (some e) code a.now)
    | none => return none

/-- `process_exits` on one event: the search ends at the first process found. -/
def processExit (a : PumpAnswers) (pid code : Int32) :
    List (String × List String) → Handler (Option (Published × Exit))
  | [] => return none
  | (id, execs) :: rest => do
    match ← TaskService.onContainer id (TaskService.raise (exitIn a execs pid code)) with
    | some found => return some found
    | none => processExit a pid code rest

/-- Every container occurs once in the order, with each of its execs once. -/
def PumpAnswers.Orders (a : PumpAnswers) (t : TaskService) : Prop :=
  (a.order.map (·.1)).Perm t.containers.keys ∧
    ∀ p ∈ a.order, ∀ c, t.containers.lookup p.1 = some c → p.2.Perm c.processes.keys

instance (a : PumpAnswers) (t : TaskService) : Decidable (a.Orders t) :=
  inferInstanceAs (Decidable (_ ∧ ∀ p ∈ a.order, _))

/-! ## The delete action of the shim binary -/

structure DeleteAnswers where
  readOptions : Option Error := none
  createRunc : Option Error := none
  readPid : Option Error := none
  runtime : Option String := none
  umount : Option Error := none
  timestamp : Except Error Timestamp := .ok {}

/-- `runc.delete` and the unmount, whose errors are only logged. -/
def forceDelete (a : DeleteAnswers) (bundle id : String) (w : World) : World :=
  let w := w.call (.delete id)
  let w := match a.runtime with
    | none => { w with runtime := w.runtime.erase id }
    | some _ => w
  match a.umount with
  | none => w.umountRootfs (joinPath bundle "rootfs")
  | some _ => w

def deleteShim (a : DeleteAnswers) (bundle id : String) : EStateM Error World DeleteResponse := do
  answered a.readOptions
  answered a.createRunc
  let w ← get
  let pid := match a.readPid with
    | none => (pidInFile w.files (initPidPath bundle)).toOption.getD 0
    | some _ => 0
  modify (forceDelete a bundle id)
  let exitedAt ← ofExcept a.timestamp
  -- 137 is SIGKILL
  return { pid := pid.toUInt32, exitStatus := 137, exitedAt }

/-! ## The running shim -/

/-- `pump` holds the event that the pump, with the lock still in its hands, is
sending. `exits` lists the runs of `set_exited`; nothing reads it. -/
structure Shim where
  task : TaskService := {}
  inflight : Map Nat Cont := ∅
  replies : Map Nat (Except TtrpcError Response) := ∅
  sent : List Published := []
  pump : Option Published := none
  exits : List Exit := []

inductive Action where
  | call (rid : Nat) (req : Request) (ans : Answers)
  | next (rid : Nat)
  | exit (e : ExitEvent) (a : PumpAnswers)
  | publish

namespace Shim

def reply (s : Shim) (rid : Nat) (r : Except TtrpcError Response) : Shim := { s with
  inflight := s.inflight.erase rid
  replies := s.replies.insert rid r }

def proceed (s : Shim) (rid : Nat) (c : Cont) : Shim :=
  { s with inflight := s.inflight.insert rid c }

/-- Where a section leaves its request. -/
def settle (s : Shim) (rid : Nat) : EStateM.Result TtrpcError TaskService Next → Shim
  | .ok (.reply resp) t => { s with task := t }.reply rid (.ok resp)
  | .ok (.cont c) t => { s with task := t }.proceed rid c
  | .error e t => { s with task := t }.reply rid (.error e)

/-- The first section of a request. The pump must have released the lock. -/
def call (s : Shim) (rid : Nat) (req : Request) (ans : Answers) : Option Shim :=
  if s.pump = none ∧ s.inflight.lookup rid = none ∧ s.replies.lookup rid = none then
    some (s.settle rid (TaskService.handle ans req s.task))
  else none

/-- A later section. Sends and drains take no lock; a wait needs its channel closed. -/
def next (s : Shim) (rid : Nat) : Option Shim :=
  match s.inflight.lookup rid with
  | none => none
  | some (.send event resp) => some ({ s with sent := s.sent ++ [event] }.reply rid (.ok resp))
  | some (.unregister d) =>
    if s.pump = none then
      some ({ s with task := s.task.unregister d.reqId }.proceed rid (.drain d))
    else none
  | some (.drain d) =>
    let s := { s with task := s.task.drain d }
    match TaskService.deleted d with
    | .ok c => some (s.proceed rid c)
    | .error e => some (s.reply rid (.error e))
  | some (.wait id execId rx) =>
    if s.pump = none ∧ rx ∉ s.task.world.openTx then
      match TaskService.waitExited id execId s.task with
      | .ok resp t => some ({ s with task := t }.reply rid (.ok resp))
      | .error e t => some ({ s with task := t }.reply rid (.error e))
    else none

/-- The pump takes an event, once it has sent the one before. Only pids concern it. -/
def exit (s : Shim) (e : ExitEvent) (a : PumpAnswers) : Option Shim :=
  match e.subject with
  | .exec _ _ => if s.pump = none then some s else none
  | .pid pid =>
    if s.pump = none ∧ a.Orders s.task then
      match processExit a pid e.exitCode a.order s.task with
      | .ok (some (event, x)) t =>
        some { s with task := t, pump := some event, exits := s.exits ++ [x] }
      | .ok none t => some { s with task := t }
      | .error _ _ => none
    else none

/-- The pump sends its event and releases the lock. -/
def publish (s : Shim) : Option Shim :=
  match s.pump with
  | some event => some { s with sent := s.sent ++ [event], pump := none }
  | none => none

def step (s : Shim) : Action → Option Shim
  | .call rid req ans => s.call rid req ans
  | .next rid => s.next rid
  | .exit e a => s.exit e a
  | .publish => s.publish

end Shim

def shim : System Shim Action where
  init := {}
  step := Shim.step

end RustExtensions.RuncShim
