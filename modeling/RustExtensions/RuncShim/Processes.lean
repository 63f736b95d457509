import RustExtensions.Lib.Fallible
import RustExtensions.RuncShim.World

/-!
# Process entries

`ProcessTemplate` and the operations that do not depend on the lifecycle. The
fields that say how far a process has got are a record of their own; entries of
both lifecycles carry one.
-/
namespace RustExtensions.RuncShim

open RustExtensions.Shim

/-- The state, pid, exit record and registered waiters of an entry. `inst` names
the entry itself and `proc` the process whose pid it holds. -/
structure Record where
  state : Status := .created
  pid : Int32 := 0
  exitCode : Int32 := 0
  exitedAt : Option OffsetDateTime := none
  waitChanTx : List Channel := []
  inst : Nat
  proc : Option Nat := none
  deriving DecidableEq

/-- The shim's own writer on a process's stdin fifo. -/
inductive Hold where
  | pending | opened | released
  deriving DecidableEq

/-- The tasks copying a process's stdio. Clones share their state; `generation`
counts the renewals, so that entry and generation name the shared state. -/
structure IoTasks where
  generation : Nat := 0
  stdin : Hold := .pending
  cancelled : Bool := false
  deriving DecidableEq

namespace IoTasks

/-- `copy_from_fifo` once its opens succeeded. -/
def copyFromFifo (io : IoTasks) : IoTasks :=
  match io.stdin with
  | .released => io
  | _ => { io with stdin := .opened }

def closeInput (io : IoTasks) : IoTasks := { io with stdin := .released }

def renew (io : IoTasks) : IoTasks where
  generation := io.generation + 1
  stdin := match io.stdin with
    | .released => .released
    | _ => .pending

def abort (io : IoTasks) : IoTasks := { io with cancelled := true }.closeInput

/-- `shutdown`, once the output copies ended or the drain timeout passed. -/
def shutdown (io : IoTasks) : IoTasks := io.abort

end IoTasks

structure ProcessTemplate (S : Type) extends Record where
  id : String
  stdio : Stdio
  console : Option Fd := none
  lifecycle : S
  ioTasks : IoTasks := {}

/-- A method on a process: it may change the process and the world, and what it
changed before an error stays changed. -/
abbrev Method (P : Type) := EStateM Error (P × World)

/-- `ProcessLifecycle<P>`, the part of a process that talks to the runtime. -/
class ProcessLifecycle (S : Type) where
  start : Answers → Method (ProcessTemplate S) Unit
  kill : Answers → UInt32 → Bool → Method (ProcessTemplate S) Unit
  delete : Answers → Method (ProcessTemplate S) Unit
  update : Answers → Method (ProcessTemplate S) Unit
  stats : Answers → Method (ProcessTemplate S) Any
  ps : Answers → Method (ProcessTemplate S) (List ProcessInfo)
  pause : Answers → Method (ProcessTemplate S) Unit
  resume : Answers → Method (ProcessTemplate S) Unit

/-- The `?` on a call whose outcome the environment chose. -/
def answered {σ : Type} : Option Error → EStateM Error σ Unit
  | none => pure ()
  | some e => throw e

/-- The `?` on a `Result`. -/
def ofExcept {ε σ α : Type} : Except ε α → EStateM ε σ α
  | .ok a => pure a
  | .error e => throw e

section Primitives
variable {ε P : Type}

def getProcess : EStateM ε (P × World) P := fun s => .ok s.1 s

def modifyProcess (f : P → P) : EStateM ε (P × World) Unit := fun s => .ok () (f s.1, s.2)

def getWorld : EStateM ε (P × World) World := fun s => .ok s.2 s

def modifyWorld (f : World → World) : EStateM ε (P × World) Unit := fun s => .ok () (s.1, f s.2)

end Primitives

namespace ProcessTemplate

variable {S : Type}

def new (id : String) (stdio : Stdio) (lifecycle : S) (inst : Nat) : ProcessTemplate S where
  inst := inst
  id := id
  stdio := stdio
  lifecycle := lifecycle

/-- What `setExited` writes. The waiters are cleared, which drops their senders. -/
def exited (r : Record) (exitCode : Int32) (now : OffsetDateTime) : Record :=
  { r with state := .stopped, exitCode := exitCode, exitedAt := some now, waitChanTx := [] }

def setExited (exitCode : Int32) (now : OffsetDateTime) : Method (ProcessTemplate S) Unit := do
  let p ← getProcess
  modifyProcess fun p => { p with toRecord := exited p.toRecord exitCode now }
  modifyWorld (·.dropSenders p.waitChanTx)

/-- The method `state`. -/
def stateResponse (p : ProcessTemplate S) : StateResponse where
  id := p.id
  pid := p.pid.toUInt32
  status := p.state
  stdio := p.stdio
  exitStatus := p.exitCode.toUInt32
  exitedAt := p.exitedAt.map OffsetDateTime.timestamp

/-- A sender that is not registered is dropped at once, and its receiver wakes. -/
def waitChannel : Method (ProcessTemplate S) Channel := do
  let p ← getProcess
  let w ← getWorld
  let ch : Channel := { inst := p.inst, serial := w.nextSerial }
  modifyWorld fun w => { w with nextSerial := w.nextSerial + 1 }
  if p.state ≠ .stopped then
    modifyProcess fun p => { p with waitChanTx := p.waitChanTx ++ [ch] }
    modifyWorld fun w => { w with openTx := w.openTx ++ [ch] }
  return ch

/-- The window size is `u16` in the kernel's interface, and only its success shows. -/
def resizePty (ans : Answers) : Method (ProcessTemplate S) Unit := do
  let p ← getProcess
  if p.console.isSome then
    answered (ans.tcsetwinsize.map Error.other)

def closeIo : Method (ProcessTemplate S) Unit :=
  modifyProcess fun p => { p with ioTasks := p.ioTasks.closeInput }

end ProcessTemplate
end RustExtensions.RuncShim
