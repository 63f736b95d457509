import RustExtensions.RuncShim.Runc

/-!
# Containers

A container is its init process and the execs registered in it. Requests
address either by an optional exec id; both kinds answer the same methods.
-/
namespace RustExtensions.RuncShim

open RustExtensions.Shim
open RustExtensions.Fallible
open RustExtensions.KeyedMap (Map)

structure Container where
  init : InitProcess
  processes : Map String ExecProcess := ∅

namespace Container

variable {α : Type}

def id (c : Container) : String := c.init.id

def bundle (c : Container) : String := c.init.lifecycle.bundle

def pid (c : Container) : Int32 := c.init.pid

def initState (c : Container) : Status := c.init.state

/-- The record of the process that `execId` addresses, if there is one. -/
def record (c : Container) : Option String → Option Record
  | none => some c.init.toRecord
  | some e => (c.processes.lookup e).map (·.toRecord)

/-- The senders held by the container's processes, which go when it is dropped. -/
def senders (c : Container) : List Channel :=
  c.init.waitChanTx ++ c.processes.entries.flatMap fun e => e.2.waitChanTx

def create (ans : Answers) (req : CreateTaskRequest) : EStateM Error World Container := do
  let _ ← prepareBundle ans req
  let init ← InitProcess.create ans req.id req.stdio { bundle := req.bundle }
  return { init := init }

/-! ## Dispatch -/

def onInit (m : Method InitProcess α) : Method Container α :=
  zoom (fun s => (s.1.init, s.2)) (fun s q => ({ s.1 with init := q.1 }, q.2)) m

def onExec (execId : String) (missing : Error) (m : Method ExecProcess α) :
    Method Container α := fun s =>
  match s.1.processes.lookup execId with
  | none => .error missing s
  | some p =>
    zoom (fun s => (p, s.2))
      (fun s q => ({ s.1 with processes := s.1.processes.insert execId q.1 }, q.2)) m s

/-- A method of the trait `Process`, whatever the lifecycle. -/
abbrev ProcessMethod (α : Type) :=
  (S : Type) → [ProcessLifecycle S] → Method (ProcessTemplate S) α

/-- A method on the process that `execId` addresses. -/
def dispatch (execId : Option String) (missing : String → Error) (m : ProcessMethod α) :
    Method Container α :=
  match execId with
  | some e => onExec e (missing e) (m RuncExecLifecycle)
  | none => onInit (m RuncInitLifecycle)

/-- `get_process`, and a method on what it finds. -/
def onProcess (execId : Option String) (m : ProcessMethod α) : Method Container α :=
  dispatch execId (fun _ => .notFoundError "can not find the exec by id") m

/-- `get_mut_process`, and a method on what it finds. -/
def onMutProcess (execId : Option String) (m : ProcessMethod α) : Method Container α :=
  dispatch execId (fun e => .notFoundError s!"can not find the exec by id {e}") m

/-! ## Operations -/

def start (ans : Answers) (execId : Option String) : Method Container Int32 :=
  onMutProcess execId fun S => do
    ProcessLifecycle.start ans
    let p ← getProcess (P := ProcessTemplate S)
    return p.pid

/-- The state of the addressed process, overlaid by the pause of the container. -/
def state (execId : Option String) : Method Container StateResponse := do
  let resp ← onProcess execId fun S => do
    let p ← getProcess (P := ProcessTemplate S)
    return p.stateResponse
  let c ← getProcess
  let initState := c.init.state
  let resp := if initState = .pausing ∨ initState = .paused then { resp with status := initState }
    else resp
  return { resp with bundle := c.bundle }

def kill (ans : Answers) (execId : Option String) (signal : UInt32) (all : Bool) :
    Method Container Unit :=
  onMutProcess execId fun _ => ProcessLifecycle.kill ans signal all

def waitChannel (execId : Option String) : Method Container Channel :=
  onMutProcess execId fun _ => ProcessTemplate.waitChannel

def getExitInfo (execId : Option String) :
    Method Container (Int32 × Int32 × Option OffsetDateTime) :=
  onProcess execId fun S => do
    let p ← getProcess (P := ProcessTemplate S)
    return (p.pid, p.exitCode, p.exitedAt)

/-- `self.processes.remove(exec_id)`. -/
def removeExec (execId : String) : Method Container Unit := do
  let c ← getProcess
  modifyProcess fun c => { c with processes := c.processes.erase execId }
  modifyWorld (·.dropSenders ((c.processes.lookup execId).elim [] (·.waitChanTx)))

def delete (ans : Answers) (execId : Option String) :
    Method Container (Int32 × Int32 × Option OffsetDateTime) := do
  let info ← getExitInfo execId
  onMutProcess execId fun _ => ProcessLifecycle.delete ans
  match execId with
  | some e => removeExec e
  | none => pure ()
  return info

/-- The names of the io of one entry. -/
def ioName {S : Type} (p : ProcessTemplate S) : Nat × Nat := (p.inst, p.ioTasks.generation)

/-- Deleting the init process takes the io of the remaining execs with it. -/
def ioTasks (execId : Option String) : Method Container (List (Nat × Nat)) := do
  match execId with
  | some e => onExec e (.notFoundError "can not find the exec by id") do
      return [ioName (← getProcess)]
  | none =>
    let c ← getProcess
    return ioName c.init :: c.processes.entries.map fun e => ioName e.2

def getSpecFromRequest {P : Type} (ans : Answers) (req : ExecProcessRequest) : Method P Unit :=
  match req.spec with
  | some _ => answered ans.specJson
  | none => throw (.invalidArgument "no spec in request")

/-- The new entry replaces one that is registered under the same id. -/
def exec (ans : Answers) (req : ExecProcessRequest) : Method Container Unit := do
  getSpecFromRequest ans req
  let c ← getProcess
  let w ← getWorld
  let lifecycle := c.init.lifecycle.execLifecycle c.id
  let execProcess := ProcessTemplate.new req.execId req.stdio lifecycle w.nextInst
  modifyWorld fun w => { w with nextInst := w.nextInst + 1 }
  modifyProcess fun c => { c with processes := c.processes.insert req.execId execProcess }
  modifyWorld (·.dropSenders ((c.processes.lookup req.execId).elim [] (·.waitChanTx)))

def resizePty (ans : Answers) (execId : Option String) : Method Container Unit :=
  onMutProcess execId fun _ => ProcessTemplate.resizePty ans

def update (ans : Answers) : Method Container Unit := onInit (ProcessLifecycle.update ans)

def stats (ans : Answers) : Method Container Any := onInit (ProcessLifecycle.stats ans)

/-- The first exec in iteration order whose pid the process has is named in its info. -/
def execWithPid (c : Container) (order : List String) (pid : Int32) : Option String :=
  order.find? fun e => (c.processes.lookup e).any (·.pid == pid)

def allProcesses (ans : Answers) : Method Container (List ProcessInfo) := do
  let infos ← onInit (ProcessLifecycle.ps ans)
  let c ← getProcess
  return infos.map fun info =>
    { info with info := c.execWithPid ans.execOrder info.pid.toInt32 }

def closeIo (execId : Option String) : Method Container Unit :=
  onMutProcess execId fun _ => ProcessTemplate.closeIo

def pause (ans : Answers) : Method Container Unit := onInit (ProcessLifecycle.pause ans)

def resume (ans : Answers) : Method Container Unit := onInit (ProcessLifecycle.resume ans)

end Container
end RustExtensions.RuncShim
