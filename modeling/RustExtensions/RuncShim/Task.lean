import RustExtensions.RuncShim.Container

/-!
# The Task service

A handler is cut where it gives up the `containers` lock: a request runs its
first section, and what is left of it is a `Cont`. An event is labelled with the
entry and the process it is about; no handler reads the labels.
-/
namespace RustExtensions.RuncShim

open RustExtensions.Shim
open RustExtensions.Fallible
open RustExtensions.KeyedMap (Map)

structure TaskService where
  containers : Map String Container := ∅
  world : World := {}
  exitSignalled : Bool := false

abbrev Handler := EStateM TtrpcError TaskService

/-- An event for the publisher. -/
structure Published where
  event : Event
  inst : Option Nat
  proc : Option Nat
  deriving DecidableEq

def Published.about (r : Option Record) (event : Event) : Published where
  event := event
  inst := r.map (·.inst)
  proc := r.bind (·.proc)

/-- What `delete` carries from its first section into the later ones. -/
structure Deletion where
  reqId : String
  containerId : String
  execId : Option String
  ioTasks : List (Nat × Nat)
  exited : Bool
  deleted : Except Error (Int32 × Int32 × Option OffsetDateTime)
  process : Option Record

/-- What is left of a request once its first section is over. -/
inductive Cont where
  | send (event : Published) (resp : Response)
  | unregister (d : Deletion)
  | drain (d : Deletion)
  | wait (id : String) (execId : Option String) (rx : Channel)

inductive Next where
  | reply (resp : Response)
  | cont (c : Cont)

namespace TaskService

variable {α : Type}

/-- `?` on the error type of the shim, in a handler. -/
def raise {σ : Type} (m : EStateM Error σ α) : EStateM TtrpcError σ α := mapError Error.toTtrpc m

/-- A section on the container that `container` or `container_mut` finds. -/
def onContainer (id : String) (m : EStateM TtrpcError (Container × World) α) : Handler α := fun t =>
  match t.containers.lookup id with
  | none => .error (.rpcStatus .notFound s!"can not find container by id {id}") t
  | some c =>
    zoom (fun t => (c, t.world))
      (fun t s => { t with containers := t.containers.insert id s.1, world := s.2 }) m t

def onWorld (m : EStateM TtrpcError World α) : Handler α :=
  zoom (·.world) (fun t w => { t with world := w }) m

/-! ## First sections -/

def state (id execId : String) : Handler Next :=
  onContainer id do
    let resp ← raise (Container.state (execIdOpt execId))
    return .reply (.state resp)

/-- An id that is in the map is created anew, and the container that held it is dropped. -/
def create (ans : Answers) (req : CreateTaskRequest) : Handler Next := do
  let container ← onWorld (raise (Container.create ans req))
  let pid := container.pid.toUInt32
  modify fun t => { t with
    containers := t.containers.insert req.id container
    world := t.world.dropSenders ((t.containers.lookup req.id).elim [] (·.senders)) }
  let event := .taskCreate req.id req.bundle req.rootfs req.stdio req.checkpoint pid
  return .cont (.send (.about (container.record none) event) (.create pid))

def start (ans : Answers) (id execId : String) : Handler Next :=
  onContainer id do
    let c ← getProcess
    if c.initState = .stopped then
      throw (.rpcStatus .failedPrecondition s!"container init process has exited {c.id}")
    let pid ← raise (Container.start ans (execIdOpt execId))
    let c ← getProcess
    let event := if execId = "" then .taskStart id pid.toUInt32
      else .taskExecStarted id execId pid.toUInt32
    return .cont (.send (.about (c.record (execIdOpt execId)) event) (.start pid.toUInt32))

def delete (ans : Answers) (id execId : String) : Handler Next := do
  let execIdOpt := execIdOpt execId
  let d ← onContainer id do
    let c ← getProcess
    let exited ← raise (Container.onProcess execIdOpt fun S => do
      let p ← getProcess (P := ProcessTemplate S)
      return p.exitedAt.isSome)
    let ioTasks ← raise (Container.ioTasks execIdOpt)
    let deleted ← attempt (Container.delete ans execIdOpt)
    return {
      reqId := id
      containerId := c.id
      execId := execIdOpt
      ioTasks := ioTasks
      exited := exited
      deleted := deleted
      process := c.record execIdOpt : Deletion }
  if d.deleted.isOk && execIdOpt.isNone then return .cont (.unregister d)
  else return .cont (.drain d)

def pids (ans : Answers) (id : String) : Handler Next :=
  onContainer id do
    let processes ← raise (Container.allProcesses ans)
    return .reply (.pids processes)

def pause (ans : Answers) (id : String) : Handler Next :=
  onContainer id do
    raise (Container.pause ans)
    let c ← getProcess
    return .cont (.send (.about (c.record none) (.taskPaused id)) .empty)

def resume (ans : Answers) (id : String) : Handler Next :=
  onContainer id do
    raise (Container.resume ans)
    let c ← getProcess
    return .cont (.send (.about (c.record none) (.taskResumed id)) .empty)

def kill (ans : Answers) (id execId : String) (signal : UInt32) (all : Bool) : Handler Next :=
  onContainer id do
    raise (Container.kill ans (execIdOpt execId) signal all)
    return .reply .empty

def exec (ans : Answers) (req : ExecProcessRequest) : Handler Next :=
  onContainer req.id do
    raise (Container.exec ans req)
    let c ← getProcess
    let event := .taskExecAdded c.id req.execId
    return .cont (.send (.about (c.record (some req.execId)) event) .empty)

def resizePty (ans : Answers) (id execId : String) : Handler Next :=
  onContainer id do
    raise (Container.resizePty ans (execIdOpt execId))
    return .reply .empty

def closeIo (id execId : String) : Handler Next :=
  onContainer id do
    raise (Container.closeIo (execIdOpt execId))
    return .reply .empty

/-- The resources are parsed before the container is looked up. -/
def update (ans : Answers) (id : String) : Handler Next := do
  match ans.resourcesJson with
  | some e => throw (.rpcStatus .invalidArgument s!"failed to parse resource spec: {e}")
  | none =>
    onContainer id do
      raise (Container.update ans)
      return .reply .empty

/-- A status that is neither RUNNING nor CREATED is taken for an exit. -/
def wait (id execId : String) : Handler Next :=
  onContainer id do
    let state ← raise (Container.state (execIdOpt execId))
    if state.status ≠ .running ∧ state.status ≠ .created then
      return .reply (.wait { exitStatus := state.exitStatus, exitedAt := state.exitedAt })
    let rx ← raise (Container.waitChannel (execIdOpt execId))
    return .cont (.wait id (execIdOpt execId) rx)

def stats (ans : Answers) (id : String) : Handler Next :=
  onContainer id do
    let stats ← raise (Container.stats ans)
    return .reply (.stats stats)

def connect (ans : Answers) (id : String) : Handler Next := do
  let t ← get
  let pid := (t.containers.lookup id).elim 0 (·.pid.toUInt32)
  return .reply (.connect ans.shimPid pid)

def shutdown : Handler Next := do
  let t ← get
  if t.containers.keys = [] then
    set { t with exitSignalled := true }
  return .reply .empty

def handle (ans : Answers) : Request → Handler Next
  | .state id execId => state id execId
  | .create req => create ans req
  | .start id execId => start ans id execId
  | .delete id execId => delete ans id execId
  | .pids id => pids ans id
  | .pause id => pause ans id
  | .resume id => resume ans id
  | .kill id execId signal all => kill ans id execId signal all
  | .exec req => exec ans req
  | .resizePty id execId _ _ => resizePty ans id execId
  | .closeIo id execId => closeIo id execId
  | .update id _ => update ans id
  | .wait id execId => wait id execId
  | .stats id => stats ans id
  | .connect id => connect ans id
  | .shutdown => shutdown

/-! ## Later sections -/

/-- `containers.write().await.remove(id)`. -/
def unregister (t : TaskService) (id : String) : TaskService := { t with
  containers := t.containers.erase id
  world := t.world.dropSenders ((t.containers.lookup id).elim [] (·.senders)) }

def shutdownProcess {S : Type} (io : List (Nat × Nat)) (p : ProcessTemplate S) :
    ProcessTemplate S :=
  if Container.ioName p ∈ io then { p with ioTasks := p.ioTasks.shutdown } else p

/-- `io.shutdown()` on clones: the entries that still share the state see it. -/
def shutdownIo (t : TaskService) (io : List (Nat × Nat)) : TaskService := { t with
  containers := t.containers.mapValues fun c => {
    init := shutdownProcess io c.init
    processes := c.processes.mapValues (shutdownProcess io) } }

/-- The drain of `delete`, which takes no lock. -/
def drain (t : TaskService) (d : Deletion) : TaskService :=
  if d.deleted.isOk || d.exited then t.shutdownIo d.ioTasks else t

/-- The answer of `delete` after its drain. -/
def deleted (d : Deletion) : Except TtrpcError Cont :=
  match d.deleted with
  | .error e => .error e.toTtrpc
  | .ok (pid, exitStatus, exitedAt) =>
    let ts := convertToTimestamp exitedAt
    .ok (.send
      (.about d.process (.taskDelete d.containerId pid.toUInt32 exitStatus.toUInt32 ts))
      (.delete { pid := pid.toUInt32, exitStatus := exitStatus.toUInt32, exitedAt := ts }))

/-- `wait` once its channel is closed: the process is looked up by name again. -/
def waitExited (id : String) (execId : Option String) : Handler Response :=
  onContainer id do
    let (_, code, exitedAt) ← raise (Container.getExitInfo execId)
    return .wait { exitStatus := code.toUInt32, exitedAt := some (convertToTimestamp exitedAt) }

end TaskService
end RustExtensions.RuncShim
