import RustExtensions.Shim.Error

/-!
# Requests, responses and events

The messages of the Task API and of the event channel, the status and time
types they are made of, and the exit events of the monitor.
-/
namespace RustExtensions.Shim

inductive Status where
  | unknown | created | running | stopped | paused | pausing
  deriving DecidableEq, Repr

def Status.debug : Status → String
  | .unknown => "UNKNOWN"
  | .created => "CREATED"
  | .running => "RUNNING"
  | .stopped => "STOPPED"
  | .paused => "PAUSED"
  | .pausing => "PAUSING"

structure OffsetDateTime where
  unixTimestamp : Int64
  nanosecond : Fin 1000000000
  deriving DecidableEq

structure Timestamp where
  seconds : Int64 := 0
  nanos : Int32 := 0
  deriving DecidableEq

def OffsetDateTime.timestamp (t : OffsetDateTime) : Timestamp where
  seconds := t.unixTimestamp
  nanos := Int32.ofNat t.nanosecond.val

/-- A missing time becomes the zero timestamp, not a missing field. -/
def convertToTimestamp (exitedAt : Option OffsetDateTime) : Timestamp :=
  match exitedAt with
  | some t => t.timestamp
  | none => {}

/-- The stdio containerd asked for: fifo paths, empty when not wanted. -/
structure Stdio where
  stdin : String := ""
  stdout : String := ""
  stderr : String := ""
  terminal : Bool := false
  deriving DecidableEq

def Stdio.isNull (s : Stdio) : Bool := s.stdin == "" && s.stdout == "" && s.stderr == ""

structure Any where
  typeUrl : String := ""
  value : List UInt8 := []
  deriving DecidableEq

structure Mount where
  type : String := ""
  source : String := ""
  target : String := ""
  options : List String := []
  deriving DecidableEq

structure CreateTaskRequest where
  id : String
  bundle : String
  rootfs : List Mount := []
  stdio : Stdio := {}
  checkpoint : String := ""
  options : Option Any := none

structure ExecProcessRequest where
  id : String
  execId : String
  stdio : Stdio := {}
  spec : Option Any := none

/-- The requests of the Task service. An empty `execId` addresses the init process. -/
inductive Request where
  | state (id execId : String)
  | create (req : CreateTaskRequest)
  | start (id execId : String)
  | delete (id execId : String)
  | pids (id : String)
  | pause (id : String)
  | resume (id : String)
  | kill (id execId : String) (signal : UInt32) (all : Bool)
  | exec (req : ExecProcessRequest)
  | resizePty (id execId : String) (height width : UInt32)
  | closeIo (id execId : String)
  | update (id : String) (resources : Option Any)
  | wait (id execId : String)
  | stats (id : String)
  | connect (id : String)
  | shutdown

/-- `Some(exec_id).filter(|id| !id.is_empty())`. -/
def execIdOpt (execId : String) : Option String := if execId = "" then none else some execId

structure StateResponse where
  id : String
  bundle : String := ""
  pid : UInt32
  status : Status
  stdio : Stdio
  exitStatus : UInt32
  exitedAt : Option Timestamp
  deriving DecidableEq

structure WaitResponse where
  exitStatus : UInt32
  exitedAt : Option Timestamp
  deriving DecidableEq

structure DeleteResponse where
  pid : UInt32
  exitStatus : UInt32
  exitedAt : Timestamp
  deriving DecidableEq

/-- A process of the container, with the exec it belongs to when that is known. -/
structure ProcessInfo where
  pid : UInt32
  info : Option String := none
  deriving DecidableEq

inductive Response where
  | empty
  | state (resp : StateResponse)
  | create (pid : UInt32)
  | start (pid : UInt32)
  | delete (resp : DeleteResponse)
  | pids (processes : List ProcessInfo)
  | wait (resp : WaitResponse)
  | stats (stats : Any)
  | connect (shimPid taskPid : UInt32)
  deriving DecidableEq

inductive Event where
  | taskCreate (containerId bundle : String) (rootfs : List Mount) (io : Stdio)
      (checkpoint : String) (pid : UInt32)
  | taskStart (containerId : String) (pid : UInt32)
  | taskExecAdded (containerId execId : String)
  | taskExecStarted (containerId execId : String) (pid : UInt32)
  | taskPaused (containerId : String)
  | taskResumed (containerId : String)
  | taskExit (containerId id : String) (pid exitStatus : UInt32) (exitedAt : Timestamp)
  | taskDelete (containerId : String) (pid exitStatus : UInt32) (exitedAt : Timestamp)
  deriving DecidableEq

/-- What the monitor reports: a process by pid, or an exec of a VM container by name. -/
inductive Subject where
  | pid (pid : Int32)
  | exec (containerId execId : String)
  deriving DecidableEq

structure ExitEvent where
  subject : Subject
  exitCode : Int32
  deriving DecidableEq

end RustExtensions.Shim
