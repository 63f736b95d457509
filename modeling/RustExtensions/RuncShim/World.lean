import RustExtensions.Lib.KeyedMap
import RustExtensions.Shim.Values

/-!
# What a request handler meets outside the shim's own memory

The bundle files, the mounts, the containers the OCI runtime knows, the calls
made to the runtime and to kill(2), and the wait channels whose sender is still
there. What the runtime, the kernel and the files answer during one request is
an `Answers` value, chosen by the environment.
-/
namespace RustExtensions.RuncShim

open RustExtensions.Shim
open RustExtensions.KeyedMap (Map)

/-- A oneshot channel of `wait_channel`, named by the process entry that made it. -/
structure Channel where
  inst : Nat
  serial : Nat
  deriving DecidableEq, Repr

abbrev Cgroup := String

/-- A file descriptor. -/
abbrev Fd := Nat

/-- A container's state as the OCI runtime keeps it. -/
inductive OciState where
  | created | running
  deriving DecidableEq

/-- A runtime invocation, with the arguments the shim chooses, or a kill(2). -/
inductive Call where
  | create (id bundle pidFile : String)
  | start (id : String)
  | exec (containerId pidFile : String)
  | kill (id : String) (signal : UInt32) (all : Bool)
  | delete (id : String)
  | pause (id : String)
  | resume (id : String)
  | ps (id : String)
  | signal (pid : Int32) (signal : UInt32)
  deriving DecidableEq

/-- `nextInst`, `nextProc` and `nextSerial` name what the program tells apart by
address or by the operating system's own records: process entries, processes
and channels. No handler branches on them. -/
structure World where
  files : Map String String := ∅
  mounts : List String := []
  runtime : Map String OciState := ∅
  calls : List Call := []
  openTx : List Channel := []
  nextInst : Nat := 0
  nextProc : Nat := 0
  nextSerial : Nat := 0

/-- The runc options the handlers read. -/
structure Options where
  binaryName : String := ""

/-- A line of the runtime's json log. -/
structure Log where
  level : String
  msg : String

/-- How a kill(2) on the blocking pool ended. -/
inductive KillAnswer where
  | done
  | errno (err : String)
  | timedOut

/-- The answers of the outside world to one request; by default all goes well.
`none` in a field that holds an `Option Error` is success. -/
structure Answers where
  decodeOptions : Except Error Options := .ok {}
  optionsJson : Except Error String := .ok "{}"
  writeOptions : Option Error := none
  writeRuntime : Option Error := none
  mkdir : Option Error := none
  mounts : List (Option Error) := []
  /-- Whether the mount that fails is left: `mount_rootfs` may fail after its first mount. -/
  mountLeft : Bool := false
  createRunc : Option Error := none
  consoleSocket : Option Error := none
  createIo : Option Error := none
  openStdin : Option Error := none
  openStdout : Option Error := none
  openStderr : Option Error := none
  /-- The error of the runtime call, as text, when it fails. -/
  runtime : Option String := none
  /-- The pid of the process that a successful create or exec call leaves. -/
  pid : Int32 := 1
  /-- What a failed create or exec call leaves in the pid file, if it writes it. -/
  leftInPidFile : Option String := none
  log : Except String (List (Except String Log)) := .ok []
  acceptConsole : Except Error Fd := .ok 0
  readPid : Option Error := none
  cgroup : Option Cgroup := none
  cgroupExists : Bool := true
  updateResources : Option Error := none
  collectMetrics : Except Error Any := .ok {}
  umount : Option Error := none
  removeFileFails : Bool := false
  specJson : Option Error := none
  resourcesJson : Option String := none
  kill : KillAnswer := .done
  /-- The text of a panic on the blocking pool. -/
  joinError : String := ""
  tcsetwinsize : Option String := none
  psPids : List Nat := []
  /-- The iteration order of the execs of the container. -/
  execOrder : List String := []
  shimPid : UInt32 := 0

namespace World

/-- Senders dropped with the value that held them. -/
def dropSenders (w : World) (chans : List Channel) : World :=
  { w with openTx := w.openTx.filter (· ∉ chans) }

def call (w : World) (c : Call) : World := { w with calls := w.calls ++ [c] }

def mount (w : World) (target : String) : World := { w with mounts := w.mounts ++ [target] }

def writeFile (w : World) (path contents : String) : World :=
  { w with files := w.files.insert path contents }

def removeFile (w : World) (path : String) : World := { w with files := w.files.erase path }

/-- A pid as the runtime prints it. -/
def showPid (pid : Int32) : String := toString pid.toInt

/-- The runtime made a process and wrote its pid to the pid file. -/
def spawned (w : World) (pidFile : String) (pid : Int32) : World :=
  { w.writeFile pidFile (showPid pid) with nextProc := w.nextProc + 1 }

/-- A runtime call that failed, whatever it left in the pid file. -/
def failedSpawn (w : World) (pidFile : String) (left : Option String) : World :=
  match left with
  | some s => w.writeFile pidFile s
  | none => w

end World
end RustExtensions.RuncShim
