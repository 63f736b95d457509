import RustExtensions.RuncShim.Processes

/-!
# The two lifecycles

How an init process and an exec talk to the OCI runtime: creation, start, kill,
deletion, pause and resume, with every point at which they can fail and what
they have written by then. A console socket that is cleaned up leaves nothing.
-/
namespace RustExtensions.RuncShim

open RustExtensions.Shim
open RustExtensions.KeyedMap (Map)

def initPidFile : String := "init.pid"

def optionsFileName : String := "options.json"

def runtimeFileName : String := "runtime"

structure RuncInitLifecycle where
  bundle : String
  cgroupCache : Option Cgroup := none

structure RuncExecLifecycle where
  bundle : String
  containerId : String

abbrev InitProcess := ProcessTemplate RuncInitLifecycle

abbrev ExecProcess := ProcessTemplate RuncExecLifecycle

def RuncInitLifecycle.execLifecycle (l : RuncInitLifecycle) (containerId : String) :
    RuncExecLifecycle where
  bundle := l.bundle
  containerId := containerId

def initPidPath (bundle : String) : String := joinPath bundle initPidFile

def execPidPath (bundle execId : String) : String := joinPath bundle s!"{execId}.pid"

/-! ## Errors of the runtime -/

/-- `runtime_error`: the last error line of the runtime's log, else the error itself. -/
def runtimeError (log : Except String (List (Except String Log))) (e msg : String) : Error :=
  match log with
  | .error err => .other s!"{msg}: unable to open OCI runtime log file){err}"
  | .ok lines => go lines ""
where
  go : List (Except String Log) → String → Error
    | [], rtMsg =>
      if rtMsg ≠ "" then .other s!"{msg}: {rtMsg}"
      else .other s!"{msg}: (no OCI runtime error in logfile) {e}"
    | .error err :: _, _ => .other s!"{msg}: unable to parse log msg: {err}"
    | .ok log :: rest, rtMsg => go rest (if log.level = "error" then trim log.msg else rtMsg)

def checkKillError (emsg : String) : Error :=
  let emsg := emsg.toLower
  if containsStr emsg "process already finished" || containsStr emsg "container not running" ||
      containsStr emsg "no such process" then
    .notFoundError "process already finished"
  else if containsStr emsg "does not exist" then .notFoundError "no such container"
  else .other s!"unknown error after kill {emsg}"

/-! ## Stdio -/

/-- The pipe ends an `Io` driver has. -/
structure Io where
  stdin : Bool := false
  stdout : Bool := false
  stderr : Bool := false

section Stdio
variable {S : Type}

/-- No scheme means a fifo; any other scheme gets no driver. -/
def createIo (ans : Answers) (stdio : Stdio) : Method (ProcessTemplate S) (Option Io) := do
  if stdio.isNull then
    answered ans.createIo
    return some {}
  let scheme := (splitOnceFst (trim stdio.stdout) "://").getD "fifo"
  if scheme = "fifo" then
    answered ans.createIo
    return some {
      stdin := stdio.stdin ≠ ""
      stdout := stdio.stdout ≠ ""
      stderr := stdio.stderr ≠ "" }
  return none

/-- `IoTasks::copy_from_fifo`: every open comes before the hold is taken. -/
def copyStdin (ans : Answers) : Method (ProcessTemplate S) Unit := do
  answered ans.openStdin
  modifyProcess fun p => { p with ioTasks := p.ioTasks.copyFromFifo }

/-- `io.stdin().ok_or_else(..)?`, for the pipe called `name`. -/
def needPipe (has : Bool) (name : String) : Method (ProcessTemplate S) Unit :=
  if has then pure () else throw (.other s!"no pipe for {name}")

def copyIo (ans : Answers) (pio : Option Io) (stdio : Stdio) :
    Method (ProcessTemplate S) Unit := do
  match pio with
  | none => return
  | some io =>
    if stdio.stdin ≠ "" then
      needPipe io.stdin "stdin"
      copyStdin ans
    if stdio.stdout ≠ "" then
      needPipe io.stdout "stdout"
      answered ans.openStdout
    if stdio.stderr ≠ "" then
      needPipe io.stderr "stderr"
      answered ans.openStderr

def copyConsole (ans : Answers) (stdio : Stdio) : Method (ProcessTemplate S) Fd := do
  let console ← ofExcept ans.acceptConsole
  if stdio.stdin ≠ "" then
    copyStdin ans
  if stdio.stdout ≠ "" then
    answered ans.openStdout
  return console

def attachConsole (ans : Answers) : Method (ProcessTemplate S) Unit := do
  let p ← getProcess
  let console ← copyConsole ans p.stdio
  modifyProcess fun p => { p with console := some console }

/-- What a process needs before the runtime is called: a console socket or open fifos. -/
def prepareIo (ans : Answers) : Method (ProcessTemplate S) Unit := do
  let p ← getProcess
  if p.stdio.terminal then
    answered ans.consoleSocket
  else
    let pio ← createIo ans p.stdio
    copyIo ans pio p.stdio

end Stdio

/-! ## Pid files -/

/-- `str::parse::<i32>`, with the texts of `ParseIntError`. -/
def parseI32 (s : String) : Except String Int32 :=
  match s.toList with
  | [] => .error "cannot parse integer from empty string"
  | ['+'] => .error "invalid digit found in string"
  | ['-'] => .error "invalid digit found in string"
  | '+' :: ds => (digits 1 0 ds).map Int32.ofInt
  | '-' :: ds => (digits (-1) 0 ds).map Int32.ofInt
  | ds => (digits 1 0 ds).map Int32.ofInt
where
  digits (sign acc : Int) : List Char → Except String Int
    | [] => .ok acc
    | c :: cs =>
      if c.isDigit then
        let acc' := acc * 10 + sign * (c.toNat - '0'.toNat : Nat)
        if acc' > 2147483647 then .error "number too large to fit in target type"
        else if acc' < -2147483648 then .error "number too small to fit in target type"
        else digits sign acc' cs
      else .error "invalid digit found in string"

/-- What reading a pid file gives, leaving aside errors of the file system. -/
def pidInFile (files : Map String String) (path : String) : Except Error Int32 :=
  match files.lookup path with
  | none => .error (.ioError s!"read {path}" "No such file or directory (os error 2)")
  | some s => (parseI32 s).mapError .parseInt

/-- `read_file_to_str(path)?.parse::<i32>()?`. -/
def readPid {P : Type} (ans : Answers) (path : String) : Method P Int32 := do
  answered ans.readPid
  let w ← getWorld
  ofExcept (pidInFile w.files path)

/-! ## Runtime calls -/

/-- A call that makes a process: its name on success, the error's text otherwise. -/
def runtimeSpawn {P : Type} (ans : Answers) (c : Call) (pidFile : String) :
    Method P (Except String Nat) := do
  modifyWorld (·.call c)
  match ans.runtime with
  | none =>
    let w ← getWorld
    modifyWorld (·.spawned pidFile ans.pid)
    return .ok w.nextProc
  | some e =>
    modifyWorld (·.failedSpawn pidFile ans.leftInPidFile)
    return .error e

/-- Any other call, with what its success changes in the world. -/
def runtimeCall {P : Type} (ans : Answers) (c : Call) (onOk : World → World) :
    Method P (Except String Unit) := do
  modifyWorld (·.call c)
  match ans.runtime with
  | none =>
    modifyWorld onOk
    return .ok ()
  | some e => return .error e

/-! ## Creation -/

/-- `for m in rootfs_vec { mount_rootfs(&m, rootfs)? }`. -/
def mountAll (left : Bool) (rootfs : String) :
    List Mount → List (Option Error) → EStateM Error World Unit
  | [], _ => pure ()
  | _ :: ms, outcomes => do
    let outcome := outcomes.head?.getD none
    if outcome.isNone || left then
      modify (·.mount rootfs)
    answered outcome
    mountAll left rootfs ms outcomes.tail

/-- The runtime options of the request, or the defaults. -/
def requestOptions (ans : Answers) (req : CreateTaskRequest) : EStateM Error World Options :=
  match req.options with
  | some _ => ofExcept ans.decodeOptions
  | none => pure {}

/-- Record the options and the runtime name in the bundle and mount the rootfs. -/
def prepareBundle (ans : Answers) (req : CreateTaskRequest) : EStateM Error World Options := do
  let opts ← requestOptions ans req
  let json ← ofExcept ans.optionsJson
  answered ans.writeOptions
  modify (·.writeFile (joinPath req.bundle optionsFileName) json)
  answered ans.writeRuntime
  modify (·.writeFile (joinPath req.bundle runtimeFileName) opts.binaryName)
  let rootfs := joinPath req.bundle "rootfs"
  if req.rootfs ≠ [] then
    answered ans.mkdir
    mountAll ans.mountLeft rootfs req.rootfs ans.mounts
  answered ans.createRunc
  return opts

def createContainer (ans : Answers) : Method InitProcess Unit := do
  let p ← getProcess
  let pidPath := initPidPath p.lifecycle.bundle
  prepareIo ans
  match ← runtimeSpawn ans (.create p.id p.lifecycle.bundle pidPath) pidPath with
  | .error e => throw (runtimeError ans.log e "OCI runtime create failed")
  | .ok proc =>
    modifyWorld fun w => { w with runtime := w.runtime.insert p.id .created }
    if p.stdio.terminal then
      attachConsole ans
    let pid ← readPid ans pidPath
    modifyProcess fun p => { p with
      pid := pid
      proc := some proc
      lifecycle := { p.lifecycle with cgroupCache := ans.cgroup } }

/-- An init process that cannot be created is dropped, its io tasks aborted. -/
def InitProcess.create (ans : Answers) (id : String) (stdio : Stdio)
    (lifecycle : RuncInitLifecycle) : EStateM Error World InitProcess := fun w =>
  let init := ProcessTemplate.new id stdio lifecycle w.nextInst
  match createContainer ans (init, { w with nextInst := w.nextInst + 1 }) with
  | .ok _ (init, w) => .ok init w
  | .error e (_, w) => .error e w

/-! ## The init lifecycle -/

def RuncInitLifecycle.ensureInitCgroupExists (l : RuncInitLifecycle) (ans : Answers) : Bool :=
  match l.cgroupCache with
  | some _ => ans.cgroupExists
  | none => false

/-- `umount_recursive` of the rootfs, once it succeeded. -/
def World.umountRootfs (w : World) (rootfs : String) : World :=
  { w with mounts := w.mounts.filter fun m =>
      !(m == rootfs || (rootfs ++ "/").toList.isPrefixOf m.toList) }

namespace RuncInitLifecycle

def start (ans : Answers) : Method InitProcess Unit := do
  let p ← getProcess
  match ← runtimeCall ans (.start p.id)
      (fun w => { w with runtime := w.runtime.insert p.id .running }) with
  | .error e => throw (runtimeError ans.log e "OCI runtime start failed")
  | .ok () => modifyProcess fun p => { p with state := .running }

def kill (ans : Answers) (signal : UInt32) (all : Bool) : Method InitProcess Unit := do
  let p ← getProcess
  match ← runtimeCall ans (.kill p.id signal all) id with
  | .error e => throw (checkKillError e)
  | .ok () => return

/-- A container the runtime does not know counts as deleted. -/
def delete (ans : Answers) : Method InitProcess Unit := do
  let p ← getProcess
  match ← runtimeCall ans (.delete p.id)
      (fun w => { w with runtime := w.runtime.erase p.id }) with
  | .error e =>
    if !containsStr e.toLower "does not exist" then
      throw (runtimeError ans.log e "OCI runtime delete failed")
  | .ok () => pure ()
  answered ans.umount
  modifyWorld (·.umountRootfs (joinPath p.lifecycle.bundle "rootfs"))

/-- The checks of `update` and `stats` before the cached cgroup is used. -/
def onCgroup {α : Type} (ans : Answers) (what : String) (m : Method InitProcess α) :
    Method InitProcess α := do
  let p ← getProcess
  if p.pid ≤ 0 then
    throw (.other s!"failed to {what} because init process is {p.pid}")
  else if !p.lifecycle.ensureInitCgroupExists ans then
    throw (.other s!"failed to {what} because cgroup for process {p.pid} has been released")
  else
    match p.lifecycle.cgroupCache with
    | none => throw (.other s!"cgroup cache is empty for process {p.pid}")
    | some _ => m

def update (ans : Answers) : Method InitProcess Unit :=
  onCgroup ans "update resources" (answered ans.updateResources)

def stats (ans : Answers) : Method InitProcess Any :=
  onCgroup ans "collect metrics" (ofExcept ans.collectMetrics)

def ps (ans : Answers) : Method InitProcess (List ProcessInfo) := do
  let p ← getProcess
  match ← runtimeCall ans (.ps p.id) id with
  | .error e => throw (.other s!"failed to execute runc ps: {e}")
  | .ok () => return ans.psPids.map fun x => { pid := UInt32.ofNat x }

/-- The state is PAUSING while the runtime is called, and RUNNING again if it fails. -/
def pause (ans : Answers) : Method InitProcess Unit := do
  let p ← getProcess
  if p.state = .running then
    modifyProcess fun p => { p with state := .pausing }
    match ← runtimeCall ans (.pause p.id) id with
    | .error e =>
      modifyProcess fun p => { p with state := .running }
      throw (runtimeError ans.log e "OCI runtime pause failed")
    | .ok () => modifyProcess fun p => { p with state := .paused }
  else
    throw (.other s!"cannot pause when in {p.state.debug} state")

def resume (ans : Answers) : Method InitProcess Unit := do
  let p ← getProcess
  if p.state = .paused then
    match ← runtimeCall ans (.resume p.id) id with
    | .error e => throw (runtimeError ans.log e "OCI runtime pause failed")
    | .ok () => modifyProcess fun p => { p with state := .running }
  else
    throw (.other s!"cannot resume when in {p.state.debug} state")

end RuncInitLifecycle

instance : ProcessLifecycle RuncInitLifecycle where
  start := RuncInitLifecycle.start
  kill := RuncInitLifecycle.kill
  delete := RuncInitLifecycle.delete
  update := RuncInitLifecycle.update
  stats := RuncInitLifecycle.stats
  ps := RuncInitLifecycle.ps
  pause := RuncInitLifecycle.pause
  resume := RuncInitLifecycle.resume

/-! ## The exec lifecycle -/

/-- The signals `Signal::try_from` knows on Linux. -/
def validSignal (signal : UInt32) : Bool := 1 ≤ signal.toNat && signal.toNat ≤ 31

namespace RuncExecLifecycle

def startExec (ans : Answers) : Method ExecProcess Unit := do
  let p ← getProcess
  let pidPath := execPidPath p.lifecycle.bundle p.id
  prepareIo ans
  match ← runtimeSpawn ans (.exec p.lifecycle.containerId pidPath) pidPath with
  | .error e => throw (runtimeError ans.log e "OCI runtime exec failed")
  | .ok proc =>
    if p.stdio.terminal then
      attachConsole ans
    let pid ← readPid ans pidPath
    modifyProcess fun p => { p with pid := pid, proc := some proc, state := .running }

/-- After a failure the entry gets fresh io tasks; the old ones are aborted. -/
def start (ans : Answers) : Method ExecProcess Unit := fun s =>
  match startExec ans s with
  | .ok a s => .ok a s
  | .error e (p, w) => .error e ({ p with ioTasks := p.ioTasks.renew }, w)

def kill (ans : Answers) (signal : UInt32) (_all : Bool) : Method ExecProcess Unit := do
  let p ← getProcess
  if p.pid ≤ 0 then
    throw (.failedPreconditionError "process not created")
  else if p.exitedAt.isSome then
    throw (.notFoundError "process already finished")
  else if !validSignal signal then
    throw (.other s!"kill task error: {ans.joinError}")
  else
    modifyWorld (·.call (.signal p.pid signal))
    match ans.kill with
    | .done => return
    | .errno err => throw (.nix err)
    | .timedOut =>
      if signal = 9 ∨ signal = 15 then return
      else throw (.deadlineExceeded "kill operation timed out")

/-- A pid file that cannot be removed is left behind in silence. -/
def delete (ans : Answers) : Method ExecProcess Unit := do
  let p ← getProcess
  if !ans.removeFileFails then
    modifyWorld (·.removeFile (execPidPath p.lifecycle.bundle p.id))

end RuncExecLifecycle

instance : ProcessLifecycle RuncExecLifecycle where
  start := RuncExecLifecycle.start
  kill := RuncExecLifecycle.kill
  delete := RuncExecLifecycle.delete
  update _ := throw (.unimplemented "exec update")
  stats _ := throw (.unimplemented "exec stats")
  ps _ := throw (.unimplemented "exec ps")
  pause _ := throw (.unimplemented "exec pause")
  resume _ := throw (.unimplemented "exec resume")

end RustExtensions.RuncShim
