import RustExtensions.Lib.Ownership
import RustExtensions.RuncShim.Runc

/-!
# The descriptors behind a process's stdio

What `create_container` and `start_exec` open on the way to a process, and who
has it when they return: the pipes of `PipedIo` or the console socket, the
fifos, the ends that the command is given. Any call may fail.
-/
namespace RustExtensions.RuncShim

open RustExtensions.Shim
open RustExtensions.Ownership
open RustExtensions.Fallible

inductive StdStream where
  | stdin | stdout | stderr
  deriving DecidableEq

inductive Side where
  | rd | wr
  deriving DecidableEq

/-- What an owner can have open. `attempt` tells the pipes of one start from those of another, and
a shared console counts once for each owner. -/
inductive Handle where
  | pipe (attempt : Nat) (stream : StdStream) (side : Side)
  | captured (attempt : Nat) (stream : StdStream) (side : Side)
  | fifo (path : String) (read write : Bool)
  | specFile
  | listener
  | connection
  | console
  deriving DecidableEq

/-- `Pipe`. The write end may have been closed or given away. -/
structure Pipe where
  wr : Bool := true
  deriving DecidableEq

structure IoOption where
  openStdin : Bool := true
  openStdout : Bool := true
  openStderr : Bool := true

structure PipedIo where
  stdin : Option Pipe := none
  stdout : Option Pipe := none
  stderr : Option Pipe := none
  deriving DecidableEq

inductive Driver where
  | null
  | piped (io : PipedIo)
  deriving DecidableEq

/-- Where an output of a command goes: to `/dev/null`, to a pipe whose other end `execute` reads,
or to the pipe of the process's own. -/
inductive Sink where
  | null | captured | piped
  deriving DecidableEq

/-- The stdio of a command, whose stdin is `/dev/null` unless it is a pipe. -/
structure Command where
  stdin : Bool := false
  stdout : Sink := .captured
  stderr : Sink := .captured
  deriving DecidableEq

/-- The shim's side of a process that is being made. `driver` is the io that `CreateOpts` and
`ProcessIO` share, and `child` what the runtime got. -/
structure Descriptors where
  handles : Multiset Handle := 0
  calls : Nat := 0
  driver : Option Driver := none
  tasks : List (Multiset Handle) := []
  ioTasks : IoTasks := {}
  held : Multiset Handle := 0
  console : Multiset Handle := 0
  child : Option Command := none

/-- The error of each call that can fail, where it does, in the order of the calls. -/
structure Outcomes where
  fails : Nat → Option String
  attempt : Nat := 0
  socketDir : String := ""
  log : Except String (List (Except String Log)) := .ok []

abbrev Attempt (ε α : Type) := EStateM ε Descriptors α

namespace Descriptors

/-! ## What the owners have -/

def Pipe.handles (n : Nat) (stream : StdStream) (p : Option Pipe) : Multiset Handle :=
  match p with
  | none => 0
  | some p => {.pipe n stream .rd} + if p.wr then {.pipe n stream .wr} else 0

def PipedIo.handles (n : Nat) (io : PipedIo) : Multiset Handle :=
  Pipe.handles n .stdin io.stdin + Pipe.handles n .stdout io.stdout +
    Pipe.handles n .stderr io.stderr

def driverHandles (n : Nat) : Option Driver → Multiset Handle
  | some (.piped io) => PipedIo.handles n io
  | _ => 0

def total : List (Multiset Handle) → Multiset Handle
  | [] => 0
  | m :: ms => m + total ms

def ledger (n : Nat) : Ledger Descriptors Handle where
  handles := Descriptors.handles
  owned s := driverHandles n s.driver + total s.tasks + s.held + s.console
  put s m := { s with handles := m }
  handles_put _ _ := rfl
  owned_put _ _ := rfl

def ioError (context : String) (e : String) : Error := .ioError context e

variable (env : Outcomes) {ε : Type}

/-- A call that can fail, with what it opens. -/
def call (opened : Multiset Handle) (err : String → ε) : Attempt ε Unit := fun s =>
  match env.fails s.calls with
  | some e => .error (err e) { s with calls := s.calls + 1 }
  | none => .ok () { s with calls := s.calls + 1, handles := s.handles + opened }

/-- A call whose error nobody looks at. -/
def succeeds : Attempt ε Bool := fun s =>
  .ok (env.fails s.calls).isNone { s with calls := s.calls + 1 }

/-- A clone that cannot fail. -/
def acquire (m : Multiset Handle) : Attempt ε Unit := fun s =>
  .ok () { s with handles := s.handles + m }

def drop (m : Multiset Handle) : Attempt ε Unit := release (ledger env.attempt) m

def own (stream : StdStream) (side : Side) : Handle := .pipe env.attempt stream side

/-! ## The pipes -/

/-- `Pipe::new`, and the chown of its read end. -/
def newPipe (stream : StdStream) : Attempt Error Unit := do
  let ends := {own env stream .rd} + {own env stream .wr}
  call env ends (.ioError "create pipes")
  holding (ledger env.attempt) ends (call env 0 (.ioError "create pipes"))

def newPipeIf (wanted : Bool) (stream : StdStream) : Attempt Error (Option Pipe) :=
  if wanted then do
    newPipe env stream
    return some {}
  else return none

def PipedIo.new (opts : IoOption) : Attempt Error PipedIo := do
  let stdin ← newPipeIf env opts.openStdin .stdin
  let made := Pipe.handles env.attempt .stdin stdin
  let stdout ← holding (ledger env.attempt) made (newPipeIf env opts.openStdout .stdout)
  let made := made + Pipe.handles env.attempt .stdout stdout
  let stderr ← holding (ledger env.attempt) made (newPipeIf env opts.openStderr .stderr)
  return { stdin, stdout, stderr }

/-- `pio.io = Some(..)`, which drops what was there. -/
def setDriver (n : Nat) (driver : Driver) (s : Descriptors) : Descriptors :=
  { s with handles := s.handles - driverHandles n s.driver, driver := some driver }

/-- No scheme means a fifo. -/
def scheme (stdio : Stdio) : String := (splitOnceFst (trim stdio.stdout) "://").getD "fifo"

def createIo (stdio : Stdio) : Attempt Error Unit :=
  if stdio.isNull then modify (setDriver env.attempt .null)
  else if scheme stdio = "fifo" then do
    let io ← PipedIo.new env {
      openStdin := stdio.stdin ≠ ""
      openStdout := stdio.stdout ≠ ""
      openStderr := stdio.stderr ≠ "" }
    modify (setDriver env.attempt (.piped io))
  else return

/-- tokio's `from_owned_fd(fd).ok()`, which drops the descriptor where it fails. -/
def fromOwnedFd (h : Handle) : Attempt ε Bool := do
  if ← succeeds env then return true
  else
    drop env {h}
    return false

/-- `Pipe::take_wr` of stdin, with whether the write end was there to take. -/
def takeWr : Attempt ε Bool := fun s =>
  match s.driver with
  | some (.piped { stdin := some { wr := true }, stdout, stderr }) =>
    .ok true { s with driver := some (.piped { stdin := some { wr := false }, stdout, stderr }) }
  | _ => .ok false s

/-- `Io::stdin`: the writer is given away. -/
def stdinWriter : Attempt ε Bool := do
  if ← takeWr then fromOwnedFd env (own env .stdin .wr)
  else return false

/-- `read_end` of a pipe that may be missing. -/
def readEnd (pipe : Option Pipe) (stream : StdStream) : Attempt ε Bool :=
  match pipe with
  | some _ => do
    if ← succeeds env then
      acquire {own env stream .rd}
      fromOwnedFd env (own env stream .rd)
    else return false
  | none => return false

/-- `Io::stdout` and `Io::stderr`. -/
def outputReader (stream : StdStream) : Attempt ε Bool := do
  match (← get).driver with
  | some (.piped io) => readEnd env (if stream = .stdout then io.stdout else io.stderr) stream
  | _ => return false

/-! ## The copies -/

def inputTask (path : String) (dst : Handle) : Multiset Handle := {.fifo path true false} + {dst}

def outputTask (path : String) (src : Handle) : Multiset Handle :=
  {src} + {.fifo path false true} + {.fifo path true false}

/-- The shim's hold on stdin is kept, unless CloseIO came first, and the copy begins. -/
def giveInput (path : String) (dst : Handle) (s : Descriptors) : Descriptors :=
  let hold : Multiset Handle := {.fifo path false true}
  let tasks := s.tasks ++ [inputTask path dst]
  match s.ioTasks.stdin with
  | .released => { s with handles := s.handles - hold, tasks }
  | _ =>
    { s with handles := s.handles - s.held, held := hold, ioTasks := s.ioTasks.copyFromFifo, tasks }

/-- The opens of `copy_from_fifo`, and the bridge closed after them. -/
def openInput (path : String) : Attempt Error Unit := do
  let bridge : Multiset Handle := {.fifo path true true}
  let fifo : Multiset Handle := {.fifo path true false}
  call env bridge (.ioError s!"hold {path} open")
  holding (ledger env.attempt) bridge (call env fifo (.ioError s!"open {path}"))
  holding (ledger env.attempt) (bridge + fifo)
    (call env {.fifo path false true} (.ioError s!"hold {path} open"))
  drop env bridge

def copyFromFifo (path : String) (dst : Handle) : Attempt Error Unit := do
  holding (ledger env.attempt) {dst} (openInput env path)
  modify (giveInput path dst)

def giveOutput (path : String) (src : Handle) (s : Descriptors) : Descriptors :=
  { s with tasks := s.tasks ++ [outputTask path src] }

def copyToFifo (src : Handle) (path : String) : Attempt Error Unit := do
  let hold : Multiset Handle := {.fifo path true false}
  holding (ledger env.attempt) {src} (call env hold (.ioError s!"hold {path} open"))
  holding (ledger env.attempt) ({src} + hold)
    (call env {.fifo path false true} (.ioError s!"open {path}"))
  modify (giveOutput path src)

/-- `ok_or_else(|| other!("no pipe for ..."))?`. -/
def orNoPipe (name : String) : Bool → Attempt Error Unit
  | true => return
  | false => throw (.other s!"no pipe for {name}")

def copyInput (stdio : Stdio) : Attempt Error Unit :=
  if stdio.stdin ≠ "" then do
    orNoPipe "stdin" (← stdinWriter env)
    copyFromFifo env stdio.stdin (own env .stdin .wr)
  else return

def copyOutput (path name : String) (stream : StdStream) : Attempt Error Unit :=
  if path ≠ "" then do
    orNoPipe name (← outputReader env stream)
    copyToFifo env (own env stream .rd) path
  else return

def copyStreams (stdio : Stdio) : Attempt Error Unit := do
  copyInput env stdio
  copyOutput env stdio.stdout "stdout" .stdout
  copyOutput env stdio.stderr "stderr" .stderr

def copyIo (stdio : Stdio) : Attempt Error Unit := do
  match (← get).driver with
  | none => return
  | some _ => copyStreams env stdio

/-! ## The command -/

def Command.handles (n : Nat) (cmd : Command) : Multiset Handle :=
  (if cmd.stdin then {.pipe n .stdin .rd} else 0) +
    (if cmd.stdout = .piped then {.pipe n .stdout .wr} else 0) +
    if cmd.stderr = .piped then {.pipe n .stderr .wr} else 0

/-- The read ends of the outputs that `execute` captures. -/
def Command.capturedEnds (n : Nat) (cmd : Command) : Multiset Handle :=
  (if cmd.stdout = .captured then {.captured n .stdout .rd} else 0) +
    if cmd.stderr = .captured then {.captured n .stderr .rd} else 0

/-- The process's end of an output: a clone of the write end, if that is still open. -/
def setOutput (pipe : Option Pipe) (stream : StdStream) : Attempt String Sink :=
  match pipe with
  | none => return .captured
  | some { wr := false } => throw "Failed to set cmd io: write end closed"
  | some { wr := true } => do
    if ← succeeds env then
      acquire {own env stream .wr}
      return .piped
    else throw "Failed to set cmd io: write end closed"

/-- The process's end of its input: a clone of the read end. -/
def setInput (pipe : Option Pipe) : Attempt String Bool :=
  match pipe with
  | none => return false
  | some _ => do
    call env {own env .stdin .rd} fun e => s!"Failed to set cmd io: {e}"
    return true

/-- `Io::set` of `PipedIo`. -/
def setPiped (io : PipedIo) : Attempt String Command := do
  let stdin ← setInput env io.stdin
  let cmd : Command := { stdin, stdout := .null, stderr := .null }
  let stdout ← holding (ledger env.attempt) (Command.handles env.attempt cmd)
    (setOutput env io.stdout .stdout)
  let cmd := { cmd with stdout }
  let stderr ← holding (ledger env.attempt) (Command.handles env.attempt cmd)
    (setOutput env io.stderr .stderr)
  return { cmd with stderr }

/-- The command as `launch_io` makes it, after the io driver has set what it sets. -/
def setIo (io : Option Driver) : Attempt String Command :=
  match io with
  | none => return {}
  | some .null => return { stdout := .null, stderr := .null }
  | some (.piped io) => setPiped env io

/-- `ShimExecutor::execute`: the command is dropped when the child is gone, and what it captured is
read to the end before that. -/
def execute (cmd : Command) : Attempt String Unit := do
  call env 0 fun e => s!"Error occured in runc client: {e}"
  call env (Command.capturedEnds env.attempt cmd) id
  modify fun s => { s with child := some cmd }
  drop env (Command.capturedEnds env.attempt cmd)

/-- `Pipe::close_wr`. -/
def closeWr (p : Option Pipe) : Option Pipe := p.map fun _ => { wr := false }

def closeOutputs : Driver → Driver
  | .piped io => .piped { io with stdout := closeWr io.stdout, stderr := closeWr io.stderr }
  | .null => .null

/-- `close_after_start`: the write ends of the outputs are closed. -/
def closeAfterStart (n : Nat) (s : Descriptors) : Descriptors :=
  let driver := s.driver.map closeOutputs
  { s with driver, handles := s.handles - (driverHandles n s.driver - driverHandles n driver) }

/-- `launch_io`, once the command has its stdio. -/
def runCommand (cmd : Command) : Attempt String Unit := do
  let res ← attempt (dropping (ledger env.attempt) (Command.handles env.attempt cmd)
    (execute env cmd))
  modify (closeAfterStart env.attempt)
  match res with
  | .ok () => call env 0 id
  | .error e => throw e

/-- `Runc::launch_io`, with the write ends closed in the end. -/
def launchIo : Attempt String Unit := do
  runCommand env (← setIo env (← get).driver)

/-- `Runc::create`. -/
def runcCreate : Attempt String Unit := do
  call env 0 fun e => s!"Invalid path: {e}"
  call env 0 fun e => s!"Invalid path: {e}"
  launchIo env

/-- `Runc::exec`, with the file that holds the process's spec. -/
def runcExec : Attempt String Unit := do
  call env {.specFile} fun e => s!"Failed to spec file: {e}"
  dropping (ledger env.attempt) {.specFile} do
    call env 0 id
    call env 0 fun e => s!"Failed to spec file: {e}"
    call env 0 fun e => s!"Invalid path: {e}"
    launchIo env

/-! ## The console -/

/-- `ConsoleSocket::new`. -/
def newConsoleSocket : Attempt Error Unit := do
  call env 0 (.ioError s!"mkdir {env.socketDir}")
  let path := joinPath env.socketDir "pty.sock"
  call env {.listener} (.ioError s!"bind socket {path}")

/-- `receive_socket`, of a runtime that sends one descriptor. -/
def receiveSocket : Attempt Error Unit := do
  call env {.console} fun e => .other s!"failed to receive message: {e}"
  holding (ledger env.attempt) {.console} (call env 0 .nix)

/-- `Pty::new`. -/
def newPty : Attempt Error Unit :=
  holding (ledger env.attempt) {.console} do
    call env 0 (.ioError "set the console non-blocking")
    call env 0 (.ioError "register the console")

/-- A copy between the console and a fifo, with a clone of the console. -/
def consoleCopy (path : String) (copy : Attempt Error Unit) : Attempt Error Unit :=
  if path ≠ "" then do
    acquire {.console}
    copy
  else return

def copyConsole (stdio : Stdio) : Attempt Error Unit := do
  call env {.connection} (.ioError "failed to list console socket")
  dropping (ledger env.attempt) {.connection} (receiveSocket env)
  newPty env
  holding (ledger env.attempt) {.console} do
    consoleCopy stdio.stdin (copyFromFifo env stdio.stdin .console)
    consoleCopy stdio.stdout (copyToFifo env .console stdio.stdout)

/-- `p.console = Some(console)`. -/
def keepConsole (s : Descriptors) : Descriptors :=
  { s with handles := s.handles - s.console, console := {.console} }

/-- The socket is cleaned up before the outcome of the copies is looked at. -/
def attachConsole (stdio : Stdio) : Attempt Error Unit := do
  let res ← holding (ledger env.attempt) {.listener} (attempt (copyConsole env stdio))
  drop env {.listener}
  match res with
  | .ok () => modify keepConsole
  | .error e => throw e

/-! ## A process is made -/

/-- What a process needs before the runtime is called: a console socket or open fifos. -/
def prepare (stdio : Stdio) : Attempt Error Unit :=
  if stdio.terminal then newConsoleSocket env
  else do
    createIo env stdio
    copyIo env stdio

/-- The console socket is a local variable of the caller. -/
def socketHandles (stdio : Stdio) : Multiset Handle := if stdio.terminal then {.listener} else 0

/-- What follows when the runtime has made the process. -/
def finish (pidPath : String) (stdio : Stdio) : Attempt Error Unit := do
  if stdio.terminal then
    attachConsole env stdio
  call env 0 (.ioError s!"read {pidPath}")
  call env 0 .parseInt

/-- The call of the runtime, and what comes of its outcome. -/
def runProcess (runtime : Attempt String Unit) (msg pidPath : String) (stdio : Stdio) :
    Attempt Error Unit := do
  match ← holding (ledger env.attempt) (socketHandles stdio) (attempt runtime) with
  | .error e =>
    drop env (socketHandles stdio)
    throw (runtimeError env.log e msg)
  | .ok () => finish env pidPath stdio

/-- `create_container` and `start_exec`, up to the end of their scope. -/
def makeProcess (runtime : Attempt String Unit) (msg pidPath : String) (stdio : Stdio) :
    Attempt Error Unit := do
  prepare env stdio
  runProcess env runtime msg pidPath stdio

/-- The io driver goes with the options that share it. -/
def dropDriver (n : Nat) (s : Descriptors) : Descriptors :=
  { s with handles := s.handles - driverHandles n s.driver, driver := none }

def inScope (x : Attempt Error Unit) : Attempt Error Unit := fun s =>
  match x s with
  | .ok a t => .ok a (dropDriver env.attempt t)
  | .error e t => .error e (dropDriver env.attempt t)

def createContainer (bundle : String) (stdio : Stdio) : Attempt Error Unit :=
  inScope env (makeProcess env (runcCreate env) "OCI runtime create failed" (initPidPath bundle)
    stdio)

def startExec (bundle execId : String) (stdio : Stdio) : Attempt Error Unit :=
  inScope env (makeProcess env (runcExec env) "OCI runtime exec failed" (execPidPath bundle execId)
    stdio)

/-- `IoTasks::abort`, which waits for the tasks. -/
def abort (s : Descriptors) : Descriptors :=
  { s with
    handles := s.handles - (total s.tasks + s.held)
    tasks := []
    held := 0
    ioTasks := s.ioTasks.abort }

/-- `InitProcess::create`: at an error the process is dropped. -/
def create (bundle : String) (stdio : Stdio) : Attempt Error Unit := fun s =>
  match createContainer env bundle stdio s with
  | .ok a t => .ok a t
  | .error e t =>
    let t := abort t
    .error e { t with handles := t.handles - t.console, console := 0 }

/-- `RuncExecLifecycle::start`: at an error the exec stays, with fresh tasks and the console it may
have got. -/
def start (bundle execId : String) (stdio : Stdio) : Attempt Error Unit := fun s =>
  match startExec env bundle execId stdio s with
  | .ok a t => .ok a t
  | .error e t => .error e { abort t with ioTasks := t.ioTasks.renew }

end Descriptors
end RustExtensions.RuncShim
