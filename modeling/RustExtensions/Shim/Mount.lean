import RustExtensions.Lib.Program
import RustExtensions.Shim.Error
import RustExtensions.Shim.Lowerdir

/-!
# Mounting a rootfs

`mount_rootfs` of the asynchronous build, with the loop device it may set up, as
a program over the system calls it makes. A file is closed where its value is
dropped, on a panic too.
-/
namespace RustExtensions.Shim

open RustExtensions.Calls

/-! ## System calls -/

/-- An error of the operating system: number, name and description. -/
structure OsError where
  code : Int32
  name : String
  desc : String
  deriving DecidableEq

namespace OsError

/-- `nix::Errno`, displayed. -/
def nix (e : OsError) : String := s!"{e.name}: {e.desc}"

/-- `std::io::Error`, displayed. -/
def io (e : OsError) : String := s!"{e.desc} (os error {e.code})"

def ebusy : OsError := { code := 16, name := "EBUSY", desc := "Device or resource busy" }

end OsError

abbrev MsFlags := UInt64

namespace MsFlags

def rdonly : MsFlags := 1
def nosuid : MsFlags := 2
def nodev : MsFlags := 4
def noexec : MsFlags := 8
def synchronous : MsFlags := 16
def remount : MsFlags := 32
def mandlock : MsFlags := 64
def dirsync : MsFlags := 128
def noatime : MsFlags := 1024
def nodiratime : MsFlags := 2048
def bind : MsFlags := 4096
def rec' : MsFlags := 16384
def silent : MsFlags := 32768
def unbindable : MsFlags := 131072
def private' : MsFlags := 262144
def slave : MsFlags := 524288
def shared : MsFlags := 1048576
def relatime : MsFlags := 2097152
def strictatime : MsFlags := 16777216

end MsFlags

structure MountArgs where
  source : Option String
  target : String
  fsType : Option String
  flags : MsFlags
  data : Option String
  deriving DecidableEq

/-- The fields of `LoopInfo` that are ever set. -/
structure LoopInfo where
  flags : UInt32 := 0
  fileName : List UInt8 := []
  deriving DecidableEq

/-- An open answers with a descriptor, `loopCtlGetFree` with the number of a device. -/
inductive SysCall where
  | open (path : String) (write : Bool)
  | close (fd : Nat)
  | loopCtlGetFree (fd : Nat)
  | loopSetFd (fd back : Nat)
  | loopSetStatus64 (fd : Nat) (info : LoopInfo)
  | loopSetDirectIo (fd : Nat)
  | loopClrFd (fd : Nat)
  | unshareFs
  | chdir (dir : String)
  | mount (args : MountArgs)
  deriving DecidableEq

abbrev Syscalls (α : Type) := Program SysCall (Except OsError Nat) α

/-- What returns a `Result`. -/
abbrev Fallible := ExceptT Error (Program SysCall (Except OsError Nat))

/-- A call whose error is returned. -/
def sys (c : SysCall) (err : OsError → Error) : Fallible Nat :=
  .mk (.call c fun
    | .ok n => .ret (.ok n)
    | .error e => .ret (.error (err e)))

/-- A call whose answer nobody looks at. -/
def ignored (c : SysCall) : Syscalls Unit := .call c fun _ => .ret ()

/-- What the code panics on. -/
def orPanic {α : Type} : Option α → Fallible α
  | some a => pure a
  | none => .mk .panic

/-- The file is a local variable of `body`: it is closed on every way out. -/
def closing {α : Type} (fd : Nat) (body : Fallible α) : Fallible α :=
  .mk (body.run.atExit fun _ => ignored (.close fd))

def closeUnlessOk (fd : Nat) : Option (Except Error Unit) → Syscalls Unit
  | some (.ok ()) => .ret ()
  | _ => ignored (.close fd)

/-- The file is returned by `body`, and closed on any other way out. -/
def returning (fd : Nat) (body : Fallible Unit) : Fallible Nat :=
  .mk ((body.run.atExit (closeUnlessOk fd)).bind fun r => .ret (r.map fun () => fd))

/-! ## Loop devices -/

def loopControlPath : String := "/dev/loop-control"

def loopDevFormat : String := "/dev/loop"

def ebusyString : String := "device or resource busy"

structure LoopParams where
  readonly : Bool := false
  autoClear : Bool := false
  direct : Bool := false

def loFlagsReadOnly : UInt32 := 0x1

def loFlagsAutoclear : UInt32 := 0x4

def openError (path : String) (e : OsError) : Error := .ioError s!"open {path} error: " e.io

def getFreeLoopDev : Fallible Nat := do
  let loopControl ← sys (.open loopControlPath true) (openError loopControlPath)
  closing loopControl (sys (.loopCtlGetFree loopControl) fun e => .nix e.nix)

/-- The last call is undone by LOOP_CLR_FD if it fails. -/
def orClear (loopDev : Nat) (c : SysCall) : Fallible Unit :=
  .mk (.call c fun
    | .ok _ => .ret (.ok ())
    | .error e => .call (.loopClrFd loopDev) fun _ => .ret (.error (.nix e.nix)))

/-- The slice panics inside a character. -/
def backingFileTruncated (backingFile : String) : Fallible String :=
  if (Utf8.encode backingFile).length > 64 then orPanic (sliceTo backingFile 64)
  else pure backingFile

def setupLoopDev (backingFile loopDev : String) (params : LoopParams) : Fallible Nat := do
  let write := !params.readonly
  -- 1. open backing file
  let back ← sys (.open backingFile write) (openError backingFile)
  closing back do
    let loopDev ← sys (.open loopDev write) (openError loopDev)
    returning loopDev do
      -- 2. set FD
      let _ ← sys (.loopSetFd loopDev back) fun e => .nix e.nix
      -- 3. set info
      let truncated ← backingFileTruncated backingFile
      orClear loopDev (.loopSetStatus64 loopDev {
        flags := (if params.readonly then loFlagsReadOnly else 0) |||
          (if params.autoClear then loFlagsAutoclear else 0)
        fileName := Utf8.encode truncated })
      -- 4. set direct IO
      if params.direct then orClear loopDev (.loopSetDirectIo loopDev)

/-- The rounds that are left. The file of `setup_loop_dev` is dropped with the match. -/
def setupLoopRounds (src : String) (params : LoopParams) : Nat → Fallible String
  | 0 => throw (.other "creating new loopback device after 100 times")
  | n + 1 => do
    let num ← getFreeLoopDev
    let loopDev := s!"{loopDevFormat}{num}"
    .mk ((setupLoopDev src loopDev params).run.bind fun
      | .ok file => (ignored (.close file)).bind fun _ => .ret (.ok loopDev)
      | .error e =>
        if containsStr e.display ebusyString then setupLoopRounds src params n
        else .ret (.error e))

def setupLoop (source : Option String) (params : LoopParams) : Fallible String :=
  match source with
  | some src => setupLoopRounds src params 100
  | none => throw (.other "loop source is None")

/-! ## Options -/

structure Flag where
  clear : Bool
  flags : MsFlags

def mountFlags : List (String × Flag) :=
  [("async", ⟨true, MsFlags.synchronous⟩), ("atime", ⟨true, MsFlags.noatime⟩),
    ("bind", ⟨false, MsFlags.bind⟩), ("defaults", ⟨false, 0⟩), ("dev", ⟨true, MsFlags.nodev⟩),
    ("diratime", ⟨true, MsFlags.nodiratime⟩), ("dirsync", ⟨false, MsFlags.dirsync⟩),
    ("exec", ⟨true, MsFlags.noexec⟩), ("mand", ⟨false, MsFlags.mandlock⟩),
    ("noatime", ⟨false, MsFlags.noatime⟩), ("nodev", ⟨false, MsFlags.nodev⟩),
    ("nodiratime", ⟨false, MsFlags.nodiratime⟩), ("noexec", ⟨false, MsFlags.noexec⟩),
    ("nomand", ⟨true, MsFlags.mandlock⟩), ("norelatime", ⟨true, MsFlags.relatime⟩),
    ("nostrictatime", ⟨true, MsFlags.strictatime⟩), ("nosuid", ⟨false, MsFlags.nosuid⟩),
    ("rbind", ⟨false, MsFlags.bind ||| MsFlags.rec'⟩), ("relatime", ⟨false, MsFlags.relatime⟩),
    ("remount", ⟨false, MsFlags.remount⟩), ("ro", ⟨false, MsFlags.rdonly⟩),
    ("rw", ⟨true, MsFlags.rdonly⟩), ("strictatime", ⟨false, MsFlags.strictatime⟩),
    ("suid", ⟨true, MsFlags.nosuid⟩), ("sync", ⟨false, MsFlags.synchronous⟩)]

def propagationTypes : MsFlags :=
  MsFlags.shared ||| MsFlags.private' ||| MsFlags.slave ||| MsFlags.unbindable

def msPropagation : MsFlags := propagationTypes ||| MsFlags.rec' ||| MsFlags.silent

def msBindRo : MsFlags := MsFlags.bind ||| MsFlags.rdonly

def optionsSize (options : List String) : Nat :=
  options.foldl (fun sum x => sum + x.utf8ByteSize) 0

/-- The options as flags, as data, and whether a loop device is wanted. -/
structure ParsedOptions where
  flags : MsFlags := 0
  data : List String := []
  loSetup : Bool := false

def ParsedOptions.add (o : ParsedOptions) (x : String) : ParsedOptions :=
  match mountFlags.lookup x with
  | some f =>
    if f.clear then { o with flags := o.flags &&& ~~~f.flags }
    else { o with flags := o.flags ||| f.flags }
  | none =>
    if x = "loop" then { o with loSetup := true }
    else { o with data := o.data ++ [x] }

def parseOptions (options : List String) : ParsedOptions := options.foldl ParsedOptions.add {}

/-- `{:?}` of an optional string of printable characters. -/
def debugOption : Option String → String
  | some s => s!"Some({s.quote})"
  | none => "None"

def mountError (context : String) (e : OsError) : Error := .mountError context e.nix

/-! ## The mount -/

/-- What is left of the options. -/
def compactedOptions (pageSize : Nat) (fsType : Option String) (options : List String) :
    Option (Option String × List String) :=
  if fsType.getD "" = "overlay" then
    -- `max_size - 512` underflows on a smaller page
    if pageSize < 512 then none
    else if optionsSize options ≥ pageSize - 512 then
      (LowerdirCompactor.mk options none none).compact
    else some (none, options)
  else some (none, options)

def compactOptions (pageSize : Nat) (fsType : Option String) (options : List String) :
    Fallible (Option String × List String) := orPanic (compactedOptions pageSize fsType options)

/-- `i32::from(MountExitCode::ChdirErr)`. -/
def chdirErr : Int32 := -1

def changeDir : Option String → Fallible Unit
  | some workdir => do
    let _ ← sys .unshareFs fun e => .nix e.nix
    .mk (.call (.chdir workdir) fun
      | .ok _ => .ret (.ok ())
      | .error _ => .exit chdirErr)
  | none => pure ()

/-- What is mounted, a loop device if one is wanted. -/
def mountSource (source : Option String) (loSetup : Bool) (oflags : MsFlags) :
    Fallible (Option String) :=
  let loopParams : LoopParams :=
    { readonly := oflags &&& MsFlags.rdonly = MsFlags.rdonly, autoClear := true }
  if loSetup then some <$> setupLoop source loopParams else pure source

/-- Mount with non-propagation first, or remount with changed data. -/
def mountData (fsType source : Option String) (target : String) (flags oflags : MsFlags)
    (data : Option String) (loSetup : Bool) : Fallible Unit :=
  if flags &&& MsFlags.remount = 0 ∨ data.isSome then do
    let s ← mountSource source loSetup oflags
    let _ ← sys (.mount { source := s, target, fsType, flags := oflags, data })
      (mountError s!"Mount {debugOption source} to {target}")
  else pure ()

/-- `mount(None, target, None, flags, None)`, where the flags ask for it. -/
def changeMount (changed : Bool) (target : String) (flags : MsFlags) (what : String) :
    Fallible Unit :=
  if changed then do
    let _ ← sys (.mount { source := none, target, fsType := none, flags, data := none })
      (mountError s!"Change {target} {what}")
  else pure ()

def mountRootfs (pageSize : Nat) (fsType source : Option String) (options : List String)
    (target : String) : Fallible Unit := do
  let (chdir, options) ← compactOptions pageSize fsType options
  let { flags, data, loSetup } := parseOptions options
  let opt := String.intercalate "," data
  let data := if data ≠ [] then some opt else none
  changeDir chdir
  let oflags := flags &&& ~~~propagationTypes
  mountData fsType source target flags oflags data loSetup
  changeMount (flags &&& propagationTypes ≠ 0) target msPropagation "mount propagation"
  changeMount (oflags &&& msBindRo = msBindRo) target (oflags ||| MsFlags.remount) "read-only"

/-! ## Calls of the constructs -/

section OnlyCalls
open RustExtensions.Calls.Program

variable {α : Type} {ok : SysCall → Prop} {c : SysCall} {err : OsError → Error} {fd : Nat}
  {a : Option α}

theorem onlyCalls_sys (hc : ok c) : (sys c err).run.OnlyCalls ok := by
  refine ⟨hc, fun r => ?_⟩
  cases r with
  | ok n => trivial
  | error er => trivial

theorem onlyCalls_ignored (hc : ok c) : (ignored c).OnlyCalls ok := ⟨hc, fun _ => trivial⟩

theorem onlyCalls_orPanic : (orPanic a).run.OnlyCalls ok := by
  cases a with
  | none => trivial
  | some a => trivial

theorem onlyCalls_closing {body : Fallible α} (hbody : body.run.OnlyCalls ok) (hc : ok (.close fd)) :
    (closing fd body).run.OnlyCalls ok :=
  OnlyCalls.atExit hbody fun _ => onlyCalls_ignored hc

theorem onlyCalls_returning {body : Fallible Unit} (hbody : body.run.OnlyCalls ok)
    (hc : ok (.close fd)) : (returning fd body).run.OnlyCalls ok := by
  refine OnlyCalls.bind (OnlyCalls.atExit hbody fun r => ?_) fun _ => trivial
  unfold closeUnlessOk
  split
  · trivial
  · exact onlyCalls_ignored hc

theorem onlyCalls_orClear (hc : ok c) (hclr : ok (.loopClrFd fd)) :
    (orClear fd c).run.OnlyCalls ok := by
  refine ⟨hc, fun r => ?_⟩
  cases r with
  | ok n => trivial
  | error er => exact ⟨hclr, fun _ => trivial⟩

end OnlyCalls

end RustExtensions.Shim
