import RustExtensions.Runc.Utils

/-!
# Global options of the runtime

What comes before the command in every call of the runtime.
-/
namespace RustExtensions

/-- A runtime that can be called: its path, and the arguments that every call begins with. -/
structure Runc where
  command : String
  args : List String
  deriving DecidableEq, Repr

namespace Runc

open RustExtensions.Paths

inductive LogFormat where
  | json | text
  deriving DecidableEq, Repr

def LogFormat.display : LogFormat → String
  | .json => "json"
  | .text => "text"

structure GlobalOpts where
  command : Option String := none
  debug : Bool := false
  log : Option String := none
  logFormat : LogFormat := .text
  root : Option String := none
  rootless : Option Bool := none
  systemdCgroup : Bool := false

/-- What a process has around it: its working directory, `PATH`, and what is a file. -/
structure Env where
  cwd : Directory
  path : Option (List String)
  isFile : String → Bool

/-- A flag with a path that is made absolute. -/
def pathArgs (env : Env) (flag : String) (path : Option String) : Except Error (List String) :=
  match path with
  | some path => (absString env.cwd path).map fun s => [flag, s]
  | none => .ok []

namespace GlobalOpts

def output (opts : GlobalOpts) (env : Env) : Except Error (String × List String) := do
  let command ←
    match binaryPath env.path env.isFile (opts.command.getD "runc") with
    | some command => .ok command
    | none => .error .notFound
  let root ← pathArgs env "--root" opts.root
  let log ← pathArgs env "--log" opts.log
  return (command, root ++ (if opts.debug then ["--debug"] else []) ++ log ++
    ["--log-format", opts.logFormat.display] ++
    (if opts.systemdCgroup then ["--systemd-cgroup"] else []) ++
    (opts.rootless.map fun mode => s!"--rootless={mode}").toList)

def build (opts : GlobalOpts) (env : Env) : Except Error Runc := do
  let (command, args) ← opts.output env
  return { command, args }

end GlobalOpts

theorem pathArgs_some (env : Env) (flag : String) {path : String} (h : path ≠ "") :
    pathArgs env flag (some path) =
      .ok [flag, String.ofList (env.cwd.goto path.toList).path] := by
  rw [pathArgs, absString_eq h]
  rfl

end Runc

end RustExtensions
