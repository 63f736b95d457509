import RustExtensions.Shim.Reaper

/-!
# Runtime commands

`ShimExecutor::execute` beside the reaper: any number of commands, each with its
own subscription to the monitor, and the reaper's children and steps between
theirs.
-/
namespace RustExtensions.RuncShim

open RustExtensions.Shim
open RustExtensions.Transition
open RustExtensions.KeyedMap (Map)

/-- `std::process::ExitStatus`, a raw wait(2) status. -/
structure ExitStatus where
  raw : Int32
  deriving DecidableEq

namespace ExitStatus

def fromRaw (raw : Int32) : ExitStatus := { raw }

def success (s : ExitStatus) : Bool := s.raw = 0

/-- WEXITSTATUS, if WIFEXITED. -/
def code (s : ExitStatus) : Option Int32 :=
  if s.raw &&& 0x7f = 0 then some ((s.raw >>> 8) &&& 0xff) else none

/-- WTERMSIG, if WIFSIGNALED. -/
def signal (s : ExitStatus) : Option Int32 :=
  let low := s.raw &&& 0x7f
  if low ≠ 0 ∧ low ≠ 0x7f then some low else none

end ExitStatus

/-- How far a command has got. `taken` counts the events that `wait_pid` has received. -/
inductive Execution where
  | subscribed (s : Subscription)
  | waiting (s : Subscription) (child : Process) (taken : Nat)
  | exited (s : Subscription) (child : Process) (exitCode : Int32)
  | spawnFailed
  | done (child : Process) (status : ExitStatus)
  deriving DecidableEq

structure Spawner where
  reaper : Reaper := {}
  executions : Map Nat Execution := ∅

inductive SpawnerAction where
  | reaper (a : ReaperAction)
  | execute (k : Nat)
  | spawn (k : Nat) (pid : Int32)
  | spawnFails (k : Nat)
  | recv (k : Nat)
  | finish (k : Nat)

namespace Spawner

def put (sp : Spawner) (k : Nat) (x : Execution) : Spawner :=
  { sp with executions := sp.executions.insert k x }

def unsubscribe (sp : Spawner) (s : Subscription) : Spawner :=
  { sp with reaper := { sp.reaper with bus := sp.reaper.bus.unsubscribe s.id } }

/-- One round of the loop in `wait_pid`. -/
def waitPid (sp : Spawner) (k : Nat) (s : Subscription) (child : Process) (taken : Nat)
    (e : ExitEvent) : Spawner :=
  if e.subject = .pid child.pid then
    (sp.unsubscribe s).put k (.exited s child e.exitCode)
  else sp.put k (.waiting s child (taken + 1))

/-- Subscriptions are given up by the command that holds them, by nobody else. -/
def step (build : Build) (sp : Spawner) : SpawnerAction → Option Spawner
  | .reaper (.unsubscribe _) => none
  | .reaper a => (sp.reaper.step build a).map fun r => { sp with reaper := r }
  | .execute k =>
    if sp.executions.lookup k = none then
      (sp.reaper.bus.subscribe .pid).map fun (s, bus) =>
        ({ sp with reaper := { sp.reaper with bus } } : Spawner).put k (.subscribed s)
    else none
  | .spawn k pid =>
    match sp.executions.lookup k with
    | some (.subscribed s) => (sp.reaper.step build (.fork pid)).map fun r =>
      ({ sp with reaper := r } : Spawner).put k
        (.waiting s { name := sp.reaper.nextName, pid } 0)
    | _ => none
  | .spawnFails k =>
    match sp.executions.lookup k with
    | some (.subscribed s) => some ((sp.unsubscribe s).put k .spawnFailed)
    | _ => none
  | .recv k =>
    match sp.executions.lookup k with
    | some (.waiting s child taken) =>
      (sp.reaper.bus.received s.rx)[taken]?.map (sp.waitPid k s child taken)
    | _ => none
  | .finish k =>
    match sp.executions.lookup k with
    | some (.exited s child exitCode) =>
      some ((sp.unsubscribe s).put k (.done child (.fromRaw exitCode)))
    | _ => none

end Spawner

def spawner (build : Build) : System Spawner SpawnerAction where
  init := {}
  step := Spawner.step build

end RustExtensions.RuncShim
