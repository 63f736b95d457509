import RustExtensions.Lib.Fifo
import RustExtensions.Lib.Transition
import RustExtensions.RuncShim.Processes

/-!
# The copy of a process's input

`copy_from_fifo` opens the fifo that containerd writes to, and leaves a task
behind that copies it into the process. From before its reader opens until
CloseIO the shim has the fifo open for writing itself, so that containerd's
writers may come and go without ending the copy.
-/
namespace RustExtensions.RuncShim

open RustExtensions.NamedPipe
open RustExtensions.Transition

inductive CopyEnd where
  | atEof | broken | cancelled | failed
  deriving DecidableEq

/-- How far `copy_from_fifo` has got, and then its task: what it has read and not yet written, and
whether it has come to the end of the input. -/
inductive InputStage (α : Type) where
  | idle | bridged | opened | held | unbridged
  | running (buf : List α) (eof : Bool)
  | ended (how : CopyEnd)

/-- `clients` counts containerd's writers. Nothing reads what they sent, what of it was sent when
the copy came to the end, and what was delivered to the process. -/
structure StdinCopy (α : Type) where
  io : IoTasks := {}
  fifo : Fifo α := {}
  stage : InputStage α := .idle
  clients : Nat := 0
  sent : List α := []
  sentAtEof : List α := []
  delivered : List α := []

inductive InputAction (α : Type) where
  | openBridge | openReceiver | openHold | dropBridge | spawn | openFails
  | read (n : Nat) | readEof | write (n : Nat) | finish | breaks | seeCancel
  | closeInput | abort
  | clientOpen | clientWrite (xs : List α) | clientClose

namespace StdinCopy

variable {α : Type}

/-- The writer that the shim's hold keeps is dropped. -/
def dropHold (s : StdinCopy α) : Fifo α :=
  match s.io.stdin with
  | .opened => s.fifo.closeWrite
  | _ => s.fifo

/-- The task is over, and its end of the fifo with it. -/
def endCopy (s : StdinCopy α) (how : CopyEnd) : StdinCopy α :=
  { s with fifo := s.fifo.closeRead, stage := .ended how }

/-- The opens of `copy_from_fifo` in their order; the task, which reads while it has room for more
and writes what it has; and what happens around them. -/
def step (capacity bufSize : Nat) (s : StdinCopy α) : InputAction α → Option (StdinCopy α)
  | .openBridge =>
    match s.stage with
    | .idle => some { s with fifo := s.fifo.openBoth, stage := .bridged }
    | _ => none
  | .openReceiver =>
    match s.stage with
    | .bridged => some { s with fifo := s.fifo.openRead, stage := .opened }
    | _ => none
  | .openHold =>
    match s.stage with
    | .opened => s.fifo.openWrite.map fun fifo => { s with fifo, stage := .held }
    | _ => none
  | .dropBridge =>
    match s.stage with
    | .held => some { s with fifo := s.fifo.closeBoth, stage := .unbridged }
    | _ => none
  | .spawn =>
    match s.stage with
    | .unbridged =>
      let fifo := match s.io.stdin with
        | .released => s.fifo.closeWrite
        | _ => s.fifo
      some { s with io := s.io.copyFromFifo, fifo, stage := .running [] false }
    | _ => none
  | .openFails =>
    match s.stage with
    | .idle => some { s with stage := .ended .failed }
    | .bridged => some { s with fifo := s.fifo.closeBoth, stage := .ended .failed }
    | .opened => some { s with fifo := s.fifo.closeRead.closeBoth, stage := .ended .failed }
    | _ => none
  | .read n =>
    match s.stage with
    | .running buf false =>
      if buf.length + n ≤ bufSize then
        (s.fifo.read n).map fun (xs, fifo) => { s with fifo, stage := .running (buf ++ xs) false }
      else none
    | _ => none
  | .readEof =>
    match s.stage with
    | .running buf false =>
      if buf.length < bufSize ∧ s.fifo.AtEnd then
        some { s with stage := .running buf true, sentAtEof := s.sent }
      else none
    | _ => none
  | .write n =>
    match s.stage with
    | .running buf eof =>
      if 0 < n ∧ n ≤ buf.length then
        some { s with stage := .running (buf.drop n) eof, delivered := s.delivered ++ buf.take n }
      else none
    | _ => none
  | .finish =>
    match s.stage with
    | .running [] true => some (s.endCopy .atEof)
    | _ => none
  | .breaks =>
    match s.stage with
    | .running _ _ => some (s.endCopy .broken)
    | _ => none
  | .seeCancel =>
    match s.stage with
    | .running _ _ => if s.io.cancelled then some (s.endCopy .cancelled) else none
    | _ => none
  | .closeInput => some { s with io := s.io.closeInput, fifo := s.dropHold }
  | .abort => some { s with io := s.io.abort, fifo := s.dropHold }
  | .clientOpen => s.fifo.openWrite.map fun fifo => { s with fifo, clients := s.clients + 1 }
  | .clientWrite xs =>
    if 0 < s.clients then
      (s.fifo.write capacity xs).map fun fifo => { s with fifo, sent := s.sent ++ xs }
    else none
  | .clientClose =>
    if 0 < s.clients then
      some { s with fifo := s.fifo.closeWrite, clients := s.clients - 1 }
    else none

end StdinCopy

def stdinCopy (α : Type) (capacity bufSize : Nat) : System (StdinCopy α) (InputAction α) where
  init := {}
  step := StdinCopy.step capacity bufSize

/-! ## The ends that are open -/

/-- The steps of the task that nothing outside it brings about. -/
def InputAction.own {α : Type} : InputAction α → Bool
  | .read _ | .readEof | .write _ | .finish => true
  | _ => false

namespace InputStage

variable {α : Type}

/-- The readers that `copy_from_fifo` and its task have open. -/
def readers : InputStage α → Nat
  | .opened | .held => 2
  | .bridged | .unbridged | .running .. => 1
  | .idle | .ended _ => 0

/-- The writers that `copy_from_fifo` has open before it gives one to the hold. -/
def writers : InputStage α → Nat
  | .held => 2
  | .bridged | .opened | .unbridged => 1
  | .idle | .running .. | .ended _ => 0

def buf : InputStage α → List α
  | .running buf _ => buf
  | _ => []

/-- The hold is not in place yet. -/
def Starting : InputStage α → Prop
  | .running .. | .ended _ => False
  | _ => True

def Running : InputStage α → Prop
  | .running .. => True
  | _ => False

def Ended : InputStage α → Prop
  | .ended _ => True
  | _ => False

/-- The task came to the end of the input. -/
def SeenEof : InputStage α → Prop
  | .running _ eof => eof = true
  | .ended how => how = .atEof
  | _ => False

end InputStage

def Hold.writers : Hold → Nat
  | .opened => 1
  | _ => 0

namespace StdinCopy

variable {α : Type} {s t : StdinCopy α} {a : InputAction α} {capacity bufSize : Nat}

/-- What a step can do. -/
inductive Step (capacity bufSize : Nat) (s : StdinCopy α) : InputAction α → StdinCopy α → Prop
  | openBridge (hstage : s.stage = .idle) : Step capacity bufSize s .openBridge
      { s with fifo := s.fifo.openBoth, stage := .bridged }
  | openReceiver (hstage : s.stage = .bridged) : Step capacity bufSize s .openReceiver
      { s with fifo := s.fifo.openRead, stage := .opened }
  | openHold (hstage : s.stage = .opened) : Step capacity bufSize s .openHold
      { s with fifo := { s.fifo with writers := s.fifo.writers + 1 }, stage := .held }
  | dropBridge (hstage : s.stage = .held) : Step capacity bufSize s .dropBridge
      { s with fifo := s.fifo.closeBoth, stage := .unbridged }
  | spawned (hstage : s.stage = .unbridged) (hstdin : s.io.stdin = .released) :
    Step capacity bufSize s .spawn
      { s with fifo := s.fifo.closeWrite, stage := .running [] false }
  | spawnedHeld (hstage : s.stage = .unbridged) (hstdin : s.io.stdin ≠ .released) :
    Step capacity bufSize s .spawn
      { s with io := { s.io with stdin := .opened }, stage := .running [] false }
  | idleFails (hstage : s.stage = .idle) : Step capacity bufSize s .openFails
      { s with stage := .ended .failed }
  | bridgedFails (hstage : s.stage = .bridged) : Step capacity bufSize s .openFails
      { s with fifo := s.fifo.closeBoth, stage := .ended .failed }
  | openedFails (hstage : s.stage = .opened) : Step capacity bufSize s .openFails
      { s with fifo := s.fifo.closeRead.closeBoth, stage := .ended .failed }
  | read {n : Nat} {buf xs : List α} {fifo : Fifo α} (hstage : s.stage = .running buf false)
    (hxs : xs ≠ []) (hfifo : fifo = { s.fifo with buffer := fifo.buffer })
    (hbuffer : s.fifo.buffer = xs ++ fifo.buffer) : Step capacity bufSize s (.read n)
      { s with fifo, stage := .running (buf ++ xs) false }
  | readEof {buf : List α} (hstage : s.stage = .running buf false) (hend : s.fifo.AtEnd) :
    Step capacity bufSize s .readEof
      { s with stage := .running buf true, sentAtEof := s.sent }
  | write {n : Nat} {buf : List α} {eof : Bool} (hstage : s.stage = .running buf eof)
    (hn : 0 < n ∧ n ≤ buf.length) : Step capacity bufSize s (.write n)
      { s with stage := .running (buf.drop n) eof, delivered := s.delivered ++ buf.take n }
  | finish (hstage : s.stage = .running [] true) :
    Step capacity bufSize s .finish (s.endCopy .atEof)
  | breaks {buf : List α} {eof : Bool} (hstage : s.stage = .running buf eof) :
    Step capacity bufSize s .breaks (s.endCopy .broken)
  | seeCancel {buf : List α} {eof : Bool} (hstage : s.stage = .running buf eof)
    (hcancelled : s.io.cancelled = true) :
    Step capacity bufSize s .seeCancel (s.endCopy .cancelled)
  | closeInput : Step capacity bufSize s .closeInput
      { s with io := s.io.closeInput, fifo := s.dropHold }
  | abort : Step capacity bufSize s .abort { s with io := s.io.abort, fifo := s.dropHold }
  | clientOpen (hreaders : 0 < s.fifo.readers) : Step capacity bufSize s .clientOpen { s with
      fifo := { s.fifo with writers := s.fifo.writers + 1 }, clients := s.clients + 1 }
  | clientWrite {xs : List α} (hclients : 0 < s.clients) (hreaders : 0 < s.fifo.readers)
    (hroom : s.fifo.buffer.length + xs.length ≤ capacity) :
    Step capacity bufSize s (.clientWrite xs) { s with
      fifo := { s.fifo with buffer := s.fifo.buffer ++ xs }, sent := s.sent ++ xs }
  | clientClose (hclients : 0 < s.clients) : Step capacity bufSize s .clientClose
      { s with fifo := s.fifo.closeWrite, clients := s.clients - 1 }

theorem step_cases (h : s.step capacity bufSize a = some t) : Step capacity bufSize s a t := by
  cases a with
  | openBridge =>
    unfold step at h
    dsimp only at h
    split at h
    · next hstage =>
      obtain rfl := Option.some.inj h
      exact .openBridge hstage
    · cases h
  | openReceiver =>
    unfold step at h
    dsimp only at h
    split at h
    · next hstage =>
      obtain rfl := Option.some.inj h
      exact .openReceiver hstage
    · cases h
  | openHold =>
    unfold step at h
    dsimp only at h
    split at h
    · next hstage =>
      obtain ⟨fifo, hopen, rfl⟩ := Option.map_eq_some_iff.mp h
      obtain ⟨-, rfl⟩ := Fifo.openWrite_eq_some.mp hopen
      exact .openHold hstage
    · cases h
  | dropBridge =>
    unfold step at h
    dsimp only at h
    split at h
    · next hstage =>
      obtain rfl := Option.some.inj h
      exact .dropBridge hstage
    · cases h
  | spawn =>
    unfold step at h
    dsimp only at h
    split at h
    · next hstage =>
      obtain rfl := Option.some.inj h
      cases hstdin : s.io.stdin with
      | released =>
        simp only [IoTasks.copyFromFifo, hstdin]
        exact .spawned hstage hstdin
      | pending =>
        simp only [IoTasks.copyFromFifo, hstdin]
        exact .spawnedHeld hstage (by simp [hstdin])
      | opened =>
        simp only [IoTasks.copyFromFifo, hstdin]
        exact .spawnedHeld hstage (by simp [hstdin])
    · cases h
  | openFails =>
    unfold step at h
    dsimp only at h
    split at h
    · next hstage =>
      obtain rfl := Option.some.inj h
      exact .idleFails hstage
    · next hstage =>
      obtain rfl := Option.some.inj h
      exact .bridgedFails hstage
    · next hstage =>
      obtain rfl := Option.some.inj h
      exact .openedFails hstage
    · cases h
  | read n =>
    unfold step at h
    dsimp only at h
    split at h
    · next buf hstage =>
      obtain ⟨-, h⟩ := Option.ite_none_right_eq_some.mp h
      obtain ⟨⟨xs, fifo⟩, hread, rfl⟩ := Option.map_eq_some_iff.mp h
      obtain ⟨hxs, -, hfifo, hbuffer⟩ := Fifo.read_eq_some hread
      exact .read hstage hxs hfifo hbuffer
    · cases h
  | readEof =>
    unfold step at h
    dsimp only at h
    split at h
    · next buf hstage =>
      obtain ⟨⟨-, hend⟩, rfl⟩ := (Option.ite_none_right_eq_some.mp h).imp_right Option.some.inj
      exact .readEof hstage hend
    · cases h
  | write n =>
    unfold step at h
    dsimp only at h
    split at h
    · next buf eof hstage =>
      obtain ⟨hn, rfl⟩ := (Option.ite_none_right_eq_some.mp h).imp_right Option.some.inj
      exact .write hstage hn
    · cases h
  | finish =>
    unfold step at h
    dsimp only at h
    split at h
    · next hstage =>
      obtain rfl := Option.some.inj h
      exact .finish hstage
    · cases h
  | breaks =>
    unfold step at h
    dsimp only at h
    split at h
    · next hstage =>
      obtain rfl := Option.some.inj h
      exact .breaks hstage
    · cases h
  | seeCancel =>
    unfold step at h
    dsimp only at h
    split at h
    · next hstage =>
      obtain ⟨hcancelled, rfl⟩ := (Option.ite_none_right_eq_some.mp h).imp_right Option.some.inj
      exact .seeCancel hstage hcancelled
    · cases h
  | closeInput =>
    obtain rfl := Option.some.inj h
    exact .closeInput
  | abort =>
    obtain rfl := Option.some.inj h
    exact .abort
  | clientOpen =>
    obtain ⟨fifo, hopen, rfl⟩ := Option.map_eq_some_iff.mp h
    obtain ⟨hreaders, rfl⟩ := Fifo.openWrite_eq_some.mp hopen
    exact .clientOpen hreaders
  | clientWrite xs =>
    obtain ⟨hclients, h⟩ := Option.ite_none_right_eq_some.mp h
    obtain ⟨fifo, hwrite, rfl⟩ := Option.map_eq_some_iff.mp h
    obtain ⟨⟨hreaders, hroom⟩, rfl⟩ := Fifo.write_eq_some.mp hwrite
    exact .clientWrite hclients hreaders hroom
  | clientClose =>
    obtain ⟨hclients, rfl⟩ := (Option.ite_none_right_eq_some.mp h).imp_right Option.some.inj
    exact .clientClose hclients

/-- The ends of the fifo are those that the shim and containerd's writers have open. -/
structure Counted (s : StdinCopy α) : Prop where
  readers : s.fifo.readers = s.stage.readers
  writers : s.fifo.writers = s.clients + s.stage.writers + s.io.stdin.writers
  idle : s.stage = .idle → s.clients = 0
  starting : s.stage.Starting → s.io.stdin ≠ .opened
  running : s.stage.Running → s.io.stdin ≠ .pending
  cancelled : s.io.cancelled = true → s.io.stdin = .released

/-- What was sent is delivered, in the copy or in the fifo, in this order. -/
structure Carried (s : StdinCopy α) : Prop where
  content : ¬s.stage.Ended → s.sent = s.delivered ++ (s.stage.buf ++ s.fifo.buffer)
  delivered : s.delivered <+: s.sent
  released : s.stage.SeenEof → s.io.stdin = .released
  eof : s.stage.SeenEof → s.sentAtEof = s.delivered ++ s.stage.buf

theorem Counted.init : Counted ({} : StdinCopy α) where
  readers := rfl
  writers := rfl
  idle _ := rfl
  starting _ := Hold.noConfusion
  running := False.elim
  cancelled := Bool.noConfusion

theorem writers_of_ne_opened {h : Hold} (hne : h ≠ .opened) : h.writers = 0 := by
  cases h with
  | opened => exact absurd rfl hne
  | pending => rfl
  | released => rfl

theorem Counted.dropHold_writers (hs : s.Counted) :
    s.dropHold.writers = s.clients + s.stage.writers := by
  have hwriters := hs.writers
  unfold dropHold
  cases hstdin : s.io.stdin with
  | opened =>
    rw [hstdin] at hwriters
    simp only [Hold.writers] at hwriters
    simp only [Fifo.closeWrite_writers]
    omega
  | pending =>
    rw [hstdin] at hwriters
    exact hwriters
  | released =>
    rw [hstdin] at hwriters
    exact hwriters

theorem dropHold_readers : s.dropHold.readers = s.fifo.readers := by
  unfold dropHold
  split
  · exact Fifo.closeWrite_readers
  · rfl

theorem Counted.reader (hs : s.Counted) (hidle : s.stage ≠ .idle) (hended : ¬s.stage.Ended) :
    0 < s.fifo.readers := by
  rw [hs.readers]
  cases hstage : s.stage with
  | idle => exact absurd hstage hidle
  | ended how => exact absurd (by rw [hstage]; trivial) hended
  | bridged => exact Nat.one_pos
  | opened => exact Nat.two_pos
  | held => exact Nat.two_pos
  | unbridged => exact Nat.one_pos
  | running buf eof => exact Nat.one_pos

/-- Nothing is lost when the shim lets go, as long as the task reads. -/
theorem Counted.dropHold_buffer (hs : s.Counted) (hended : ¬s.stage.Ended) :
    s.dropHold.buffer = s.fifo.buffer := by
  unfold dropHold
  split
  · next hstdin =>
    refine Fifo.closeWrite_buffer (hs.reader (fun hidle => ?_) hended)
    exact hs.starting (by rw [hidle]; trivial) hstdin
  · rfl

theorem Counted.closeWrite_buffer (hs : s.Counted) (hclients : 0 < s.clients)
    (hended : ¬s.stage.Ended) : s.fifo.closeWrite.buffer = s.fifo.buffer := by
  refine Fifo.closeWrite_buffer (hs.reader (fun hidle => ?_) hended)
  exact hclients.ne' (hs.idle hidle)

/-- The end of the input shows only when nobody has the fifo open for writing, the shim included. -/
theorem Counted.atEnd (hs : s.Counted) (hrunning : s.stage.Running) (hend : s.fifo.AtEnd) :
    s.io.stdin = .released ∧ s.clients = 0 := by
  have hwriters := hs.writers
  rw [hend.2] at hwriters
  refine ⟨?_, by omega⟩
  cases hstdin : s.io.stdin with
  | released => rfl
  | pending => exact absurd hstdin (hs.running hrunning)
  | opened =>
    rw [hstdin] at hwriters
    simp only [Hold.writers] at hwriters
    omega

/-- A running task is the only reader, and takes its end along. -/
theorem endCopy_counted (hs : s.Counted) {buf : List α} {eof : Bool} {how : CopyEnd}
    (hstage : s.stage = .running buf eof) : (s.endCopy how).Counted := by
  obtain ⟨hreaders, hwriters, -, -, -, hcancelled⟩ := hs
  rw [hstage] at hreaders hwriters
  refine ⟨?_, Fifo.closeRead_writers.trans hwriters, nofun, False.elim, False.elim, hcancelled⟩
  rw [endCopy, Fifo.closeRead_readers, hreaders]
  rfl

theorem Counted.step (hs : s.Counted) (h : Step capacity bufSize s a t) : t.Counted := by
  have hdrop := hs.dropHold_writers
  have ⟨hreaders, hwriters, hidle, hstarting, hrunning, hcancelled⟩ := hs
  cases h with
  | openBridge hstage =>
    rw [hstage] at hreaders hwriters hstarting
    refine ⟨congrArg (· + 1) hreaders, ?_, nofun, fun _ => hstarting trivial, False.elim,
      hcancelled⟩
    calc s.fifo.writers + 1 = s.clients + 0 + s.io.stdin.writers + 1 := congrArg (· + 1) hwriters
      _ = s.clients + 1 + s.io.stdin.writers := by omega
  | openReceiver hstage =>
    rw [hstage] at hreaders hwriters hstarting
    exact ⟨congrArg (· + 1) hreaders, hwriters, nofun, fun _ => hstarting trivial, False.elim,
      hcancelled⟩
  | openHold hstage =>
    rw [hstage] at hreaders hwriters hstarting
    refine ⟨hreaders, ?_, nofun, fun _ => hstarting trivial, False.elim, hcancelled⟩
    calc s.fifo.writers + 1 = s.clients + 1 + s.io.stdin.writers + 1 := congrArg (· + 1) hwriters
      _ = s.clients + 2 + s.io.stdin.writers := by omega
  | dropBridge hstage =>
    rw [hstage] at hreaders hwriters hstarting
    refine ⟨?_, ?_, nofun, fun _ => hstarting trivial, False.elim, hcancelled⟩
    · rw [Fifo.closeBoth_readers, hreaders]
      rfl
    · calc s.fifo.closeBoth.writers = s.clients + 2 + s.io.stdin.writers - 1 := by
            rw [Fifo.closeBoth_writers, hwriters]
            rfl
        _ = s.clients + 1 + s.io.stdin.writers := by omega
  | spawned hstage hstdin =>
    rw [hstage] at hreaders hwriters
    refine ⟨?_, ?_, nofun, False.elim, fun _ => by simp [hstdin], hcancelled⟩
    · rw [Fifo.closeWrite_readers, hreaders]
      rfl
    · calc s.fifo.closeWrite.writers = s.clients + 1 + s.io.stdin.writers - 1 := by
            rw [Fifo.closeWrite_writers, hwriters]
            rfl
        _ = s.clients + 0 + s.io.stdin.writers := by omega
  | spawnedHeld hstage hstdin =>
    rw [hstage] at hreaders hwriters hstarting
    refine ⟨hreaders, ?_, nofun, False.elim, fun _ => Hold.noConfusion,
      fun h => absurd (hcancelled h) hstdin⟩
    rw [hwriters, writers_of_ne_opened (hstarting trivial)]
    rfl
  | idleFails hstage =>
    rw [hstage] at hreaders hwriters
    exact ⟨hreaders, hwriters, nofun, False.elim, False.elim, hcancelled⟩
  | bridgedFails hstage =>
    rw [hstage] at hreaders hwriters
    refine ⟨?_, ?_, nofun, False.elim, False.elim, hcancelled⟩
    · rw [Fifo.closeBoth_readers, hreaders]
      rfl
    · calc s.fifo.closeBoth.writers = s.clients + 1 + s.io.stdin.writers - 1 := by
            rw [Fifo.closeBoth_writers, hwriters]
            rfl
        _ = s.clients + 0 + s.io.stdin.writers := by omega
  | openedFails hstage =>
    rw [hstage] at hreaders hwriters
    refine ⟨?_, ?_, nofun, False.elim, False.elim, hcancelled⟩
    · rw [Fifo.closeBoth_readers, Fifo.closeRead_readers, hreaders]
      rfl
    · calc s.fifo.closeRead.closeBoth.writers = s.clients + 1 + s.io.stdin.writers - 1 := by
            rw [Fifo.closeBoth_writers, Fifo.closeRead_writers, hwriters]
            rfl
        _ = s.clients + 0 + s.io.stdin.writers := by omega
  | read hstage _ hfifo _ =>
    rw [hstage] at hreaders hwriters hrunning
    rw [hfifo]
    exact ⟨hreaders, hwriters, nofun, False.elim, fun _ => hrunning trivial, hcancelled⟩
  | readEof hstage _ =>
    rw [hstage] at hreaders hwriters hrunning
    exact ⟨hreaders, hwriters, nofun, False.elim, fun _ => hrunning trivial, hcancelled⟩
  | write hstage _ =>
    rw [hstage] at hreaders hwriters hrunning
    exact ⟨hreaders, hwriters, nofun, False.elim, fun _ => hrunning trivial, hcancelled⟩
  | finish hstage => exact endCopy_counted hs hstage
  | breaks hstage => exact endCopy_counted hs hstage
  | seeCancel hstage _ => exact endCopy_counted hs hstage
  | closeInput =>
    exact ⟨dropHold_readers.trans hreaders, hdrop, hidle, fun _ => Hold.noConfusion,
      fun _ => Hold.noConfusion, fun _ => rfl⟩
  | abort =>
    exact ⟨dropHold_readers.trans hreaders, hdrop, hidle, fun _ => Hold.noConfusion,
      fun _ => Hold.noConfusion, fun _ => rfl⟩
  | clientOpen hsome =>
    refine ⟨hreaders, ?_, fun hidle => ?_, hstarting, hrunning, hcancelled⟩
    on_goal 2 =>
      rw [hreaders, hidle] at hsome
      exact absurd hsome (Nat.lt_irrefl 0)
    calc s.fifo.writers + 1 = s.clients + s.stage.writers + s.io.stdin.writers + 1 :=
          congrArg (· + 1) hwriters
      _ = s.clients + 1 + s.stage.writers + s.io.stdin.writers := by omega
  | clientWrite _ _ _ => exact ⟨hreaders, hwriters, hidle, hstarting, hrunning, hcancelled⟩
  | clientClose hclients =>
    refine ⟨Fifo.closeWrite_readers.trans hreaders, ?_, fun h => ?_, hstarting, hrunning,
      hcancelled⟩
    on_goal 2 => exact congrArg (· - 1) (hidle h)
    calc s.fifo.closeWrite.writers = s.clients + s.stage.writers + s.io.stdin.writers - 1 := by
          rw [Fifo.closeWrite_writers, hwriters]
      _ = s.clients - 1 + s.stage.writers + s.io.stdin.writers := by omega

theorem Carried.init : Carried ({} : StdinCopy α) where
  content _ := rfl
  delivered := List.prefix_rfl
  released := False.elim
  eof := False.elim

/-- A task that ends leaves what it delivered, and what it saw before. -/
theorem endCopy_carried (hs : s.Carried) {how : CopyEnd} (heof : how = .atEof → s.stage.SeenEof)
    (hbuf : how = .atEof → s.stage.buf = []) : (s.endCopy how).Carried where
  content h := absurd trivial h
  delivered := hs.delivered
  released h := hs.released (heof h)
  eof h := by
    rw [endCopy, hs.eof (heof h), hbuf h]
    rfl

theorem Carried.step (hs : s.Carried) (hc : s.Counted) (h : Step capacity bufSize s a t) :
    t.Carried := by
  obtain ⟨hcontent, hdelivered, hreleased, heof⟩ := hs
  cases h with
  | openBridge hstage =>
    rw [hstage] at hcontent
    exact ⟨fun _ => hcontent id, hdelivered, False.elim, False.elim⟩
  | openReceiver hstage =>
    rw [hstage] at hcontent
    exact ⟨fun _ => hcontent id, hdelivered, False.elim, False.elim⟩
  | openHold hstage =>
    rw [hstage] at hcontent
    exact ⟨fun _ => hcontent id, hdelivered, False.elim, False.elim⟩
  | dropBridge hstage =>
    have hreaders := hc.readers
    rw [hstage] at hcontent hreaders
    refine ⟨fun _ => ?_, hdelivered, False.elim, False.elim⟩
    rw [Fifo.closeBoth_buffer (by rw [hreaders]; exact Nat.one_lt_two)]
    exact hcontent id
  | spawned hstage _ =>
    have hreaders := hc.readers
    rw [hstage] at hcontent hreaders
    refine ⟨fun _ => ?_, hdelivered, Bool.noConfusion, Bool.noConfusion⟩
    rw [Fifo.closeWrite_buffer (by rw [hreaders]; exact Nat.one_pos)]
    exact hcontent id
  | spawnedHeld hstage _ =>
    rw [hstage] at hcontent
    exact ⟨fun _ => hcontent id, hdelivered, Bool.noConfusion, Bool.noConfusion⟩
  | idleFails _ => exact ⟨fun h => absurd trivial h, hdelivered, nofun, nofun⟩
  | bridgedFails _ => exact ⟨fun h => absurd trivial h, hdelivered, nofun, nofun⟩
  | openedFails _ => exact ⟨fun h => absurd trivial h, hdelivered, nofun, nofun⟩
  | @read _ buf xs fifo hstage _ _ hbuffer =>
    rw [hstage] at hcontent
    refine ⟨fun _ => ?_, hdelivered, Bool.noConfusion, Bool.noConfusion⟩
    calc s.sent = s.delivered ++ (buf ++ s.fifo.buffer) := hcontent id
      _ = s.delivered ++ ((buf ++ xs) ++ fifo.buffer) := by rw [hbuffer, List.append_assoc]
  | @readEof buf hstage hend =>
    have hrunning : s.stage.Running := by
      rw [hstage]
      trivial
    rw [hstage] at hcontent
    refine ⟨fun _ => hcontent id, hdelivered, fun _ => ?_, fun _ => ?_⟩
    · exact (hc.atEnd hrunning hend).1
    · calc s.sent = s.delivered ++ (buf ++ s.fifo.buffer) := hcontent id
        _ = s.delivered ++ buf := by rw [hend.1, List.append_nil]
  | @write n buf eof hstage _ =>
    rw [hstage] at hcontent hreleased heof
    have hsplit : s.delivered ++ buf.take n ++ buf.drop n = s.delivered ++ buf := by
      rw [List.append_assoc, List.take_append_drop]
    have hsent : s.sent = s.delivered ++ buf.take n ++ (buf.drop n ++ s.fifo.buffer) := by
      rw [← List.append_assoc, hsplit, List.append_assoc]
      exact hcontent id
    refine ⟨fun _ => hsent, ?_, hreleased, fun h => (heof h).trans hsplit.symm⟩
    exact ⟨_, hsent.symm⟩
  | finish hstage =>
    refine endCopy_carried ⟨hcontent, hdelivered, hreleased, heof⟩ (fun _ => ?_) fun _ => ?_
    · rw [hstage]
      rfl
    · rw [hstage]
      rfl
  | breaks _ => exact endCopy_carried ⟨hcontent, hdelivered, hreleased, heof⟩ nofun nofun
  | seeCancel _ _ => exact endCopy_carried ⟨hcontent, hdelivered, hreleased, heof⟩ nofun nofun
  | closeInput =>
    refine ⟨fun h => ?_, hdelivered, fun _ => rfl, heof⟩
    rw [hc.dropHold_buffer h]
    exact hcontent h
  | abort =>
    refine ⟨fun h => ?_, hdelivered, fun _ => rfl, heof⟩
    rw [hc.dropHold_buffer h]
    exact hcontent h
  | clientOpen _ => exact ⟨hcontent, hdelivered, hreleased, heof⟩
  | @clientWrite xs _ _ _ =>
    refine ⟨fun h => ?_, hdelivered.trans (List.prefix_append _ _), hreleased, heof⟩
    rw [hcontent h]
    simp only [List.append_assoc]
  | clientClose hclients =>
    refine ⟨fun h => ?_, hdelivered, hreleased, heof⟩
    rw [hc.closeWrite_buffer hclients h]
    exact hcontent h

/-! ## Every run -/

theorem counted (h : (stdinCopy α capacity bufSize).Reachable System.Any s) : s.Counted :=
  h.invariant .init fun _ _ _ _ hs _ hstep => hs.step (step_cases hstep)

theorem carried (h : (stdinCopy α capacity bufSize).Reachable System.Any s) : s.Carried :=
  h.invariant .init fun _ _ _ hr hs _ hstep => hs.step (counted hr) (step_cases hstep)

/-- Whatever comes, the process gets what containerd wrote, in order and without a gap: until the
task is over all of it is delivered or on its way. The task sees the end of the input only when
CloseIO has let go of the hold and no writer is left, and if it ends there then everything sent
until then was delivered. -/
theorem stdin_in_order (h : (stdinCopy α capacity bufSize).Reachable System.Any s) :
    s.delivered <+: s.sent ∧
      (¬s.stage.Ended → s.sent = s.delivered ++ (s.stage.buf ++ s.fifo.buffer)) ∧
      (∀ t, s.step capacity bufSize .readEof = some t →
        s.io.stdin = .released ∧ s.clients = 0 ∧ s.fifo.buffer = []) ∧
      (s.stage = .ended .atEof → s.io.stdin = .released ∧ s.delivered = s.sentAtEof) := by
  have hs := carried h
  refine ⟨hs.delivered, hs.content, fun t ht => ?_, fun hstage => ?_⟩
  · cases step_cases ht with
    | readEof hstage hend =>
      obtain ⟨hreleased, hclients⟩ := (counted h).atEnd (by rw [hstage]; trivial) hend
      exact ⟨hreleased, hclients, hend.1⟩
  · have hseen : s.stage.SeenEof := by
      rw [hstage]
      rfl
    refine ⟨hs.released hseen, ?_⟩
    rw [hs.eof hseen, hstage]
    exact (List.append_nil _).symm

theorem stdin_in_order_held_back :
    ∃ s : StdinCopy Nat, s.sent = [1, 2, 3] ∧
      s.sent = s.delivered ++ (s.stage.buf ++ s.fifo.buffer) := by
  let as : List (InputAction Nat) := [.openBridge, .openReceiver, .openHold, .dropBridge, .spawn,
    .clientOpen, .clientWrite [1, 2, 3], .read 2, .clientClose, .write 1]
  refine ⟨(stdinCopy Nat 8 2).after System.Any {} as, rfl, ?_⟩
  exact (stdin_in_order (System.run_after rfl)).2.1 id

/-! ## Left to itself -/

/-- What is left of a copy that nobody disturbs. -/
def left (s : StdinCopy α) : Nat :=
  match s.stage with
  | .running buf eof => 2 * s.fifo.buffer.length + buf.length + (if eof then 1 else 2)
  | _ => 0

/-- Nobody disturbs the task, and nobody writes any more. -/
structure Draining (all : List α) (s : StdinCopy α) : Prop where
  counted : s.Counted
  carried : s.Carried
  released : s.io.stdin = .released
  clients : s.clients = 0
  sent : s.sent = all
  stage : s.stage.Running ∨ s.stage = .ended .atEof
  eof : s.stage.SeenEof → s.sentAtEof = all

theorem left_lt (ha : a.own = true) (h : s.step capacity bufSize a = some t) : t.left < s.left := by
  cases step_cases h with
  | @read _ buf xs fifo hstage hxs _ hbuffer =>
    have hlength := congrArg List.length hbuffer
    have hpos := List.length_pos_of_ne_nil hxs
    simp only [left, hstage, List.length_append] at hlength ⊢
    omega
  | readEof hstage _ => simp [left, hstage]
  | write hstage hn =>
    simp only [left, hstage, List.length_drop]
    omega
  | finish hstage => simp [left, hstage, endCopy]
  | _ => cases ha

theorem Draining.step {all : List α} (hs : s.Draining all) (ha : a.own = true)
    (h : s.step capacity bufSize a = some t) : t.Draining all := by
  have hcounted := hs.counted.step (step_cases h)
  have hcarried := hs.carried.step hs.counted (step_cases h)
  cases step_cases h with
  | read hstage _ _ _ =>
    exact ⟨hcounted, hcarried, hs.released, hs.clients, hs.sent, .inl trivial, Bool.noConfusion⟩
  | readEof hstage _ =>
    exact ⟨hcounted, hcarried, hs.released, hs.clients, hs.sent, .inl trivial, fun _ => hs.sent⟩
  | write hstage _ =>
    have heof := hs.eof
    rw [hstage] at heof
    exact ⟨hcounted, hcarried, hs.released, hs.clients, hs.sent, .inl trivial, heof⟩
  | finish hstage =>
    have heof := hs.eof
    rw [hstage] at heof
    exact ⟨hcounted, hcarried, hs.released, hs.clients, hs.sent, .inr rfl, fun _ => heof rfl⟩
  | _ => cases ha

/-- There is always something to do until the task is over. -/
theorem Draining.progress {all : List α} (hs : s.Draining all) (hsize : 0 < bufSize)
    (hrunning : s.stage.Running) :
    ∃ a t, a.own = true ∧ s.step capacity bufSize a = some t := by
  cases hstage : s.stage with
  | running buf eof =>
    match buf, eof with
    | x :: buf, eof =>
      refine ⟨.write 1,
        { s with stage := .running buf eof, delivered := s.delivered ++ [x] }, rfl, ?_⟩
      simp [StdinCopy.step, hstage]
    | [], true => exact ⟨.finish, s.endCopy .atEof, rfl, by simp only [StdinCopy.step, hstage]⟩
    | [], false =>
      by_cases hempty : s.fifo.buffer = []
      · have hwriters := hs.counted.writers
        rw [hs.clients, hs.released, hstage] at hwriters
        refine ⟨.readEof, { s with stage := .running [] true, sentAtEof := s.sent }, rfl, ?_⟩
        simp only [StdinCopy.step, hstage]
        exact if_pos ⟨hsize, hempty, hwriters⟩
      · obtain ⟨xs, fifo, hread⟩ := Fifo.exists_read hsize.ne' hempty
        refine ⟨.read bufSize, { s with fifo, stage := .running ([] ++ xs) false }, rfl, ?_⟩
        simp only [StdinCopy.step, hstage, hread]
        exact if_pos (Nat.zero_add _).le
  | _ =>
    rw [hstage] at hrunning
    exact hrunning.elim

def Own (_ : StdinCopy α) (a : InputAction α) : Prop := a.own = true

instance (s : StdinCopy α) (a : InputAction α) : Decidable (Own s a) :=
  inferInstanceAs (Decidable (_ = _))

/-- Nobody else's writer comes or goes by the task's own steps. -/
theorem own_frame (hs : s.Counted) (ha : a.own = true)
    (h : s.step capacity bufSize a = some t) :
    t.io = s.io ∧ t.clients = s.clients ∧ (t.stage.SeenEof → s.stage.SeenEof ∨ s.clients = 0) := by
  cases step_cases h with
  | read hstage _ _ _ => exact ⟨rfl, rfl, Bool.noConfusion⟩
  | readEof hstage hend =>
    exact ⟨rfl, rfl, fun _ => .inr (hs.atEnd (by rw [hstage]; trivial) hend).2⟩
  | write hstage _ => exact ⟨rfl, rfl, fun heof => .inl (by rw [hstage]; exact heof)⟩
  | finish hstage => exact ⟨rfl, rfl, fun _ => .inl (by rw [hstage]; rfl)⟩
  | _ => cases ha

theorem eof_of_run (hr : (stdinCopy α capacity bufSize).Reachable System.Any s)
    (hseen : ¬s.stage.SeenEof) (h : (stdinCopy α capacity bufSize).Run Own s t) :
    t.io = s.io ∧ t.clients = s.clients ∧ (t.stage.SeenEof → s.clients = 0) := by
  refine hr.run_preserves
    (P := fun t => t.io = s.io ∧ t.clients = s.clients ∧ (t.stage.SeenEof → s.clients = 0))
    (fun _ _ _ => trivial) ?_ h ⟨rfl, rfl, fun h => absurd h hseen⟩
  rintro u a v hu ⟨hio, hclients, heof⟩ ha hstep
  obtain ⟨hio', hclients', heof'⟩ := own_frame (counted hu) ha hstep
  refine ⟨hio'.trans hio, hclients'.trans hclients, fun hv => ?_⟩
  exact (heof' hv).elim heof fun hzero => hclients ▸ hzero

theorem draining (hr : (stdinCopy α capacity bufSize).Reachable System.Any s) {buf : List α}
    (hstage : s.stage = .running buf false) (hreleased : s.io.stdin = .released)
    (hclients : s.clients = 0) : s.Draining s.sent where
  counted := counted hr
  carried := carried hr
  released := hreleased
  clients := hclients
  sent := rfl
  stage := by
    rw [hstage]
    exact .inl trivial
  eof := by
    rw [hstage]
    exact Bool.noConfusion

/-- It is over with everything delivered, or there is something to do. -/
theorem Draining.outcome {all : List α} (hs : s.Draining all) (capacity : Nat)
    (hsize : 0 < bufSize) :
    s.stage = .ended .atEof ∧ s.delivered = all ∨
      ∃ a t, Own s a ∧ s.step capacity bufSize a = some t := by
  obtain hrunning | hend := hs.stage
  · exact .inr (hs.progress hsize hrunning)
  · have hseen : s.stage.SeenEof := by
      rw [hend]
      rfl
    have heof := hs.carried.eof hseen
    rw [hs.eof hseen, hend] at heof
    exact .inl ⟨hend, (heof.trans (List.append_nil _)).symm⟩

/-- The input of a running copy that is left to itself comes to its end if and only if CloseIO let
go of the hold and containerd's writers are gone. It cannot go on for ever then, nor stop short:
it ends, with everything that was sent delivered. -/
theorem stdin_drains (hr : (stdinCopy α capacity bufSize).Reachable System.Any s) {buf : List α}
    (hstage : s.stage = .running buf false) (hsize : 0 < bufSize) :
    ((∃ t, (stdinCopy α capacity bufSize).Run Own s t ∧ t.stage = .ended .atEof) ↔
      s.io.stdin = .released ∧ s.clients = 0) ∧
    (s.io.stdin = .released → s.clients = 0 → ∀ as t,
      (stdinCopy α capacity bufSize).exec Own s as = some t →
        as.length ≤ 2 * s.fifo.buffer.length + buf.length + 2 ∧
        (t.stage = .ended .atEof ∧ t.delivered = s.sent ∨
          ∃ a u, Own t a ∧ t.step capacity bufSize a = some u)) := by
  refine ⟨⟨?_, ?_⟩, ?_⟩
  · rintro ⟨t, hrun, hend⟩
    have hseen : t.stage.SeenEof := by
      rw [hend]
      rfl
    have hnot : ¬s.stage.SeenEof := by
      rw [hstage]
      exact Bool.noConfusion
    obtain ⟨hio, hclients, heof⟩ := eof_of_run hr hnot hrun
    have ht : (stdinCopy α capacity bufSize).Reachable System.Any t :=
      hr.run (hrun.mono fun _ _ _ => trivial)
    exact ⟨hio ▸ (carried ht).released hseen, heof hseen⟩
  · rintro ⟨hreleased, hclients⟩
    have hstep : ∀ t, t.Draining s.sent → (t.stage = .ended .atEof ∧ t.delivered = s.sent) ∨
        ∃ u, (stdinCopy α capacity bufSize).Next Own t u ∧ u.Draining s.sent ∧ u.left < t.left := by
      intro t ht
      refine (ht.outcome capacity hsize).imp_right ?_
      rintro ⟨a, u, ha, hstep⟩
      exact ⟨u, ⟨a, ha, hstep⟩, ht.step ha hstep, left_lt ha hstep⟩
    obtain ⟨t, hrun, -, hend, -⟩ :=
      System.exists_run left hstep (draining hr hstage hreleased hclients)
    exact ⟨t, hrun, hend⟩
  · intro hreleased hclients as t hexec
    have hstep : ∀ u a v, u.Draining s.sent → Own u a → u.step capacity bufSize a = some v →
        v.Draining s.sent ∧ v.left < u.left :=
      fun _ _ _ hu ha h => ⟨hu.step ha h, left_lt ha h⟩
    obtain ⟨ht, hlength⟩ :=
      System.exec_length left hstep (draining hr hstage hreleased hclients) hexec
    have hleft : s.left = 2 * s.fifo.buffer.length + buf.length + 2 := by
      simp only [left, hstage, Bool.false_eq_true, if_false]
    exact ⟨by omega, ht.outcome capacity hsize⟩

theorem stdin_drains_after_closeInput :
    ∃ s : StdinCopy Nat, s.io.stdin = .released ∧ s.sent = [1, 2, 3] ∧
      ∃ t, (stdinCopy Nat 8 2).Run Own s t ∧ t.stage = .ended .atEof := by
  let as : List (InputAction Nat) := [.openBridge, .openReceiver, .openHold, .dropBridge, .spawn,
    .clientOpen, .clientWrite [1, 2, 3], .read 2, .clientClose, .write 1, .closeInput]
  refine ⟨(stdinCopy Nat 8 2).after System.Any {} as, rfl, rfl, ?_⟩
  have hr : (stdinCopy Nat 8 2).Reachable System.Any ((stdinCopy Nat 8 2).after System.Any {} as) :=
    System.run_after rfl
  have hstage : ((stdinCopy Nat 8 2).after System.Any {} as).stage = .running [2] false := rfl
  exact (stdin_drains hr hstage (by decide)).1.mpr ⟨rfl, rfl⟩

end StdinCopy
end RustExtensions.RuncShim
