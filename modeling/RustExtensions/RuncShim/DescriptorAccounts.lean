import RustExtensions.RuncShim.Descriptors

/-!
# Every descriptor has an owner

Each function on the way to a process accounts for what it opens: at an error
nothing of it is left but what the tasks, the hold on stdin and the console
have, and these go with the process or its next start.
-/
namespace RustExtensions.RuncShim.Descriptors

open RustExtensions.Shim
open RustExtensions.Ownership
open RustExtensions.Fallible

variable {env : Outcomes} {ε α : Type} {l m : Multiset Handle} {r : α → Multiset Handle}

abbrev Accounts (env : Outcomes) (l : Multiset Handle) (x : Attempt ε α)
    (r : α → Multiset Handle) : Prop :=
  Owns (ledger env.attempt) l x r

/-! ## Calls -/

theorem accounts_call (err : String → ε) : Accounts env 0 (call env m err) fun _ => m := by
  intro s rest hs
  rw [zero_add] at hs
  unfold call
  cases env.fails s.calls with
  | none =>
    refine ⟨fun a t h => ?_, fun e t h => by cases h⟩
    obtain ⟨rfl, rfl⟩ := EStateM.Result.ok.inj h
    change s.handles + m = m + (ledger env.attempt).owned s + rest
    change s.handles = _ at hs
    rw [hs]
    abel
  | some e =>
    refine ⟨fun a t h => (by cases h), fun e' t h => ?_⟩
    obtain ⟨rfl, rfl⟩ := EStateM.Result.error.inj h
    exact hs

theorem accounts_succeeds : Accounts env 0 (succeeds env : Attempt ε Bool) fun _ => 0 := by
  intro s rest hs
  refine ⟨fun a t h => ?_, fun e t h => by cases h⟩
  obtain ⟨rfl, rfl⟩ := EStateM.Result.ok.inj h
  exact hs

theorem accounts_acquire (m : Multiset Handle) :
    Accounts env 0 (acquire m : Attempt ε Unit) fun _ => m := by
  intro s rest hs
  refine ⟨fun a t h => ?_, fun e t h => by cases h⟩
  obtain ⟨rfl, rfl⟩ := EStateM.Result.ok.inj h
  change s.handles + m = m + (ledger env.attempt).owned s + rest
  change s.handles = _ at hs
  rw [hs]
  abel

theorem accounts_drop : Accounts env m (drop env m : Attempt ε Unit) fun _ => 0 := .release

/-- A call beside which the program holds `l`. -/
theorem accounts_holding (err : String → ε) :
    Accounts env l (holding (ledger env.attempt) l (call env m err)) fun _ => l + m :=
  (accounts_call err).holding.of_eq (add_zero l).symm fun _ => rfl

/-- Owners that get `m`. -/
theorem accounts_modify {g : Descriptors → Descriptors} (d : Descriptors → Multiset Handle)
    (hhandles : ∀ s, (g s).handles = s.handles - d s)
    (howned : ∀ s, (ledger env.attempt).owned (g s) + d s = m + (ledger env.attempt).owned s) :
    Accounts env m (modify g : Attempt ε PUnit) fun _ => 0 :=
  Owns.modify (d := d) hhandles fun s => by rw [zero_add, howned]

/-! ## The pipes -/

theorem accounts_newPipeIf (wanted : Bool) (stream : StdStream) :
    Accounts env 0 (newPipeIf env wanted stream) (Pipe.handles env.attempt stream) := by
  cases wanted with
  | false => exact .pure rfl
  | true =>
    have hnew : Accounts env 0 (newPipe env stream) fun _ =>
        Pipe.handles env.attempt stream (some {}) :=
      (accounts_call _).bind fun _ => (accounts_holding _).of_eq rfl fun _ => (add_zero _).symm
    exact hnew.bind fun _ => .pure rfl

theorem accounts_pipedIo (opts : IoOption) :
    Accounts env 0 (PipedIo.new env opts) (PipedIo.handles env.attempt) := by
  refine (accounts_newPipeIf _ _).bind fun stdin => ?_
  have hnext (made : Multiset Handle) (wanted : Bool) (stream : StdStream) :
      Accounts env made (holding (ledger env.attempt) made (newPipeIf env wanted stream))
        fun p => made + Pipe.handles env.attempt stream p :=
    (accounts_newPipeIf _ _).holding.of_eq (add_zero _).symm fun _ => rfl
  exact (hnext _ _ _).bind fun stdout => (hnext _ _ _).bind fun stderr => .pure rfl

/-- From here on `owned` is a sum with one part for each owner. -/
theorem owned_eq (n : Nat) (s : Descriptors) : (ledger n).owned s =
    driverHandles n s.driver + total s.tasks + s.held + s.console := rfl

theorem accounts_setDriver (driver : Driver) :
    Accounts env (driverHandles env.attempt (some driver))
      (modify (setDriver env.attempt driver) : Attempt ε PUnit) fun _ => 0 := by
  refine accounts_modify (fun s => driverHandles env.attempt s.driver) (fun _ => rfl) fun s => ?_
  rw [owned_eq, owned_eq]
  dsimp only [setDriver]
  abel

theorem accounts_createIo (stdio : Stdio) : Accounts env 0 (createIo env stdio) fun _ => 0 := by
  unfold createIo
  split_ifs
  · exact accounts_setDriver .null
  · exact (accounts_pipedIo _).bind fun io => accounts_setDriver (.piped io)
  · exact .pure rfl

theorem total_append (ms : List (Multiset Handle)) : total (ms ++ [m]) = total ms + m := by
  induction ms with
  | nil => exact add_comm ..
  | cons m' ms ih => rw [List.cons_append, total, ih, total, add_assoc]

theorem accounts_fromOwnedFd (h : Handle) :
    Accounts env {h} (fromOwnedFd env h : Attempt ε Bool) fun b => if b then {h} else 0 := by
  have hframe : Accounts env ({h} + 0) (succeeds env : Attempt ε Bool) fun _ => {h} + 0 :=
    accounts_succeeds.frame fun _ _ _ he => nomatch he
  have hsucceeds : Accounts env {h} (succeeds env : Attempt ε Bool) fun _ => {h} :=
    hframe.of_eq (add_zero _).symm fun _ => (add_zero _).symm
  refine hsucceeds.bind fun b => ?_
  cases b with
  | true => exact .pure rfl
  | false => exact accounts_drop.bind fun _ => .pure rfl

theorem accounts_takeWr : Accounts env 0 (takeWr : Attempt ε Bool) fun b =>
    if b then {own env .stdin .wr} else 0 := by
  intro s rest hs
  unfold takeWr
  split
  · next stdout stderr hdriver =>
    refine ⟨fun b t h => ?_, fun e t h => by cases h⟩
    obtain ⟨rfl, rfl⟩ := EStateM.Result.ok.inj h
    rw [owned_eq, hdriver] at hs
    rw [owned_eq]
    change s.handles = _ at hs
    change s.handles = _
    rw [hs]
    simp only [driverHandles, PipedIo.handles, Pipe.handles, own, if_true, Bool.false_eq_true,
      if_false]
    abel
  · refine ⟨fun b t h => ?_, fun e t h => by cases h⟩
    obtain ⟨rfl, rfl⟩ := EStateM.Result.ok.inj h
    exact hs

theorem accounts_stdinWriter : Accounts env 0 (stdinWriter env : Attempt ε Bool) fun b =>
    if b then {own env .stdin .wr} else 0 := by
  refine accounts_takeWr.bind fun b => ?_
  cases b with
  | true => exact accounts_fromOwnedFd _
  | false => exact .pure rfl

theorem accounts_readEnd (pipe : Option Pipe) (stream : StdStream) :
    Accounts env 0 (readEnd env pipe stream : Attempt ε Bool) fun b =>
      if b then {own env stream .rd} else 0 := by
  cases pipe with
  | none => exact .pure rfl
  | some p =>
    refine accounts_succeeds.bind fun b => ?_
    cases b with
    | true => exact (accounts_acquire _).bind fun _ => accounts_fromOwnedFd _
    | false => exact .pure rfl

theorem accounts_outputReader (stream : StdStream) :
    Accounts env 0 (outputReader env stream : Attempt ε Bool) fun b =>
      if b then {own env stream .rd} else 0 := by
  refine .bind_get fun s => ?_
  split
  · exact accounts_readEnd _ _
  · exact .pure rfl

/-! ## The copies -/

theorem accounts_openInput (env : Outcomes) (path : String) :
    Accounts env 0 (openInput env path) fun _ =>
      {.fifo path true false} + {.fifo path false true} := by
  refine (accounts_call _).bind fun _ => (accounts_holding _).bind fun _ =>
    (accounts_holding _).bind fun _ => ?_
  have hframe : Accounts env
      (({.fifo path true false} + {.fifo path false true}) + {.fifo path true true})
      (drop env {.fifo path true true} : Attempt Error Unit)
      fun _ => ({.fifo path true false} + {.fifo path false true}) + 0 :=
    accounts_drop.frame fun _ _ _ he => nomatch he
  exact hframe.of_eq (by abel) fun _ => (add_zero _).symm

theorem accounts_giveInput (path : String) (dst : Handle) :
    Accounts env ({dst} + ({.fifo path true false} + {.fifo path false true}))
      (modify (giveInput path dst) : Attempt ε PUnit) fun _ => 0 := by
  refine accounts_modify
    (fun s => if s.ioTasks.stdin = .released then {.fifo path false true} else s.held) ?_ ?_
  · intro s
    cases h : s.ioTasks.stdin <;> simp [giveInput, h]
  · intro s
    rw [owned_eq, owned_eq]
    cases h : s.ioTasks.stdin <;>
      simp only [giveInput, inputTask, h, total_append, if_true, if_false, reduceCtorEq] <;> abel

theorem accounts_copyFromFifo (path : String) (dst : Handle) :
    Accounts env {dst} (copyFromFifo env path dst) fun _ => 0 := by
  have hopen := (accounts_openInput env path).holding (m := {dst})
  exact (hopen.of_eq (add_zero _).symm fun _ => rfl).bind fun _ => accounts_giveInput _ _

theorem accounts_giveOutput (path : String) (src : Handle) :
    Accounts env ({src} + {.fifo path true false} + {.fifo path false true})
      (modify (giveOutput path src) : Attempt ε PUnit) fun _ => 0 := by
  refine accounts_modify (fun _ => 0) (fun _ => (tsub_zero _).symm) fun s => ?_
  rw [owned_eq, owned_eq]
  dsimp only [giveOutput, outputTask]
  rw [total_append]
  abel

theorem accounts_copyToFifo (src : Handle) (path : String) :
    Accounts env {src} (copyToFifo env src path) fun _ => 0 :=
  (accounts_holding _).bind fun _ => (accounts_holding _).bind fun _ => accounts_giveOutput _ _

theorem accounts_orNoPipe (name : String) (h : Handle) (b : Bool) :
    Accounts env (if b then {h} else 0) (orNoPipe name b) fun _ => {h} := by
  cases b with
  | true => exact .pure rfl
  | false => exact .throw _

theorem accounts_copyInput (stdio : Stdio) : Accounts env 0 (copyInput env stdio) fun _ => 0 := by
  unfold copyInput
  split
  · exact accounts_stdinWriter.bind fun b => (accounts_orNoPipe _ _ b).bind fun _ =>
      accounts_copyFromFifo _ _
  · exact .pure rfl

theorem accounts_copyOutput (path name : String) (stream : StdStream) :
    Accounts env 0 (copyOutput env path name stream) fun _ => 0 := by
  unfold copyOutput
  split
  · exact (accounts_outputReader _).bind fun b => (accounts_orNoPipe _ _ b).bind fun _ =>
      accounts_copyToFifo _ _
  · exact .pure rfl

theorem accounts_copyIo (stdio : Stdio) : Accounts env 0 (copyIo env stdio) fun _ => 0 := by
  refine .bind_get fun s => ?_
  split
  · exact .pure rfl
  · exact (accounts_copyInput _).bind fun _ => (accounts_copyOutput _ _ _).bind fun _ =>
      accounts_copyOutput _ _ _

/-! ## The command -/

theorem accounts_setInput (pipe : Option Pipe) : Accounts env 0 (setInput env pipe) fun b =>
    if b then {own env .stdin .rd} else 0 := by
  cases pipe with
  | none => exact .pure rfl
  | some p => exact (accounts_call _).bind fun _ => .pure rfl

theorem accounts_setOutput (env : Outcomes) (pipe : Option Pipe) (stream : StdStream) :
    Accounts env 0 (setOutput env pipe stream) fun o =>
      if o = .piped then {own env stream .wr} else 0 := by
  unfold setOutput
  split
  · exact .pure rfl
  · exact .throw _
  · refine accounts_succeeds.bind fun b => ?_
    cases b with
    | true => exact (accounts_acquire _).bind fun _ => .pure rfl
    | false => exact .throw _

theorem accounts_setPiped (io : PipedIo) :
    Accounts env 0 (setPiped env io) (Command.handles env.attempt) := by
  refine (accounts_setInput _).bind fun stdin => ?_
  have hstdout := (accounts_setOutput env io.stdout .stdout).holding
    (m := Command.handles env.attempt { stdin, stdout := .null, stderr := .null })
  refine (hstdout.of_eq ?_ fun _ => rfl).bind fun stdout => ?_
  · simp [Command.handles, own]
  have hstderr := (accounts_setOutput env io.stderr .stderr).holding
    (m := Command.handles env.attempt { stdin, stdout, stderr := .null })
  refine (hstderr.of_eq ?_ fun _ => rfl).bind fun stderr => .pure ?_
  · simp [Command.handles, own]
  · simp [Command.handles, own]

theorem accounts_setIo (io : Option Driver) :
    Accounts env 0 (setIo env io) (Command.handles env.attempt) := by
  unfold setIo
  split
  · exact .pure rfl
  · exact .pure rfl
  · exact accounts_setPiped _

theorem accounts_execute (env : Outcomes) (cmd : Command) :
    Accounts env 0 (execute env cmd) fun _ => 0 := by
  refine (accounts_call _).bind fun _ => (accounts_call _).bind fun _ => ?_
  have hchild : Accounts env (Command.capturedEnds env.attempt cmd)
      (modify fun s => { s with child := some cmd } : Attempt String PUnit)
      fun _ => Command.capturedEnds env.attempt cmd :=
    Owns.modify (d := fun _ => 0) (fun _ => (tsub_zero _).symm) fun s => by
      rw [owned_eq, owned_eq, add_zero]
  exact hchild.bind fun _ => accounts_drop

theorem driverHandles_closeOutputs_le (n : Nat) (driver : Option Driver) :
    driverHandles n (driver.map closeOutputs) ≤ driverHandles n driver := by
  have hclose (stream : StdStream) (p : Option Pipe) :
      Pipe.handles n stream (closeWr p) ≤ Pipe.handles n stream p := by
    cases p with
    | none => exact le_refl _
    | some p => simp [closeWr, Pipe.handles]
  cases driver with
  | none => exact le_refl _
  | some driver =>
    cases driver with
    | null => exact le_refl _
    | piped io => exact add_le_add (add_le_add (le_refl _) (hclose _ _)) (hclose _ _)

theorem accounts_closeAfterStart :
    Accounts env 0 (modify (closeAfterStart env.attempt) : Attempt ε PUnit) fun _ => 0 := by
  refine accounts_modify (fun s => driverHandles env.attempt s.driver -
    driverHandles env.attempt (s.driver.map closeOutputs)) (fun _ => rfl) fun s => ?_
  rw [owned_eq, owned_eq]
  dsimp only [closeAfterStart]
  obtain ⟨closed, hclosed⟩ :=
    Multiset.le_iff_exists_add.mp (driverHandles_closeOutputs_le env.attempt s.driver)
  rw [hclosed, add_tsub_cancel_left]
  abel

theorem accounts_runCommand (cmd : Command) :
    Accounts env (Command.handles env.attempt cmd) (runCommand env cmd) fun _ => 0 := by
  have hexecute := (accounts_execute env cmd).dropping
    (m := Command.handles env.attempt cmd)
  refine Owns.bind (hexecute.of_eq (add_zero _).symm fun _ => rfl).attempt_unit fun res => ?_
  refine accounts_closeAfterStart.bind fun _ => ?_
  cases res with
  | ok u => exact accounts_call _
  | error e => exact .throw e

theorem accounts_launchIo : Accounts env 0 (launchIo env) fun _ => 0 :=
  .bind_get fun _ => (accounts_setIo _).bind accounts_runCommand

theorem accounts_runcCreate : Accounts env 0 (runcCreate env) fun _ => 0 :=
  (accounts_call _).bind fun _ => (accounts_call _).bind fun _ => accounts_launchIo

theorem accounts_runcExec : Accounts env 0 (runcExec env) fun _ => 0 := by
  refine (accounts_call _).bind fun _ => ?_
  refine Owns.of_eq (Owns.dropping ?_) (add_zero _).symm fun _ => rfl
  exact (accounts_call _).bind fun _ => (accounts_call _).bind fun _ =>
    (accounts_call _).bind fun _ => accounts_launchIo

/-! ## The console -/

theorem accounts_newConsoleSocket :
    Accounts env 0 (newConsoleSocket env) fun _ => {.listener} :=
  (accounts_call _).bind fun _ => accounts_call _

theorem accounts_receiveSocket : Accounts env 0 (receiveSocket env) fun _ => {.console} :=
  (accounts_call _).bind fun _ => (accounts_holding _).of_eq rfl fun _ => (add_zero _).symm

theorem accounts_newPty : Accounts env {.console} (newPty env) fun _ => {.console} := by
  have hcalls : Accounts env 0 (do
      call env 0 (.ioError "set the console non-blocking")
      call env 0 (.ioError "register the console") : Attempt Error Unit) fun _ => 0 :=
    (accounts_call _).bind fun _ => accounts_call _
  exact hcalls.holding.of_eq (add_zero _).symm fun _ => (add_zero _).symm

theorem accounts_consoleCopy {copy : Attempt Error Unit} (path : String)
    (hcopy : Accounts env {.console} copy fun _ => 0) :
    Accounts env 0 (consoleCopy path copy) fun _ => 0 := by
  unfold consoleCopy
  split
  · exact (accounts_acquire _).bind fun _ => hcopy
  · exact .pure rfl

theorem accounts_copyConsole (env : Outcomes) (stdio : Stdio) :
    Accounts env 0 (copyConsole env stdio) fun _ => {.console} := by
  refine (accounts_call _).bind fun _ => ?_
  refine Owns.bind ((accounts_receiveSocket.dropping).of_eq (add_zero _).symm fun _ => rfl)
    fun _ => accounts_newPty.bind fun _ => ?_
  have hcopies : Accounts env 0 (do
      consoleCopy stdio.stdin (copyFromFifo env stdio.stdin .console)
      consoleCopy stdio.stdout (copyToFifo env .console stdio.stdout)) fun _ => 0 :=
    (accounts_consoleCopy _ (accounts_copyFromFifo _ _)).bind fun _ =>
      accounts_consoleCopy _ (accounts_copyToFifo _ _)
  exact hcopies.holding.of_eq (add_zero _).symm fun _ => (add_zero _).symm

theorem accounts_keepConsole :
    Accounts env {.console} (modify keepConsole : Attempt ε PUnit) fun _ => 0 := by
  refine accounts_modify (fun s => s.console) (fun _ => rfl) fun s => ?_
  rw [owned_eq, owned_eq]
  dsimp only [keepConsole]
  abel

theorem accounts_attachConsole (stdio : Stdio) :
    Accounts env {.listener} (attachConsole env stdio) fun _ => 0 := by
  have hcopies := (accounts_copyConsole env stdio).attempt (δ := Error).holding
    (m := {.listener})
  refine (hcopies.of_eq (add_zero _).symm fun _ => rfl).bind fun res => ?_
  cases res with
  | ok u =>
    have hdrop : Accounts env ({.console} + {.listener}) (drop env {.listener} : Attempt Error Unit)
        fun _ => {.console} + 0 := accounts_drop.frame fun _ _ _ he => nomatch he
    exact (hdrop.of_eq (add_comm ..) fun _ => (add_zero _).symm).bind fun _ => accounts_keepConsole
  | error e =>
    refine Owns.of_eq ?_ (add_zero _) fun _ => rfl
    exact accounts_drop.bind fun _ => .throw e

/-! ## A process is made -/

theorem accounts_prepare (stdio : Stdio) :
    Accounts env 0 (prepare env stdio) fun _ => socketHandles stdio := by
  unfold prepare socketHandles
  split
  · exact accounts_newConsoleSocket
  · exact (accounts_createIo _).bind fun _ => accounts_copyIo _

variable {runtime : Attempt String Unit}

theorem accounts_finish (pidPath : String) (stdio : Stdio) :
    Accounts env (socketHandles stdio) (finish env pidPath stdio) fun _ => 0 := by
  have hpid : Accounts env 0 (do
      call env 0 (.ioError s!"read {pidPath}")
      call env 0 .parseInt : Attempt Error Unit) fun _ => 0 :=
    (accounts_call _).bind fun _ => accounts_call _
  unfold finish socketHandles
  split
  · exact (accounts_attachConsole _).bind fun _ => hpid
  · exact hpid

theorem accounts_makeProcess (hruntime : Accounts env 0 runtime fun _ => 0)
    (msg pidPath : String) (stdio : Stdio) :
    Accounts env 0 (makeProcess env runtime msg pidPath stdio) fun _ => 0 := by
  refine (accounts_prepare _).bind fun _ => ?_
  have hruntime := hruntime.attempt_unit (δ := Error).holding (m := socketHandles stdio)
  refine (hruntime.of_eq (add_zero _).symm fun _ => (add_zero _).symm).bind fun res => ?_
  cases res with
  | ok u => exact accounts_finish _ _
  | error e => exact accounts_drop.bind fun _ => .throw _

theorem handles_dropDriver {s : Descriptors} {rest : Multiset Handle}
    (h : s.handles = (ledger env.attempt).owned s + rest) :
    (dropDriver env.attempt s).handles =
      (ledger env.attempt).owned (dropDriver env.attempt s) + rest := by
  have hnone : driverHandles env.attempt none = 0 := rfl
  rw [owned_eq] at h ⊢
  dsimp only [dropDriver]
  rw [h, hnone, zero_add, add_assoc, add_assoc, add_assoc, add_tsub_cancel_left, add_assoc,
    add_assoc]

variable {s t : Descriptors}

theorem inScope_ok {x : Attempt Error Unit} {u : Unit} (h : inScope env x s = .ok u t) :
    ∃ t', x s = .ok u t' ∧ t = dropDriver env.attempt t' := by
  unfold inScope at h
  split at h
  · next a t' hx =>
    obtain ⟨rfl, rfl⟩ := EStateM.Result.ok.inj h
    exact ⟨t', hx, rfl⟩
  · cases h

theorem inScope_error {x : Attempt Error Unit} {e : Error} (h : inScope env x s = .error e t) :
    ∃ t', x s = .error e t' ∧ t = dropDriver env.attempt t' := by
  unfold inScope at h
  split at h
  · cases h
  · next e' t' hx =>
    obtain ⟨rfl, rfl⟩ := EStateM.Result.error.inj h
    exact ⟨t', hx, rfl⟩

theorem accounts_inScope {x : Attempt Error Unit} (hx : Accounts env 0 x fun _ => 0) :
    Accounts env 0 (inScope env x) fun _ => 0 := by
  intro s rest hs
  obtain ⟨hok, herr⟩ := hx s rest hs
  constructor
  · intro u t h
    obtain ⟨t', hx', rfl⟩ := inScope_ok h
    have ht' := hok u t' hx'
    rw [zero_add] at ht' ⊢
    exact handles_dropDriver ht'
  · intro e t h
    obtain ⟨t', hx', rfl⟩ := inScope_error h
    exact handles_dropDriver (herr e t' hx')

/-- Nothing is under way. -/
structure Idle (s : Descriptors) : Prop where
  driver : s.driver = none
  tasks : s.tasks = []
  held : s.held = 0
  console : s.console ≤ s.handles

theorem Idle.owned (h : s.Idle) (n : Nat) : (ledger n).owned s = s.console := by
  have hnone : driverHandles n none = 0 := rfl
  have hnil : total [] = 0 := rfl
  rw [owned_eq, h.driver, h.tasks, h.held, hnone, hnil, add_zero, zero_add, zero_add]

theorem handles_abort {rest : Multiset Handle} (hdriver : s.driver = none)
    (h : s.handles = (ledger env.attempt).owned s + rest) :
    (abort s).handles = s.console + rest := by
  have hnone : driverHandles env.attempt none = 0 := rfl
  rw [owned_eq, hdriver, hnone, zero_add] at h
  dsimp only [abort]
  rw [h, add_assoc, add_tsub_cancel_left]

end RustExtensions.RuncShim.Descriptors
