import RustExtensions.RuncShim.ProcessStdio

/-!
# The ends of a process's stdio

A process that was made has the ends that its stdio asks for, one copy runs for
each of its streams, and the shim has none of the process's ends: an output
comes to its end when the process and its children have closed it.
-/
namespace RustExtensions.RuncShim.Descriptors

open RustExtensions.Shim
open RustExtensions.Ownership
open RustExtensions.Fallible

variable {env : Outcomes} {ε α β : Type} {m : Multiset Handle} {s t u : Descriptors}
  {ts us : List (Multiset Handle)}

/-! ## The copies that are begun -/

/-- The tasks `ts` were begun. Nothing but a fifo and the console went anywhere else. -/
structure Gives (ts : List (Multiset Handle)) (s t : Descriptors) : Prop where
  tasks : t.tasks = s.tasks ++ ts
  held : t.held = s.held ∨ ∃ path, t.held = {.fifo path false true}
  console : t.console = s.console ∨ t.console = {.console}

theorem Gives.of_same (h : Same s t) : Gives [] s t :=
  ⟨by rw [h.tasks, List.append_nil], .inl h.held, .inl h.console⟩

theorem Gives.trans (hst : Gives ts s t) (htu : Gives us t u) : Gives (ts ++ us) s u where
  tasks := by rw [htu.tasks, hst.tasks, List.append_assoc]
  held := by
    obtain h | h := htu.held
    · rw [h]
      exact hst.held
    · exact .inr h
  console := by
    obtain h | h := htu.console
    · rw [h]
      exact hst.console
    · exact .inr h

instance : Std.Refl (Gives []) := ⟨fun s => .of_same (.refl s)⟩

instance : IsTrans Descriptors (Gives []) := ⟨fun _ _ _ => Gives.trans⟩

/-- Where `x` returns, it has begun `ts`. -/
def Begins (ts : List (Multiset Handle)) (x : Attempt ε α) : Prop := ReturnsKeep (Gives ts) x

theorem Begins.bind {x : Attempt ε α} {f : α → Attempt ε β} (hx : Begins ts x)
    (hf : ∀ a, Begins us (f a)) : Begins (ts ++ us) (x >>= f) := by
  intro s b u h
  obtain ⟨a, t, hxa, hfa⟩ := bind_ok.mp h
  exact (hx s a t hxa).trans (hf a t b u hfa)

theorem begins_nothing {x : Attempt ε α} (hx : Keeps (Gives []) x) : Begins [] x := hx.returns

/-- A step that begins nothing, before one that does. -/
theorem Begins.after {x : Attempt ε α} {f : α → Attempt ε β} (hx : Keeps (Gives []) x)
    (hf : ∀ a, Begins us (f a)) : Begins us (x >>= f) :=
  (begins_nothing hx).bind hf

theorem Begins.holding {x : Attempt ε α} (hx : Begins ts x) :
    Begins ts (holding (ledger env.attempt) m x) :=
  fun s a t h => hx s a t (holding_ok.mp h)

theorem begins_copyFromFifo (path : String) (dst : Handle) :
    Begins [inputTask path dst] (copyFromFifo env path dst) := by
  refine .after (keeps_holding .of_same (keeps_openInput .of_same _)) fun _ => ?_
  intro s a t h
  obtain ⟨rfl, rfl⟩ := EStateM.Result.ok.inj h
  unfold giveInput
  dsimp only
  split
  · exact ⟨rfl, .inl rfl, .inl rfl⟩
  · exact ⟨rfl, .inr ⟨path, rfl⟩, .inl rfl⟩

theorem begins_copyToFifo (src : Handle) (path : String) :
    Begins [outputTask path src] (copyToFifo env src path) := by
  refine .after (keeps_holding .of_same (keeps_call .of_same _)) fun _ =>
    .after (keeps_holding .of_same (keeps_call .of_same _)) fun _ => ?_
  intro s a t h
  obtain ⟨rfl, rfl⟩ := EStateM.Result.ok.inj h
  exact ⟨rfl, .inl rfl, .inl rfl⟩

theorem gives_stdinWriter : Keeps (Gives []) (stdinWriter env : Attempt ε Bool) := by
  have htake : Keeps (Gives []) (takeWr : Attempt ε Bool) := by
    constructor
    · intro s b t h
      unfold takeWr at h
      split at h
      · obtain ⟨rfl, rfl⟩ := EStateM.Result.ok.inj h
        exact ⟨(List.append_nil _).symm, .inl rfl, .inl rfl⟩
      · obtain ⟨rfl, rfl⟩ := EStateM.Result.ok.inj h
        exact .of_same (.refl _)
    · intro s e t h
      unfold takeWr at h
      split at h <;> cases h
  refine htake.bind fun b => ?_
  cases b with
  | true => exact keeps_fromOwnedFd .of_same _
  | false => exact .pure false

/-- The copy of one stream, if it is asked for. -/
def copyIf (path : String) (task : Multiset Handle) : List (Multiset Handle) :=
  if path ≠ "" then [task] else []

/-- The copies of a process with pipes. -/
def pipeCopies (n : Nat) (stdio : Stdio) : List (Multiset Handle) :=
  copyIf stdio.stdin (inputTask stdio.stdin (.pipe n .stdin .wr)) ++
    (copyIf stdio.stdout (outputTask stdio.stdout (.pipe n .stdout .rd)) ++
      copyIf stdio.stderr (outputTask stdio.stderr (.pipe n .stderr .rd)))

/-- The copies of a process with a terminal. -/
def consoleCopies (stdio : Stdio) : List (Multiset Handle) :=
  copyIf stdio.stdin (inputTask stdio.stdin .console) ++
    copyIf stdio.stdout (outputTask stdio.stdout .console)

theorem begins_copyIf {x : Attempt ε Unit} {path : String} (hx : Begins ts x)
    (htask : ts = [m]) : Begins (copyIf path m) (if path ≠ "" then x else pure ()) := by
  unfold copyIf
  split
  · rw [← htask]
    exact hx
  · exact begins_nothing (.pure ())

theorem begins_copyInput (stdio : Stdio) :
    Begins (copyIf stdio.stdin (inputTask stdio.stdin (.pipe env.attempt .stdin .wr)))
      (copyInput env stdio) :=
  begins_copyIf (.after gives_stdinWriter fun b => .after (keeps_orNoPipe _ b) fun _ =>
    begins_copyFromFifo _ _) rfl

theorem begins_copyOutput (path name : String) (stream : StdStream) :
    Begins (copyIf path (outputTask path (.pipe env.attempt stream .rd)))
      (copyOutput env path name stream) :=
  begins_copyIf (.after (keeps_outputReader .of_same _) fun b =>
    .after (keeps_orNoPipe _ b) fun _ => begins_copyToFifo _ _) rfl

theorem copyIo_ok {stdio : Stdio} {v : Unit} (h : copyIo env stdio s = .ok v t) :
    Gives (if s.driver.isSome then pipeCopies env.attempt stdio else []) s t := by
  obtain ⟨s', _, hget, h⟩ := bind_ok.mp h
  obtain ⟨rfl, rfl⟩ := EStateM.Result.ok.inj hget
  cases hdriver : s.driver with
  | none =>
    rw [hdriver] at h
    obtain ⟨rfl, rfl⟩ := EStateM.Result.ok.inj h
    exact .of_same (.refl _)
  | some driver =>
    rw [hdriver] at h
    have hstreams : Begins (pipeCopies env.attempt stdio) (copyStreams env stdio) :=
      (begins_copyInput _).bind fun _ => (begins_copyOutput _ _ _).bind fun _ =>
        begins_copyOutput _ _ _
    exact hstreams s v t h

theorem begins_consoleCopy {copy : Attempt Error Unit} {path : String} (hcopy : Begins [m] copy) :
    Begins (copyIf path m) (consoleCopy path copy) :=
  begins_copyIf (.after (keeps_acquire .of_same) fun _ => hcopy) rfl

theorem begins_copyConsole (stdio : Stdio) :
    Begins (consoleCopies stdio) (copyConsole env stdio) := by
  have hreceive : Keeps (Gives [])
      (dropping (ledger env.attempt) {.connection} (receiveSocket env)) :=
    keeps_dropping .of_same (keeps_receiveSocket .of_same)
  exact .after (keeps_call .of_same _) fun _ => .after hreceive fun _ =>
    .after (keeps_newPty .of_same) fun _ => .holding <|
      (begins_consoleCopy (begins_copyFromFifo _ _)).bind fun _ =>
        begins_consoleCopy (begins_copyToFifo _ _)

theorem begins_attachConsole (stdio : Stdio) :
    Begins (consoleCopies stdio) (attachConsole env stdio) := by
  intro s v t h
  obtain ⟨res, u, hres, h⟩ := bind_ok.mp h
  obtain ⟨_, u', hdrop, h⟩ := bind_ok.mp h
  have hu' : Gives [] u u' := (keeps_drop .of_same).returns _ _ _ hdrop
  obtain ⟨_, rfl, hcopies⟩ | ⟨e, rfl, -⟩ := attempt_ok.mp (holding_ok.mp hres)
  · have hu := begins_copyConsole stdio s _ u hcopies
    obtain ⟨rfl, rfl⟩ := EStateM.Result.ok.inj h
    have hkeep : Gives [] u' (keepConsole u') := ⟨(List.append_nil _).symm, .inl rfl, .inr rfl⟩
    have hall := (hu.trans hu').trans hkeep
    rwa [List.append_nil, List.append_nil] at hall
  · cases h

theorem gives_launchIo : Keeps (Gives []) (launchIo env) := by
  have hexecute (cmd : Command) : Keeps (Gives []) (execute env cmd) :=
    (keeps_call .of_same _).bind fun _ => (keeps_call .of_same _).bind fun _ =>
      (keeps_modify fun _ => ⟨(List.append_nil _).symm, .inl rfl, .inl rfl⟩).bind fun _ =>
        keeps_drop .of_same
  refine keeps_bind_get fun s => Keeps.bind ?_ fun cmd => ?_
  · exact ⟨fun s a t h => .of_same ((same_setIo _).returns s a t h),
      fun s e t h => .of_same ((same_setIo _).fails s e t h)⟩
  · refine (keeps_attempt (keeps_dropping .of_same (hexecute cmd))).bind fun res => ?_
    refine (keeps_modify fun s => ?_).bind fun _ => ?_
    · exact ⟨(List.append_nil _).symm, .inl rfl, .inl rfl⟩
    · cases res with
      | ok u => exact keeps_call .of_same _
      | error e => exact .throw e

theorem gives_runcCreate : Keeps (Gives []) (runcCreate env) :=
  (keeps_call .of_same _).bind fun _ => (keeps_call .of_same _).bind fun _ => gives_launchIo

theorem gives_runcExec : Keeps (Gives []) (runcExec env) :=
  (keeps_call .of_same _).bind fun _ => keeps_dropping .of_same <|
    (keeps_call .of_same _).bind fun _ => (keeps_call .of_same _).bind fun _ =>
      (keeps_call .of_same _).bind fun _ => gives_launchIo

/-! ## What the stdio asks for -/

/-- The ends of a command for a process with this stdio. -/
def commandFor (stdio : Stdio) : Command :=
  if stdio.terminal then {}
  else if stdio.isNull then { stdout := .null, stderr := .null }
  else if scheme stdio = "fifo" then
    { stdin := stdio.stdin ≠ ""
      stdout := if stdio.stdout ≠ "" then .piped else .captured
      stderr := if stdio.stderr ≠ "" then .piped else .captured }
  else {}

/-- The copies of a process with this stdio. -/
def copiesFor (n : Nat) (stdio : Stdio) : List (Multiset Handle) :=
  if stdio.terminal then consoleCopies stdio
  else if scheme stdio = "fifo" then pipeCopies n stdio
  else []

theorem newPipeIf_ok {wanted : Bool} {stream : StdStream} {p : Option Pipe}
    (h : newPipeIf env wanted stream s = .ok p t) : p.isSome = wanted := by
  cases wanted with
  | false =>
    obtain ⟨rfl, rfl⟩ := EStateM.Result.ok.inj h
    rfl
  | true =>
    obtain ⟨_, _, _, h⟩ := bind_ok.mp h
    obtain ⟨rfl, rfl⟩ := EStateM.Result.ok.inj h
    rfl

theorem same_newPipeIf (wanted : Bool) (stream : StdStream) :
    Keeps Same (newPipeIf env wanted stream) := by
  cases wanted with
  | false => exact .pure none
  | true =>
    have hnew : Keeps Same (newPipe env stream) :=
      (keeps_call id _).bind fun _ => keeps_holding id (keeps_call id _)
    exact hnew.bind fun _ => .pure _

theorem same_pipedIo (opts : IoOption) : Keeps Same (PipedIo.new env opts) :=
  (same_newPipeIf _ _).bind fun _ => (keeps_holding id (same_newPipeIf _ _)).bind fun _ =>
    (keeps_holding id (same_newPipeIf _ _)).bind fun _ => .pure _

theorem commandOf_pipedIo {opts : IoOption} {io : PipedIo} (h : PipedIo.new env opts s = .ok io t) :
    commandOf (some (.piped io)) =
      { stdin := opts.openStdin
        stdout := if opts.openStdout then .piped else .captured
        stderr := if opts.openStderr then .piped else .captured } := by
  obtain ⟨stdin, _, hstdin, h⟩ := bind_ok.mp h
  obtain ⟨stdout, _, hstdout, h⟩ := bind_ok.mp h
  obtain ⟨stderr, _, hstderr, h⟩ := bind_ok.mp h
  obtain ⟨rfl, rfl⟩ := EStateM.Result.ok.inj h
  rw [commandOf, outputOf, outputOf, newPipeIf_ok hstdin, newPipeIf_ok (holding_ok.mp hstdout),
    newPipeIf_ok (holding_ok.mp hstderr)]

theorem scheme_of_isNull {stdio : Stdio} (h : stdio.isNull = true) : scheme stdio = "fifo" := by
  simp only [Stdio.isNull, Bool.and_eq_true, beq_iff_eq] at h
  rw [scheme, h.1.2]
  rfl

/-- What `create_io` leaves: its driver. -/
structure Driven (stdio : Stdio) (s t : Descriptors) : Prop where
  gives : Gives [] s t
  child : t.child = s.child
  present : t.driver.isSome = decide (scheme stdio = "fifo")
  command : stdio.terminal = false → commandOf t.driver = commandFor stdio

theorem createIo_ok {stdio : Stdio} {v : Unit} (hnone : s.driver = none)
    (h : createIo env stdio s = .ok v t) : Driven stdio s t := by
  have hset (driver : Driver) (s : Descriptors) : Gives [] s (setDriver env.attempt driver s) :=
    ⟨(List.append_nil _).symm, .inl rfl, .inl rfl⟩
  unfold createIo at h
  split at h
  · next hnull =>
    obtain ⟨rfl, rfl⟩ := EStateM.Result.ok.inj h
    refine ⟨hset _ _, rfl, ?_, fun hterminal => ?_⟩
    · rw [scheme_of_isNull hnull]
      rfl
    · simp [commandFor, hterminal, hnull, setDriver, commandOf]
  · next hnull =>
    split at h
    · next hfifo =>
      obtain ⟨io, u, hio, h⟩ := bind_ok.mp h
      obtain ⟨rfl, rfl⟩ := EStateM.Result.ok.inj h
      have hsame := (same_pipedIo _).returns _ _ _ hio
      refine ⟨(Gives.of_same hsame).trans (hset _ _), hsame.child, ?_, fun hterminal => ?_⟩
      · rw [hfifo]
        rfl
      · have hcommand := commandOf_pipedIo hio
        change commandOf (some (.piped io)) = _
        rw [hcommand]
        simp [commandFor, hterminal, hnull, hfifo]
    · next hfifo =>
      obtain ⟨rfl, rfl⟩ := EStateM.Result.ok.inj h
      refine ⟨.of_same (.refl _), rfl, ?_, fun hterminal => ?_⟩
      · simp [hnone, hfifo]
      · simp [commandFor, hterminal, hnull, hfifo, hnone, commandOf]

/-- What is ready when the runtime is called. -/
theorem prepare_ok {stdio : Stdio} {v : Unit} (hnone : s.driver = none)
    (h : prepare env stdio s = .ok v t) :
    Gives (if stdio.terminal then [] else copiesFor env.attempt stdio) s t ∧
      t.child = s.child ∧ commandOf t.driver = commandFor stdio := by
  unfold prepare at h
  split at h
  · next hterminal =>
    have hsame : Keeps Same (newConsoleSocket env) :=
      (keeps_call id _).bind fun _ => keeps_call id _
    have hst := hsame.returns _ _ _ h
    rw [if_pos hterminal, hst.driver, hnone, commandFor, if_pos hterminal]
    exact ⟨.of_same hst, hst.child, rfl⟩
  · next hterminal =>
    obtain ⟨_, u, hio, hcopy⟩ := bind_ok.mp h
    have hdriven := createIo_ok hnone hio
    have hwired := (wired_copyIo _).returns _ _ _ hcopy
    have hfalse := eq_false_of_ne_true hterminal
    refine ⟨?_, ?_, hwired.command.trans (hdriven.command hfalse)⟩
    · have hgives := hdriven.gives.trans (copyIo_ok hcopy)
      rw [hdriven.present] at hgives
      simpa [copiesFor, hfalse] using hgives
    · exact hwired.child.trans hdriven.child

/-- Where the runtime makes the process, the process has got what the driver has to give. -/
def Starts (x : Attempt ε α) : Prop :=
  ∀ s a t, x s = .ok a t → t.child = some (commandOf s.driver)

theorem Starts.after {x : Attempt ε α} {f : α → Attempt ε β} (hx : Keeps Same x)
    (hf : ∀ a, Starts (f a)) : Starts (x >>= f) := by
  intro s b u h
  obtain ⟨a, t, hxa, hfa⟩ := bind_ok.mp h
  rw [hf a t b u hfa, (hx.returns s a t hxa).driver]

theorem dropping_ok {x : Attempt ε α} {a : α} (h : dropping (ledger env.attempt) m x s = .ok a t) :
    ∃ u, x s = .ok a u ∧ Same u t := by
  obtain ⟨b, u, hx, h⟩ := bind_ok.mp h
  obtain ⟨_, u', hrelease, h⟩ := bind_ok.mp h
  obtain ⟨rfl, rfl⟩ := EStateM.Result.ok.inj h
  obtain ⟨-, rfl⟩ := EStateM.Result.ok.inj hrelease
  exact ⟨u, holding_ok.mp hx, ⟨rfl, rfl, rfl, rfl, rfl⟩⟩

theorem Starts.dropping {x : Attempt ε α} (hx : Starts x) :
    Starts (dropping (ledger env.attempt) m x) := by
  intro s a t h
  obtain ⟨u, hu, hsame⟩ := dropping_ok h
  rw [hsame.child]
  exact hx s a u hu

theorem runCommand_ok {cmd : Command} {v : Unit} (h : runCommand env cmd s = .ok v t) :
    t.child = some cmd := by
  obtain ⟨res, u, hres, h⟩ := bind_ok.mp h
  obtain ⟨_, u', hclose, h⟩ := bind_ok.mp h
  obtain ⟨-, rfl⟩ := EStateM.Result.ok.inj hclose
  obtain ⟨_, rfl, hexecute⟩ | ⟨e, rfl, -⟩ := attempt_ok.mp hres
  · obtain ⟨x, hx, hsame⟩ := dropping_ok hexecute
    have hcall : Keeps Same (call env 0 id : Attempt String Unit) := keeps_call id _
    rw [(hcall.returns _ _ _ h).child]
    change u.child = _
    rw [hsame.child]
    obtain ⟨_, _, _, hx⟩ := bind_ok.mp hx
    obtain ⟨_, _, _, hx⟩ := bind_ok.mp hx
    obtain ⟨_, y, hchild, hx⟩ := bind_ok.mp hx
    obtain ⟨-, rfl⟩ := EStateM.Result.ok.inj hchild
    obtain ⟨-, rfl⟩ := EStateM.Result.ok.inj hx
    rfl
  · cases h

theorem starts_launchIo : Starts (launchIo env) := by
  intro s v t h
  change (setIo env s.driver >>= runCommand env) s = _ at h
  obtain ⟨cmd, u, hset, hrun⟩ := bind_ok.mp h
  rw [runCommand_ok hrun, setIo_ok hset]

variable {runtime : Attempt String Unit}

/-- A call of the runtime that makes a process. -/
structure Makes (env : Outcomes) (runtime : Attempt String Unit) : Prop where
  accounts : Accounts env 0 runtime fun _ => 0
  gives : Keeps (Gives []) runtime
  starts : Starts runtime

theorem makes_runcCreate : Makes env (runcCreate env) where
  accounts := accounts_runcCreate
  gives := gives_runcCreate
  starts := .after (keeps_call id _) fun _ => .after (keeps_call id _) fun _ => starts_launchIo

theorem makes_runcExec : Makes env (runcExec env) where
  accounts := accounts_runcExec
  gives := gives_runcExec
  starts := .after (keeps_call id _) fun _ => .dropping <| .after (keeps_call id _) fun _ =>
    .after (keeps_call id _) fun _ => .after (keeps_call id _) fun _ => starts_launchIo

theorem finish_ok {pidPath : String} {stdio : Stdio} {v : Unit}
    (h : finish env pidPath stdio s = .ok v t) :
    Gives (if stdio.terminal then consoleCopies stdio else []) s t ∧ t.child = s.child := by
  have hpid : Keeps Same (do
      call env 0 (.ioError s!"read {pidPath}")
      call env 0 .parseInt : Attempt Error Unit) :=
    (keeps_call id _).bind fun _ => keeps_call id _
  unfold finish at h
  split at h
  · next hterminal =>
    obtain ⟨_, u, hattach, h⟩ := bind_ok.mp h
    have hsame := hpid.returns _ _ _ h
    have hgives := (begins_attachConsole stdio s _ u hattach).trans (.of_same hsame)
    rw [List.append_nil] at hgives
    rw [if_pos hterminal]
    exact ⟨hgives, hsame.child.trans ((wired_attachConsole _).returns _ _ _ hattach).child⟩
  · next hterminal =>
    have hsame := hpid.returns _ _ _ h
    rw [if_neg hterminal]
    exact ⟨.of_same hsame, hsame.child⟩

theorem makeProcess_ok {msg pidPath : String} {stdio : Stdio} {v : Unit}
    (hruntime : Makes env runtime) (hnone : s.driver = none)
    (h : makeProcess env runtime msg pidPath stdio s = .ok v t) :
    Gives (copiesFor env.attempt stdio) s t ∧ t.child = some (commandFor stdio) := by
  obtain ⟨_, u, hprepare, h⟩ := bind_ok.mp h
  obtain ⟨hready, -, hcommand⟩ := prepare_ok hnone hprepare
  obtain ⟨res, u', hres, h⟩ := bind_ok.mp h
  obtain ⟨_, rfl, hmade⟩ | ⟨e, rfl, -⟩ := attempt_ok.mp (holding_ok.mp hres)
  · obtain ⟨hfinish, hchild⟩ := finish_ok h
    have hgives := (hready.trans (hruntime.gives.returns _ _ _ hmade)).trans hfinish
    refine ⟨?_, ?_⟩
    · rw [List.append_nil] at hgives
      cases hterminal : stdio.terminal <;> simpa [copiesFor, hterminal] using hgives
    · rw [hchild, hruntime.starts _ _ _ hmade, hcommand]
  · obtain ⟨_, _, _, h⟩ := bind_ok.mp h
    cases h

/-! ## Who has what -/

/-- The process that was made has the ends that its stdio asks for, each of its streams has its
copy, and the shim has nothing more than before but what the copies, the hold on stdin and the
console have. -/
structure Made (env : Outcomes) (stdio : Stdio) (s t : Descriptors) : Prop where
  tasks : t.tasks = copiesFor env.attempt stdio
  child : t.child = some (commandFor stdio)
  handles : t.handles + s.console = total t.tasks + t.held + t.console + s.handles
  ends : ∀ h ∈ Command.handles env.attempt (commandFor stdio), h ∉ t.handles

/-- The pipes of an attempt are new. -/
def New (n : Nat) (s : Descriptors) : Prop :=
  ∀ h ∈ s.handles, ∀ stream side, h ≠ .pipe n stream side

theorem mem_total {h : Handle} : h ∈ total ts ↔ ∃ m ∈ ts, h ∈ m := by
  induction ts with
  | nil => simp [total]
  | cons m ts ih => simp [total, ih]

/-- The process's side of a pipe. -/
def IsEnd (n : Nat) (h : Handle) : Prop :=
  h = .pipe n .stdin .rd ∨ h = .pipe n .stdout .wr ∨ h = .pipe n .stderr .wr

theorem isEnd_of_command {n : Nat} {cmd : Command} {h : Handle} (hh : h ∈ Command.handles n cmd) :
    IsEnd n h := by
  unfold Command.handles at hh
  rw [Multiset.mem_add, Multiset.mem_add] at hh
  obtain (hh | hh) | hh := hh
  · split at hh
    · exact .inl (Multiset.mem_singleton.mp hh)
    · exact absurd hh (Multiset.notMem_zero h)
  · split at hh
    · exact .inr (.inl (Multiset.mem_singleton.mp hh))
    · exact absurd hh (Multiset.notMem_zero h)
  · split at hh
    · exact .inr (.inr (Multiset.mem_singleton.mp hh))
    · exact absurd hh (Multiset.notMem_zero h)

/-- The copies have the shim's sides. -/
theorem not_isEnd_of_copies {n : Nat} {stdio : Stdio} {h : Handle}
    (hh : h ∈ total (copiesFor n stdio)) : ¬IsEnd n h := by
  obtain ⟨task, htask, hh⟩ := mem_total.mp hh
  have hinput {path : String} {dst : Handle} (hdst : ¬IsEnd n dst) (hh : h ∈ inputTask path dst) :
      ¬IsEnd n h := by
    rw [inputTask, Multiset.mem_add, Multiset.mem_singleton, Multiset.mem_singleton] at hh
    obtain rfl | rfl := hh
    · simp [IsEnd]
    · exact hdst
  have houtput {path : String} {src : Handle} (hsrc : ¬IsEnd n src)
      (hh : h ∈ outputTask path src) : ¬IsEnd n h := by
    rw [outputTask, Multiset.mem_add, Multiset.mem_add, Multiset.mem_singleton,
      Multiset.mem_singleton, Multiset.mem_singleton] at hh
    obtain (rfl | rfl) | rfl := hh
    · exact hsrc
    · simp [IsEnd]
    · simp [IsEnd]
  have hcopy {path : String} {m : Multiset Handle} (hmem : task ∈ copyIf path m) : task = m := by
    unfold copyIf at hmem
    split at hmem
    · exact List.mem_singleton.mp hmem
    · cases hmem
  unfold copiesFor at htask
  split at htask
  · obtain hmem | hmem := List.mem_append.mp htask
    · exact hinput (by simp [IsEnd]) (hcopy hmem ▸ hh)
    · exact houtput (by simp [IsEnd]) (hcopy hmem ▸ hh)
  · split at htask
    · obtain hmem | hmem := List.mem_append.mp htask
      · exact hinput (by simp [IsEnd]) (hcopy hmem ▸ hh)
      · obtain hmem | hmem := List.mem_append.mp hmem
        · exact houtput (by simp [IsEnd]) (hcopy hmem ▸ hh)
        · exact houtput (by simp [IsEnd]) (hcopy hmem ▸ hh)
    · cases htask

theorem made_of_ok {msg pidPath : String} {stdio : Stdio} {v : Unit} (hruntime : Makes env runtime)
    (hidle : s.Idle) (hnew : New env.attempt s)
    (h : inScope env (makeProcess env runtime msg pidPath stdio) s = .ok v t) :
    Made env stdio s t := by
  obtain ⟨rest, hrest⟩ := Multiset.le_iff_exists_add.mp hidle.console
  have hs : s.handles = 0 + (ledger env.attempt).owned s + rest := by
    rw [hidle.owned, zero_add]
    exact hrest
  have ht := (accounts_inScope (accounts_makeProcess hruntime.accounts msg pidPath stdio) s rest
    hs).1 v t h
  obtain ⟨u, hu, rfl⟩ := inScope_ok h
  obtain ⟨hgives, hchild⟩ := makeProcess_ok hruntime hidle.driver hu
  have hnone : driverHandles env.attempt none = 0 := rfl
  have htasks : u.tasks = copiesFor env.attempt stdio := by
    rw [hgives.tasks, hidle.tasks, List.nil_append]
  change (dropDriver env.attempt u).handles = _ at ht
  rw [owned_eq, zero_add] at ht
  dsimp only [dropDriver] at ht
  rw [hnone, zero_add] at ht
  refine ⟨htasks, hchild, ?_, ?_⟩
  · change (dropDriver env.attempt u).handles + s.console = total u.tasks + u.held + u.console + _
    rw [hrest]
    dsimp only [dropDriver]
    rw [ht]
    abel
  · intro x hx hmem
    have hend := isEnd_of_command hx
    have hold : x ∉ s.handles := fun hin => by
      obtain rfl | rfl | rfl := hend <;> exact hnew _ hin _ _ rfl
    dsimp only [dropDriver] at hmem
    rw [ht, Multiset.mem_add, Multiset.mem_add, Multiset.mem_add] at hmem
    obtain ((hmem | hmem) | hmem) | hmem := hmem
    · rw [htasks] at hmem
      exact not_isEnd_of_copies hmem hend
    · obtain hheld | ⟨path, hheld⟩ := hgives.held
      · rw [hheld, hidle.held] at hmem
        exact absurd hmem (Multiset.notMem_zero x)
      · rw [hheld, Multiset.mem_singleton] at hmem
        rw [hmem] at hend
        simp [IsEnd] at hend
    · obtain hconsole | hconsole := hgives.console
      · rw [hconsole] at hmem
        exact hold (Multiset.mem_of_le hidle.console hmem)
      · rw [hconsole, Multiset.mem_singleton] at hmem
        rw [hmem] at hend
        simp [IsEnd] at hend
    · rw [hrest] at hold
      exact hold (Multiset.mem_add.mpr (.inr hmem))

/-- What a call that failed leaves to the process, before the process drops it. -/
theorem aborted_of_error {msg pidPath : String} {stdio : Stdio} {e : Error}
    (hruntime : Accounts env 0 runtime fun _ => 0) (hidle : s.Idle)
    (h : inScope env (makeProcess env runtime msg pidPath stdio) s = .error e u) :
    ∃ rest, s.handles = s.console + rest ∧ (abort u).driver = none ∧
      (abort u).handles = u.console + rest := by
  obtain ⟨rest, hrest⟩ := Multiset.le_iff_exists_add.mp hidle.console
  have hs : s.handles = 0 + (ledger env.attempt).owned s + rest := by
    rw [hidle.owned, zero_add]
    exact hrest
  have hu := (accounts_inScope (accounts_makeProcess hruntime msg pidPath stdio) s rest hs).2 e u h
  have hdriver : u.driver = none := by
    obtain ⟨t', -, rfl⟩ := inScope_error h
    rfl
  exact ⟨rest, hrest, hdriver, handles_abort hdriver hu⟩

/-- No owner that outlives the start has more than before but the console. -/
structure Leaves (s t : Descriptors) : Prop where
  idle : t.Idle
  handles : t.handles + s.console = t.console + s.handles

theorem Leaves.refl (h : s.Idle) : Leaves s s := ⟨h, add_comm ..⟩

theorem Leaves.trans (hst : Leaves s t) (htu : Leaves t u) : Leaves s u := by
  refine ⟨htu.idle, add_right_cancel (b := t.console) ?_⟩
  calc u.handles + s.console + t.console = u.handles + t.console + s.console := by abel
    _ = u.console + (t.handles + s.console) := by rw [htu.handles, add_assoc]
    _ = u.console + s.handles + t.console := by rw [hst.handles]; abel

/-- A start of an exec that fails, at any call. -/
def Failed (bundle execId : String) (stdio : Stdio) (s t : Descriptors) : Prop :=
  ∃ env e, start env bundle execId stdio s = .error e t

variable {bundle execId : String} {stdio : Stdio}

theorem leaves_of_failed (hidle : s.Idle) (h : Failed bundle execId stdio s t) : Leaves s t := by
  obtain ⟨env, e, h⟩ := h
  unfold start at h
  split at h
  · cases h
  · next e' u hu =>
    obtain ⟨rfl, rfl⟩ := EStateM.Result.error.inj h
    obtain ⟨rest, hrest, hdriver, hhandles⟩ := aborted_of_error accounts_runcExec hidle hu
    refine ⟨⟨hdriver, rfl, rfl, ?_⟩, ?_⟩
    · change u.console ≤ (abort u).handles
      rw [hhandles]
      exact Multiset.le_add_right ..
    · change (abort u).handles + s.console = u.console + s.handles
      rw [hhandles, hrest]
      abel

theorem leaves_of_failures (hidle : s.Idle)
    (h : Relation.ReflTransGen (Failed bundle execId stdio) s t) : Leaves s t := by
  induction h with
  | refl => exact .refl hidle
  | tail _ hfailed ih => exact ih.trans (leaves_of_failed ih.idle hfailed)

/-- Whichever call fails, what was opened for the process is closed again: an init process leaves
nothing, and an exec that was started any number of times has its console at most. -/
theorem failed_leaves_nothing (bundle execId : String) (hidle : s.Idle) :
    (∀ env e, s.console = 0 → create env bundle stdio s = .error e t →
        t.Idle ∧ t.handles = s.handles) ∧
      (Relation.ReflTransGen (Failed bundle execId stdio) s t →
        t.Idle ∧ t.handles + s.console = t.console + s.handles) := by
  constructor
  · intro env e hconsole h
    unfold create at h
    split at h
    · cases h
    · next e' u hu =>
      obtain ⟨rfl, rfl⟩ := EStateM.Result.error.inj h
      obtain ⟨rest, hrest, hdriver, hhandles⟩ := aborted_of_error accounts_runcCreate hidle hu
      have hleft : (abort u).handles - (abort u).console = rest := by
        rw [hhandles]
        exact add_tsub_cancel_left ..
      rw [hconsole, zero_add] at hrest
      refine ⟨⟨hdriver, rfl, rfl, Multiset.zero_le _⟩, ?_⟩
      rw [hrest]
      exact hleft
  · intro h
    have hleaves := leaves_of_failures hidle h
    exact ⟨hleaves.idle, hleaves.handles⟩

def outputsOnly : Stdio := { stdout := "out", stderr := "err" }

def withTerminal : Stdio := { stdin := "in", stdout := "out", terminal := true }

def failsAt (n : Nat) : Outcomes := { fails := fun k => if k = n then some "error" else none }

theorem idle_empty : Idle {} := ⟨rfl, rfl, rfl, le_refl _⟩

/-- A fifo for stderr that does not open, and a pid file that does not parse. -/
theorem failed_leaves_nothing_twice :
    (∃ e t, create (failsAt 9) "b" outputsOnly {} = .error e t ∧ t.handles = 0) ∧
      ∃ e t, start (failsAt 20) "b" "e" withTerminal {} = .error e t ∧ t.Idle := by
  constructor
  · obtain ⟨e, t, h⟩ : ∃ e t, create (failsAt 9) "b" outputsOnly {} = .error e t := ⟨_, _, rfl⟩
    exact ⟨e, t, h, ((failed_leaves_nothing "b" "e" idle_empty).1 _ e rfl h).2⟩
  · obtain ⟨e, t, h⟩ : ∃ e t, start (failsAt 20) "b" "e" withTerminal {} = .error e t :=
      ⟨_, _, rfl⟩
    have hfailed : Failed "b" "e" withTerminal {} t := ⟨_, e, h⟩
    exact ⟨e, t, h, ((failed_leaves_nothing "b" "e" idle_empty).2 (.single hfailed)).1⟩

/-- A process that was made has its stdio, also an exec whose starts failed before. -/
theorem process_made (bundle execId : String) {v : Unit} (hidle : s.Idle) :
    (New env.attempt s → create env bundle stdio s = .ok v t → Made env stdio s t) ∧
      ∀ u, Relation.ReflTransGen (Failed bundle execId stdio) s u → New env.attempt u →
        start env bundle execId stdio u = .ok v t → Made env stdio s t := by
  constructor
  · intro hnew h
    unfold create at h
    split at h
    · next v' u hu =>
      obtain ⟨rfl, rfl⟩ := EStateM.Result.ok.inj h
      exact made_of_ok makes_runcCreate hidle hnew hu
    · cases h
  · intro u hfailures hnew h
    have hleaves := leaves_of_failures hidle hfailures
    unfold start at h
    split at h
    · next v' t' ht' =>
      obtain ⟨rfl, rfl⟩ := EStateM.Result.ok.inj h
      have hmade := made_of_ok makes_runcExec hleaves.idle hnew ht'
      refine ⟨hmade.tasks, hmade.child, add_right_cancel (b := u.console) ?_, hmade.ends⟩
      rw [add_right_comm, hmade.handles, add_assoc, hleaves.handles]
      abel
    · cases h

def noneFail (n : Nat) : Outcomes := { fails := fun _ => none, attempt := n }

/-- An exec is started again after a fifo did not open. -/
theorem process_made_again :
    (∃ t, create (noneFail 0) "b" outputsOnly {} = .ok () t ∧
        Made (noneFail 0) outputsOnly {} t) ∧
      ∃ u t, Failed "b" "e" outputsOnly {} u ∧
        start (noneFail 1) "b" "e" outputsOnly u = .ok () t ∧
        Made (noneFail 1) outputsOnly {} t := by
  constructor
  · obtain ⟨t, h⟩ : ∃ t, create (noneFail 0) "b" outputsOnly {} = .ok () t := ⟨_, rfl⟩
    exact ⟨t, h, (process_made "b" "e" idle_empty).1 nofun h⟩
  · obtain ⟨e, u, t, hfailed, hzero, h⟩ : ∃ e u t,
        start (failsAt 9) "b" "e" outputsOnly {} = .error e u ∧ u.handles = 0 ∧
          start (noneFail 1) "b" "e" outputsOnly u = .ok () t := ⟨_, _, _, rfl, rfl, rfl⟩
    have hfailed : Failed "b" "e" outputsOnly {} u := ⟨_, e, hfailed⟩
    have hnew : New 1 u := by
      unfold New
      rw [hzero]
      nofun
    exact ⟨u, t, hfailed, h, (process_made "b" "e" idle_empty).2 u (.single hfailed) hnew h⟩

end RustExtensions.RuncShim.Descriptors
