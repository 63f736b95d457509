import RustExtensions.RuncShim.DescriptorAccounts

/-!
# What a process gets for its stdio

Most steps on the way to a process are seen by the accounts alone. What the
process gets is settled by the pipes of the io driver, and these stay as they
are made.
-/
namespace RustExtensions.RuncShim.Descriptors

open RustExtensions.Shim
open RustExtensions.Ownership
open RustExtensions.Fallible

variable {env : Outcomes} {ε α : Type} {m : Multiset Handle} {s t : Descriptors}

/-! ## Steps that nobody but the accounts sees -/

/-- Handles may have been opened and closed, and nothing else. -/
structure Same (s t : Descriptors) : Prop where
  driver : t.driver = s.driver
  child : t.child = s.child
  tasks : t.tasks = s.tasks
  held : t.held = s.held
  console : t.console = s.console

theorem Same.refl (s : Descriptors) : Same s s := ⟨rfl, rfl, rfl, rfl, rfl⟩

section Quiet

variable {R : Descriptors → Descriptors → Prop}

/-- A step that cannot fail. -/
theorem keeps_of_ok {x : Attempt ε α} (f : Descriptors → Descriptors) (b : Descriptors → α)
    (hx : ∀ s, x s = .ok (b s) (f s)) (hf : ∀ s, R s (f s)) : Keeps R x where
  returns := by
    intro s a t h
    obtain ⟨rfl, rfl⟩ := EStateM.Result.ok.inj ((hx s).symm.trans h)
    exact hf s
  fails := by
    intro s e t h
    cases (hx s).symm.trans h

theorem keeps_modify {g : Descriptors → Descriptors} (hg : ∀ s, R s (g s)) :
    Keeps R (modify g : Attempt ε PUnit) :=
  keeps_of_ok _ _ (fun _ => rfl) hg

/-- A program that looks at the state first. -/
theorem keeps_bind_get {g : Descriptors → Attempt ε α} (h : ∀ s, Keeps R (g s)) :
    Keeps R (get >>= g) where
  returns := fun s a t ht => (h s).returns s a t ht
  fails := fun s e t ht => (h s).fails s e t ht

theorem keeps_orNoPipe [Std.Refl R] (name : String) (b : Bool) : Keeps R (orNoPipe name b) := by
  cases b with
  | true => exact .pure ()
  | false => exact .throw _

variable (hR : ∀ {s t : Descriptors}, Same s t → R s t)
include hR

theorem keeps_call (err : String → ε) : Keeps R (call env m err) where
  returns := by
    intro s a t h
    unfold call at h
    split at h
    · cases h
    · obtain ⟨rfl, rfl⟩ := EStateM.Result.ok.inj h
      exact hR ⟨rfl, rfl, rfl, rfl, rfl⟩
  fails := by
    intro s e t h
    unfold call at h
    split at h
    · obtain ⟨rfl, rfl⟩ := EStateM.Result.error.inj h
      exact hR ⟨rfl, rfl, rfl, rfl, rfl⟩
    · cases h

theorem keeps_succeeds : Keeps R (succeeds env : Attempt ε Bool) :=
  keeps_of_ok _ _ (fun _ => rfl) fun _ => hR ⟨rfl, rfl, rfl, rfl, rfl⟩

theorem keeps_acquire : Keeps R (acquire m : Attempt ε Unit) :=
  keeps_of_ok _ _ (fun _ => rfl) fun _ => hR ⟨rfl, rfl, rfl, rfl, rfl⟩

theorem keeps_drop : Keeps R (drop env m : Attempt ε Unit) :=
  keeps_of_ok _ _ (fun _ => rfl) fun _ => hR ⟨rfl, rfl, rfl, rfl, rfl⟩

variable [IsTrans Descriptors R]

theorem keeps_holding {x : Attempt ε α} (hx : Keeps R x) :
    Keeps R (holding (ledger env.attempt) m x) where
  returns := fun s a t h => hx.returns s a t (holding_ok.mp h)
  fails := by
    intro s e t h
    obtain ⟨u, hu, rfl⟩ := holding_error.mp h
    have hput : Same u ((ledger env.attempt).put u ((ledger env.attempt).handles u - m)) :=
      ⟨rfl, rfl, rfl, rfl, rfl⟩
    exact trans_of R (hx.fails s e u hu) (hR hput)

theorem keeps_openInput (path : String) : Keeps R (openInput env path) :=
  (keeps_call hR _).bind fun _ => (keeps_holding hR (keeps_call hR _)).bind fun _ =>
    (keeps_holding hR (keeps_call hR _)).bind fun _ => keeps_drop hR

theorem keeps_receiveSocket : Keeps R (receiveSocket env) :=
  (keeps_call hR _).bind fun _ => keeps_holding hR (keeps_call hR _)

theorem keeps_newPty : Keeps R (newPty env) :=
  keeps_holding hR ((keeps_call hR _).bind fun _ => keeps_call hR _)

variable [Std.Refl R]

theorem keeps_dropping {x : Attempt ε α} (hx : Keeps R x) :
    Keeps R (dropping (ledger env.attempt) m x) := by
  have hdrop : Keeps R (drop env m : Attempt ε Unit) := keeps_drop hR
  exact (keeps_holding hR hx).bind fun a => hdrop.bind fun _ => .pure a

theorem keeps_fromOwnedFd (h : Handle) : Keeps R (fromOwnedFd env h : Attempt ε Bool) := by
  refine (keeps_succeeds hR).bind fun b => ?_
  cases b with
  | true => exact .pure true
  | false => exact (keeps_drop hR).bind fun _ => .pure false

theorem keeps_outputReader (stream : StdStream) :
    Keeps R (outputReader env stream : Attempt ε Bool) := by
  refine keeps_bind_get fun s => ?_
  split
  · unfold readEnd
    split
    · refine (keeps_succeeds hR).bind fun b => ?_
      cases b with
      | true => exact (keeps_acquire hR).bind fun _ => keeps_fromOwnedFd hR _
      | false => exact .pure false
    · exact .pure false
  · exact .pure false

end Quiet

/-! ## The driver's pipes -/

def outputOf (p : Option Pipe) : Sink := if p.isSome then .piped else .captured

/-- The command that an io driver sets, if it can. -/
def commandOf : Option Driver → Command
  | none => {}
  | some .null => { stdout := .null, stderr := .null }
  | some (.piped io) =>
    { stdin := io.stdin.isSome, stdout := outputOf io.stdout, stderr := outputOf io.stderr }

/-- The driver keeps its pipes, and no process is started. -/
structure Wired (s t : Descriptors) : Prop where
  present : t.driver.isSome = s.driver.isSome
  command : commandOf t.driver = commandOf s.driver
  child : t.child = s.child

theorem Wired.of_same (h : Same s t) : Wired s t :=
  ⟨congrArg _ h.driver, congrArg _ h.driver, h.child⟩

instance : Std.Refl Wired := ⟨fun s => .of_same (.refl s)⟩

instance : IsTrans Descriptors Wired := ⟨fun _ _ _ hst htu =>
  ⟨htu.present.trans hst.present, htu.command.trans hst.command, htu.child.trans hst.child⟩⟩

theorem wired_takeWr : Keeps Wired (takeWr : Attempt ε Bool) where
  returns := by
    intro s b t h
    unfold takeWr at h
    split at h
    · next stdout stderr hdriver =>
      obtain ⟨rfl, rfl⟩ := EStateM.Result.ok.inj h
      refine ⟨?_, ?_, rfl⟩
      · rw [hdriver]
        rfl
      · rw [hdriver]
        rfl
    · obtain ⟨rfl, rfl⟩ := EStateM.Result.ok.inj h
      exact .of_same (.refl _)
  fails := by
    intro s e t h
    unfold takeWr at h
    split at h <;> cases h

theorem wired_stdinWriter : Keeps Wired (stdinWriter env : Attempt ε Bool) := by
  refine wired_takeWr.bind fun b => ?_
  cases b with
  | true => exact keeps_fromOwnedFd .of_same _
  | false => exact .pure false

theorem wired_copyFromFifo (path : String) (dst : Handle) :
    Keeps Wired (copyFromFifo env path dst) := by
  refine (keeps_holding .of_same (keeps_openInput .of_same _)).bind fun _ => ?_
  refine keeps_modify fun s => ?_
  unfold giveInput
  dsimp only
  split <;> exact ⟨rfl, rfl, rfl⟩

theorem wired_copyToFifo (src : Handle) (path : String) : Keeps Wired (copyToFifo env src path) :=
  (keeps_holding .of_same (keeps_call .of_same _)).bind fun _ =>
    (keeps_holding .of_same (keeps_call .of_same _)).bind fun _ =>
      keeps_modify fun _ => ⟨rfl, rfl, rfl⟩

theorem wired_copyIo (stdio : Stdio) : Keeps Wired (copyIo env stdio) := by
  have hinput : Keeps Wired (copyInput env stdio) := by
    unfold copyInput
    split
    · exact wired_stdinWriter.bind fun b => (keeps_orNoPipe _ b).bind fun _ =>
        wired_copyFromFifo _ _
    · exact .pure ()
  have houtput (path name : String) (stream : StdStream) :
      Keeps Wired (copyOutput env path name stream) := by
    unfold copyOutput
    split
    · exact (keeps_outputReader .of_same _).bind fun b => (keeps_orNoPipe _ b).bind fun _ =>
        wired_copyToFifo _ _
    · exact .pure ()
  refine keeps_bind_get fun s => ?_
  split
  · exact .pure ()
  · exact hinput.bind fun _ => (houtput _ _ _).bind fun _ => houtput _ _ _

/-! ## The command -/

instance : Std.Refl Same := ⟨.refl⟩

instance : IsTrans Descriptors Same := ⟨fun _ _ _ hst htu =>
  ⟨htu.driver.trans hst.driver, htu.child.trans hst.child, htu.tasks.trans hst.tasks,
    htu.held.trans hst.held, htu.console.trans hst.console⟩⟩

theorem same_setOutput (pipe : Option Pipe) (stream : StdStream) :
    Keeps Same (setOutput env pipe stream) := by
  unfold setOutput
  split
  · exact .pure _
  · exact .throw _
  · refine (keeps_succeeds id).bind fun b => ?_
    cases b with
    | true => exact (keeps_acquire id).bind fun _ => .pure _
    | false => exact .throw _

theorem same_setIo (io : Option Driver) : Keeps Same (setIo env io) := by
  unfold setIo
  split
  · exact .pure _
  · exact .pure _
  · next io =>
    have hinput : Keeps Same (setInput env io.stdin) := by
      unfold setInput
      split
      · exact .pure _
      · exact (keeps_call id _).bind fun _ => .pure _
    exact hinput.bind fun _ => (keeps_holding id (same_setOutput _ _)).bind fun _ =>
      (keeps_holding id (same_setOutput _ _)).bind fun _ => .pure _

theorem setOutput_ok {pipe : Option Pipe} {stream : StdStream} {o : Sink}
    (h : setOutput env pipe stream s = .ok o t) : o = outputOf pipe := by
  unfold setOutput at h
  split at h
  · obtain ⟨rfl, rfl⟩ := EStateM.Result.ok.inj h
    rfl
  · cases h
  · obtain ⟨b, u, hb, h⟩ := bind_ok.mp h
    cases b with
    | true =>
      obtain ⟨_, _, _, h⟩ := bind_ok.mp h
      obtain ⟨rfl, rfl⟩ := EStateM.Result.ok.inj h
      rfl
    | false => cases h

theorem setInput_ok {pipe : Option Pipe} {b : Bool} (h : setInput env pipe s = .ok b t) :
    b = pipe.isSome := by
  unfold setInput at h
  split at h
  · obtain ⟨rfl, rfl⟩ := EStateM.Result.ok.inj h
    rfl
  · obtain ⟨_, _, _, h⟩ := bind_ok.mp h
    obtain ⟨rfl, rfl⟩ := EStateM.Result.ok.inj h
    rfl

/-- The command, where it can be set. -/
theorem setIo_ok {io : Option Driver} {cmd : Command} (h : setIo env io s = .ok cmd t) :
    cmd = commandOf io := by
  unfold setIo at h
  split at h
  · obtain ⟨rfl, rfl⟩ := EStateM.Result.ok.inj h
    rfl
  · obtain ⟨rfl, rfl⟩ := EStateM.Result.ok.inj h
    rfl
  · next io =>
    obtain ⟨stdin, _, hstdin, h⟩ := bind_ok.mp h
    obtain ⟨stdout, _, hstdout, h⟩ := bind_ok.mp h
    obtain ⟨stderr, _, hstderr, h⟩ := bind_ok.mp h
    obtain ⟨rfl, rfl⟩ := EStateM.Result.ok.inj h
    obtain rfl := setInput_ok hstdin
    obtain rfl := setOutput_ok (holding_ok.mp hstdout)
    obtain rfl := setOutput_ok (holding_ok.mp hstderr)
    rfl

theorem keeps_attempt {R : Descriptors → Descriptors → Prop} {δ : Type} {x : Attempt ε α}
    (hx : Keeps R x) : Keeps R (attempt x : Attempt δ (Except ε α)) where
  returns := by
    intro s o t h
    obtain ⟨a, -, ha⟩ | ⟨e, -, he⟩ := attempt_ok.mp h
    · exact hx.returns s a t ha
    · exact hx.fails s e t he
  fails := fun s e t h => absurd h attempt_error

/-! ## The console -/

theorem wired_consoleCopy {copy : Attempt Error Unit} (path : String) (hcopy : Keeps Wired copy) :
    Keeps Wired (consoleCopy path copy) := by
  unfold consoleCopy
  split
  · exact (keeps_acquire .of_same).bind fun _ => hcopy
  · exact .pure ()

theorem wired_copyConsole (stdio : Stdio) :
    Keeps Wired (copyConsole env stdio) := by
  have hreceive : Keeps Wired (dropping (ledger env.attempt) {.connection} (receiveSocket env)) :=
    keeps_dropping .of_same (keeps_receiveSocket .of_same)
  exact (keeps_call .of_same _).bind fun _ => hreceive.bind fun _ =>
    (keeps_newPty .of_same).bind fun _ => keeps_holding .of_same <|
      (wired_consoleCopy _ (wired_copyFromFifo _ _)).bind fun _ =>
        wired_consoleCopy _ (wired_copyToFifo _ _)

theorem wired_attachConsole (stdio : Stdio) : Keeps Wired (attachConsole env stdio) := by
  refine (keeps_holding .of_same (keeps_attempt (wired_copyConsole _))).bind fun res => ?_
  refine (keeps_drop .of_same).bind fun _ => ?_
  cases res with
  | ok u => exact keeps_modify fun _ => ⟨rfl, rfl, rfl⟩
  | error e => exact .throw e

end RustExtensions.RuncShim.Descriptors
