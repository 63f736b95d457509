import RustExtensions.RuncShim.Spec.History

/-!
# CloseIO before the process has started

The shim's own writer on the stdin fifo of an exec, over any sequence of CloseIO
and Start requests. A Start that fails replaces the io tasks and aborts the ones
it replaces; what the client asked for must survive that, and nothing else.
-/
namespace RustExtensions.RuncShim

open RustExtensions.Shim
open RustExtensions.Fallible
open RustExtensions.Transition

/-- The shim copies the stdio itself: for a terminal, or to and from fifos. -/
def Wired (stdio : Stdio) : Prop :=
  stdio.terminal = true ∨ (splitOnceFst (trim stdio.stdout) "://").getD "fifo" = "fifo"

instance (stdio : Stdio) : Decidable (Wired stdio) := inferInstanceAs (Decidable (_ ∨ _))

/-! ## The io tasks in a start -/

namespace IoTasks

variable (io : IoTasks)

@[simp] theorem copyFromFifo_copyFromFifo : io.copyFromFifo.copyFromFifo = io.copyFromFifo := by
  obtain ⟨generation, stdin, cancelled⟩ := io
  cases stdin <;> rfl

@[simp] theorem copyFromFifo_released :
    io.copyFromFifo.stdin = .released ↔ io.stdin = .released := by
  obtain ⟨generation, stdin, cancelled⟩ := io
  cases stdin <;> simp [copyFromFifo]

theorem copyFromFifo_ne_pending : io.copyFromFifo.stdin ≠ .pending := by
  obtain ⟨generation, stdin, cancelled⟩ := io
  cases stdin <;> simp [copyFromFifo]

@[simp] theorem renew_released : io.renew.stdin = .released ↔ io.stdin = .released := by
  obtain ⟨generation, stdin, cancelled⟩ := io
  cases stdin <;> simp [renew]

theorem renew_ne_opened : io.renew.stdin ≠ .opened := by
  obtain ⟨generation, stdin, cancelled⟩ := io
  cases stdin <;> simp [renew]

end IoTasks

/-- Of a process with this stdio, the io tasks are as they were, or a copy of stdin has started. -/
def Copies {S : Type} (stdio : Stdio) (s t : ProcessTemplate S × World) : Prop :=
  s.1.stdio = stdio → t.1.stdio = stdio ∧
    (t.1.ioTasks = s.1.ioTasks ∨ Wired stdio ∧ t.1.ioTasks = s.1.ioTasks.copyFromFifo)

/-- A copy of stdin has been set up, whether or not it still holds the fifo open. -/
def StdinCopied {S : Type} (t : ProcessTemplate S × World) : Prop := t.1.ioTasks.stdin ≠ .pending

section Start
variable {S : Type} {stdio : Stdio} {s t : ProcessTemplate S × World} (ans : Answers)

instance : Std.Refl (Copies (S := S) stdio) where
  refl _ hs := ⟨hs, .inl rfl⟩

instance : IsTrans (ProcessTemplate S × World) (Copies stdio) where
  trans s t u h h' hs := by
    obtain ⟨ht, hio⟩ := h hs
    obtain ⟨hu, hio'⟩ := h' ht
    refine ⟨hu, ?_⟩
    rcases hio' with hio' | ⟨hwired, hio'⟩
    · rwa [hio']
    · refine .inr ⟨hwired, ?_⟩
      rcases hio with hio | ⟨-, hio⟩
      · rw [hio', hio]
      · rw [hio', hio, IoTasks.copyFromFifo_copyFromFifo]

theorem Copies.released (h : Copies stdio s t) (hs : s.1.stdio = stdio) :
    t.1.ioTasks.stdin = .released ↔ s.1.ioTasks.stdin = .released := by
  rcases (h hs).2 with hio | ⟨-, hio⟩
  · rw [hio]
  · rw [hio, IoTasks.copyFromFifo_released]

theorem Copies.stdinCopied (h : Copies stdio s t) (hs : s.1.stdio = stdio)
    (hcopied : StdinCopied s) : StdinCopied t := by
  rcases (h hs).2 with hio | ⟨-, hio⟩
  · rwa [StdinCopied, hio]
  · rw [StdinCopied, hio]
    exact IoTasks.copyFromFifo_ne_pending _

/-- What the process is that the program reads. -/
theorem copies_getProcess {α : Type} {f : ProcessTemplate S → Method (ProcessTemplate S) α}
    (hf : ∀ p, p.stdio = stdio → Keeps (Copies stdio) (f p)) :
    Keeps (Copies stdio) (getProcess >>= f) where
  returns s a t h hs := (hf s.1 hs).returns s a t h hs
  fails s e t h hs := (hf s.1 hs).fails s e t h hs

theorem copies_copyStdin (hwired : Wired stdio) :
    Keeps (Copies stdio) (copyStdin ans (S := S)) := by
  refine .bind (keeps_answered _) fun _ => ?_
  exact keeps_modifyProcess fun _ _ hs => ⟨hs, .inr ⟨hwired, rfl⟩⟩

theorem copyStdin_ok (h : copyStdin ans s = .ok () t) : StdinCopied t := by
  obtain ⟨_, u, -, hset⟩ := bind_ok.mp h
  obtain ⟨-, rfl⟩ := EStateM.Result.ok.inj hset
  exact IoTasks.copyFromFifo_ne_pending _

/-- There are pipes to copy from and to just where the stdio is that of fifos. -/
theorem createIo_ok {pio : Option Io} (h : createIo ans stdio s = .ok pio t) :
    t = s ∧ (pio.isSome ↔ (splitOnceFst (trim stdio.stdout) "://").getD "fifo" = "fifo") := by
  unfold createIo at h
  split at h
  · next hnull =>
    obtain ⟨_, u, hu, hret⟩ := bind_ok.mp h
    obtain rfl := answered_ok hu
    obtain ⟨rfl, rfl⟩ := EStateM.Result.ok.inj hret
    have hstdout : stdio.stdout = "" := by
      simp only [Stdio.isNull, Bool.and_eq_true, beq_iff_eq] at hnull
      exact hnull.1.2
    rw [hstdout]
    exact ⟨rfl, by decide⟩
  · dsimp only at h
    split at h
    · next hscheme =>
      obtain ⟨_, u, hu, hret⟩ := bind_ok.mp h
      obtain rfl := answered_ok hu
      obtain ⟨rfl, rfl⟩ := EStateM.Result.ok.inj hret
      exact ⟨rfl, fun _ => hscheme, fun _ => rfl⟩
    · next hscheme =>
      obtain ⟨rfl, rfl⟩ := EStateM.Result.ok.inj h
      exact ⟨rfl, fun h => (nomatch h), fun h => absurd h hscheme⟩

theorem copies_pipes :
    Keeps (Copies stdio) (createIo ans stdio >>= fun pio => copyIo ans pio stdio :
      Method (ProcessTemplate S) Unit) := by
  have hcopy {pio : Option Io} {s u : ProcessTemplate S × World}
      (hu : createIo ans stdio s = .ok pio u) :
      Keeps (Copies (S := S) stdio) (copyIo ans pio stdio) :=
    keeps_copyIo ans (fun hp => copies_copyStdin ans (.inr ((createIo_ok ans hu).2.mp hp))) stdio
  refine ⟨fun s _ t h => ?_, fun s e t h => ?_⟩
  · obtain ⟨pio, u, hu, hc⟩ := bind_ok.mp h
    obtain rfl := (createIo_ok ans hu).1
    exact (hcopy hu).returns _ _ _ hc
  · rcases bind_error.mp h with he | ⟨pio, u, hu, hc⟩
    · exact (keeps_createIo ans stdio).fails _ _ _ he
    · obtain rfl := (createIo_ok ans hu).1
      exact (hcopy hu).fails _ _ _ hc

theorem copies_prepareIo : Keeps (Copies stdio) (prepareIo ans (S := S)) := by
  apply copies_getProcess
  intro p hp
  subst hp
  split
  · exact keeps_answered _
  · exact copies_pipes ans

theorem copies_attachConsole (hterminal : stdio.terminal = true) :
    Keeps (Copies stdio) (attachConsole ans (S := S)) := by
  apply copies_getProcess
  intro p hp
  refine .bind (keeps_copyConsole ans (copies_copyStdin ans (.inl hterminal)) _) fun console => ?_
  exact keeps_modifyProcess fun _ _ hs => ⟨hs, .inl rfl⟩

/-- The copy of stdin that comes with a terminal. -/
theorem attachConsole_ok_copied (hstdin : stdio.stdin ≠ "") (hs : s.1.stdio = stdio)
    (h : attachConsole ans s = .ok () t) : StdinCopied t := by
  unfold attachConsole at h
  rw [getProcess_bind, hs] at h
  obtain ⟨console, u, hu, hset⟩ := bind_ok.mp h
  obtain ⟨-, rfl⟩ := EStateM.Result.ok.inj hset
  change StdinCopied u
  unfold copyConsole at hu
  obtain ⟨_, v, hv, hrest⟩ := bind_ok.mp hu
  obtain ⟨-, rfl⟩ := ofExcept_ok hv
  dsimp only at hrest
  rw [if_pos hstdin] at hrest
  obtain ⟨_, w, hw, hrest⟩ := bind_ok.mp hrest
  have hstdout := (keeps_copyTerminal (R := Copies w.1.stdio) ans _ stdio).returns _ _ _ hrest
  exact hstdout.stdinCopied rfl (copyStdin_ok ans hw)

/-- The copy of stdin that comes with pipes. -/
theorem prepareIo_ok_copied (hwired : Wired stdio) (hterminal : stdio.terminal = false)
    (hstdin : stdio.stdin ≠ "") (hs : s.1.stdio = stdio) (h : prepareIo ans s = .ok () t) :
    StdinCopied t := by
  unfold prepareIo at h
  rw [getProcess_bind, hs, hterminal] at h
  obtain ⟨pio, u, hu, hcopy⟩ := bind_ok.mp h
  have hfifo := hwired.resolve_left (by rw [hterminal]; decide)
  obtain ⟨io, rfl⟩ := Option.isSome_iff_exists.mp ((createIo_ok ans hu).2.mpr hfifo)
  unfold copyIo at hcopy
  dsimp only at hcopy
  rw [if_pos hstdin] at hcopy
  obtain ⟨_, v, -, hcopy⟩ := bind_ok.mp hcopy
  obtain ⟨_, w, hw, hrest⟩ := bind_ok.mp hcopy
  have houtputs := (keeps_copyOutputs (R := Copies w.1.stdio) ans io stdio).returns _ _ _ hrest
  exact houtputs.stdinCopied rfl (copyStdin_ok ans hw)

end Start

namespace RuncExecLifecycle

variable {ans : Answers} {stdio : Stdio} {s t : ExecProcess × World}

theorem copies_runtimeSpawn (c : Call) (path : String) :
    Keeps (Copies (S := RuncExecLifecycle) stdio) (runtimeSpawn ans c path) :=
  keeps_runtimeSpawn ans c fun _ _ _ _ hs => ⟨hs, .inl rfl⟩

/-- What is left of a start once the terminal is attached. -/
theorem copies_running (path : String) (proc : Nat) :
    Keeps (Copies (S := RuncExecLifecycle) stdio) (readPid ans path >>= fun pid =>
      modifyProcess fun p => { p with pid := pid, proc := some proc, state := .running }) :=
  .bind (keeps_readPid ans path) fun _ => keeps_modifyProcess fun _ _ hs => ⟨hs, .inl rfl⟩

theorem copies_startExec : Keeps (Copies stdio) (startExec ans) := by
  apply copies_getProcess
  intro p hp
  refine .bind (copies_prepareIo ans) fun _ => .bind (copies_runtimeSpawn _ _) fun r => ?_
  cases r with
  | error e => exact .throw _
  | ok proc =>
    dsimp only
    split
    · next hterminal =>
      exact .bind (copies_attachConsole ans (hp ▸ hterminal)) fun _ => copies_running _ proc
    · exact copies_running _ proc

theorem startExec_ok_copied (hwired : Wired stdio) (hstdin : stdio.stdin ≠ "")
    (hs : s.1.stdio = stdio) (h : startExec ans s = .ok () t) : StdinCopied t := by
  unfold startExec at h
  rw [getProcess_bind] at h
  dsimp only at h
  obtain ⟨_, u, hprep, hspawn⟩ := bind_ok.mp h
  have hu := ((copies_prepareIo ans).returns s () u hprep hs).1
  obtain ⟨r, v, hv, hrest⟩ := bind_ok.mp hspawn
  have hcopies : Copies stdio u v := (copies_runtimeSpawn _ _).returns u r v hv
  cases r with
  | error e => cases hrest
  | ok proc =>
    dsimp only at hrest
    split at hrest
    · obtain ⟨_, w, hw, hrest⟩ := bind_ok.mp hrest
      have hcopied := attachConsole_ok_copied ans hstdin (hcopies hu).1 hw
      exact ((copies_running _ proc).returns w () t hrest).stdinCopied rfl hcopied
    · next hterminal =>
      rw [hs, Bool.not_eq_true] at hterminal
      have hcopied := prepareIo_ok_copied ans hwired hterminal hstdin hs hprep
      have hv := hcopies.stdinCopied hu hcopied
      exact ((copies_running _ proc).returns v () t hrest).stdinCopied rfl hv

/-- `start`, with the io tasks it has replaced, which are aborted. -/
def startReplacing (ans : Answers) (s : ExecProcess × World) :
    EStateM.Result Error (ExecProcess × World) Unit × List IoTasks :=
  match startExec ans s with
  | .ok a s => (.ok a s, [])
  | .error e (p, w) =>
    let fresh := p.ioTasks.renew
    (.error e ({ p with ioTasks := fresh }, w), [p.ioTasks.abort])

theorem startReplacing_fst : (startReplacing ans s).1 = start ans s := by
  unfold startReplacing start
  cases startExec ans s <;> rfl

theorem startReplacing_snd {io : IoTasks} (h : io ∈ (startReplacing ans s).2) :
    io.stdin = .released := by
  unfold startReplacing at h
  split at h
  · cases h
  · obtain rfl := List.mem_singleton.mp h
    rfl

theorem start_fails_copies {e : Error} (h : start ans s = .error e t) :
    ∃ u, Copies stdio s u ∧ t.1.stdio = u.1.stdio ∧ t.1.ioTasks = u.1.ioTasks.renew := by
  unfold start at h
  split at h
  · cases h
  · next e p w heq =>
    obtain ⟨rfl, rfl⟩ := EStateM.Result.error.inj h
    exact ⟨(p, w), copies_startExec.fails s e (p, w) heq, rfl, rfl⟩

end RuncExecLifecycle

/-! ## One exec and its requests -/

namespace TaskService

variable {t t' : TaskService} {ans : Answers} {id execId e : String} {n : Next} {err : TtrpcError}

def execProcess (t : TaskService) (id e : String) : Option ExecProcess :=
  (t.containers.lookup id).bind (·.processes.lookup e)

/-- The exec that a Start gets to. -/
def startable (t : TaskService) (id e : String) : Option ExecProcess :=
  (t.containers.lookup id).bind fun c =>
    if c.initState = .stopped then none else c.processes.lookup e

theorem execProcess_store {s : Container × World} :
    (t.store id s).execProcess id e = s.1.processes.lookup e := by
  rw [execProcess, store, KeyedMap.Map.lookup_insert_eq, if_pos rfl]
  rfl

theorem execProcess_insert {c : Container} {p : ExecProcess} {w : World} :
    (t.store id ({ c with processes := c.processes.insert e p }, w)).execProcess id e = some p := by
  rw [execProcess_store, KeyedMap.Map.lookup_insert_eq, if_pos rfl]

/-- How a request turns out that runs `m` on an exec, if it gets to one. -/
inductive Reached (t t' : TaskService) (id e : String) (m : Method ExecProcess Unit) :
    Option ExecProcess → Bool → Prop
  | missed (h : t'.execProcess id e = t.execProcess id e) : Reached t t' id e m none false
  | done {p q : ExecProcess} {w : World} (hm : m (p, t.world) = .ok () (q, w))
    (hq : t'.execProcess id e = some q) : Reached t t' id e m (some p) true
  | failed {p q : ExecProcess} {w : World} {err : Error}
    (hm : m (p, t.world) = .error err (q, w)) (hq : t'.execProcess id e = some q) :
    Reached t t' id e m (some p) false

theorem exec_added {req : ExecProcessRequest} (h : exec ans req t = .ok n t') :
    ∃ p, t'.execProcess req.id req.execId = some p ∧ p.stdio = req.stdio ∧ p.ioTasks = {} := by
  obtain ⟨c, s, hc, hs, rfl⟩ := onContainer_ok h
  obtain ⟨_, u, hexec, hret⟩ := bind_ok.mp hs
  obtain ⟨-, rfl⟩ := EStateM.Result.ok.inj hret
  obtain ⟨_, v, -, hadd⟩ := bind_ok.mp (raise_ok.mp hexec)
  obtain ⟨-, rfl⟩ := EStateM.Result.ok.inj hadd
  exact ⟨_, execProcess_insert, rfl, rfl⟩

theorem onContainer_missing {α : Type} {m : EStateM TtrpcError (Container × World) α}
    (hc : t.containers.lookup id = none) (h : onContainer id m t = .error err t') : t' = t := by
  unfold onContainer at h
  simp only [hc] at h
  exact (EStateM.Result.error.inj h).2.symm

theorem onContainer_found {α : Type} {m : EStateM TtrpcError (Container × World) α} {c : Container}
    (hc : t.containers.lookup id = some c) (h : onContainer id m t = .error err t') :
    ∃ s, m (c, t.world) = .error err s ∧ t' = t.store id s := by
  unfold onContainer at h
  simp only [hc] at h
  obtain ⟨s, hs, rfl⟩ := zoom_error.mp h
  exact ⟨s, hs, rfl⟩

section OneContainer
variable {α : Type} {c : Container} {s : Container × World} {m' : Method ExecProcess α}
  {m : Method ExecProcess Unit} {missing : Error}

/-- Apart from what it returns, the one method is the other. -/
structure Does (m' : Method ExecProcess α) (m : Method ExecProcess Unit) : Prop where
  ok : ∀ s a u, m' s = .ok a u → m s = .ok () u
  error : ∀ s err u, m' s = .error err u → m s = .error err u

theorem execProcess_of_lookup (hc : t.containers.lookup id = some c) :
    t.execProcess id e = c.processes.lookup e := by
  rw [execProcess, hc]
  rfl

theorem reached_of_ok {a : α} (hm : Does m' m)
    (h : raise (Container.onExec e missing m') (c, t.world) = .ok a s) :
    Reached t (t.store id s) id e m (c.processes.lookup e) true := by
  obtain ⟨p, q, hp, hq, rfl⟩ := Container.onExec_ok (raise_ok.mp h)
  rw [hp]
  exact .done (hm.ok _ a q hq) execProcess_insert

theorem reached_of_error (hm : Does m' m) (hc : t.containers.lookup id = some c)
    (h : raise (Container.onExec e missing m') (c, t.world) = .error err s) :
    Reached t (t.store id s) id e m (c.processes.lookup e) false := by
  obtain ⟨err, herr⟩ := raise_error h
  unfold Container.onExec at herr
  cases hp : c.processes.lookup e with
  | none =>
    simp only [hp] at herr
    obtain ⟨-, rfl⟩ := EStateM.Result.error.inj herr
    refine .missed ?_
    rw [execProcess_store, execProcess_of_lookup hc]
  | some p =>
    simp only [hp] at herr
    obtain ⟨q, hq, rfl⟩ := zoom_error.mp herr
    exact .failed (hm.error _ err q hq) execProcess_insert

end OneContainer

theorem closeIo_reaches (hid : execIdOpt execId = some e) (h : closeIo id execId t = .ok n t') :
    Reached t t' id e ProcessTemplate.closeIo (t.execProcess id e) true := by
  obtain ⟨c, s, hc, hs, rfl⟩ := onContainer_ok h
  obtain ⟨_, u, hclose, hret⟩ := bind_ok.mp hs
  obtain ⟨-, rfl⟩ := EStateM.Result.ok.inj hret
  rw [hid] at hclose
  rw [execProcess_of_lookup hc]
  exact reached_of_ok ⟨fun _ _ _ h => h, fun _ _ _ h => h⟩ hclose

theorem closeIo_reaches_error (hid : execIdOpt execId = some e)
    (h : closeIo id execId t = .error err t') :
    Reached t t' id e ProcessTemplate.closeIo (t.execProcess id e) false := by
  cases hc : t.containers.lookup id with
  | none =>
    obtain rfl := onContainer_missing hc h
    rw [execProcess, hc]
    exact .missed rfl
  | some c =>
    obtain ⟨s, hs, rfl⟩ := onContainer_found hc h
    rcases bind_error.mp hs with hclose | ⟨_, u, -, hret⟩
    · rw [hid] at hclose
      rw [execProcess_of_lookup hc]
      exact reached_of_error ⟨fun _ _ _ h => h, fun _ _ _ h => h⟩ hc hclose
    · cases hret

/-- The pid that Start returns. -/
theorem does_start : Does (do
    RuncExecLifecycle.start ans
    let p ← getProcess (P := ExecProcess)
    return p.pid) (RuncExecLifecycle.start ans) where
  ok s a u h := by
    obtain ⟨_, v, hv, hret⟩ := bind_ok.mp h
    obtain ⟨-, rfl⟩ := EStateM.Result.ok.inj hret
    exact hv
  error s err u h := by
    rcases bind_error.mp h with hfail | ⟨_, v, -, hret⟩
    · exact hfail
    · cases hret

theorem startable_of_lookup {c : Container} (hc : t.containers.lookup id = some c) :
    t.startable id e = if c.initState = .stopped then none else c.processes.lookup e := by
  rw [startable, hc]
  rfl

theorem execProcess_of_startable {p : ExecProcess} (h : t.startable id e = some p) :
    t.execProcess id e = some p := by
  obtain ⟨c, hc, hp⟩ := Option.bind_eq_some_iff.mp h
  rw [execProcess_of_lookup hc]
  split at hp
  · cases hp
  · exact hp

theorem start_reaches (hid : execIdOpt execId = some e) (h : start ans id execId t = .ok n t') :
    Reached t t' id e (RuncExecLifecycle.start ans) (t.startable id e) true := by
  obtain ⟨c, s, hc, hs, rfl⟩ := onContainer_ok h
  rw [startable_of_lookup hc]
  rw [getProcess_bind] at hs
  split at hs
  · cases hs
  · next hstate =>
    obtain ⟨_, u, hstart, hret⟩ := bind_ok.mp hs
    obtain ⟨-, rfl⟩ := EStateM.Result.ok.inj hret
    rw [hid] at hstart
    rw [if_neg hstate]
    exact reached_of_ok does_start hstart

theorem start_reaches_error (hid : execIdOpt execId = some e)
    (h : start ans id execId t = .error err t') :
    Reached t t' id e (RuncExecLifecycle.start ans) (t.startable id e) false := by
  cases hc : t.containers.lookup id with
  | none =>
    obtain rfl := onContainer_missing hc h
    rw [startable, hc]
    exact .missed rfl
  | some c =>
    obtain ⟨s, hs, rfl⟩ := onContainer_found hc h
    rw [startable_of_lookup hc]
    rw [getProcess_bind] at hs
    split at hs
    · next hstate =>
      obtain ⟨-, rfl⟩ := EStateM.Result.error.inj hs
      rw [if_pos hstate]
      refine .missed ?_
      rw [execProcess_store, execProcess_of_lookup hc]
    · next hstate =>
      rcases bind_error.mp hs with hstart | ⟨_, u, -, hret⟩
      · rw [hid] at hstart
        rw [if_neg hstate]
        exact reached_of_error does_start hc hstart
      · cases hret

end TaskService

/-! ## Its stdin -/

/-- `closed` says that a CloseIO was accepted, `started` that the last Start succeeded,
and `replaced` lists the io tasks that failed starts have replaced. -/
structure StdinHold where
  task : TaskService
  closed : Bool := false
  started : Bool := false
  replaced : List IoTasks := []

/-- Between two requests on the exec others are served. -/
inductive StdinAction where
  | closeIo
  | start (ans : Answers)
  | others (t : TaskService)

namespace StdinHold

variable {id execId : String}

/-- What others leave alone. -/
def ioOf (t : TaskService) (id e : String) : Option (Stdio × IoTasks) :=
  (t.execProcess id e).map fun p => (p.stdio, p.ioTasks)

/-- No request on an exec has an empty exec id. -/
def step (id execId : String) (s : StdinHold) (a : StdinAction) : Option StdinHold :=
  (execIdOpt execId).bind fun e =>
    match a with
    | .closeIo =>
      match TaskService.closeIo id execId s.task with
      | .ok _ t => some { s with task := t, closed := true }
      | .error _ t => some { s with task := t }
    | .start ans =>
      let replaced := (s.task.startable id e).elim []
        fun p => (RuncExecLifecycle.startReplacing ans (p, s.task.world)).2
      match TaskService.start ans id execId s.task with
      | .ok _ t => some { s with task := t, started := true, replaced := s.replaced ++ replaced }
      | .error _ t => some { s with task := t, started := false, replaced := s.replaced ++ replaced }
    | .others t => if ioOf t id e = ioOf s.task id e then some { s with task := t } else none

/-- The shim has the fifo open for writing itself. -/
def WriterOpen (s : StdinHold) (id execId : String) : Prop :=
  (∃ p ∈ s.task.execProcess id execId, p.ioTasks.stdin = .opened) ∨
    ∃ io ∈ s.replaced, io.stdin = .opened

instance (s : StdinHold) (id execId : String) : Decidable (s.WriterOpen id execId) :=
  inferInstanceAs (Decidable ((∃ p ∈ s.task.execProcess id execId, p.ioTasks.stdin = .opened) ∨
    ∃ io ∈ s.replaced, io.stdin = .opened))

end StdinHold

/-- The requests on the exec that was added under `execId`. -/
def stdinHold (id execId : String) (added : TaskService) : System StdinHold StdinAction where
  init := { task := added }
  step := StdinHold.step id execId

namespace StdinHold

variable {s s' : StdinHold} {id execId : String} {stdio : Stdio} {a : StdinAction}

/-- The hold is released by the client's CloseIO alone, and open only where it is copied. -/
structure Kept (stdio : Stdio) (s : StdinHold) (io : IoTasks) : Prop where
  released : io.stdin = .released ↔ s.closed = true
  wired : io.stdin = .opened → Wired stdio
  started : s.started = true → Wired stdio → io.stdin ≠ .pending

/-- The exec is still there with its stdio, and every replaced hold is released. -/
structure Invariant (stdio : Stdio) (id execId : String) (s : StdinHold) : Prop where
  entry : ∃ p, s.task.execProcess id execId = some p ∧ p.stdio = stdio ∧ s.Kept stdio p.ioTasks
  replaced : ∀ io ∈ s.replaced, io.stdin = .released

theorem execIdOpt_eq {e : String} (h : execIdOpt execId = some e) : e = execId := by
  unfold execIdOpt at h
  split at h
  · cases h
  · exact (Option.some.inj h).symm

theorem Kept.closeInput {io : IoTasks} {task : TaskService} :
    Kept stdio { s with task, closed := true } io.closeInput where
  released := by simp [IoTasks.closeInput]
  wired h := by cases h
  started _ _ h := by cases h

theorem Kept.copies {p q : ExecProcess × World} {task : TaskService} {replaced : List IoTasks}
    (h : s.Kept stdio p.1.ioTasks) (hp : p.1.stdio = stdio) (hq : Copies stdio p q)
    (hcopied : Wired stdio → StdinCopied q) :
    Kept stdio { s with task, started := true, replaced } q.1.ioTasks where
  released := (hq.released hp).trans h.released
  wired hopened := by
    rcases (hq hp).2 with hio | ⟨hwired, -⟩
    · exact h.wired (hio ▸ hopened)
    · exact hwired
  started _ := hcopied

theorem Kept.renew {p q : ExecProcess × World} {task : TaskService} {replaced : List IoTasks}
    (h : s.Kept stdio p.1.ioTasks) (hp : p.1.stdio = stdio) (hq : Copies stdio p q) :
    Kept stdio { s with task, started := false, replaced } q.1.ioTasks.renew where
  released := by
    rw [IoTasks.renew_released, hq.released hp]
    exact h.released
  wired hopened := absurd hopened (IoTasks.renew_ne_opened _)
  started h := by cases h

theorem Invariant.closeIo {n : Next} {t : TaskService} (h : s.Invariant stdio id execId)
    (hid : execIdOpt execId = some execId)
    (hok : TaskService.closeIo id execId s.task = .ok n t) :
    Invariant stdio id execId { s with task := t, closed := true } := by
  obtain ⟨p, hp, hstdio, -⟩ := h.entry
  have hreached := TaskService.closeIo_reaches hid hok
  rw [hp] at hreached
  cases hreached with
  | done hm hq =>
    obtain ⟨-, hpq⟩ := EStateM.Result.ok.inj hm
    obtain ⟨rfl, rfl⟩ := Prod.mk.inj hpq
    exact ⟨⟨_, hq, hstdio, Kept.closeInput⟩, h.replaced⟩

theorem Invariant.closeIo_error {err : TtrpcError} {t : TaskService}
    (h : s.Invariant stdio id execId) (hid : execIdOpt execId = some execId)
    (herr : TaskService.closeIo id execId s.task = .error err t) :
    Invariant stdio id execId { s with task := t } := by
  obtain ⟨p, hp, -, -⟩ := h.entry
  have hreached := TaskService.closeIo_reaches_error hid herr
  rw [hp] at hreached
  cases hreached with
  | failed hm hq => cases hm

theorem Invariant.start {ans : Answers} {n : Next} {t : TaskService} {replaced : List IoTasks}
    (h : s.Invariant stdio id execId) (hid : execIdOpt execId = some execId)
    (hstdin : stdio.stdin ≠ "") (hreplaced : ∀ io ∈ replaced, io.stdin = .released)
    (hok : TaskService.start ans id execId s.task = .ok n t) :
    Invariant stdio id execId { s with task := t, started := true, replaced } := by
  obtain ⟨p, hp, hstdio, hkept⟩ := h.entry
  have hreached := TaskService.start_reaches hid hok
  cases hst : s.task.startable id execId with
  | none =>
    rw [hst] at hreached
    cases hreached
  | some p' =>
    obtain rfl := Option.some.inj ((TaskService.execProcess_of_startable hst).symm.trans hp)
    rw [hst] at hreached
    cases hreached with
    | @done _ q w hm hq =>
      have hexec := RuncExecLifecycle.start_ok hm
      have hcopies : Copies stdio (p', s.task.world) (q, w) :=
        RuncExecLifecycle.copies_startExec.returns _ _ _ hexec
      refine ⟨⟨q, hq, (hcopies hstdio).1, ?_⟩, hreplaced⟩
      exact hkept.copies (p := (p', s.task.world)) hstdio hcopies fun hwired =>
        RuncExecLifecycle.startExec_ok_copied hwired hstdin hstdio hexec

theorem Invariant.start_error {ans : Answers} {err : TtrpcError} {t : TaskService}
    {replaced : List IoTasks} (h : s.Invariant stdio id execId)
    (hid : execIdOpt execId = some execId) (hreplaced : ∀ io ∈ replaced, io.stdin = .released)
    (herr : TaskService.start ans id execId s.task = .error err t) :
    Invariant stdio id execId { s with task := t, started := false, replaced } := by
  obtain ⟨p, hp, hstdio, hkept⟩ := h.entry
  have hreached := TaskService.start_reaches_error hid herr
  cases hst : s.task.startable id execId with
  | none =>
    rw [hst] at hreached
    cases hreached with
    | missed hsame =>
      refine ⟨⟨p, hsame.trans hp, hstdio, hkept.released, hkept.wired, ?_⟩, hreplaced⟩
      exact fun h => (nomatch h)
  | some p' =>
    obtain rfl := Option.some.inj ((TaskService.execProcess_of_startable hst).symm.trans hp)
    rw [hst] at hreached
    cases hreached with
    | @failed _ q w e hm hq =>
      obtain ⟨u, hcopies, hsame, hio⟩ := RuncExecLifecycle.start_fails_copies hm
      refine ⟨⟨q, hq, hsame.trans (hcopies hstdio).1, ?_⟩, hreplaced⟩
      rw [hio]
      exact hkept.renew (p := (p', s.task.world)) hstdio hcopies

theorem Invariant.others {t : TaskService} (h : s.Invariant stdio id execId)
    (hsame : ioOf t id execId = ioOf s.task id execId) :
    Invariant stdio id execId { s with task := t } := by
  obtain ⟨p, hp, hstdio, hkept⟩ := h.entry
  rw [ioOf, ioOf, hp, Option.map_some] at hsame
  obtain ⟨q, hq, hpq⟩ := Option.map_eq_some_iff.mp hsame
  obtain ⟨hstdio', hio⟩ := Prod.mk.inj hpq
  refine ⟨⟨q, hq, hstdio'.trans hstdio, ?_⟩, h.replaced⟩
  rw [hio]
  exact ⟨hkept.released, hkept.wired, hkept.started⟩

theorem Invariant.step (h : s.Invariant stdio id execId) (hstdin : stdio.stdin ≠ "")
    (hs : step id execId s a = some s') : s'.Invariant stdio id execId := by
  obtain ⟨e, hid, hs⟩ := Option.bind_eq_some_iff.mp hs
  obtain rfl := execIdOpt_eq hid
  cases a with
  | closeIo =>
    dsimp only at hs
    split at hs
    · next hok =>
      obtain rfl := Option.some.inj hs
      exact h.closeIo hid hok
    · next herr =>
      obtain rfl := Option.some.inj hs
      exact h.closeIo_error hid herr
  | start ans =>
    have hreplaced : ∀ io ∈ s.replaced ++ (s.task.startable id e).elim []
        fun p => (RuncExecLifecycle.startReplacing ans (p, s.task.world)).2,
        io.stdin = .released := by
      intro io hio
      rcases List.mem_append.mp hio with hio | hio
      · exact h.replaced io hio
      · cases hst : s.task.startable id e with
        | none =>
          rw [hst] at hio
          cases hio
        | some p =>
          rw [hst] at hio
          exact RuncExecLifecycle.startReplacing_snd hio
    dsimp only at hs
    split at hs
    · next hok =>
      obtain rfl := Option.some.inj hs
      exact h.start hid hstdin hreplaced hok
    · next herr =>
      obtain rfl := Option.some.inj hs
      exact h.start_error hid hreplaced herr
  | others t =>
    dsimp only at hs
    split at hs
    · next hsame =>
      obtain rfl := Option.some.inj hs
      exact h.others hsame
    · cases hs

variable {ans : Answers} {req : ExecProcessRequest} {t₀ t₁ : TaskService} {n : Next}

theorem invariant (hadd : TaskService.exec ans req t₀ = .ok n t₁) (hstdin : req.stdio.stdin ≠ "")
    (h : (stdinHold req.id req.execId t₁).Reachable System.Any s) :
    s.Invariant req.stdio req.id req.execId := by
  refine h.invariant (P := Invariant req.stdio req.id req.execId) ?_ ?_
  · obtain ⟨p, hp, hstdio, hio⟩ := TaskService.exec_added hadd
    refine ⟨⟨p, hp, hstdio, ?_⟩, fun _ hio => (nomatch hio)⟩
    rw [hio]
    exact ⟨⟨fun h => (nomatch h), fun h => (nomatch h)⟩, fun h => (nomatch h),
      fun h => (nomatch h)⟩
  · exact fun s a s' _ ih _ hs => ih.step hstdin hs

theorem Invariant.writerOpen_iff (h : s.Invariant stdio id execId) :
    s.WriterOpen id execId ↔ ∃ p ∈ s.task.execProcess id execId, p.ioTasks.stdin = .opened := by
  apply or_iff_left
  intro hexists
  obtain ⟨io, hio, hopened⟩ := hexists
  cases (h.replaced io hio).symm.trans hopened

/-- CloseIO outlives every failed Start, and nothing else keeps a copied stdin from being held. -/
theorem close_io_kept (hadd : TaskService.exec ans req t₀ = .ok n t₁)
    (hstdin : req.stdio.stdin ≠ "")
    (h : (stdinHold req.id req.execId t₁).Reachable System.Any s) :
    (s.closed = true → ¬s.WriterOpen req.id req.execId) ∧
      (s.started = true →
        (s.WriterOpen req.id req.execId ↔ Wired req.stdio ∧ s.closed = false)) := by
  have hinv := invariant hadd hstdin h
  obtain ⟨p, hp, -, hkept⟩ := hinv.entry
  have hopen : s.WriterOpen req.id req.execId ↔ p.ioTasks.stdin = .opened := by
    rw [hinv.writerOpen_iff, hp]
    exact ⟨fun ⟨q, hq, hopened⟩ => Option.some.inj hq ▸ hopened, fun h => ⟨p, rfl, h⟩⟩
  rw [hopen]
  refine ⟨fun hclosed hopened => ?_,
    fun hstarted => ⟨fun hopened => ?_, fun ⟨hwired, hclosed⟩ => ?_⟩⟩
  · cases (hkept.released.mpr hclosed).symm.trans hopened
  · refine ⟨hkept.wired hopened, Bool.eq_false_iff.mpr fun hclosed => ?_⟩
    cases (hkept.released.mpr hclosed).symm.trans hopened
  · have hpending := hkept.started hstarted hwired
    have hreleased : p.ioTasks.stdin ≠ .released := by
      rw [Ne, hkept.released, hclosed]
      decide
    cases hstate : p.ioTasks.stdin with
    | pending => exact absurd hstate hpending
    | opened => rfl
    | released => exact absurd hstate hreleased

/-! ## Runs of one exec -/

def execRequest (stdout : String) : ExecProcessRequest where
  id := "c"
  execId := "e"
  stdio := { stdin := "/in", stdout }
  spec := some {}

/-- The exec has been added to a running container. -/
def added (stdout : String) : TaskService :=
  left (TaskService.exec {} (execRequest stdout) Shim.started.task)

/-- What the requests after that lead to. -/
def served (stdout : String) (as : List StdinAction) : StdinHold :=
  (stdinHold "c" "e" (added stdout)).after System.Any { task := added stdout } as

/-- The output fifo cannot be opened, when stdin is already held. -/
def badFifo : StdinAction := .start { openStdout := some (.other "open /out") }

theorem close_io_kept_retried :
    (served "/out" [badFifo, .start {}]).WriterOpen "c" "e" ∧
      ¬(served "/out" [badFifo, .closeIo, badFifo, .start {}]).WriterOpen "c" "e" := by
  obtain ⟨n, hadd⟩ := eq_ok_of_isOk (r := TaskService.exec {} (execRequest "/out")
    Shim.started.task) (by decide +kernel)
  constructor
  · have hreach : (stdinHold "c" "e" (added "/out")).Reachable System.Any
        (served "/out" [badFifo, .start {}]) := System.run_after (by decide +kernel)
    obtain ⟨-, hstarted⟩ := close_io_kept hadd (by decide) hreach
    exact (hstarted (by decide +kernel)).mpr ⟨by decide, by decide +kernel⟩
  · have hreach : (stdinHold "c" "e" (added "/out")).Reachable System.Any
        (served "/out" [badFifo, .closeIo, badFifo, .start {}]) :=
      System.run_after (by decide +kernel)
    obtain ⟨hclosed, -⟩ := close_io_kept hadd (by decide) hreach
    exact hclosed (by decide +kernel)

/-- The stdio of a logging binary is not copied by the shim. -/
theorem stdin_not_held_with_binary : ¬∀ (ans : Answers) (req : ExecProcessRequest)
    (t₀ t₁ : TaskService) (n : Next) (s : StdinHold),
    TaskService.exec ans req t₀ = .ok n t₁ → req.stdio.stdin ≠ "" →
    (stdinHold req.id req.execId t₁).Reachable System.Any s →
    (s.closed = true → ¬s.WriterOpen req.id req.execId) ∧
      (s.started = true → (s.WriterOpen req.id req.execId ↔ s.closed = false)) := by
  intro h
  obtain ⟨n, hadd⟩ := eq_ok_of_isOk (r := TaskService.exec {} (execRequest "binary:///log")
    Shim.started.task) (by decide +kernel)
  have hreach : (stdinHold "c" "e" (added "binary:///log")).Reachable System.Any
      (served "binary:///log" [.start {}]) := System.run_after (by decide +kernel)
  obtain ⟨-, hstarted⟩ := h {} (execRequest "binary:///log") Shim.started.task
    (added "binary:///log") n (served "binary:///log" [.start {}]) hadd (by decide) hreach
  have hopen := (hstarted (by decide +kernel)).mpr (by decide +kernel)
  exact absurd hopen (by decide +kernel)

end StdinHold
end RustExtensions.RuncShim
