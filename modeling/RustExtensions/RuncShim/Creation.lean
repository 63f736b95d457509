import RustExtensions.RuncShim.Container
import RustExtensions.RuncShim.Spec.Lifecycle

/-!
# A Create that fails

Creating a container prepares the bundle, mounts the rootfs, opens the io, calls
the runtime, attaches the console and reads the pid file. Every step may fail,
and nothing that a step before it mounted or created is taken back.
-/
namespace RustExtensions.RuncShim

open RustExtensions.Shim
open RustExtensions.Fallible

variable {ans : Answers} {req : CreateTaskRequest} {w w' : World} {e : Error}

/-! ## What a Create may leave -/

/-- The mounts at the rootfs and the containers of the runtime are those from before. -/
structure LeavesNothing (req : CreateTaskRequest) (w w' : World) : Prop where
  mounts : w'.mounts.filter (· = joinPath req.bundle "rootfs") =
    w.mounts.filter (· = joinPath req.bundle "rootfs")
  runtime : ∀ id, w'.runtime.lookup id = w.runtime.lookup id

/-- Neither a mount nor a container was made. -/
structure Unmade (w w' : World) : Prop where
  mounts : w'.mounts = w.mounts
  runtime : w'.runtime = w.runtime

instance : Std.Refl Unmade where
  refl _ := ⟨rfl, rfl⟩

instance : IsTrans World Unmade where
  trans _ _ _ h h' := ⟨h'.mounts.trans h.mounts, h'.runtime.trans h.runtime⟩

theorem unmade_writeFile (path s : String) :
    Keeps Unmade (modify (·.writeFile path s) : EStateM Error World PUnit) where
  returns w _ w' h := by
    obtain ⟨-, rfl⟩ := EStateM.Result.ok.inj h
    exact ⟨rfl, rfl⟩
  fails _ _ _ h := nomatch h

/-! ## Preparing the bundle -/

/-- The steps before the first mount. -/
def setUp (ans : Answers) (req : CreateTaskRequest) : EStateM Error World Options := do
  let opts ← requestOptions ans req
  let json ← ofExcept ans.optionsJson
  answered ans.writeOptions
  modify (·.writeFile (joinPath req.bundle optionsFileName) json)
  answered ans.writeRuntime
  modify (·.writeFile (joinPath req.bundle runtimeFileName) opts.binaryName)
  if req.rootfs ≠ [] then
    answered ans.mkdir
  return opts

theorem prepareBundle_eq : prepareBundle ans req = (do
    let opts ← setUp ans req
    mountAll ans.mountLeft (joinPath req.bundle "rootfs") req.rootfs ans.mounts
    answered ans.createRunc
    return opts) := by
  by_cases hrootfs : req.rootfs = []
  · simp [prepareBundle, setUp, hrootfs, mountAll]
  · simp [prepareBundle, setUp, hrootfs]

/-- A step before the first mount fails. -/
def SetUpFails (ans : Answers) (req : CreateTaskRequest) : Prop :=
  req.options.isSome ∧ ans.decodeOptions.isOk = false ∨ ans.optionsJson.isOk = false ∨
    ans.writeOptions.isSome ∨ ans.writeRuntime.isSome ∨ req.rootfs ≠ [] ∧ ans.mkdir.isSome

theorem returns_answered {σ : Type} {x : Option Error} {s : σ} :
    Returns (answered x) s ↔ x = none := by
  cases x with
  | none => exact ⟨fun _ => rfl, fun _ => returns_pure () s⟩
  | some e => exact ⟨fun h => absurd h (not_returns_throw e s), fun h => nomatch h⟩

theorem returns_answered_bind {σ α : Type} {x : Option Error} {f : Unit → EStateM Error σ α}
    {s : σ} : Returns (answered x >>= f) s ↔ x = none ∧ Returns (f ()) s := by
  rw [returns_bind]
  cases x with
  | none =>
    constructor
    · intro h
      obtain ⟨a, t, hx, hf⟩ := h
      obtain rfl := (EStateM.Result.ok.inj hx).2
      exact ⟨rfl, hf⟩
    · exact fun h => ⟨(), s, rfl, h.2⟩
  | some e =>
    constructor
    · intro h
      obtain ⟨a, t, hx, -⟩ := h
      cases hx
    · exact fun h => nomatch h.1

theorem returns_ofExcept_bind {σ α β : Type} {x : Except Error α} {f : α → EStateM Error σ β}
    {s : σ} : Returns (ofExcept x >>= f) s ↔ ∃ a, x = .ok a ∧ Returns (f a) s := by
  rw [returns_bind]
  constructor
  · intro h
    obtain ⟨a, t, hx, hf⟩ := h
    obtain ⟨hxa, rfl⟩ := ofExcept_ok hx
    exact ⟨a, hxa, hf⟩
  · intro h
    obtain ⟨a, rfl, hf⟩ := h
    exact ⟨a, s, rfl, hf⟩

theorem returns_modify_bind {σ α : Type} {g : σ → σ} {f : PUnit → EStateM Error σ α} {s : σ} :
    Returns ((modify g : EStateM Error σ PUnit) >>= f) s ↔ Returns (f ()) (g s) := by
  rw [returns_bind]
  constructor
  · intro h
    obtain ⟨a, t, hx, hf⟩ := h
    obtain ⟨-, rfl⟩ := EStateM.Result.ok.inj hx
    exact hf
  · exact fun h => ⟨(), g s, rfl, h⟩

theorem returns_mkdir {opts : Options} : Returns (if req.rootfs ≠ [] then
      answered ans.mkdir >>= fun _ => pure opts else pure opts : EStateM Error World Options) w ↔
    (req.rootfs ≠ [] → ans.mkdir = none) := by
  split
  · next hrootfs =>
    rw [returns_answered_bind]
    exact ⟨fun h _ => h.1, fun h => ⟨h hrootfs, returns_pure opts w⟩⟩
  · next hrootfs => exact ⟨fun _ h => absurd h hrootfs, fun _ => returns_pure opts w⟩

theorem exists_ok_iff {ε α : Type} {x : Except ε α} : (∃ a, x = .ok a) ↔ x.isOk = true := by
  cases x <;> simp [Except.isOk, Except.toBool]

theorem setUp_returns : Returns (setUp ans req) w ↔ ¬SetUpFails ans req := by
  rw [setUp, requestOptions, SetUpFails]
  cases hopts : req.options with
  | none =>
    simp only [pure_bind, returns_ofExcept_bind, returns_answered_bind, returns_modify_bind,
      returns_mkdir, exists_and_right, exists_ok_iff]
    simp [not_or]
  | some o =>
    simp only [returns_ofExcept_bind, returns_answered_bind, returns_modify_bind, returns_mkdir,
      exists_and_right, exists_ok_iff]
    simp [not_or]

theorem setUp_unmade : Keeps Unmade (setUp ans req) := by
  have hopts : Keeps Unmade (requestOptions ans req) := by
    unfold requestOptions
    cases req.options with
    | some _ => exact keeps_ofExcept _
    | none => exact .pure _
  refine .bind hopts fun opts => .bind (keeps_ofExcept _) fun json => ?_
  refine .bind (keeps_answered _) fun _ => .bind (unmade_writeFile ..) fun _ => ?_
  refine .bind (keeps_answered _) fun _ => .bind (unmade_writeFile ..) fun _ => ?_
  split
  · exact .bind (keeps_answered _) fun _ => .pure _
  · exact .pure _

/-! ## The mounts -/

/-- So many mounts at the rootfs. -/
def World.mounted (w : World) (rootfs : String) (n : Nat) : World :=
  { w with mounts := w.mounts ++ List.replicate n rootfs }

theorem mounted_zero {rootfs : String} : w.mounted rootfs 0 = w := by
  simp [World.mounted]

theorem mounted_mount {rootfs : String} {n : Nat} :
    (w.mount rootfs).mounted rootfs n = w.mounted rootfs (n + 1) := by
  simp [World.mounted, World.mount, List.replicate_succ]

section Mounts
variable {left : Bool} {rootfs : String} {m : Mount} {ms : List Mount}
  {outcomes : List (Option Error)}

theorem mountAll_next (h : outcomes.head?.getD none = none) :
    mountAll left rootfs (m :: ms) outcomes w =
      mountAll left rootfs ms outcomes.tail (w.mount rootfs) := by
  rw [mountAll]
  simp only [h, Option.isNone_none, Bool.true_or, ↓reduceIte]
  rfl

theorem mountAll_stops (h : outcomes.head?.getD none = some e) :
    mountAll left rootfs (m :: ms) outcomes w =
      .error e (if left then w.mount rootfs else w) := by
  rw [mountAll]
  simp only [h, Option.isNone_some, Bool.false_or]
  cases left <;> rfl

/-- All mounts are made, or those before the one that fails and perhaps that one. -/
theorem mountAll_cases (left : Bool) (rootfs : String) (ms : List Mount)
    (outcomes : List (Option Error)) (w : World) :
    mountAll left rootfs ms outcomes w = .ok () (w.mounted rootfs ms.length) ∨
      ∃ n e, mountAll left rootfs ms outcomes w = .error e (w.mounted rootfs n) := by
  induction ms generalizing outcomes w with
  | nil => exact Or.inl (congrArg (EStateM.Result.ok ()) mounted_zero.symm)
  | cons m ms ih =>
    cases hfirst : outcomes.head?.getD none with
    | none =>
      rw [mountAll_next hfirst]
      rcases ih outcomes.tail (w.mount rootfs) with hall | ⟨n, e, hfails⟩
      · rw [mounted_mount] at hall
        exact Or.inl hall
      · rw [mounted_mount] at hfails
        exact Or.inr ⟨n + 1, e, hfails⟩
    | some e =>
      rw [mountAll_stops hfirst]
      cases left with
      | true => exact Or.inr ⟨1, e, by rw [← mounted_mount, mounted_zero]; rfl⟩
      | false => exact Or.inr ⟨0, e, by rw [mounted_zero]; rfl⟩

theorem mountAll_returns (h : mountAll left rootfs ms outcomes w = .ok () w') :
    w' = w.mounted rootfs ms.length ∧ (ms ≠ [] → outcomes.head?.getD none = none) := by
  constructor
  · rcases mountAll_cases left rootfs ms outcomes w with hall | ⟨n, e, hfails⟩
    · exact (EStateM.Result.ok.inj (h.symm.trans hall)).2
    · cases h.symm.trans hfails
  · intro hne
    obtain ⟨m, ms, rfl⟩ := List.exists_cons_of_ne_nil hne
    cases hfirst : outcomes.head?.getD none with
    | none => rfl
    | some e => cases h.symm.trans (mountAll_stops hfirst)

/-- Nothing is mounted just where the first mount fails and is not left. -/
theorem mountAll_fails (h : mountAll left rootfs ms outcomes w = .error e w') :
    ms ≠ [] ∧ ∃ n, w' = w.mounted rootfs n ∧
      (n = 0 ↔ (outcomes.head?.getD none).isSome ∧ left = false) := by
  cases ms with
  | nil => cases h
  | cons m ms =>
    refine ⟨List.cons_ne_nil m ms, ?_⟩
    cases hfirst : outcomes.head?.getD none with
    | none =>
      rw [mountAll_next hfirst] at h
      rcases mountAll_cases left rootfs ms outcomes.tail (w.mount rootfs) with hall | ⟨n, e, hfails⟩
      · cases h.symm.trans hall
      · obtain ⟨-, rfl⟩ := EStateM.Result.error.inj (h.symm.trans hfails)
        exact ⟨n + 1, mounted_mount, by simp⟩
    | some e =>
      rw [mountAll_stops hfirst] at h
      obtain ⟨-, rfl⟩ := EStateM.Result.error.inj h
      cases left with
      | true => exact ⟨1, by rw [← mounted_mount, mounted_zero]; rfl, by simp⟩
      | false => exact ⟨0, by rw [mounted_zero]; rfl, by simp⟩

end Mounts

def FirstMountFails (ans : Answers) (req : CreateTaskRequest) : Prop :=
  req.rootfs ≠ [] ∧ (ans.mounts.head?.getD none).isSome

theorem not_firstMountFails (h : req.rootfs ≠ [] → ans.mounts.head?.getD none = none) :
    ¬FirstMountFails ans req := by
  intro hfails
  have hsome := hfails.2
  rw [h hfails.1] at hsome
  cases hsome

theorem isSome_of_answered_error {σ : Type} {x : Option Error} {s t : σ}
    (h : answered x s = .error e t) : x.isSome := by
  cases x with
  | none => cases h
  | some e => rfl

/-- A preparation that fails has mounted nothing if it failed before a mount was made. -/
theorem prepareBundle_fails (h : prepareBundle ans req w = .error e w') :
    ∃ n, w'.mounts = w.mounts ++ List.replicate n (joinPath req.bundle "rootfs") ∧
      w'.runtime = w.runtime ∧
      (n = 0 ↔ SetUpFails ans req ∨ req.rootfs = [] ∨
        FirstMountFails ans req ∧ ans.mountLeft = false) ∧
      (req.rootfs = [] → SetUpFails ans req ∨ ans.createRunc.isSome) := by
  rw [prepareBundle_eq] at h
  rcases bind_error.mp h with hsetUp | ⟨opts, u, hsetUp, h⟩
  · have hu := setUp_unmade.fails w e w' hsetUp
    have hfails : SetUpFails ans req := by
      by_contra hnot
      obtain ⟨opts, u, hok⟩ := setUp_returns.mpr hnot
      cases hsetUp.symm.trans hok
    exact ⟨0, by rw [hu.mounts]; simp, hu.runtime, by simp [hfails], fun _ => Or.inl hfails⟩
  · have hu := setUp_unmade.returns w opts u hsetUp
    have hset : ¬SetUpFails ans req := setUp_returns.mp ⟨opts, u, hsetUp⟩
    rcases bind_error.mp h with hmount | ⟨_, v, hmount, h⟩
    · obtain ⟨hne, n, rfl, hn⟩ := mountAll_fails hmount
      refine ⟨n, by rw [← hu.mounts]; rfl, hu.runtime, ?_, fun h => absurd h hne⟩
      rw [hn]
      simp [hset, hne, FirstMountFails]
    · obtain ⟨rfl, hfirst⟩ := mountAll_returns hmount
      rcases bind_error.mp h with hrunc | ⟨_, _, -, hret⟩
      · obtain rfl := answered_error hrunc
        refine ⟨req.rootfs.length, by rw [← hu.mounts]; rfl, hu.runtime, ?_,
          fun _ => Or.inr (isSome_of_answered_error hrunc)⟩
        simp [hset, not_firstMountFails hfirst]
      · cases hret

theorem prepareBundle_returns {opts : Options} (h : prepareBundle ans req w = .ok opts w') :
    (w'.mounts = w.mounts ++ List.replicate req.rootfs.length (joinPath req.bundle "rootfs") ∧
      w'.runtime = w.runtime) ∧
    ¬SetUpFails ans req ∧ ans.createRunc = none ∧ ¬FirstMountFails ans req := by
  rw [prepareBundle_eq] at h
  obtain ⟨opts, u, hsetUp, h⟩ := bind_ok.mp h
  have hu := setUp_unmade.returns w opts u hsetUp
  obtain ⟨_, v, hmount, h⟩ := bind_ok.mp h
  obtain ⟨rfl, hfirst⟩ := mountAll_returns hmount
  obtain ⟨_, x, hrunc, hret⟩ := bind_ok.mp h
  obtain rfl := answered_ok hrunc
  obtain ⟨-, rfl⟩ := EStateM.Result.ok.inj hret
  exact ⟨⟨by rw [← hu.mounts]; rfl, hu.runtime⟩, setUp_returns.mp ⟨opts, u, hsetUp⟩,
    returns_answered.mp ⟨(), _, hrunc⟩, not_firstMountFails hfirst⟩

/-! ## The io -/

/-- The console socket is not made, or a fifo that is named cannot be opened. -/
def IoFails (ans : Answers) (stdio : Stdio) : Prop :=
  if stdio.terminal then ans.consoleSocket.isSome = true
  else (splitOnceFst (trim stdio.stdout) "://").getD "fifo" = "fifo" ∧
    (ans.createIo.isSome ∨ stdio.stdin ≠ "" ∧ ans.openStdin.isSome ∨
      stdio.stdout ≠ "" ∧ ans.openStdout.isSome ∨ stdio.stderr ≠ "" ∧ ans.openStderr.isSome)

section Stdio
variable {S : Type} {stdio : Stdio} {s : ProcessTemplate S × World}

/-- The pipes of fifos. -/
def fifoIo (stdio : Stdio) : Io where
  stdin := stdio.stdin ≠ ""
  stdout := stdio.stdout ≠ ""
  stderr := stdio.stderr ≠ ""

theorem createIo_eq : createIo ans stdio (S := S) =
    if (splitOnceFst (trim stdio.stdout) "://").getD "fifo" = "fifo" then
      answered ans.createIo >>= fun _ => pure (some (fifoIo stdio))
    else pure none := by
  unfold createIo
  split
  · next hnull =>
    simp only [Stdio.isNull, Bool.and_eq_true, beq_iff_eq] at hnull
    obtain ⟨⟨hstdin, hstdout⟩, hstderr⟩ := hnull
    have hfifo : (splitOnceFst (trim "") "://").getD "fifo" = "fifo" := by decide
    rw [fifoIo, hstdin, hstdout, hstderr, if_pos hfifo]
    rfl
  · rfl

theorem returns_copyStdin {rest : Unit → Method (ProcessTemplate S) Unit} {P : Prop}
    (hrest : ∀ t, Returns (rest ()) t ↔ P) :
    Returns (copyStdin ans >>= rest) s ↔ ans.openStdin = none ∧ P := by
  rw [copyStdin, bind_assoc, returns_answered_bind]
  exact and_congr_right fun _ => hrest _

theorem needPipe_true {has : Bool} {name : String} (h : has = true) :
    needPipe has name = (pure () : Method (ProcessTemplate S) Unit) := if_pos h

theorem returns_stderr : Returns (if stdio.stderr ≠ "" then
      needPipe (fifoIo stdio).stderr "stderr" >>= fun _ => answered ans.openStderr
      else pure () : Method (ProcessTemplate S) Unit) s ↔
    (stdio.stderr ≠ "" → ans.openStderr = none) := by
  split
  · next hstderr =>
    have hpipe : (fifoIo stdio).stderr = true := decide_eq_true hstderr
    rw [needPipe_true hpipe, pure_bind, returns_answered]
    exact ⟨fun h _ => h, fun h => h hstderr⟩
  · next hstderr => exact ⟨fun _ h => absurd h hstderr, fun _ => returns_pure () s⟩

theorem returns_stdout : Returns (if stdio.stdout ≠ "" then
      needPipe (fifoIo stdio).stdout "stdout" >>= fun _ => answered ans.openStdout >>= fun _ =>
        if stdio.stderr ≠ "" then
          needPipe (fifoIo stdio).stderr "stderr" >>= fun _ => answered ans.openStderr
        else pure ()
      else if stdio.stderr ≠ "" then
        needPipe (fifoIo stdio).stderr "stderr" >>= fun _ => answered ans.openStderr
      else pure () : Method (ProcessTemplate S) Unit) s ↔
    (stdio.stdout ≠ "" → ans.openStdout = none) ∧ (stdio.stderr ≠ "" → ans.openStderr = none) := by
  split
  · next hstdout =>
    have hpipe : (fifoIo stdio).stdout = true := decide_eq_true hstdout
    rw [needPipe_true hpipe, pure_bind, returns_answered_bind, returns_stderr]
    exact and_congr_left fun _ => ⟨fun h _ => h, fun h => h hstdout⟩
  · next hstdout =>
    rw [returns_stderr]
    exact ⟨fun h => ⟨fun h' => absurd h' hstdout, h⟩, fun h => h.2⟩

theorem returns_copyIo : Returns (copyIo ans (some (fifoIo stdio)) stdio) s ↔
    (stdio.stdin ≠ "" → ans.openStdin = none) ∧ (stdio.stdout ≠ "" → ans.openStdout = none) ∧
      (stdio.stderr ≠ "" → ans.openStderr = none) := by
  unfold copyIo
  dsimp only
  split
  · next hstdin =>
    have hpipe : (fifoIo stdio).stdin = true := decide_eq_true hstdin
    rw [needPipe_true hpipe, pure_bind, returns_copyStdin fun t => returns_stdout]
    exact and_congr_left fun _ => ⟨fun h _ => h, fun h => h hstdin⟩
  · next hstdin =>
    rw [returns_stdout]
    exact ⟨fun h => ⟨fun h' => absurd h' hstdin, h⟩, fun h => h.2⟩

theorem prepareIo_returns : Returns (prepareIo ans) s ↔ ¬IoFails ans s.1.stdio := by
  rw [prepareIo, IoFails]
  show Returns (if s.1.stdio.terminal = true then _ else _) s ↔ _
  split
  · rw [returns_answered]
    simp
  · rw [createIo_eq]
    split
    · next hfifo =>
      rw [bind_assoc, returns_answered_bind, pure_bind, returns_copyIo]
      simp [hfifo, Option.eq_none_iff_forall_ne_some]
    · next hfifo =>
      rw [pure_bind]
      exact ⟨fun _ h => hfifo h.1, fun _ => returns_pure () s⟩

end Stdio

/-! ## The container -/

/-- A method made neither a mount nor a container. -/
def MakesNothing {P : Type} (s t : P × World) : Prop := Unmade s.2 t.2

instance {P : Type} : Std.Refl (MakesNothing (P := P)) where
  refl s := refl_of Unmade s.2

instance {P : Type} : IsTrans (P × World) MakesNothing where
  trans _ _ _ h h' := trans_of Unmade h h'

theorem IoOnly.makesNothing {S : Type} {s t : ProcessTemplate S × World} (h : IoOnly s t) :
    MakesNothing s t := by
  rw [MakesNothing, h.world]
  exact refl_of Unmade s.2

theorem attachConsole_makesNothing {S : Type} :
    Keeps MakesNothing (attachConsole ans (S := S)) where
  returns s a t h := ((keeps_attachConsole ans).returns s a t h).makesNothing
  fails s e t h := ((keeps_attachConsole ans).fails s e t h).makesNothing

/-- What comes behind the runtime call: the console and the pid file. -/
theorem finish_makesNothing (terminal : Bool) (path : String) (proc : Nat) :
    FailsKeep MakesNothing (if terminal = true then attachConsole ans >>= fun _ =>
        readPid ans path >>= fun pid => modifyProcess fun p : InitProcess => { p with
          pid := pid
          proc := some proc
          lifecycle := { p.lifecycle with cgroupCache := ans.cgroup } }
      else readPid ans path >>= fun pid => modifyProcess fun p : InitProcess => { p with
          pid := pid
          proc := some proc
          lifecycle := { p.lifecycle with cgroupCache := ans.cgroup } }) := by
  split
  · exact .bind attachConsole_makesNothing fun _ =>
      .bind (keeps_readPid ans _) fun _ => failsKeep_modifyProcess _
  · exact .bind (keeps_readPid ans _) fun _ => failsKeep_modifyProcess _

/-- A creation that fails leaves a container if the runtime call was made and succeeded. -/
theorem createContainer_leaves {p : InitProcess} {t : InitProcess × World}
    (h : createContainer ans (p, w) = .error e t) :
    t.2.mounts = w.mounts ∧ (IoFails ans p.stdio ∨ ans.runtime.isSome → t.2.runtime = w.runtime) ∧
      (¬(IoFails ans p.stdio ∨ ans.runtime.isSome) →
        t.2.runtime = w.runtime.insert p.id .created) := by
  unfold createContainer at h
  rw [getProcess_bind] at h
  dsimp only at h
  have hreturns : Returns (prepareIo ans) (p, w) ↔ ¬IoFails ans p.stdio := prepareIo_returns
  rcases bind_error.mp h with hprep | ⟨_, u, hprep, hcall⟩
  · have hu := (keeps_prepareIo ans).fails (p, w) e t hprep
    have hfails : IoFails ans p.stdio := by
      by_contra hnot
      obtain ⟨a, v, hok⟩ := hreturns.mpr hnot
      cases hprep.symm.trans hok
    rw [hu.world]
    exact ⟨rfl, fun _ => rfl, fun hnot => absurd (Or.inl hfails) hnot⟩
  · have hu := (keeps_prepareIo ans).returns (p, w) () u hprep
    have hio : ¬IoFails ans p.stdio := hreturns.mp ⟨(), u, hprep⟩
    cases hrt : ans.runtime with
    | some err =>
      rcases bind_error.mp hcall with hspawn | ⟨r, v, hspawn, hthrow⟩
      · rw [runtimeSpawn_some ans _ hrt] at hspawn
        cases hspawn
      · rw [runtimeSpawn_some ans _ hrt] at hspawn
        obtain ⟨rfl, rfl⟩ := EStateM.Result.ok.inj hspawn
        obtain ⟨-, rfl⟩ := EStateM.Result.error.inj hthrow
        rw [hu.world]
        cases ans.leftInPidFile <;> exact ⟨rfl, fun _ => rfl, fun hnot => absurd (Or.inr rfl) hnot⟩
    | none =>
      rcases bind_error.mp hcall with hspawn | ⟨r, v, hspawn, hrest⟩
      · rw [runtimeSpawn_none ans _ hrt] at hspawn
        cases hspawn
      · rw [runtimeSpawn_none ans _ hrt] at hspawn
        obtain ⟨rfl, rfl⟩ := EStateM.Result.ok.inj hspawn
        rcases bind_error.mp hrest with hinsert | ⟨_, x, hinsert, hfinish⟩
        · cases hinsert
        · obtain ⟨-, rfl⟩ := EStateM.Result.ok.inj hinsert
          have hkeep := FailsKeep.of hfinish (finish_makesNothing _ _ _)
          have hmounts : u.2.mounts = w.mounts := congrArg World.mounts hu.world
          refine ⟨hkeep.mounts.trans hmounts, ?_, fun _ => ?_⟩
          · intro hfails
            rcases hfails with hfails | hfails
            · exact absurd hfails hio
            · cases hfails
          · refine hkeep.runtime.trans ?_
            show u.2.runtime.insert p.id .created = _
            rw [hu.world]

/-! ## The whole Create -/

/-- Create fails before anything is made that would stay: before the first mount, at a first
mount that is not left, or, without mounts, before the runtime has created the container. -/
def FailsEarly (ans : Answers) (req : CreateTaskRequest) : Prop :=
  SetUpFails ans req ∨ FirstMountFails ans req ∧ ans.mountLeft = false ∨
    req.rootfs = [] ∧ (ans.createRunc.isSome ∨ IoFails ans req.stdio ∨ ans.runtime.isSome)

theorem filter_mounted {ms : List String} {rootfs : String} {n : Nat} :
    (ms ++ List.replicate n rootfs).filter (· = rootfs) = ms.filter (· = rootfs) ↔ n = 0 := by
  rw [List.filter_append]
  simp

theorem mounts_kept_iff {n : Nat} {rootfs : String}
    (h : w'.mounts = w.mounts ++ List.replicate n rootfs) :
    w'.mounts.filter (· = rootfs) = w.mounts.filter (· = rootfs) ↔ n = 0 := by
  rw [h, filter_mounted]

/-- A preparation that fails has created no container. -/
theorem prepared_leaves_nothing_iff (h : prepareBundle ans req w = .error e w') :
    LeavesNothing req w w' ↔ FailsEarly ans req := by
  obtain ⟨n, hmounts, hruntime, hn, hrunc⟩ := prepareBundle_fails h
  have hleaves : LeavesNothing req w w' ↔ n = 0 := by
    rw [← mounts_kept_iff hmounts]
    exact ⟨fun hleaves => hleaves.mounts, fun hkept => ⟨hkept, fun _ => by rw [hruntime]⟩⟩
  rw [hleaves, hn]
  constructor
  · intro hearly
    rcases hearly with hset | hrootfs | hfirst
    · exact Or.inl hset
    · rcases hrunc hrootfs with hset | hrunc
      · exact Or.inl hset
      · exact Or.inr (Or.inr ⟨hrootfs, Or.inl hrunc⟩)
    · exact Or.inr (Or.inl hfirst)
  · intro hearly
    rcases hearly with hset | hfirst | ⟨hrootfs, -⟩
    · exact Or.inl hset
    · exact Or.inr (Or.inr hfirst)
    · exact Or.inr (Or.inl hrootfs)

/-- Behind a preparation, what was mounted stays, and so does what the runtime created. -/
theorem created_leaves_nothing_iff {u : World} {init : InitProcess} {t : InitProcess × World}
    (hid : init.id = req.id) (hstdio : init.stdio = req.stdio)
    (hmounts : u.mounts = w.mounts ++
      List.replicate req.rootfs.length (joinPath req.bundle "rootfs"))
    (hruntime : u.runtime = w.runtime)
    (hunique : w.runtime.lookup req.id ≠ none → ans.runtime ≠ none)
    (h : createContainer ans (init, u) = .error e t) :
    LeavesNothing req w t.2 ↔ req.rootfs = [] ∧ (IoFails ans req.stdio ∨ ans.runtime.isSome) := by
  obtain ⟨hkept, hnot, hmade⟩ := createContainer_leaves h
  rw [hstdio] at hnot hmade
  have hrootfs := mounts_kept_iff (hkept.trans hmounts)
  rw [List.length_eq_zero_iff] at hrootfs
  by_cases hfails : IoFails ans req.stdio ∨ ans.runtime.isSome
  · have hsame : t.2.runtime = w.runtime := (hnot hfails).trans hruntime
    constructor
    · exact fun hleaves => ⟨hrootfs.mp hleaves.mounts, hfails⟩
    · exact fun hempty => ⟨hrootfs.mpr hempty.1, fun _ => by rw [hsame]⟩
  · have hinsert : t.2.runtime = u.runtime.insert req.id .created := hid ▸ hmade hfails
    have hnone : ans.runtime = none := by
      rw [← Option.not_isSome_iff_eq_none]
      exact fun hsome => hfails (Or.inr hsome)
    constructor
    · intro hleaves
      have hlookup := hleaves.runtime req.id
      rw [hinsert, KeyedMap.Map.lookup_insert_eq, if_pos rfl] at hlookup
      have hknown : w.runtime.lookup req.id ≠ none := by
        rw [← hlookup]
        exact Option.some_ne_none _
      exact absurd hnone (hunique hknown)
    · exact fun hempty => absurd hempty.2 hfails

/-- A Create that fails leaves nothing exactly if it fails early, under a runtime that creates no
container that it knows. -/
theorem create_leaves_nothing_iff (ans : Answers) (req : CreateTaskRequest) (w w' : World)
    (e : Error) (hunique : w.runtime.lookup req.id ≠ none → ans.runtime ≠ none)
    (h : Container.create ans req w = .error e w') :
    LeavesNothing req w w' ↔ FailsEarly ans req := by
  rcases bind_error.mp h with hprep | ⟨opts, u, hprep, hrest⟩
  · exact prepared_leaves_nothing_iff hprep
  · obtain ⟨⟨hmounts, hruntime⟩, hset, hrunc, hfirst⟩ := prepareBundle_returns hprep
    have hearly : FailsEarly ans req ↔
        req.rootfs = [] ∧ (IoFails ans req.stdio ∨ ans.runtime.isSome) := by
      simp [FailsEarly, hset, hrunc, hfirst]
    rw [hearly]
    rcases bind_error.mp hrest with hinit | ⟨init, v, -, hret⟩
    · unfold InitProcess.create at hinit
      dsimp only at hinit
      split at hinit
      · cases hinit
      · next e' p v heq =>
        obtain ⟨-, rfl⟩ := EStateM.Result.error.inj hinit
        have hsame : { u with nextInst := u.nextInst + 1 }.mounts = _ := hmounts
        exact created_leaves_nothing_iff rfl rfl hsame hruntime hunique heq
    · cases hret

/-- The console is not received: a mount and a container stay. -/
def consoleFails : Answers where
  acceptConsole := .error (.other "accept")

def terminalRequest : CreateTaskRequest where
  id := "c"
  bundle := "/b"
  stdio := { terminal := true }
  rootfs := [{}]

theorem create_leaves_nothing_console : ∃ e w',
    Container.create consoleFails terminalRequest {} = .error e w' ∧
      (LeavesNothing terminalRequest {} w' ↔ FailsEarly consoleFails terminalRequest) :=
  ⟨_, _, rfl, create_leaves_nothing_iff consoleFails terminalRequest {} _ _
    (fun hknown => absurd rfl hknown) rfl⟩

theorem console_failure_leaves_all : ∃ e w', Container.create consoleFails terminalRequest {} =
    .error e w' ∧ w'.mounts = ["/b/rootfs"] ∧ w'.runtime.lookup "c" = some .created ∧
      ¬LeavesNothing terminalRequest {} w' := by
  refine ⟨_, _, rfl, by decide +kernel, by decide +kernel, ?_⟩
  intro h
  have hlookup := h.runtime "c"
  revert hlookup
  decide +kernel

end RustExtensions.RuncShim
