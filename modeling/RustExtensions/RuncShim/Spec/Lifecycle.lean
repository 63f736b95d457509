import RustExtensions.RuncShim.Spec.Process
import RustExtensions.RuncShim.Table

/-!
# What the two lifecycles leave behind

Creation and start make a process and give its pid to the entry; the other
methods of a lifecycle change the state at most. Every error return keeps the
record, also where an intermediate state was written first.
-/
namespace RustExtensions.RuncShim

open RustExtensions.Shim
open RustExtensions.Fallible

/-- The runtime made one process and wrote its pid to `path`. -/
structure World.Spawned (path : String) (pid : Int32) (w w' : World) : Prop where
  openTx : w'.openTx = w.openTx
  nextSerial : w'.nextSerial = w.nextSerial
  nextInst : w'.nextInst = w.nextInst
  nextProc : w'.nextProc = w.nextProc + 1
  files : w'.files = w.files.insert path (World.showPid pid)

theorem World.Spawned.grows {path : String} {pid : Int32} {w w' : World}
    (h : World.Spawned path pid w w') : World.Grows {path} w w' where
  openTx := h.openTx
  nextSerial := h.nextSerial
  nextInst := h.nextInst.ge
  nextProc := by
    rw [h.nextProc]
    exact Nat.le_succ _
  files q hq := by
    rw [h.files, KeyedMap.Map.lookup_insert_eq]
    exact if_neg hq

/-- Calls, mounts and the containers the runtime knows may differ. -/
structure World.Steady (w w' : World) : Prop where
  openTx : w'.openTx = w.openTx
  nextSerial : w'.nextSerial = w.nextSerial
  nextInst : w'.nextInst = w.nextInst
  nextProc : w'.nextProc = w.nextProc
  files : w'.files = w.files

theorem World.Steady.grows {paths : Set String} {w w' : World} (h : World.Steady w w') :
    World.Grows paths w w' :=
  ⟨h.openTx, h.nextSerial, h.nextInst.ge, h.nextProc.ge, fun _ _ => by rw [h.files]⟩

theorem failsKeep_modifyProcess {ε P : Type} {R : P × World → P × World → Prop} (f : P → P) :
    FailsKeep R (modifyProcess (ε := ε) f) :=
  fun _ _ _ h => nomatch h

section Spawn
variable {S : Type} {ans : Answers} {path : String} {pid : Int32}

/-- The console is attached, if the process has one, before its pid is read. -/
theorem attachConsole_ok {terminal : Bool} {β : Type} {k : Unit → Method (ProcessTemplate S) β}
    {s t : ProcessTemplate S × World} {b : β}
    (h : (if terminal = true then attachConsole ans >>= k else k ()) s = .ok b t) :
    ∃ u, IoOnly s u ∧ k () u = .ok b t := by
  split at h
  · obtain ⟨_, u, hu, hk⟩ := bind_ok.mp h
    exact ⟨u, (keeps_attachConsole ans).returns s () u hu, hk⟩
  · exact ⟨s, refl_of IoOnly s, h⟩

/-- The pid file still holds what the runtime wrote. -/
theorem readPid_spawned {w : World} {s t : ProcessTemplate S × World} {q : Int32}
    (hs : s.2.files = w.files.insert path (World.showPid pid))
    (h : readPid ans path s = .ok q t) : q = pid ∧ t = s := by
  obtain ⟨hfile, ht⟩ := readPid_ok ans h
  have hlookup : s.2.files.lookup path = some (World.showPid pid) := by
    rw [hs, KeyedMap.Map.lookup_insert_eq, if_pos rfl]
  rw [PidFile.pidInFile_of_lookup hlookup] at hfile
  exact ⟨(Except.ok.inj hfile).symm, ht⟩

theorem spawned_of (w : World) (c : Call) :
    World.Spawned path pid w ((w.call c).spawned path pid) :=
  ⟨rfl, rfl, rfl, rfl, rfl⟩

end Spawn

/-! ## Creation -/

theorem createContainer_ok {ans : Answers} {s t : InitProcess × World}
    (h : createContainer ans s = .ok () t) :
    t.1.toRecord = { s.1.toRecord with pid := ans.pid, proc := some s.2.nextProc } ∧
      t.1.id = s.1.id ∧ t.1.lifecycle.bundle = s.1.lifecycle.bundle ∧
      World.Spawned (initPidPath s.1.lifecycle.bundle) ans.pid s.2 t.2 := by
  unfold createContainer at h
  rw [getProcess_bind] at h
  dsimp only at h
  obtain ⟨_, u, hprep, hspawn⟩ := bind_ok.mp h
  have hu := (keeps_prepareIo ans).returns s () u hprep
  have hrest := runtimeSpawn_bind_ok hspawn fun e u hfail => nomatch hfail
  obtain ⟨_, x, hx, hrest⟩ := bind_ok.mp hrest
  obtain ⟨-, rfl⟩ := EStateM.Result.ok.inj hx
  obtain ⟨y, hy, hrest⟩ := attachConsole_ok hrest
  obtain ⟨q, z, hz, hset⟩ := bind_ok.mp hrest
  obtain ⟨rfl, rfl⟩ := readPid_spawned (w := u.2) (by rw [hy.world]; rfl) hz
  obtain ⟨-, rfl⟩ := EStateM.Result.ok.inj hset
  have hrec := hy.record.trans hu.record
  refine ⟨?_, hy.id.trans hu.id, ?_, ?_⟩
  · change { z.1.toRecord with pid := ans.pid, proc := some u.2.nextProc } = _
    rw [hrec, hu.world]
  · have hbundle := congrArg RuncInitLifecycle.bundle (hy.lifecycle.trans hu.lifecycle)
    exact hbundle
  · change World.Spawned _ _ s.2 z.2
    rw [hy.world, ← hu.world]
    exact ⟨rfl, rfl, rfl, rfl, rfl⟩

theorem createContainer_fails {ans : Answers} {p : InitProcess} {w : World}
    {t : InitProcess × World} {e : Error} (h : createContainer ans (p, w) = .error e t) :
    World.Grows {initPidPath p.lifecycle.bundle} w t.2 := by
  unfold createContainer at h
  rw [getProcess_bind] at h
  dsimp only at h
  refine (FailsKeep.of (R := Same {initPidPath p.lifecycle.bundle}) h ?_).world
  refine .bind (keeps_same_of_ioOnly (keeps_prepareIo ans)) fun _ => ?_
  refine .bind (keeps_runtimeSpawn ans _ Same.ofWorld) fun r => ?_
  cases r with
  | error e => exact (Keeps.throw _).fails
  | ok proc =>
    refine .bind (keeps_world Same.ofWorld fun w => ?_) fun _ => ?_
    · exact ⟨rfl, rfl, Nat.le_refl _, Nat.le_refl _, fun _ _ => rfl⟩
    · split
      · exact .bind (keeps_same_of_ioOnly (keeps_attachConsole ans)) fun _ =>
          .bind (keeps_readPid ans _) fun _ => failsKeep_modifyProcess _
      · exact .bind (keeps_readPid ans _) fun _ => failsKeep_modifyProcess _

/-! ## Start -/

theorem RuncInitLifecycle.start_ok {ans : Answers} {s t : InitProcess × World}
    (h : RuncInitLifecycle.start ans s = .ok () t) :
    t = ({ s.1 with toRecord := s.1.toRecord.running }, { s.2.call (.start s.1.id) with
      runtime := s.2.runtime.insert s.1.id .running }) := by
  unfold RuncInitLifecycle.start at h
  rw [getProcess_bind] at h
  have hrest := runtimeCall_bind_ok h fun e u hfail => nomatch hfail
  exact (EStateM.Result.ok.inj hrest).2.symm

theorem RuncInitLifecycle.start_fails (ans : Answers) :
    FailsKeep (Same ∅) (RuncInitLifecycle.start ans) := by
  refine .bind keeps_getProcess fun p => .bind (keeps_runtimeCall ans _ fun w => ?_) fun r => ?_
  · exact ⟨rfl, rfl, Nat.le_refl _, Nat.le_refl _, fun _ _ => rfl⟩
  · cases r with
    | error e => exact (Keeps.throw _).fails
    | ok _ => exact failsKeep_modifyProcess _

theorem RuncExecLifecycle.startExec_ok {ans : Answers} {s t : ExecProcess × World}
    (h : RuncExecLifecycle.startExec ans s = .ok () t) :
    t.1.toRecord = s.1.toRecord.spawned ans.pid s.2.nextProc ∧
      t.1.id = s.1.id ∧ t.1.lifecycle = s.1.lifecycle ∧
      World.Spawned (execPidPath s.1.lifecycle.bundle s.1.id) ans.pid s.2 t.2 := by
  unfold RuncExecLifecycle.startExec at h
  rw [getProcess_bind] at h
  dsimp only at h
  obtain ⟨_, u, hprep, hspawn⟩ := bind_ok.mp h
  have hu := (keeps_prepareIo ans).returns s () u hprep
  have hrest := runtimeSpawn_bind_ok hspawn fun e u hfail => nomatch hfail
  obtain ⟨y, hy, hrest⟩ := attachConsole_ok hrest
  obtain ⟨q, z, hz, hset⟩ := bind_ok.mp hrest
  obtain ⟨rfl, rfl⟩ := readPid_spawned (w := u.2) (by rw [hy.world]; rfl) hz
  obtain ⟨-, rfl⟩ := EStateM.Result.ok.inj hset
  have hrec := hy.record.trans hu.record
  refine ⟨?_, hy.id.trans hu.id, hy.lifecycle.trans hu.lifecycle, ?_⟩
  · change z.1.toRecord.spawned ans.pid u.2.nextProc = _
    rw [hrec, hu.world]
  · change World.Spawned _ _ s.2 z.2
    rw [hy.world, ← hu.world]
    exact spawned_of u.2 _

theorem RuncExecLifecycle.startExec_fails {ans : Answers} {p : ExecProcess} {w : World}
    {t : ExecProcess × World} {e : Error}
    (h : RuncExecLifecycle.startExec ans (p, w) = .error e t) :
    Same {execPidPath p.lifecycle.bundle p.id} (p, w) t := by
  unfold RuncExecLifecycle.startExec at h
  rw [getProcess_bind] at h
  dsimp only at h
  apply FailsKeep.of h
  refine .bind (keeps_same_of_ioOnly (keeps_prepareIo ans)) fun _ => ?_
  refine .bind (keeps_runtimeSpawn ans _ Same.ofWorld) fun r => ?_
  cases r with
  | error e => exact (Keeps.throw _).fails
  | ok proc =>
    dsimp only
    split
    · exact .bind (keeps_same_of_ioOnly (keeps_attachConsole ans)) fun _ =>
        .bind (keeps_readPid ans _) fun _ => failsKeep_modifyProcess _
    · exact .bind (keeps_readPid ans _) fun _ => failsKeep_modifyProcess _

theorem RuncExecLifecycle.start_ok {ans : Answers} {s t : ExecProcess × World}
    (h : RuncExecLifecycle.start ans s = .ok () t) :
    RuncExecLifecycle.startExec ans s = .ok () t := by
  unfold RuncExecLifecycle.start at h
  split at h
  · next heq => rw [heq, h]
  · cases h

/-- The io tasks are renewed on an error, which the record does not show. -/
theorem RuncExecLifecycle.start_fails {ans : Answers} {p : ExecProcess} {w : World}
    {t : ExecProcess × World} {e : Error} (h : RuncExecLifecycle.start ans (p, w) = .error e t) :
    Same {execPidPath p.lifecycle.bundle p.id} (p, w) t := by
  unfold RuncExecLifecycle.start at h
  split at h
  · cases h
  · next heq =>
    obtain ⟨rfl, rfl⟩ := EStateM.Result.error.inj h
    have hsame := RuncExecLifecycle.startExec_fails heq
    exact ⟨hsame.record, hsame.id, hsame.lifecycle, hsame.world⟩

/-! ## Pause and resume -/

theorem RuncInitLifecycle.pause_ok {ans : Answers} {s t : InitProcess × World}
    (h : RuncInitLifecycle.pause ans s = .ok () t) :
    s.1.state = .running ∧
      t = ({ s.1 with toRecord := s.1.toRecord.paused }, s.2.call (.pause s.1.id)) := by
  unfold RuncInitLifecycle.pause at h
  rw [getProcess_bind] at h
  split at h
  · next hst =>
    refine ⟨hst, ?_⟩
    obtain ⟨_, u, hset, hrest⟩ := bind_ok.mp h
    obtain ⟨-, rfl⟩ := EStateM.Result.ok.inj hset
    have hrest := runtimeCall_bind_ok hrest fun e u hfail => nomatch hfail
    exact (EStateM.Result.ok.inj hrest).2.symm
  · cases h

/-- PAUSING is undone before the error is returned. -/
theorem RuncInitLifecycle.pause_fails {ans : Answers} {s t : InitProcess × World} {e : Error}
    (h : RuncInitLifecycle.pause ans s = .error e t) : Same ∅ s t := by
  unfold RuncInitLifecycle.pause at h
  rw [getProcess_bind] at h
  split at h
  · next hst =>
    rcases bind_error.mp h with hset | ⟨_, u, hset, hrest⟩
    · cases hset
    · obtain ⟨-, rfl⟩ := EStateM.Result.ok.inj hset
      rcases bind_error.mp hrest with hcall | ⟨r, v, hcall, hrest⟩
      · cases hrt : ans.runtime with
        | some e =>
          rw [runtimeCall_some ans _ hrt] at hcall
          cases hcall
        | none =>
          rw [runtimeCall_none ans _ hrt] at hcall
          cases hcall
      · cases hrt : ans.runtime with
        | some e =>
          rw [runtimeCall_some ans _ hrt] at hcall
          obtain ⟨rfl, rfl⟩ := EStateM.Result.ok.inj hcall
          obtain ⟨-, rfl⟩ := EStateM.Result.error.inj hrest
          have hrec : { s.1.toRecord with state := .running } = s.1.toRecord := by rw [← hst]
          exact ⟨hrec, rfl, rfl, .call s.2 _⟩
        | none =>
          rw [runtimeCall_none ans _ hrt] at hcall
          obtain ⟨rfl, rfl⟩ := EStateM.Result.ok.inj hcall
          cases hrest
  · obtain ⟨-, rfl⟩ := EStateM.Result.error.inj h
    exact refl_of (Same ∅) s

theorem RuncInitLifecycle.resume_ok {ans : Answers} {s t : InitProcess × World}
    (h : RuncInitLifecycle.resume ans s = .ok () t) :
    s.1.state = .paused ∧
      t = ({ s.1 with toRecord := s.1.toRecord.running }, s.2.call (.resume s.1.id)) := by
  unfold RuncInitLifecycle.resume at h
  rw [getProcess_bind] at h
  split at h
  · next hst =>
    refine ⟨hst, ?_⟩
    have hrest := runtimeCall_bind_ok h fun e u hfail => nomatch hfail
    exact (EStateM.Result.ok.inj hrest).2.symm
  · cases h

theorem RuncInitLifecycle.resume_fails (ans : Answers) :
    FailsKeep (Same ∅) (RuncInitLifecycle.resume ans) := by
  refine .bind keeps_getProcess fun p => ?_
  split
  · refine .bind (keeps_runtimeCall ans _ fun w => .refl w) fun r => ?_
    cases r with
    | error e => exact (Keeps.throw _).fails
    | ok _ => exact failsKeep_modifyProcess _
  · exact (Keeps.throw _).fails

/-! ## Methods that keep the record -/

theorem RuncInitLifecycle.keeps_kill (ans : Answers) (signal : UInt32) (all : Bool) :
    Keeps (Same ∅) (RuncInitLifecycle.kill ans signal all) := by
  refine .bind keeps_getProcess fun p => ?_
  refine .bind (keeps_runtimeCall ans _ fun w => .refl w) fun r => ?_
  cases r with
  | error e => exact .throw _
  | ok _ => exact .pure _

theorem RuncInitLifecycle.keeps_delete (ans : Answers) :
    Keeps (Same ∅) (RuncInitLifecycle.delete ans) := by
  refine .bind keeps_getProcess fun p => ?_
  refine .bind (keeps_runtimeCall ans _ fun w => World.Steady.grows ⟨rfl, rfl, rfl, rfl, rfl⟩)
    fun r => ?_
  have hrest : Keeps (Same ∅) (answered ans.umount >>= fun _ =>
      modifyWorld (P := InitProcess) (·.umountRootfs (joinPath p.lifecycle.bundle "rootfs"))) :=
    .bind (keeps_answered _) fun _ =>
      keeps_world Same.ofWorld fun w => World.Steady.grows ⟨rfl, rfl, rfl, rfl, rfl⟩
  cases r with
  | ok _ => exact hrest
  | error e =>
    dsimp only
    split
    · exact .bind (.throw _) fun _ => hrest
    · exact hrest

theorem RuncInitLifecycle.keeps_onCgroup {α : Type} (ans : Answers) (what : String)
    {m : Method InitProcess α} (hm : Keeps (Same ∅) m) :
    Keeps (Same ∅) (RuncInitLifecycle.onCgroup ans what m) := by
  refine .bind keeps_getProcess fun p => ?_
  split
  · exact .throw _
  · split
    · exact .throw _
    · split
      · exact .throw _
      · exact hm

theorem RuncInitLifecycle.keeps_update (ans : Answers) :
    Keeps (Same ∅) (RuncInitLifecycle.update ans) :=
  keeps_onCgroup ans _ (keeps_answered _)

theorem RuncInitLifecycle.keeps_stats (ans : Answers) :
    Keeps (Same ∅) (RuncInitLifecycle.stats ans) :=
  keeps_onCgroup ans _ (keeps_ofExcept _)

theorem RuncInitLifecycle.keeps_ps (ans : Answers) :
    Keeps (Same ∅) (RuncInitLifecycle.ps ans) := by
  refine .bind keeps_getProcess fun p => ?_
  refine .bind (keeps_runtimeCall ans _ fun w => .refl w) fun r => ?_
  cases r with
  | error e => exact .throw _
  | ok _ => exact .pure _

theorem RuncExecLifecycle.keeps_kill (ans : Answers) (signal : UInt32) (all : Bool) :
    Keeps (Same ∅) (RuncExecLifecycle.kill ans signal all) := by
  refine .bind keeps_getProcess fun p => ?_
  split
  · exact .throw _
  · split
    · exact .throw _
    · split
      · exact .throw _
      · refine .bind (keeps_world Same.ofWorld fun w => .call w _) fun _ => ?_
        split
        · exact .pure _
        · exact .throw _
        · split
          · exact .pure _
          · exact .throw _

theorem RuncExecLifecycle.delete_ok {ans : Answers} {p : ExecProcess} {w : World}
    {t : ExecProcess × World} (h : RuncExecLifecycle.delete ans (p, w) = .ok () t) :
    t.1 = p ∧ (t.2 = w ∨ t.2 = w.removeFile (execPidPath p.lifecycle.bundle p.id)) := by
  unfold RuncExecLifecycle.delete at h
  rw [getProcess_bind] at h
  split at h
  · obtain ⟨-, rfl⟩ := EStateM.Result.ok.inj h
    exact ⟨rfl, Or.inr rfl⟩
  · obtain ⟨-, rfl⟩ := EStateM.Result.ok.inj h
    exact ⟨rfl, Or.inl rfl⟩

theorem RuncExecLifecycle.delete_returns {ans : Answers} {s t : ExecProcess × World} {e : Error} :
    RuncExecLifecycle.delete ans s ≠ .error e t := by
  intro h
  unfold RuncExecLifecycle.delete at h
  rw [getProcess_bind] at h
  split at h <;> cases h

end RustExtensions.RuncShim
