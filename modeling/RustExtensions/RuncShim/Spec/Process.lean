import Mathlib.Data.Set.Basic
import RustExtensions.RuncShim.PidFile

/-!
# What the methods of a process leave behind

For each method, what a normal return wrote, and that an error return leaves
the record of the process alone. `Grows` is the part of the world that later
sections rely on.
-/
namespace RustExtensions.RuncShim

open RustExtensions.Shim
open RustExtensions.Fallible
open RustExtensions.KeyedMap (Map)

/-- The same wait channels; names may be used up, and the files at `paths` written. -/
structure World.Grows (paths : Set String) (w w' : World) : Prop where
  openTx : w'.openTx = w.openTx
  nextSerial : w'.nextSerial = w.nextSerial
  nextInst : w.nextInst ≤ w'.nextInst
  nextProc : w.nextProc ≤ w'.nextProc
  files : ∀ q ∉ paths, w'.files.lookup q = w.files.lookup q

namespace World.Grows

variable {paths paths' : Set String} {w w' w'' : World}

theorem refl (w : World) : Grows paths w w :=
  ⟨rfl, rfl, Nat.le_refl _, Nat.le_refl _, fun _ _ => rfl⟩

theorem trans (h : Grows paths w w') (h' : Grows paths w' w'') : Grows paths w w'' where
  openTx := h'.openTx.trans h.openTx
  nextSerial := h'.nextSerial.trans h.nextSerial
  nextInst := h.nextInst.trans h'.nextInst
  nextProc := h.nextProc.trans h'.nextProc
  files q hq := (h'.files q hq).trans (h.files q hq)

theorem mono (hp : paths ⊆ paths') (h : Grows paths w w') : Grows paths' w w' where
  __ := h
  files q hq := h.files q fun hq' => hq (hp hq')

theorem call (w : World) (c : Call) : Grows paths w (w.call c) :=
  ⟨rfl, rfl, Nat.le_refl _, Nat.le_refl _, fun _ _ => rfl⟩

theorem writeFile (w : World) (path s : String) : Grows {path} w (w.writeFile path s) where
  openTx := rfl
  nextSerial := rfl
  nextInst := Nat.le_refl _
  nextProc := Nat.le_refl _
  files q hq := (KeyedMap.Map.lookup_insert_eq w.files path q s).trans (if_neg hq)

theorem removeFile (w : World) (path : String) : Grows {path} w (w.removeFile path) where
  openTx := rfl
  nextSerial := rfl
  nextInst := Nat.le_refl _
  nextProc := Nat.le_refl _
  files q hq := (KeyedMap.Map.lookup_erase_eq w.files path q).trans (if_neg hq)

theorem spawned (w : World) (path : String) (pid : Int32) :
    Grows {path} w (w.spawned path pid) where
  __ := writeFile w path (showPid pid)
  nextProc := Nat.le_succ _

theorem failedSpawn (w : World) (path : String) (left : Option String) :
    Grows {path} w (w.failedSpawn path left) := by
  cases left with
  | none => exact refl w
  | some s => exact writeFile w path s

end World.Grows

/-! ## Primitives -/

section Primitives
variable {ε P : Type} {R : P × World → P × World → Prop}

theorem keeps_getProcess [Std.Refl R] : Keeps R (getProcess (ε := ε)) where
  returns s _ t h := by
    obtain ⟨-, rfl⟩ := EStateM.Result.ok.inj h
    exact refl_of R s
  fails _ _ _ h := nomatch h

theorem keeps_getWorld [Std.Refl R] : Keeps R (getWorld (ε := ε)) where
  returns s _ t h := by
    obtain ⟨-, rfl⟩ := EStateM.Result.ok.inj h
    exact refl_of R s
  fails _ _ _ h := nomatch h

theorem keeps_modifyProcess {f : P → P} (hf : ∀ p w, R (p, w) (f p, w)) :
    Keeps R (modifyProcess (ε := ε) f) where
  returns s _ t h := by
    obtain ⟨-, rfl⟩ := EStateM.Result.ok.inj h
    exact hf s.1 s.2
  fails _ _ _ h := nomatch h

theorem keeps_modifyWorld {f : World → World} (hf : ∀ p w, R (p, w) (p, f w)) :
    Keeps R (modifyWorld (ε := ε) f) where
  returns s _ t h := by
    obtain ⟨-, rfl⟩ := EStateM.Result.ok.inj h
    exact hf s.1 s.2
  fails _ _ _ h := nomatch h

theorem getProcess_bind {β : Type} (f : P → EStateM ε (P × World) β) (s : P × World) :
    (getProcess >>= f) s = f s.1 s := rfl

end Primitives

section Answers
variable {ε σ α : Type} {R : σ → σ → Prop} [Std.Refl R]

theorem keeps_ofExcept (x : Except ε α) : Keeps R (ofExcept x) := by
  cases x with
  | error e => exact .throw e
  | ok a => exact .pure a

theorem keeps_answered (e : Option Error) : Keeps R (answered e) := by
  cases e with
  | none => exact .pure ()
  | some e => exact .throw e

theorem answered_ok {e : Option Error} {s t : σ} (h : answered e s = .ok () t) : t = s := by
  cases e with
  | none => exact (EStateM.Result.ok.inj h).2.symm
  | some e => cases h

theorem answered_error {e : Option Error} {s t : σ} {err : Error}
    (h : answered e s = .error err t) : t = s := by
  cases e with
  | none => cases h
  | some e => exact (EStateM.Result.error.inj h).2.symm

theorem ofExcept_ok {x : Except ε α} {a : α} {s t : σ} (h : ofExcept x s = .ok a t) :
    x = .ok a ∧ t = s := by
  cases x with
  | error e => cases h
  | ok b =>
    obtain ⟨rfl, rfl⟩ := EStateM.Result.ok.inj h
    exact ⟨rfl, rfl⟩

end Answers

/-! ## Stdio -/

/-- Only the io of the process and its console may differ. -/
structure IoOnly {S : Type} (s t : ProcessTemplate S × World) : Prop where
  record : t.1.toRecord = s.1.toRecord
  id : t.1.id = s.1.id
  lifecycle : t.1.lifecycle = s.1.lifecycle
  world : t.2 = s.2

instance {S : Type} : Std.Refl (IoOnly (S := S)) where
  refl _ := ⟨rfl, rfl, rfl, rfl⟩

instance {S : Type} : IsTrans (ProcessTemplate S × World) IoOnly where
  trans _ _ _ h h' := ⟨h'.record.trans h.record, h'.id.trans h.id,
    h'.lifecycle.trans h.lifecycle, h'.world.trans h.world⟩

section Stdio
variable {S : Type} {R : ProcessTemplate S × World → ProcessTemplate S × World → Prop}
  [Std.Refl R] [IsTrans (ProcessTemplate S × World) R] (ans : Answers)

omit [IsTrans (ProcessTemplate S × World) R] in
theorem keeps_needPipe (has : Bool) (name : String) : Keeps R (needPipe has name) := by
  unfold needPipe
  split
  · exact .pure ()
  · exact .throw _

theorem keeps_createIo (stdio : Stdio) : Keeps R (createIo ans stdio) := by
  unfold createIo
  split
  · exact .bind (keeps_answered _) fun _ => .pure _
  · dsimp only
    split
    · exact .bind (keeps_answered _) fun _ => .pure _
    · exact .pure _

/-- What is left of `copy_io` once stdin is copied. -/
theorem keeps_copyOutputs (io : Io) (stdio : Stdio) :
    Keeps R (if stdio.stdout ≠ "" then
      needPipe io.stdout "stdout" >>= fun _ => answered ans.openStdout >>= fun _ =>
        if stdio.stderr ≠ "" then
          needPipe io.stderr "stderr" >>= fun _ => answered ans.openStderr
        else pure ()
      else if stdio.stderr ≠ "" then
        needPipe io.stderr "stderr" >>= fun _ => answered ans.openStderr
      else pure () : Method (ProcessTemplate S) Unit) := by
  have hstderr : Keeps R (if stdio.stderr ≠ "" then
      needPipe io.stderr "stderr" >>= fun _ => answered ans.openStderr
      else pure () : Method (ProcessTemplate S) Unit) := by
    split
    · exact .bind (keeps_needPipe _ _) fun _ => keeps_answered _
    · exact .pure ()
  split
  · exact .bind (keeps_needPipe _ _) fun _ => .bind (keeps_answered _) fun _ => hstderr
  · exact hstderr

theorem keeps_copyIo {pio : Option Io} (hstdin : pio.isSome → Keeps R (copyStdin ans))
    (stdio : Stdio) : Keeps R (copyIo ans pio stdio) := by
  cases pio with
  | none => exact .pure ()
  | some io =>
    unfold copyIo
    dsimp only
    split
    · exact .bind (keeps_needPipe _ _) fun _ => .bind (hstdin rfl) fun _ =>
        keeps_copyOutputs ans io stdio
    · exact keeps_copyOutputs ans io stdio

/-- What is left of `copy_console` once stdin is copied. -/
theorem keeps_copyTerminal (console : Fd) (stdio : Stdio) :
    Keeps R (if stdio.stdout ≠ "" then answered ans.openStdout >>= fun _ => pure console
      else pure console : Method (ProcessTemplate S) Fd) := by
  split
  · exact .bind (keeps_answered _) fun _ => .pure _
  · exact .pure _

theorem keeps_copyConsole (hstdin : Keeps R (copyStdin ans)) (stdio : Stdio) :
    Keeps R (copyConsole ans stdio) := by
  refine .bind (keeps_ofExcept _) fun console => ?_
  dsimp only
  split
  · exact .bind hstdin fun _ => keeps_copyTerminal ans console stdio
  · exact keeps_copyTerminal ans console stdio

theorem keeps_copyStdin : Keeps IoOnly (copyStdin ans (S := S)) := by
  refine .bind (keeps_answered _) fun _ => ?_
  exact keeps_modifyProcess fun _ _ => ⟨rfl, rfl, rfl, rfl⟩

theorem keeps_attachConsole : Keeps IoOnly (attachConsole ans (S := S)) := by
  refine .bind keeps_getProcess fun p =>
    .bind (keeps_copyConsole ans (keeps_copyStdin ans) p.stdio) fun console => ?_
  exact keeps_modifyProcess fun _ _ => ⟨rfl, rfl, rfl, rfl⟩

theorem keeps_prepareIo : Keeps IoOnly (prepareIo ans (S := S)) := by
  refine .bind keeps_getProcess fun p => ?_
  split
  · exact keeps_answered _
  · exact .bind (keeps_createIo ans _) fun pio => keeps_copyIo ans (fun _ => keeps_copyStdin ans) _

end Stdio

/-! ## Frames -/

/-- The record stands as it was, and the world has only grown. -/
structure Same {S : Type} (paths : Set String) (s t : ProcessTemplate S × World) : Prop where
  record : t.1.toRecord = s.1.toRecord
  id : t.1.id = s.1.id
  lifecycle : t.1.lifecycle = s.1.lifecycle
  world : World.Grows paths s.2 t.2

section Frames
variable {S : Type} {paths paths' : Set String} {s t : ProcessTemplate S × World}

instance : Std.Refl (Same (S := S) paths) where
  refl s := ⟨rfl, rfl, rfl, .refl s.2⟩

instance : IsTrans (ProcessTemplate S × World) (Same paths) where
  trans _ _ _ h h' := ⟨h'.record.trans h.record, h'.id.trans h.id,
    h'.lifecycle.trans h.lifecycle, h.world.trans h'.world⟩

theorem Same.mono (hp : paths ⊆ paths') (h : Same paths s t) : Same paths' s t :=
  { h with world := h.world.mono hp }

theorem IoOnly.same (h : IoOnly s t) : Same paths s t :=
  ⟨h.record, h.id, h.lifecycle, by rw [h.world]; exact .refl s.2⟩

theorem keeps_same_of_ioOnly {α : Type} {m : Method (ProcessTemplate S) α}
    (h : Keeps IoOnly m) : Keeps (Same paths) m where
  returns s a t hm := (h.returns s a t hm).same
  fails s e t hm := (h.fails s e t hm).same

theorem keeps_world {ε P : Type} {R : P × World → P × World → Prop} {f : World → World}
    (hR : ∀ p w w', World.Grows paths w w' → R (p, w) (p, w'))
    (hf : ∀ w, World.Grows paths w (f w)) : Keeps R (modifyWorld (ε := ε) f) :=
  keeps_modifyWorld fun p w => hR p w (f w) (hf w)

theorem Same.ofWorld (p : ProcessTemplate S) (w w' : World) (h : World.Grows paths w w') :
    Same paths (p, w) (p, w') := ⟨rfl, rfl, rfl, h⟩

end Frames

/-! ## Runtime calls -/

section Calls
variable {P : Type} (ans : Answers) (c : Call)

theorem runtimeSpawn_none (h : ans.runtime = none) (path : String) (s : P × World) :
    runtimeSpawn ans c path s =
      .ok (.ok s.2.nextProc) (s.1, (s.2.call c).spawned path ans.pid) := by
  simp only [runtimeSpawn, h]
  rfl

theorem runtimeSpawn_some {e : String} (h : ans.runtime = some e) (path : String)
    (s : P × World) :
    runtimeSpawn ans c path s =
      .ok (.error e) (s.1, (s.2.call c).failedSpawn path ans.leftInPidFile) := by
  simp only [runtimeSpawn, h]
  rfl

theorem runtimeCall_none (h : ans.runtime = none) (onOk : World → World) (s : P × World) :
    runtimeCall ans c onOk s = .ok (.ok ()) (s.1, onOk (s.2.call c)) := by
  simp only [runtimeCall, h]
  rfl

theorem runtimeCall_some {e : String} (h : ans.runtime = some e) (onOk : World → World)
    (s : P × World) : runtimeCall ans c onOk s = .ok (.error e) (s.1, s.2.call c) := by
  simp only [runtimeCall, h]
  rfl

variable {ans c} {α : Type} {s t : P × World} {a : α}

/-- A method that gives up where the runtime fails went on from a process that was spawned. -/
theorem runtimeSpawn_bind_ok {path : String} {f : Except String Nat → Method P α}
    (h : (runtimeSpawn ans c path >>= f) s = .ok a t) (hfail : ∀ e u, f (.error e) u ≠ .ok a t) :
    f (.ok s.2.nextProc) (s.1, (s.2.call c).spawned path ans.pid) = .ok a t := by
  obtain ⟨r, v, hspawn, hrest⟩ := bind_ok.mp h
  cases hrt : ans.runtime with
  | some e =>
    rw [runtimeSpawn_some ans c hrt] at hspawn
    obtain ⟨rfl, rfl⟩ := EStateM.Result.ok.inj hspawn
    exact absurd hrest (hfail e _)
  | none =>
    rw [runtimeSpawn_none ans c hrt] at hspawn
    obtain ⟨rfl, rfl⟩ := EStateM.Result.ok.inj hspawn
    exact hrest

/-- And from a call that was made. -/
theorem runtimeCall_bind_ok {onOk : World → World} {f : Except String Unit → Method P α}
    (h : (runtimeCall ans c onOk >>= f) s = .ok a t) (hfail : ∀ e u, f (.error e) u ≠ .ok a t) :
    f (.ok ()) (s.1, onOk (s.2.call c)) = .ok a t := by
  obtain ⟨r, v, hcall, hrest⟩ := bind_ok.mp h
  cases hrt : ans.runtime with
  | some e =>
    rw [runtimeCall_some ans c hrt] at hcall
    obtain ⟨rfl, rfl⟩ := EStateM.Result.ok.inj hcall
    exact absurd hrest (hfail e _)
  | none =>
    rw [runtimeCall_none ans c hrt] at hcall
    obtain ⟨rfl, rfl⟩ := EStateM.Result.ok.inj hcall
    exact hrest

variable (ans c)

theorem keeps_runtimeSpawn {R : P × World → P × World → Prop} [Std.Refl R]
    [IsTrans (P × World) R] {path : String}
    (hR : ∀ p w w', World.Grows {path} w w' → R (p, w) (p, w')) :
    Keeps R (runtimeSpawn ans c path) := by
  refine .bind (keeps_world hR fun w => .mono (Set.empty_subset _) (.call w c)) fun _ => ?_
  cases ans.runtime with
  | none =>
    refine .bind keeps_getWorld fun w => .bind ?_ fun _ => .pure _
    exact keeps_world hR fun w => .spawned w path ans.pid
  | some e =>
    refine .bind ?_ fun _ => .pure _
    exact keeps_world hR fun w => .failedSpawn w path ans.leftInPidFile

theorem keeps_runtimeCall {S : Type} {onOk : World → World}
    (hok : ∀ w, World.Grows ∅ w (onOk w)) :
    Keeps (Same (S := S) ∅) (runtimeCall ans c onOk) := by
  refine .bind (keeps_world Same.ofWorld fun w => .call w c) fun _ => ?_
  cases ans.runtime with
  | none => exact .bind (keeps_world Same.ofWorld hok) fun _ => .pure _
  | some e => exact .pure _

theorem readPid_ok {path : String} {s t : P × World} {pid : Int32}
    (h : readPid ans path s = .ok pid t) : pidInFile s.2.files path = .ok pid ∧ t = s := by
  obtain ⟨_, u, hans, hread⟩ := bind_ok.mp h
  obtain rfl := answered_ok hans
  exact ofExcept_ok hread

theorem keeps_readPid {R : P × World → P × World → Prop} [Std.Refl R] [IsTrans (P × World) R]
    (path : String) : Keeps R (readPid ans path) :=
  .bind (keeps_answered _) fun _ => .bind keeps_getWorld fun _ => keeps_ofExcept _

end Calls
end RustExtensions.RuncShim
