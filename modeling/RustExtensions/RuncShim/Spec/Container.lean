import RustExtensions.RuncShim.Container
import RustExtensions.RuncShim.Spec.Lifecycle

/-!
# What the operations of a container leave behind

A container shows an entry for its init process and one for each exec. Each
operation changes the entry it addresses, if any, and nothing else.
-/
namespace RustExtensions.RuncShim

open RustExtensions.Shim
open RustExtensions.Fallible
open RustExtensions.KeyedMap (Map)

def ProcessTemplate.slot {S : Type} (bundle : S → String) (p : ProcessTemplate S) : Slot where
  toRecord := p.toRecord
  id := p.id
  bundle := bundle p.lifecycle

namespace Container

variable {α : Type}

/-- The entries of a container, by exec id. -/
def slot (c : Container) : Option String → Option Slot
  | none => some (c.init.slot RuncInitLifecycle.bundle)
  | some e => (c.processes.lookup e).map (ProcessTemplate.slot RuncExecLifecycle.bundle)

theorem record_eq (c : Container) (execId : Option String) :
    c.record execId = (c.slot execId).map (·.toRecord) := by
  cases execId with
  | none => rfl
  | some e => simp only [record, slot, Option.map_map]; rfl

theorem mem_senders (c : Container) (rx : Channel) :
    rx ∈ c.senders ↔ ∃ execId r, c.slot execId = some r ∧ rx ∈ r.waitChanTx := by
  simp only [senders, List.mem_append, List.mem_flatMap]
  constructor
  · rintro (h | ⟨⟨e, p⟩, hp, h⟩)
    · exact ⟨none, _, rfl, h⟩
    · refine ⟨some e, p.slot RuncExecLifecycle.bundle, ?_, h⟩
      simp only [slot]
      rw [AList.mem_lookup_iff.mpr hp]
      rfl
  · intro hexists
    obtain ⟨execId, r, hr, h⟩ := hexists
    cases execId with
    | none =>
      obtain rfl := Option.some.inj hr
      exact Or.inl h
    | some e =>
      obtain ⟨p, hp, rfl⟩ := Option.map_eq_some_iff.mp hr
      exact Or.inr ⟨⟨e, p⟩, AList.mem_lookup_iff.mp hp, h⟩

/-! ## Writing entries -/

section Writes
variable (c : Container) (e : String)

theorem slot_withInit (p : InitProcess) :
    ({ c with init := p } : Container).slot =
      Function.update c.slot none (some (p.slot RuncInitLifecycle.bundle)) := by
  funext k
  cases k with
  | none => rfl
  | some e => exact (Function.update_of_ne (by simp) _ _).symm

theorem slot_insert (p : ExecProcess) :
    ({ c with processes := c.processes.insert e p } : Container).slot =
      Function.update c.slot (some e) (some (p.slot RuncExecLifecycle.bundle)) := by
  funext k
  cases k with
  | none => exact (Function.update_of_ne (by simp) _ _).symm
  | some e' =>
    simp only [slot]
    rw [KeyedMap.Map.lookup_insert_eq]
    by_cases he : e' = e
    · subst he
      rw [if_pos rfl, Function.update_self, Option.map_some]
    · rw [if_neg he, Function.update_of_ne (by simpa using he)]
      rfl

theorem slot_erase :
    ({ c with processes := c.processes.erase e } : Container).slot =
      Function.update c.slot (some e) none := by
  funext k
  cases k with
  | none => exact (Function.update_of_ne (by simp) _ _).symm
  | some e' =>
    simp only [slot]
    rw [KeyedMap.Map.lookup_erase_eq]
    by_cases he : e' = e
    · subst he
      rw [if_pos rfl, Function.update_self, Option.map_none]
    · rw [if_neg he, Function.update_of_ne (by simpa using he)]
      rfl

end Writes

/-! ## Frames -/

/-- Every entry stands as it was, and the world has only grown. -/
structure Still (paths : Set String) (s t : Container × World) : Prop where
  slot : t.1.slot = s.1.slot
  world : World.Grows paths s.2 t.2

variable {paths : Set String} {s t : Container × World}

instance : Std.Refl (Still paths) where
  refl s := ⟨rfl, .refl s.2⟩

instance : IsTrans (Container × World) (Still paths) where
  trans _ _ _ h h' := ⟨h'.slot.trans h.slot, h.world.trans h'.world⟩

private theorem still_onInit {p : InitProcess × World} (h : Same paths (s.1.init, s.2) p) :
    Still paths s ({ s.1 with init := p.1 }, p.2) := by
  refine ⟨?_, h.world⟩
  have hslot : p.1.slot RuncInitLifecycle.bundle = s.1.init.slot RuncInitLifecycle.bundle := by
    simp only [ProcessTemplate.slot, h.record, h.id, h.lifecycle]
  rw [slot_withInit, hslot]
  exact Function.update_eq_self none s.1.slot

private theorem still_onExec {e : String} {q : ExecProcess} {p : ExecProcess × World}
    (hq : s.1.processes.lookup e = some q) (h : Same paths (q, s.2) p) :
    Still paths s ({ s.1 with processes := s.1.processes.insert e p.1 }, p.2) := by
  refine ⟨?_, h.world⟩
  have hslot : some (p.1.slot RuncExecLifecycle.bundle) = s.1.slot (some e) := by
    simp only [slot, hq, ProcessTemplate.slot, h.record, h.id, h.lifecycle, Option.map_some]
  rw [slot_insert, hslot]
  exact Function.update_eq_self (some e) s.1.slot

theorem onInit_ok {m : Method InitProcess α} {a : α} (h : onInit m s = .ok a t) :
    ∃ q, m (s.1.init, s.2) = .ok a q ∧ t = ({ s.1 with init := q.1 }, q.2) := by
  obtain ⟨q, hq, rfl⟩ := zoom_ok.mp h
  exact ⟨q, hq, rfl⟩

theorem onInit_error {m : Method InitProcess α} {e : Error} (h : onInit m s = .error e t) :
    ∃ q, m (s.1.init, s.2) = .error e q ∧ t = ({ s.1 with init := q.1 }, q.2) := by
  obtain ⟨q, hq, rfl⟩ := zoom_error.mp h
  exact ⟨q, hq, rfl⟩

theorem keeps_onInit {m : Method InitProcess α} (hm : Keeps (Same paths) m) :
    Keeps (Still paths) (onInit m) where
  returns s a t h := by
    obtain ⟨p, hp, rfl⟩ := onInit_ok h
    exact still_onInit (hm.returns _ a p hp)
  fails s e t h := by
    obtain ⟨p, hp, rfl⟩ := onInit_error h
    exact still_onInit (hm.fails _ e p hp)

theorem onExec_ok {e : String} {missing : Error} {m : Method ExecProcess α} {a : α}
    (h : onExec e missing m s = .ok a t) : ∃ p q, s.1.processes.lookup e = some p ∧
      m (p, s.2) = .ok a q ∧ t = ({ s.1 with processes := s.1.processes.insert e q.1 }, q.2) := by
  unfold onExec at h
  split at h
  · cases h
  · next p hp =>
    obtain ⟨q, hq, rfl⟩ := zoom_ok.mp h
    exact ⟨p, q, hp, hq, rfl⟩

theorem onExec_error {e : String} {missing err : Error} {m : Method ExecProcess α}
    (h : onExec e missing m s = .error err t) : t = s ∨ ∃ p q, s.1.processes.lookup e = some p ∧
      m (p, s.2) = .error err q ∧
      t = ({ s.1 with processes := s.1.processes.insert e q.1 }, q.2) := by
  unfold onExec at h
  split at h
  · obtain ⟨-, rfl⟩ := EStateM.Result.error.inj h
    exact Or.inl rfl
  · next p hp =>
    obtain ⟨q, hq, rfl⟩ := zoom_error.mp h
    exact Or.inr ⟨p, q, hp, hq, rfl⟩

theorem keeps_onExec {e : String} {missing : Error} {m : Method ExecProcess α}
    (hm : Keeps (Same paths) m) : Keeps (Still paths) (onExec e missing m) where
  returns s a t h := by
    obtain ⟨p, q, hp, hq, rfl⟩ := onExec_ok h
    exact still_onExec hp (hm.returns _ a q hq)
  fails s err t h := by
    rcases onExec_error h with rfl | ⟨p, q, hp, hq, rfl⟩
    · exact refl_of (Still paths) t
    · exact still_onExec hp (hm.fails _ err q hq)

theorem keeps_dispatch {execId : Option String} {missing : String → Error} {m : ProcessMethod α}
    (hi : Keeps (Same paths) (m RuncInitLifecycle))
    (he : Keeps (Same paths) (m RuncExecLifecycle)) :
    Keeps (Still paths) (dispatch execId missing m) := by
  cases execId with
  | none => exact keeps_onInit hi
  | some e => exact keeps_onExec he

/-- What a method does to the record it is given, the operation does to the entry. -/
theorem dispatch_ok {execId : Option String} {missing : String → Error} {m : ProcessMethod α}
    {R : Record × World → Record × World → α → Prop} {a : α}
    (hm : ∀ (S : Type) [ProcessLifecycle S] (p q : ProcessTemplate S × World) (a : α),
      m S p = .ok a q → q.1.id = p.1.id ∧ q.1.lifecycle = p.1.lifecycle ∧
        R (p.1.toRecord, p.2) (q.1.toRecord, q.2) a)
    (h : dispatch execId missing m s = .ok a t) :
    ∃ r record, s.1.slot execId = some r ∧ R (r.toRecord, s.2) (record, t.2) a ∧
      t.1.slot = Function.update s.1.slot execId (some { r with toRecord := record }) := by
  cases execId with
  | none =>
    obtain ⟨q, hq, rfl⟩ := onInit_ok h
    obtain ⟨hid, hlife, hR⟩ := hm _ _ q a hq
    refine ⟨_, q.1.toRecord, rfl, hR, ?_⟩
    rw [slot_withInit]
    simp only [ProcessTemplate.slot, hid, hlife]
  | some e =>
    obtain ⟨p, q, hp, hq, rfl⟩ := onExec_ok h
    obtain ⟨hid, hlife, hR⟩ := hm _ _ q a hq
    refine ⟨p.slot RuncExecLifecycle.bundle, q.1.toRecord, ?_, hR, ?_⟩
    · simp only [slot, hp, Option.map_some]
    · rw [slot_insert]
      simp only [ProcessTemplate.slot, hid, hlife]

/-- An operation that only looks at a process. -/
theorem dispatch_read {execId : Option String} {missing : String → Error} {β : Type} {b : β}
    {f : (S : Type) → [ProcessLifecycle S] → ProcessTemplate S → β} {g : Record → β}
    (hfg : ∀ (S : Type) [ProcessLifecycle S] (p : ProcessTemplate S), f S p = g p.toRecord)
    (h : dispatch execId missing (fun S => do
      let p ← getProcess (P := ProcessTemplate S)
      return f S p) s = .ok b t) :
    (∃ r, s.1.slot execId = some r ∧ b = g r.toRecord) ∧ t.1.slot = s.1.slot ∧ t.2 = s.2 := by
  obtain ⟨r, record, hr, ⟨h₁, h₂, h₃⟩, hslot⟩ := dispatch_ok (R := fun p q a =>
      q.1 = p.1 ∧ q.2 = p.2 ∧ a = g p.1) (by
    intro S _ p q a hpq
    obtain ⟨rfl, rfl⟩ := EStateM.Result.ok.inj hpq
    exact ⟨rfl, rfl, rfl, rfl, hfg S p.1⟩) h
  refine ⟨⟨r, hr, h₃⟩, ?_, h₂⟩
  change record = r.toRecord at h₁
  rw [hslot, h₁, ← hr]
  exact Function.update_eq_self execId s.1.slot

/-! ## Start -/

/-- The pid file a Start or Delete of this process may write. -/
def pidPaths (c : Container) : Option String → Set String
  | none => ∅
  | some e => {path | ∃ r, c.slot (some e) = some r ∧ path = execPidPath r.bundle r.id}

theorem start_init_ok {ans : Answers} {pid : Int32} (h : start ans none s = .ok pid t) :
    ∃ r, s.1.slot none = some r ∧ pid = r.pid ∧ World.Steady s.2 t.2 ∧
      t.1.slot = Function.update s.1.slot none (some { r with toRecord := r.running }) := by
  obtain ⟨q, hq, rfl⟩ := onInit_ok h
  obtain ⟨_, u, hu, hpid⟩ := bind_ok.mp hq
  obtain rfl := RuncInitLifecycle.start_ok hu
  obtain ⟨rfl, rfl⟩ := EStateM.Result.ok.inj hpid
  exact ⟨_, rfl, rfl, ⟨rfl, rfl, rfl, rfl, rfl⟩, slot_withInit s.1 _⟩

theorem start_exec_ok {ans : Answers} {e : String} {pid : Int32}
    (h : start ans (some e) s = .ok pid t) :
    ∃ r, s.1.slot (some e) = some r ∧ pid = ans.pid ∧
      World.Spawned (execPidPath r.bundle r.id) ans.pid s.2 t.2 ∧
      t.1.slot = Function.update s.1.slot (some e)
        (some { r with toRecord := r.spawned ans.pid s.2.nextProc }) := by
  obtain ⟨p, q, hp, hq, rfl⟩ := onExec_ok h
  obtain ⟨_, u, hu, hpid⟩ := bind_ok.mp hq
  obtain ⟨hrec, hid, hlife, hworld⟩ :=
    RuncExecLifecycle.startExec_ok (RuncExecLifecycle.start_ok hu)
  obtain ⟨rfl, rfl⟩ := EStateM.Result.ok.inj hpid
  refine ⟨p.slot RuncExecLifecycle.bundle, ?_, ?_, hworld, ?_⟩
  · simp only [slot, hp, Option.map_some]
  · rw [hrec]
    rfl
  · rw [slot_insert]
    simp only [ProcessTemplate.slot, hrec, hid, hlife]

theorem start_fails {ans : Answers} {execId : Option String} {e : Error}
    (h : start ans execId s = .error e t) : Still (s.1.pidPaths execId) s t := by
  cases execId with
  | none =>
    obtain ⟨q, hq, rfl⟩ := onInit_error h
    apply still_onInit
    rcases bind_error.mp hq with hstart | ⟨_, u, -, hpid⟩
    · exact RuncInitLifecycle.start_fails ans _ e q hstart
    · cases hpid
  | some x =>
    rcases onExec_error h with rfl | ⟨p, q, hp, hq, rfl⟩
    · exact refl_of (Still _) t
    · apply still_onExec hp
      rcases bind_error.mp hq with hstart | ⟨_, u, -, hpid⟩
      · apply (RuncExecLifecycle.start_fails hstart).mono
        rintro _ rfl
        exact ⟨p.slot RuncExecLifecycle.bundle, by simp only [slot, hp, Option.map_some], rfl⟩
      · cases hpid

/-! ## Pause and resume -/

theorem pause_ok {ans : Answers} (h : pause ans s = .ok () t) :
    ∃ r, s.1.slot none = some r ∧ r.state = .running ∧ World.Steady s.2 t.2 ∧
      t.1.slot = Function.update s.1.slot none (some { r with toRecord := r.paused }) := by
  obtain ⟨q, hq, rfl⟩ := onInit_ok h
  obtain ⟨hst, rfl⟩ := RuncInitLifecycle.pause_ok hq
  exact ⟨_, rfl, hst, ⟨rfl, rfl, rfl, rfl, rfl⟩, slot_withInit s.1 _⟩

theorem pause_fails {ans : Answers} {e : Error} (h : pause ans s = .error e t) :
    Still ∅ s t := by
  obtain ⟨q, hq, rfl⟩ := onInit_error h
  exact still_onInit (RuncInitLifecycle.pause_fails hq)

theorem resume_ok {ans : Answers} (h : resume ans s = .ok () t) :
    ∃ r, s.1.slot none = some r ∧ r.state = .paused ∧ World.Steady s.2 t.2 ∧
      t.1.slot = Function.update s.1.slot none (some { r with toRecord := r.running }) := by
  obtain ⟨q, hq, rfl⟩ := onInit_ok h
  obtain ⟨hst, rfl⟩ := RuncInitLifecycle.resume_ok hq
  exact ⟨_, rfl, hst, ⟨rfl, rfl, rfl, rfl, rfl⟩, slot_withInit s.1 _⟩

theorem resume_fails {ans : Answers} {e : Error} (h : resume ans s = .error e t) :
    Still ∅ s t := by
  obtain ⟨q, hq, rfl⟩ := onInit_error h
  exact still_onInit (RuncInitLifecycle.resume_fails ans _ e q hq)

/-! ## Operations that keep every entry -/

theorem keeps_kill (ans : Answers) (execId : Option String) (signal : UInt32) (all : Bool) :
    Keeps (Still ∅) (kill ans execId signal all) := by
  unfold kill onMutProcess
  exact keeps_dispatch (RuncInitLifecycle.keeps_kill ans signal all)
    (RuncExecLifecycle.keeps_kill ans signal all)

theorem keeps_update (ans : Answers) : Keeps (Still ∅) (update ans) :=
  keeps_onInit (RuncInitLifecycle.keeps_update ans)

theorem keeps_stats (ans : Answers) : Keeps (Still ∅) (stats ans) :=
  keeps_onInit (RuncInitLifecycle.keeps_stats ans)

theorem keeps_allProcesses (ans : Answers) : Keeps (Still ∅) (allProcesses ans) :=
  .bind (keeps_onInit (RuncInitLifecycle.keeps_ps ans)) fun _ =>
    .bind keeps_getProcess fun _ => .pure _

theorem keeps_resizePty (ans : Answers) (execId : Option String) :
    Keeps (Still ∅) (resizePty ans execId) := by
  have hresize (S : Type) : Keeps (Same ∅) (ProcessTemplate.resizePty ans (S := S)) := by
    refine .bind keeps_getProcess fun p => ?_
    split
    · exact keeps_answered _
    · exact .pure _
  unfold resizePty onMutProcess
  exact keeps_dispatch (hresize _) (hresize _)

theorem keeps_closeIo (execId : Option String) : Keeps (Still ∅) (closeIo execId) := by
  have hclose (S : Type) : Keeps (Same ∅) (ProcessTemplate.closeIo (S := S)) :=
    keeps_modifyProcess fun _ w => ⟨rfl, rfl, rfl, .refl w⟩
  unfold closeIo onMutProcess
  exact keeps_dispatch (hclose _) (hclose _)

theorem keeps_getExitInfo (execId : Option String) : Keeps (Still ∅) (getExitInfo execId) := by
  unfold getExitInfo onProcess
  exact keeps_dispatch (.bind keeps_getProcess fun _ => .pure _)
    (.bind keeps_getProcess fun _ => .pure _)

theorem keeps_state (execId : Option String) : Keeps (Still ∅) (state execId) := by
  refine .bind (keeps_dispatch ?_ ?_) fun resp => .bind keeps_getProcess fun c => .pure _
  · exact .bind keeps_getProcess fun _ => .pure _
  · exact .bind keeps_getProcess fun _ => .pure _

theorem keeps_ioTasks (execId : Option String) : Keeps (Still ∅) (ioTasks execId) := by
  cases execId with
  | none => exact .bind keeps_getProcess fun _ => .pure _
  | some e => exact keeps_onExec (.bind keeps_getProcess fun _ => .pure _)

/-! ## Reading an entry -/

theorem getExitInfo_ok {execId : Option String} {info : Int32 × Int32 × Option OffsetDateTime}
    (h : getExitInfo execId s = .ok info t) :
    (∃ r, s.1.slot execId = some r ∧ info = (r.pid, r.exitCode, r.exitedAt)) ∧
      t.1.slot = s.1.slot ∧ t.2 = s.2 := by
  unfold getExitInfo onProcess at h
  exact dispatch_read (f := fun _ _ p => (p.pid, p.exitCode, p.exitedAt))
    (g := fun r : Record => (r.pid, r.exitCode, r.exitedAt)) (fun _ _ _ => rfl) h

theorem ioTasks_ok {execId : Option String} {io : List (Nat × Nat)}
    (h : ioTasks execId s = .ok io t) : t.1.slot = s.1.slot ∧ t.2 = s.2 := by
  cases execId with
  | none =>
    obtain ⟨-, rfl⟩ := EStateM.Result.ok.inj h
    exact ⟨rfl, rfl⟩
  | some e =>
    obtain ⟨p, q, hp, hq, rfl⟩ := onExec_ok h
    obtain ⟨-, rfl⟩ := EStateM.Result.ok.inj hq
    have hsame : Same ∅ (p, s.2) (p, s.2) := refl_of (Same ∅) _
    exact ⟨(still_onExec hp hsame).slot, rfl⟩

/-- The status is that of the init process while the container is paused. -/
theorem state_ok {execId : Option String} {resp : StateResponse}
    (h : state execId s = .ok resp t) :
    (∃ r i, s.1.slot execId = some r ∧ s.1.slot none = some i ∧
      resp.status = (if i.state = .pausing ∨ i.state = .paused then i.state else r.state) ∧
      resp.exitStatus = r.exitCode.toUInt32 ∧
      resp.exitedAt = r.exitedAt.map OffsetDateTime.timestamp) ∧
      t.1.slot = s.1.slot ∧ t.2 = s.2 := by
  obtain ⟨resp₀, u, hresp, hrest⟩ := bind_ok.mp h
  obtain ⟨r, record, hr, ⟨hrec, hworld, hstatus, hexit, hat⟩, hslot⟩ := dispatch_ok
    (R := fun p q (a : StateResponse) => q.1 = p.1 ∧ q.2 = p.2 ∧ a.status = p.1.state ∧
      a.exitStatus = p.1.exitCode.toUInt32 ∧
      a.exitedAt = p.1.exitedAt.map OffsetDateTime.timestamp) (by
    intro S _ p q a hpq
    obtain ⟨rfl, rfl⟩ := EStateM.Result.ok.inj hpq
    exact ⟨rfl, rfl, rfl, rfl, rfl, rfl, rfl⟩) hresp
  change record = r.toRecord at hrec
  have hsame : u.1.slot = s.1.slot := by
    rw [hslot, hrec, ← hr]
    exact Function.update_eq_self execId s.1.slot
  obtain ⟨rfl, rfl⟩ := EStateM.Result.ok.inj hrest
  refine ⟨⟨r, u.1.init.slot RuncInitLifecycle.bundle, hr, ?_, ?_⟩, hsame, hworld⟩
  · rw [← hsame]
    rfl
  · by_cases hp : u.1.init.state = .pausing ∨ u.1.init.state = .paused
    · simp only [hp, if_true]
      exact ⟨(if_pos hp).symm, hexit, hat⟩
    · simp only [hp, if_false]
      exact ⟨hstatus.trans (if_neg hp).symm, hexit, hat⟩

/-! ## Wait channels -/

section WaitChannel
variable {S : Type} {p : ProcessTemplate S × World}

theorem waitChannel_stopped (h : p.1.state = .stopped) :
    ProcessTemplate.waitChannel p = .ok { inst := p.1.inst, serial := p.2.nextSerial }
      (p.1, { p.2 with nextSerial := p.2.nextSerial + 1 }) := by
  change (if p.1.state ≠ .stopped then _ else _ : EStateM Error (ProcessTemplate S × World) _) _ = _
  rw [if_neg (not_not_intro h)]
  rfl

theorem waitChannel_alive (h : p.1.state ≠ .stopped) :
    ProcessTemplate.waitChannel p = .ok { inst := p.1.inst, serial := p.2.nextSerial }
      ({ p.1 with
          toRecord := p.1.toRecord.registered { inst := p.1.inst, serial := p.2.nextSerial } },
        { p.2 with
          nextSerial := p.2.nextSerial + 1
          openTx := p.2.openTx ++ [{ inst := p.1.inst, serial := p.2.nextSerial }] }) := by
  change (if p.1.state ≠ .stopped then _ else _ : EStateM Error (ProcessTemplate S × World) _) _ = _
  rw [if_pos h]
  rfl

theorem waitChannel_process_ne_error {e : Error} {q : ProcessTemplate S × World} :
    ProcessTemplate.waitChannel p ≠ .error e q := by
  intro h
  by_cases hp : p.1.state = .stopped
  · rw [waitChannel_stopped hp] at h
    cases h
  · rw [waitChannel_alive hp] at h
    cases h

end WaitChannel

theorem waitChannel_ok {execId : Option String} {rx : Channel} {r : Slot}
    (h : waitChannel execId s = .ok rx t) (hr : s.1.slot execId = some r)
    (hstate : r.state ≠ .stopped) :
    rx = { inst := r.inst, serial := s.2.nextSerial } ∧
      t.2 = { s.2 with nextSerial := s.2.nextSerial + 1, openTx := s.2.openTx ++ [rx] } ∧
      t.1.slot = Function.update s.1.slot execId
        (some { r with toRecord := r.registered rx }) := by
  unfold waitChannel onMutProcess at h
  obtain ⟨r', record, hr', hR, hslot⟩ := dispatch_ok (R := fun p q (rx : Channel) =>
      p.1.state ≠ .stopped → rx = { inst := p.1.inst, serial := p.2.nextSerial } ∧
        q.1 = p.1.registered rx ∧
        q.2 = { p.2 with nextSerial := p.2.nextSerial + 1, openTx := p.2.openTx ++ [rx] }) (by
    intro S _ p q rx hpq
    by_cases hp : p.1.state = .stopped
    · rw [waitChannel_stopped hp] at hpq
      obtain ⟨-, rfl⟩ := EStateM.Result.ok.inj hpq
      exact ⟨rfl, rfl, fun hne => absurd hp hne⟩
    · rw [waitChannel_alive hp] at hpq
      obtain ⟨rfl, rfl⟩ := EStateM.Result.ok.inj hpq
      exact ⟨rfl, rfl, fun _ => ⟨rfl, rfl, rfl⟩⟩) h
  obtain rfl := Option.some.inj (hr.symm.trans hr')
  obtain ⟨hrx, hrec, hworld⟩ := hR hstate
  change record = r.registered rx at hrec
  exact ⟨hrx, hworld, by rw [hslot, hrec]⟩

theorem waitChannel_fails {execId : Option String} {e : Error}
    (h : waitChannel execId s = .error e t) : t = s := by
  cases execId with
  | none =>
    obtain ⟨q, hq, -⟩ := onInit_error h
    exact absurd hq waitChannel_process_ne_error
  | some x =>
    rcases onExec_error h with rfl | ⟨p, q, hp, hq, -⟩
    · rfl
    · exact absurd hq waitChannel_process_ne_error

/-! ## Delete and Exec -/

theorem delete_init_ok {ans : Answers} {info : Int32 × Int32 × Option OffsetDateTime}
    (h : delete ans none s = .ok info t) :
    (∃ r, s.1.slot none = some r ∧ info = (r.pid, r.exitCode, r.exitedAt)) ∧ Still ∅ s t := by
  obtain ⟨info', u, hinfo, hrest⟩ := bind_ok.mp h
  obtain ⟨_, v, hdel, hrest⟩ := bind_ok.mp hrest
  obtain ⟨rfl, rfl⟩ := EStateM.Result.ok.inj hrest
  refine ⟨(getExitInfo_ok hinfo).1, ?_⟩
  have hu := (keeps_getExitInfo none).returns s info' u hinfo
  have hv := (keeps_onInit (RuncInitLifecycle.keeps_delete ans)).returns u () v hdel
  exact trans_of (Still ∅) hu hv

theorem delete_exec_ok {ans : Answers} {e : String} {info : Int32 × Int32 × Option OffsetDateTime}
    (h : delete ans (some e) s = .ok info t) :
    ∃ r w, s.1.slot (some e) = some r ∧ info = (r.pid, r.exitCode, r.exitedAt) ∧
      (w = s.2 ∨ w = s.2.removeFile (execPidPath r.bundle r.id)) ∧
      t.2 = w.dropSenders r.waitChanTx ∧
      t.1.slot = Function.update s.1.slot (some e) none := by
  obtain ⟨info', u, hinfo, hrest⟩ := bind_ok.mp h
  obtain ⟨_, v, hdel, hrest⟩ := bind_ok.mp hrest
  obtain ⟨_, x, hrem, hrest⟩ := bind_ok.mp hrest
  obtain ⟨rfl, rfl⟩ := EStateM.Result.ok.inj hrest
  obtain ⟨-, rfl⟩ := EStateM.Result.ok.inj hrem
  obtain ⟨⟨r, hr, rfl⟩, huslot, huworld⟩ := getExitInfo_ok hinfo
  obtain ⟨p, q, hp, hq, rfl⟩ := onExec_ok hdel
  obtain ⟨hproc, hworld⟩ := RuncExecLifecycle.delete_ok hq
  have hpr : p.slot RuncExecLifecycle.bundle = r := by
    have hslot : u.1.slot (some e) = some (p.slot RuncExecLifecycle.bundle) := by
      simp only [slot, hp, Option.map_some]
    rw [huslot, hr] at hslot
    exact (Option.some.inj hslot).symm
  subst hpr
  refine ⟨_, q.2, hr, rfl, ?_, ?_, ?_⟩
  · rw [← huworld]
    exact hworld
  · simp only [KeyedMap.Map.lookup_insert_eq, if_true, Option.elim_some, hproc]
    rfl
  · rw [slot_erase, slot_insert, Function.update_idem, huslot]

theorem delete_fails {ans : Answers} {execId : Option String} {e : Error}
    (h : delete ans execId s = .error e t) : Still ∅ s t := by
  rcases bind_error.mp h with hinfo | ⟨info, u, hinfo, hrest⟩
  · exact (keeps_getExitInfo execId).fails s e t hinfo
  · have hu := (keeps_getExitInfo execId).returns s info u hinfo
    apply trans_of (Still ∅) hu
    cases execId with
    | none =>
      rcases bind_error.mp hrest with hdel | ⟨_, v, -, hrest⟩
      · exact (keeps_onInit (RuncInitLifecycle.keeps_delete ans)).fails u e t hdel
      · cases hrest
    | some x =>
      rcases bind_error.mp hrest with hdel | ⟨_, v, -, hrest⟩
      · rcases onExec_error hdel with rfl | ⟨p, q, -, hq, -⟩
        · exact refl_of (Still ∅) t
        · exact absurd hq RuncExecLifecycle.delete_returns
      · cases hrest

theorem getSpecFromRequest_ok {P : Type} {ans : Answers} {req : ExecProcessRequest}
    {s t : P × World} (h : getSpecFromRequest ans req s = .ok () t) : t = s := by
  cases hspec : req.spec with
  | some _ =>
    simp only [getSpecFromRequest, hspec] at h
    exact answered_ok h
  | none =>
    simp only [getSpecFromRequest, hspec] at h
    cases h

theorem getSpecFromRequest_fails {P : Type} {ans : Answers} {req : ExecProcessRequest}
    {s t : P × World} {e : Error} (h : getSpecFromRequest ans req s = .error e t) : t = s := by
  cases hspec : req.spec with
  | some _ =>
    simp only [getSpecFromRequest, hspec] at h
    exact answered_error h
  | none =>
    simp only [getSpecFromRequest, hspec] at h
    exact (EStateM.Result.error.inj h).2.symm

theorem exec_ok {ans : Answers} {req : ExecProcessRequest} (h : exec ans req s = .ok () t) :
    ∃ i, s.1.slot none = some i ∧
      t.2 = { s.2 with nextInst := s.2.nextInst + 1 }.dropSenders
        ((s.1.slot (some req.execId)).elim [] (·.waitChanTx)) ∧
      t.1.slot = Function.update s.1.slot (some req.execId)
        (some { inst := s.2.nextInst, id := req.execId, bundle := i.bundle }) := by
  obtain ⟨_, u, hspec, hrest⟩ := bind_ok.mp h
  obtain rfl := getSpecFromRequest_ok hspec
  obtain ⟨-, rfl⟩ := EStateM.Result.ok.inj hrest
  refine ⟨_, rfl, ?_, slot_insert u.1 req.execId _⟩
  simp only [slot]
  cases u.1.processes.lookup req.execId <;> rfl

theorem exec_fails {ans : Answers} {req : ExecProcessRequest} {e : Error}
    (h : exec ans req s = .error e t) : t = s := by
  rcases bind_error.mp h with hspec | ⟨_, u, -, hrest⟩
  · exact getSpecFromRequest_fails hspec
  · cases hrest

end Container
end RustExtensions.RuncShim
