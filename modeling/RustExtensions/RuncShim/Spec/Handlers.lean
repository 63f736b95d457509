import RustExtensions.RuncShim.Spec.Task

/-!
# What each request does

`Handled` lists the normal returns of every first section: the effect taken and
what is left to do. On an error return the effect is quiet.
-/
namespace RustExtensions.RuncShim

open RustExtensions.Shim
open RustExtensions.Fallible
open RustExtensions.KeyedMap (Map)

namespace TaskService

/-- The pid files a Start or Delete of `x` may write. -/
def pidPaths (t : TaskService) (x : Ref) : Set String :=
  {path | ∃ r, x.2.isSome ∧ t.table.slot x = some r ∧ path = execPidPath r.bundle r.id}

/-- The files that the first section of a request may write. -/
def touched (t : TaskService) : Request → Set String
  | .create req => createPaths req.bundle
  | .start id execId => t.pidPaths (id, execIdOpt execId)
  | .delete id execId => t.pidPaths (id, execIdOpt execId)
  | _ => ∅

/-- Requests whose first section is the whole request. -/
def Simple : Request → Prop
  | .state .. | .pids .. | .kill .. | .resizePty .. | .closeIo .. | .update .. | .stats ..
  | .connect .. | .shutdown => True
  | _ => False

/-- What the first section of Delete found in the entry. -/
structure Found (x : Ref) (r : Slot) (d : Deletion) : Prop where
  reqId : d.reqId = x.1
  execId : d.execId = x.2
  process : d.process = some r.toRecord
  exited : d.exited = r.exitedAt.isSome

inductive Handled (t : TaskService) (ans : Answers) (t' : TaskService) : Request → Next → Prop
  | simple {req : Request} {resp : Response} (hreq : Simple req) (hq : Quiet ∅ t t') :
    Handled t ans t' req (.reply resp)
  | create {req : CreateTaskRequest}
    (hdid : Did (createPaths req.bundle) (.create req.id req.bundle ans.pid) t t')
    (hfile : t'.world.files.lookup (initPidPath req.bundle) = some (World.showPid ans.pid)) :
    Handled t ans t' (.create req) (.cont (.send {
      event := .taskCreate req.id req.bundle req.rootfs req.stdio req.checkpoint ans.pid.toUInt32
      inst := some t.world.nextInst
      proc := some t.world.nextProc } (.create ans.pid.toUInt32)))
  | startInit {id : String} {r : Slot} (hr : t.table.slot (id, none) = some r)
    (hdid : Did ∅ (.start id) t t') :
    Handled t ans t' (.start id "") (.cont (.send {
      event := .taskStart id r.pid.toUInt32
      inst := some r.inst
      proc := r.proc } (.start r.pid.toUInt32)))
  | startExec {id execId : String} {r : Slot} (hid : execId ≠ "")
    (hr : t.table.slot (id, some execId) = some r)
    (hdid : Did (t.pidPaths (id, some execId)) (.spawn id execId ans.pid) t t') :
    Handled t ans t' (.start id execId) (.cont (.send {
      event := .taskExecStarted id execId ans.pid.toUInt32
      inst := some r.inst
      proc := some t.world.nextProc } (.start ans.pid.toUInt32)))
  | deleteFailed {id execId : String} {r : Slot} {d : Deletion} {e : Error}
    (hr : t.table.slot (id, execIdOpt execId) = some r) (hfound : Found (id, execIdOpt execId) r d)
    (hd : d.deleted = .error e) (hq : Quiet ∅ t t') :
    Handled t ans t' (.delete id execId) (.cont (.drain d))
  | deleteInit {id : String} {r : Slot} {d : Deletion}
    (hr : t.table.slot (id, none) = some r) (hfound : Found (id, none) r d)
    (hd : d.deleted = .ok (r.pid, r.exitCode, r.exitedAt)) (hq : Quiet ∅ t t') :
    Handled t ans t' (.delete id "") (.cont (.unregister d))
  | deleteExec {id execId : String} {r : Slot} {d : Deletion} (hid : execId ≠ "")
    (hr : t.table.slot (id, some execId) = some r) (hfound : Found (id, some execId) r d)
    (hd : d.deleted = .ok (r.pid, r.exitCode, r.exitedAt))
    (hdid : Did (t.pidPaths (id, some execId)) (.remove id execId) t t') :
    Handled t ans t' (.delete id execId) (.cont (.drain d))
  | pause {id : String} {r : Slot} (hr : t.table.slot (id, none) = some r)
    (hdid : Did ∅ (.pause id) t t') :
    Handled t ans t' (.pause id) (.cont (.send {
      event := .taskPaused id
      inst := some r.inst
      proc := r.proc } .empty))
  | resume {id : String} {r : Slot} (hr : t.table.slot (id, none) = some r)
    (hdid : Did ∅ (.resume id) t t') :
    Handled t ans t' (.resume id) (.cont (.send {
      event := .taskResumed id
      inst := some r.inst
      proc := r.proc } .empty))
  | exec {req : ExecProcessRequest} {i : Slot} (hi : t.table.slot (req.id, none) = some i)
    (hdid : Did ∅ (.exec req.id req.execId i.bundle) t t') :
    Handled t ans t' (.exec req) (.cont (.send {
      event := .taskExecAdded i.id req.execId
      inst := some t.world.nextInst
      proc := none } .empty))
  | waitOver {id execId : String} {r i : Slot} {resp : WaitResponse}
    (hr : t.table.slot (id, execIdOpt execId) = some r) (hi : t.table.slot (id, none) = some i)
    (hover : r.state ≠ .running ∧ r.state ≠ .created ∨ i.state = .pausing ∨ i.state = .paused)
    (hexit : resp.exitStatus = r.exitCode.toUInt32)
    (hat : resp.exitedAt = r.exitedAt.map OffsetDateTime.timestamp) (hq : Quiet ∅ t t') :
    Handled t ans t' (.wait id execId) (.reply (.wait resp))
  | waitOn {id execId : String} {r : Slot} {rx : Channel}
    (hr : t.table.slot (id, execIdOpt execId) = some r)
    (hrx : rx = { inst := r.inst, serial := t.world.nextSerial })
    (hdid : Did ∅ (.register (id, execIdOpt execId) rx) t t') :
    Handled t ans t' (.wait id execId) (.cont (.wait id (execIdOpt execId) rx))

variable {t t' : TaskService} {ans : Answers}

theorem pidPaths_eq {id : String} {c : Container} (h : t.containers.lookup id = some c)
    (execId : Option String) : t.pidPaths (id, execId) = c.pidPaths execId := by
  cases execId with
  | none =>
    ext q
    simp [pidPaths, Container.pidPaths]
  | some e =>
    ext q
    simp [pidPaths, Container.pidPaths, slot_of_lookup h]

theorem Quiet.mono {paths paths' : Set String} (hp : paths ⊆ paths') (h : Quiet paths t t') :
    Quiet paths' t t' := by
  obtain ⟨insts, procs, hdid⟩ := h
  exact ⟨insts, procs, hdid.admits, hdid.table, fun q hq => hdid.files q fun hq' => hq (hp hq')⟩

/-! ## Creation -/

theorem create_ok {req : CreateTaskRequest} {n : Next} (h : create ans req t = .ok n t') :
    Handled t ans t' (.create req) n := by
  obtain ⟨c, u, hc, hrest⟩ := bind_ok.mp h
  obtain ⟨w, hw, rfl⟩ := zoom_ok.mp hc
  obtain ⟨hslot, hopen, hserial, hinst, hproc, hfiles, hfile⟩ :=
    container_create_ok (raise_ok.mp hw)
  obtain ⟨_, v, hmod, hret⟩ := bind_ok.mp hrest
  obtain ⟨-, rfl⟩ := EStateM.Result.ok.inj hmod
  obtain ⟨rfl, rfl⟩ := EStateM.Result.ok.inj hret
  have hinit : c.slot none = some {
      inst := t.world.nextInst, pid := ans.pid, proc := some t.world.nextProc
      id := req.id, bundle := req.bundle } := by
    rw [hslot, Function.update_self]
  have hrecord : c.init.toRecord = {
      inst := t.world.nextInst, pid := ans.pid, proc := some t.world.nextProc } :=
    congrArg Slot.toRecord (Option.some.inj hinit)
  have hpid : c.pid = ans.pid := congrArg Record.pid hrecord
  have hlabel (e : Event) : Published.about (c.record none) e =
      { event := e, inst := some t.world.nextInst, proc := some t.world.nextProc } := by
    simp only [Published.about, Container.record, hrecord, Option.map_some, Option.bind_some]
  rw [hpid, hlabel]
  refine .create ⟨trivial, Table.ext ?_ ?_ hinst hproc hserial, hfiles⟩ hfile
  · funext x
    apply (slot_insert t req.id c _ x).trans
    by_cases hid : x.1 = req.id
    · rw [if_pos hid, hslot]
      by_cases hx : x = (req.id, none)
      · subst hx
        rw [Function.update_self]
        exact (Table.slot_put_self ..).symm
      · have hk : x.2 ≠ none := fun hk => hx (Prod.ext hid hk)
        rw [Function.update_of_ne hk]
        exact ((Table.slot_put_of_ne _ _ _ _ hx).trans
          (Table.slot_drop_of_mem t.table x (Table.under req.id) hid)).symm
    · have hx : x ≠ (req.id, none) := fun hx => hid (congrArg Prod.fst hx)
      rw [if_neg hid]
      exact ((Table.slot_put_of_ne _ _ _ _ hx).trans
        (Table.slot_drop_of_not_mem t.table x (Table.under req.id) hid)).symm
  · apply openTx_dropSenders (T := t.table) (openTx_eq hopen).symm
    intro rx
    exact mem_held_under.symm

theorem create_error {req : CreateTaskRequest} {e : TtrpcError}
    (h : create ans req t = .error e t') : Quiet (createPaths req.bundle) t t' := by
  rcases bind_error.mp h with hc | ⟨c, u, -, hrest⟩
  · obtain ⟨w, hw, rfl⟩ := zoom_error.mp hc
    obtain ⟨err, herr⟩ := raise_error hw
    exact quiet_of_grows rfl (container_create_fails herr)
  · cases hrest

/-! ## Start -/

theorem start_ok {id execId : String} {n : Next} (h : start ans id execId t = .ok n t') :
    Handled t ans t' (.start id execId) n := by
  obtain ⟨c, s, hc, hs, rfl⟩ := onContainer_ok h
  rw [getProcess_bind] at hs
  split at hs
  · cases hs
  · next hstate =>
    obtain ⟨pid, u, hpid, hret⟩ := bind_ok.mp hs
    have hstart := raise_ok.mp hpid
    obtain ⟨rfl, rfl⟩ := EStateM.Result.ok.inj hret
    have hi : c.slot none = some (c.init.slot RuncInitLifecycle.bundle) := rfl
    by_cases he : execId = ""
    · subst he
      obtain ⟨r, hr, rfl, hw, hslot⟩ := Container.start_init_ok hstart
      obtain rfl := Option.some.inj (hi.symm.trans hr)
      have hrecord : u.1.record none = some c.init.toRecord.running := by
        rw [Container.record_eq, hslot, Function.update_self]
        rfl
      have hdid := did_modify (e := .start id) hc hi ⟨_, (slot_of_lookup hc none).trans hi, hstate⟩
        rfl hw hslot
      have hnext := @Handled.startInit t ans _ _ _ ((slot_of_lookup hc none).trans hi) hdid
      simp only [execIdOpt, if_true, hrecord]
      exact hnext
    · obtain ⟨r, hr, rfl, hw, hslot⟩ := Container.start_exec_ok (e := execId) (by
        simpa only [execIdOpt, he, if_false] using hstart)
      have hrecord : u.1.record (some execId) =
          some (r.spawned ans.pid t.world.nextProc) := by
        rw [Container.record_eq, hslot, Function.update_self]
        rfl
      have hdid := did_spawn hc hi hstate hr hw hslot
      rw [← pidPaths_eq hc] at hdid
      have hnext := @Handled.startExec t ans _ _ _ _ he ((slot_of_lookup hc _).trans hr) hdid
      simp only [execIdOpt, he, if_false, hrecord]
      exact hnext

theorem start_error {id execId : String} {e : TtrpcError}
    (h : start ans id execId t = .error e t') :
    Quiet (t.pidPaths (id, execIdOpt execId)) t t' := by
  apply quiet_of_error h
  intro c s hc hs
  rw [pidPaths_eq hc]
  rw [getProcess_bind] at hs
  split at hs
  · obtain ⟨-, rfl⟩ := EStateM.Result.error.inj hs
    exact refl_of (Container.Still _) _
  · rcases bind_error.mp hs with hpid | ⟨pid, u, -, hret⟩
    · obtain ⟨err, herr⟩ := raise_error hpid
      exact Container.start_fails herr
    · cases hret

/-! ## Delete -/

/-- The first section of Delete, up to what it hands on. -/
theorem delete_ok {id execId : String} {n : Next} (h : delete ans id execId t = .ok n t') :
    Handled t ans t' (.delete id execId) n := by
  obtain ⟨d, u, hsec, hret⟩ := bind_ok.mp h
  obtain ⟨c, s, hc, hs, rfl⟩ := onContainer_ok hsec
  rw [getProcess_bind] at hs
  obtain ⟨exited, s₁, hexited, hs⟩ := bind_ok.mp hs
  obtain ⟨io, s₂, hio, hs⟩ := bind_ok.mp hs
  obtain ⟨deleted, s₃, hdel, hs⟩ := bind_ok.mp hs
  obtain ⟨rfl, rfl⟩ := EStateM.Result.ok.inj hs
  obtain ⟨⟨r, hr, rfl⟩, hslot₁, hworld₁⟩ := Container.dispatch_read
    (f := fun _ _ p => p.exitedAt.isSome) (g := fun r : Record => r.exitedAt.isSome)
    (fun _ _ _ => rfl) (raise_ok.mp hexited)
  obtain ⟨hslot₂, hworld₂⟩ := Container.ioTasks_ok (raise_ok.mp hio)
  have hslot : s₂.1.slot = c.slot := hslot₂.trans hslot₁
  have hworld : s₂.2 = t.world := hworld₂.trans hworld₁
  have hr' : t.table.slot (id, execIdOpt execId) = some r := (slot_of_lookup hc _).trans hr
  have hprocess : c.record (execIdOpt execId) = some r.toRecord := by
    rw [Container.record_eq]
    exact congrArg _ hr
  have hsame : Container.Still ∅ (c, t.world) s₂ := ⟨hslot, by rw [hworld]; exact .refl _⟩
  rcases attempt_ok.mp hdel with ⟨info, rfl, hok⟩ | ⟨e, rfl, herr⟩
  · by_cases he : execId = ""
    · subst he
      obtain ⟨⟨r', hr'', rfl⟩, hstill⟩ := Container.delete_init_ok hok
      rw [hslot] at hr''
      obtain rfl := Option.some.inj (hr.symm.trans hr'')
      obtain ⟨rfl, rfl⟩ := EStateM.Result.ok.inj hret
      exact .deleteInit hr' ⟨rfl, rfl, hprocess, rfl⟩ rfl
        (quiet_store hc (trans_of (Container.Still ∅) hsame hstill))
    · have hopt : execIdOpt execId = some execId := if_neg he
      simp only [hopt] at hr hr' hprocess hok hret ⊢
      obtain ⟨r', w, hr'', rfl, hw, hdrop, hnew⟩ := Container.delete_exec_ok hok
      rw [hslot] at hr'' hnew
      rw [hworld] at hw
      obtain rfl := Option.some.inj (hr.symm.trans hr'')
      have hdid := did_remove hc hr hw hdrop hnew
      rw [← pidPaths_eq hc] at hdid
      obtain ⟨rfl, rfl⟩ := EStateM.Result.ok.inj hret
      exact .deleteExec he hr' ⟨rfl, rfl, hprocess, rfl⟩ rfl hdid
  · obtain ⟨rfl, rfl⟩ := EStateM.Result.ok.inj hret
    exact .deleteFailed hr' ⟨rfl, rfl, hprocess, rfl⟩ rfl
      (quiet_store hc (trans_of (Container.Still ∅) hsame (Container.delete_fails herr)))

theorem delete_error {id execId : String} {e : TtrpcError}
    (h : delete ans id execId t = .error e t') : Quiet ∅ t t' := by
  rcases bind_error.mp h with hsec | ⟨d, u, -, hret⟩
  · apply quiet_of_error hsec
    intro c s hc hs
    rw [getProcess_bind] at hs
    rcases bind_error.mp hs with hexited | ⟨exited, s₁, hexited, hs⟩
    · obtain ⟨err, herr⟩ := raise_error hexited
      exact (Container.keeps_dispatch (.bind keeps_getProcess fun _ => .pure _)
        (.bind keeps_getProcess fun _ => .pure _)).fails _ err s herr
    · obtain ⟨-, hslot, hworld⟩ := Container.dispatch_read
        (f := fun _ _ p => p.exitedAt.isSome) (g := fun r : Record => r.exitedAt.isSome)
        (fun _ _ _ => rfl) (raise_ok.mp hexited)
      have hsame : Container.Still ∅ (c, t.world) s₁ := ⟨hslot, by rw [hworld]; exact .refl _⟩
      apply trans_of (Container.Still ∅) hsame
      rcases bind_error.mp hs with hio | ⟨io, s₂, -, hs⟩
      · obtain ⟨err, herr⟩ := raise_error hio
        exact (Container.keeps_ioTasks _).fails _ err s herr
      · rcases bind_error.mp hs with hdel | ⟨deleted, s₃, -, hs⟩
        · exact absurd hdel attempt_error
        · cases hs
  · split at hret <;> cases hret

/-! ## Pause, Resume and Exec -/

theorem pause_ok {id : String} {n : Next} (h : pause ans id t = .ok n t') :
    Handled t ans t' (.pause id) n := by
  obtain ⟨c, s, hc, hs, rfl⟩ := onContainer_ok h
  obtain ⟨_, u, hpause, hret⟩ := bind_ok.mp hs
  obtain ⟨r, hr, hstate, hw, hslot⟩ := Container.pause_ok (raise_ok.mp hpause)
  obtain ⟨rfl, rfl⟩ := EStateM.Result.ok.inj hret
  have hr' : t.table.slot (id, none) = some r := (slot_of_lookup hc none).trans hr
  have hrecord : u.1.record none = some r.paused := by
    rw [Container.record_eq, hslot, Function.update_self]
    rfl
  rw [hrecord]
  exact .pause hr' (did_modify (e := .pause id) hc hr ⟨r, hr', hstate⟩ rfl hw hslot)

theorem pause_error {id : String} {e : TtrpcError} (h : pause ans id t = .error e t') :
    Quiet ∅ t t' := by
  apply quiet_of_error h
  intro c s hc hs
  rcases bind_error.mp hs with hpause | ⟨_, u, -, hret⟩
  · obtain ⟨err, herr⟩ := raise_error hpause
    exact Container.pause_fails herr
  · cases hret

theorem resume_ok {id : String} {n : Next} (h : resume ans id t = .ok n t') :
    Handled t ans t' (.resume id) n := by
  obtain ⟨c, s, hc, hs, rfl⟩ := onContainer_ok h
  obtain ⟨_, u, hresume, hret⟩ := bind_ok.mp hs
  obtain ⟨r, hr, hstate, hw, hslot⟩ := Container.resume_ok (raise_ok.mp hresume)
  obtain ⟨rfl, rfl⟩ := EStateM.Result.ok.inj hret
  have hr' : t.table.slot (id, none) = some r := (slot_of_lookup hc none).trans hr
  have hrecord : u.1.record none = some r.running := by
    rw [Container.record_eq, hslot, Function.update_self]
    rfl
  rw [hrecord]
  exact .resume hr' (did_modify (e := .resume id) hc hr ⟨r, hr', hstate⟩ rfl hw hslot)

theorem resume_error {id : String} {e : TtrpcError} (h : resume ans id t = .error e t') :
    Quiet ∅ t t' := by
  apply quiet_of_error h
  intro c s hc hs
  rcases bind_error.mp hs with hresume | ⟨_, u, -, hret⟩
  · obtain ⟨err, herr⟩ := raise_error hresume
    exact Container.resume_fails herr
  · cases hret

theorem exec_ok {req : ExecProcessRequest} {n : Next} (h : exec ans req t = .ok n t') :
    Handled t ans t' (.exec req) n := by
  obtain ⟨c, s, hc, hs, rfl⟩ := onContainer_ok h
  obtain ⟨_, u, hexec, hret⟩ := bind_ok.mp hs
  obtain ⟨i, hi, hw, hslot⟩ := Container.exec_ok (raise_ok.mp hexec)
  obtain ⟨rfl, rfl⟩ := EStateM.Result.ok.inj hret
  have hrecord : u.1.record (some req.execId) = some { inst := t.world.nextInst } := by
    rw [Container.record_eq, hslot, Function.update_self]
    rfl
  have hid : u.1.id = i.id := by
    have hnone : u.1.slot none = some i := by
      rw [hslot, Function.update_of_ne (by simp), hi]
    exact congrArg Slot.id (Option.some.inj hnone)
  rw [hrecord, hid]
  exact .exec ((slot_of_lookup hc none).trans hi) (did_exec hc hi hw hslot)

theorem exec_error {req : ExecProcessRequest} {e : TtrpcError} (h : exec ans req t = .error e t') :
    Quiet ∅ t t' := by
  apply quiet_of_error h
  intro c s hc hs
  rcases bind_error.mp hs with hexec | ⟨_, u, -, hret⟩
  · obtain ⟨err, herr⟩ := raise_error hexec
    obtain rfl := Container.exec_fails herr
    exact refl_of (Container.Still ∅) _
  · cases hret

/-! ## Wait -/

theorem wait_ok {id execId : String} {n : Next} (h : wait id execId t = .ok n t') :
    Handled t ans t' (.wait id execId) n := by
  obtain ⟨c, s, hc, hs, rfl⟩ := onContainer_ok h
  obtain ⟨resp, u, hstate, hs⟩ := bind_ok.mp hs
  obtain ⟨⟨r, i, hr, hi, hstatus, hexit, hat⟩, hslot, hworld⟩ :=
    Container.state_ok (raise_ok.mp hstate)
  change u.2 = t.world at hworld
  have hr' : t.table.slot (id, execIdOpt execId) = some r := (slot_of_lookup hc _).trans hr
  have hi' : t.table.slot (id, none) = some i := (slot_of_lookup hc none).trans hi
  split at hs
  · next hover =>
    obtain ⟨rfl, rfl⟩ := EStateM.Result.ok.inj hs
    have hstill : Container.Still ∅ (c, t.world) u := ⟨hslot, by rw [hworld]; exact .refl _⟩
    refine .waitOver hr' hi' ?_ hexit hat (quiet_store hc hstill)
    rw [hstatus] at hover
    split at hover
    · next hp => exact Or.inr hp
    · exact Or.inl hover
  · next hlive =>
    obtain ⟨rx, v, hrx, hret⟩ := bind_ok.mp hs
    obtain ⟨rfl, rfl⟩ := EStateM.Result.ok.inj hret
    -- a paused container is reported PAUSED, so here the status is the entry's own
    have hrunning : r.state ≠ .stopped := by
      intro hstop
      apply hlive
      rw [hstatus, hstop]
      split
      · next hp => rcases hp with hp | hp <;> rw [hp] <;> decide
      · decide
    rw [← hslot] at hr
    obtain ⟨rfl, hw, hnew⟩ := Container.waitChannel_ok (raise_ok.mp hrx) hr hrunning
    rw [hslot] at hr hnew
    rw [hworld] at hw hnew ⊢
    exact .waitOn hr' rfl (did_register hc hr hrunning rfl hw hnew)

theorem wait_error {id execId : String} {e : TtrpcError} (h : wait id execId t = .error e t') :
    Quiet ∅ t t' := by
  apply quiet_of_error h
  intro c s hc hs
  rcases bind_error.mp hs with hstate | ⟨resp, u, hstate, hs⟩
  · obtain ⟨err, herr⟩ := raise_error hstate
    exact (Container.keeps_state _).fails _ err s herr
  · have hu := (Container.keeps_state _).returns _ resp u (raise_ok.mp hstate)
    apply trans_of (Container.Still ∅) hu
    split at hs
    · cases hs
    · rcases bind_error.mp hs with hrx | ⟨rx, v, -, hret⟩
      · obtain ⟨err, herr⟩ := raise_error hrx
        obtain rfl := Container.waitChannel_fails herr
        exact refl_of (Container.Still ∅) _
      · cases hret

/-! ## All requests -/

theorem update_ok {id : String} {n : Next} (h : update ans id t = .ok n t') :
    Quiet ∅ t t' ∧ ∃ resp, n = .reply resp := by
  unfold update at h
  cases hjson : ans.resourcesJson with
  | some e =>
    rw [hjson] at h
    cases h
  | none =>
    rw [hjson] at h
    obtain ⟨hq, _, rfl⟩ :=
      (quiet_of_keeps (f := fun _ => .reply .empty) (Container.keeps_update ans)).1 n t' h
    exact ⟨hq, _, rfl⟩

theorem update_error {id : String} {e : TtrpcError} (h : update ans id t = .error e t') :
    Quiet ∅ t t' := by
  unfold update at h
  cases hjson : ans.resourcesJson with
  | some err =>
    rw [hjson] at h
    obtain ⟨-, rfl⟩ := EStateM.Result.error.inj h
    exact .refl _
  | none =>
    rw [hjson] at h
    exact (quiet_of_keeps (f := fun _ => .reply .empty) (Container.keeps_update ans)).2 e t' h

theorem shutdown_ok {n : Next} (h : shutdown t = .ok n t') :
    Quiet ∅ t t' ∧ ∃ resp, n = .reply resp := by
  unfold shutdown at h
  obtain ⟨t₀, u, hget, h⟩ := bind_ok.mp h
  obtain ⟨rfl, rfl⟩ := EStateM.Result.ok.inj hget
  dsimp only at h
  split at h
  · obtain ⟨_, v, hset, hret⟩ := bind_ok.mp h
    obtain ⟨-, rfl⟩ := EStateM.Result.ok.inj hset
    obtain ⟨rfl, rfl⟩ := EStateM.Result.ok.inj hret
    exact ⟨quiet_of_grows rfl (.refl _), _, rfl⟩
  · obtain ⟨rfl, rfl⟩ := EStateM.Result.ok.inj h
    exact ⟨.refl _, _, rfl⟩

/-- The normal returns of every handler. -/
theorem handle_ok {req : Request} {n : Next} (h : handle ans req t = .ok n t') :
    Handled t ans t' req n := by
  have hsimple {α : Type} {id : String} {m : Method Container α} {f : α → Response}
      {req : Request} (hreq : Simple req) (hm : Keeps (Container.Still ∅) m)
      (h : onContainer id (raise m >>= fun a => pure (.reply (f a))) t = .ok n t') :
      Handled t ans t' req n := by
    obtain ⟨hq, _, rfl⟩ := (quiet_of_keeps (f := fun a => .reply (f a)) hm).1 n t' h
    exact .simple hreq hq
  cases req with
  | state id execId => exact hsimple trivial (Container.keeps_state _) h
  | create req => exact create_ok h
  | start id execId => exact start_ok h
  | delete id execId => exact delete_ok h
  | pids id => exact hsimple trivial (Container.keeps_allProcesses ans) h
  | pause id => exact pause_ok h
  | resume id => exact resume_ok h
  | kill id execId signal all =>
    exact hsimple (f := fun _ => .empty) trivial (Container.keeps_kill ans _ signal all) h
  | exec req => exact exec_ok h
  | resizePty id execId height width =>
    exact hsimple (f := fun _ => .empty) trivial (Container.keeps_resizePty ans _) h
  | closeIo id execId =>
    exact hsimple (f := fun _ => .empty) trivial (Container.keeps_closeIo _) h
  | update id resources =>
    obtain ⟨hq, _, rfl⟩ := update_ok h
    exact .simple trivial hq
  | wait id execId => exact wait_ok h
  | stats id => exact hsimple trivial (Container.keeps_stats ans) h
  | connect id =>
    obtain ⟨rfl, rfl⟩ := EStateM.Result.ok.inj h
    exact .simple trivial (.refl _)
  | shutdown =>
    obtain ⟨hq, _, rfl⟩ := shutdown_ok h
    exact .simple trivial hq

/-- A handler that returns an error leaves every entry as it was. -/
theorem handle_error {req : Request} {e : TtrpcError} (h : handle ans req t = .error e t') :
    Quiet (t.touched req) t t' := by
  have hsimple {α : Type} {id : String} {m : Method Container α} {f : α → Response}
      (hm : Keeps (Container.Still ∅) m)
      (h : onContainer id (raise m >>= fun a => pure (Next.reply (f a))) t = .error e t') :
      Quiet ∅ t t' :=
    (quiet_of_keeps (f := fun a => .reply (f a)) hm).2 e t' h
  cases req with
  | state id execId => exact hsimple (Container.keeps_state _) h
  | create req => exact create_error h
  | start id execId => exact start_error h
  | delete id execId => exact (delete_error h).mono (Set.empty_subset _)
  | pids id => exact hsimple (Container.keeps_allProcesses ans) h
  | pause id => exact pause_error h
  | resume id => exact resume_error h
  | kill id execId signal all =>
    exact hsimple (f := fun _ => .empty) (Container.keeps_kill ans _ signal all) h
  | exec req => exact exec_error h
  | resizePty id execId height width =>
    exact hsimple (f := fun _ => .empty) (Container.keeps_resizePty ans _) h
  | closeIo id execId => exact hsimple (f := fun _ => .empty) (Container.keeps_closeIo _) h
  | update id resources => exact update_error h
  | wait id execId => exact wait_error h
  | stats id => exact hsimple (Container.keeps_stats ans) h
  | connect id => cases h
  | shutdown =>
    rcases bind_error.mp h with hget | ⟨t₀, u, -, h⟩
    · cases hget
    · dsimp only at h
      split at h <;> cases h

end TaskService
end RustExtensions.RuncShim
