import RustExtensions.RuncShim.Spec.Pump

/-!
# Steps of the shim

`Step` lists what a step of the running shim can be. The shim simulates the
process table: each of its steps is one effect.
-/
namespace RustExtensions.RuncShim

open RustExtensions.Shim
open RustExtensions.Fallible
open RustExtensions.Transition
open RustExtensions.KeyedMap (Map)

namespace TaskService

variable {t t' : TaskService}

/-! ## Later sections -/

theorem did_unregister (t : TaskService) (id : String) :
    Did ∅ (.unregister id) t (t.unregister id) := by
  refine ⟨trivial, Table.ext ?_ ?_ rfl rfl rfl, fun _ _ => rfl⟩
  · funext x
    by_cases hx : x.1 = id
    · refine Eq.trans ?_ (Table.slot_drop_of_mem t.table x (Table.under id) hx).symm
      simp only [table, unregister, KeyedMap.Map.lookup_erase_eq, hx, if_true, Option.bind_none]
    · refine Eq.trans ?_ (Table.slot_drop_of_not_mem t.table x (Table.under id) hx).symm
      simp only [table, unregister, KeyedMap.Map.lookup_erase_eq, hx, if_false]
  · exact openTx_dropSenders (T := t.table) rfl fun rx => mem_held_under.symm

theorem slot_shutdownProcess {S : Type} (bundle : S → String) (io : List (Nat × Nat))
    (p : ProcessTemplate S) : (shutdownProcess io p).slot bundle = p.slot bundle := by
  unfold shutdownProcess
  split <;> rfl

/-- Shutting io down concerns no record. -/
theorem table_shutdownIo (t : TaskService) (io : List (Nat × Nat)) :
    (t.shutdownIo io).table = t.table := by
  refine Table.ext (funext fun x => ?_) rfl rfl rfl rfl
  simp only [table, shutdownIo, KeyedMap.Map.lookup_mapValues]
  cases t.containers.lookup x.1 with
  | none => rfl
  | some c =>
    simp only [Option.map_some, Option.bind_some]
    cases x.2 with
    | none => exact congrArg some (slot_shutdownProcess _ io c.init)
    | some e =>
      simp only [Container.slot, KeyedMap.Map.lookup_mapValues]
      cases c.processes.lookup e with
      | none => rfl
      | some p => exact congrArg some (slot_shutdownProcess _ io p)

theorem did_drain (t : TaskService) (d : Deletion) : Did ∅ (.quiet 0 0) t (t.drain d) := by
  unfold drain
  split
  · exact ⟨trivial, table_shutdownIo t _, fun _ _ => rfl⟩
  · exact ⟨trivial, rfl, fun _ _ => rfl⟩

/-- A Delete that succeeded leaves its event to be sent. -/
theorem deleted_ok {d : Deletion} {c : Cont} (h : deleted d = .ok c) :
    ∃ pid code exitedAt, d.deleted = .ok (pid, code, exitedAt) ∧ c = .send
      (.about d.process (.taskDelete d.containerId pid.toUInt32 code.toUInt32
        (convertToTimestamp exitedAt)))
      (.delete {
        pid := pid.toUInt32
        exitStatus := code.toUInt32
        exitedAt := convertToTimestamp exitedAt }) := by
  unfold deleted at h
  cases hd : d.deleted with
  | error e =>
    rw [hd] at h
    cases h
  | ok info =>
    rw [hd] at h
    exact ⟨info.1, info.2.1, info.2.2, rfl, (Except.ok.inj h).symm⟩

theorem waitExited_ok {id : String} {execId : Option String} {resp : Response}
    (h : waitExited id execId t = .ok resp t') : Quiet ∅ t t' ∧
      ∃ r, t.table.slot (id, execId) = some r ∧ resp = .wait {
        exitStatus := r.exitCode.toUInt32
        exitedAt := some (convertToTimestamp r.exitedAt) } := by
  obtain ⟨c, s, hc, hs, rfl⟩ := onContainer_ok h
  obtain ⟨info, u, hinfo, hret⟩ := bind_ok.mp hs
  have hinfo := raise_ok.mp hinfo
  obtain ⟨⟨r, hr, rfl⟩, -, -⟩ := Container.getExitInfo_ok hinfo
  have hstill := (Container.keeps_getExitInfo execId).returns _ _ _ hinfo
  obtain ⟨rfl, rfl⟩ := EStateM.Result.ok.inj hret
  exact ⟨quiet_store hc hstill, r, (slot_of_lookup hc execId).trans hr, rfl⟩

theorem waitExited_error {id : String} {execId : Option String} {e : TtrpcError}
    (h : waitExited id execId t = .error e t') : Quiet ∅ t t' := by
  apply quiet_of_error h
  intro c s hc hs
  rcases bind_error.mp hs with hinfo | ⟨info, u, -, hret⟩
  · obtain ⟨err, herr⟩ := raise_error hinfo
    exact (Container.keeps_getExitInfo execId).fails _ err s herr
  · cases hret

end TaskService

namespace Action

/-- The entry that a Start addresses. -/
def starts : Action → Option Ref
  | .call _ (.start id execId) _ => some (id, execIdOpt execId)
  | _ => none

theorem starts_exec {rid : Nat} {id execId : String} {ans : Answers} (h : execId ≠ "") :
    starts (.call rid (.start id execId) ans) = some (id, some execId) := by
  rw [starts, execIdOpt, if_neg h]

/-- The entry that a Delete addresses. -/
def deletes : Action → Option Ref
  | .call _ (.delete id execId) _ => some (id, execIdOpt execId)
  | _ => none

/-- The entry that an Exec adds. -/
def execs : Action → Option Ref
  | .call _ (.exec req) _ => some (req.id, some req.execId)
  | _ => none

def creates : Action → Option CreateTaskRequest
  | .call _ (.create req) _ => some req
  | _ => none

end Action

namespace Shim

/-- The process table of the running shim. -/
def table (s : Shim) : Table := s.task.table

/-- Where a first section that returned normally leaves its request. -/
def arrive (s : Shim) (rid : Nat) : Next → Shim
  | .reply resp => s.reply rid (.ok resp)
  | .cont c => s.proceed rid c

/-- The steps of the shim. -/
inductive Step (s : Shim) : Action → Shim → Prop
  | handled {rid : Nat} {req : Request} {ans : Answers} {n : Next} {t : TaskService}
    (hpump : s.pump = none) (hnew : s.inflight.lookup rid = none)
    (hfresh : s.replies.lookup rid = none) (hn : TaskService.Handled s.task ans t req n) :
    Step s (.call rid req ans) ({ s with task := t }.arrive rid n)
  | failed {rid : Nat} {req : Request} {ans : Answers} {e : TtrpcError} {t : TaskService}
    (hpump : s.pump = none) (hnew : s.inflight.lookup rid = none)
    (hfresh : s.replies.lookup rid = none)
    (hq : TaskService.Quiet (s.task.touched req) s.task t) :
    Step s (.call rid req ans) ({ s with task := t }.reply rid (.error e))
  | send {rid : Nat} {event : Published} {resp : Response}
    (hc : s.inflight.lookup rid = some (.send event resp)) :
    Step s (.next rid) ({ s with sent := s.sent ++ [event] }.reply rid (.ok resp))
  | unregister {rid : Nat} {d : Deletion} (hpump : s.pump = none)
    (hc : s.inflight.lookup rid = some (.unregister d)) :
    Step s (.next rid) ({ s with task := s.task.unregister d.reqId }.proceed rid (.drain d))
  | drained {rid : Nat} {d : Deletion} {c : Cont} (hc : s.inflight.lookup rid = some (.drain d))
    (hd : TaskService.deleted d = .ok c) :
    Step s (.next rid) ({ s with task := s.task.drain d }.proceed rid c)
  | undeleted {rid : Nat} {d : Deletion} {e : TtrpcError}
    (hc : s.inflight.lookup rid = some (.drain d)) (hd : TaskService.deleted d = .error e) :
    Step s (.next rid) ({ s with task := s.task.drain d }.reply rid (.error e))
  | woken {rid : Nat} {id : String} {execId : Option String} {rx : Channel} {r : Slot}
    {t : TaskService} (hpump : s.pump = none)
    (hc : s.inflight.lookup rid = some (.wait id execId rx)) (hrx : rx ∉ s.table.openTx)
    (hr : s.table.slot (id, execId) = some r) (hq : TaskService.Quiet ∅ s.task t) :
    Step s (.next rid) ({ s with task := t }.reply rid (.ok (.wait {
      exitStatus := r.exitCode.toUInt32
      exitedAt := some (convertToTimestamp r.exitedAt) })))
  | lost {rid : Nat} {id : String} {execId : Option String} {rx : Channel} {e : TtrpcError}
    {t : TaskService} (hpump : s.pump = none)
    (hc : s.inflight.lookup rid = some (.wait id execId rx)) (hrx : rx ∉ s.table.openTx)
    (hq : TaskService.Quiet ∅ s.task t) :
    Step s (.next rid) ({ s with task := t }.reply rid (.error e))
  | exited {ev : ExitEvent} {pid : Int32} {a : PumpAnswers} {x : Ref} {r : Slot}
    {event : Published} {e : Exit} {t : TaskService} (hsub : ev.subject = .pid pid)
    (hpump : s.pump = none)
    (hhit : TaskService.Hit s.task t pid ev.exitCode a.now x r event e) :
    Step s (.exit ev a) { s with task := t, pump := some event, exits := s.exits ++ [e] }
  | ignored {ev : ExitEvent} {a : PumpAnswers} {t : TaskService} (hpump : s.pump = none)
    (htable : t.table = s.table) (hfiles : t.world.files = s.task.world.files)
    (habsent : ∀ pid, ev.subject = .pid pid → ∀ x r, s.table.slot x = some r → r.pid ≠ pid) :
    Step s (.exit ev a) { s with task := t }
  | published {event : Published} (hpump : s.pump = some event) :
    Step s .publish { s with sent := s.sent ++ [event], pump := none }

variable {s s' : Shim}

theorem step_call {rid : Nat} {req : Request} {ans : Answers}
    (h : s.call rid req ans = some s') : Step s (.call rid req ans) s' := by
  unfold call at h
  split at h
  · next hpre =>
    obtain ⟨hpump, hnew, hfresh⟩ := hpre
    obtain rfl := Option.some.inj h
    cases hres : TaskService.handle ans req s.task with
    | error e t => exact .failed hpump hnew hfresh (TaskService.handle_error hres)
    | ok n t =>
      have hstep := Step.handled hpump hnew hfresh (TaskService.handle_ok hres)
      cases n with
      | reply resp => exact hstep
      | cont c => exact hstep
  · cases h

theorem step_next {rid : Nat} (h : s.next rid = some s') : Step s (.next rid) s' := by
  unfold next at h
  split at h
  · cases h
  · next hc =>
    obtain rfl := Option.some.inj h
    exact .send hc
  · next hc =>
    split at h
    · next hpump =>
      obtain rfl := Option.some.inj h
      exact .unregister hpump hc
    · cases h
  · next d hc =>
    dsimp only at h
    cases hd : TaskService.deleted d with
    | ok c =>
      rw [hd] at h
      obtain rfl := Option.some.inj h
      exact .drained hc hd
    | error e =>
      rw [hd] at h
      obtain rfl := Option.some.inj h
      exact .undeleted hc hd
  · next id execId rx hc =>
    split at h
    · next hpre =>
      obtain ⟨hpump, hrx⟩ := hpre
      cases hres : TaskService.waitExited id execId s.task with
      | ok resp t =>
        rw [hres] at h
        obtain rfl := Option.some.inj h
        obtain ⟨hq, r, hr, rfl⟩ := TaskService.waitExited_ok hres
        exact .woken hpump hc hrx hr hq
      | error e t =>
        rw [hres] at h
        obtain rfl := Option.some.inj h
        exact .lost hpump hc hrx (TaskService.waitExited_error hres)
    · cases h

theorem step_exit {ev : ExitEvent} {a : PumpAnswers} (h : s.exit ev a = some s') :
    Step s (.exit ev a) s' := by
  unfold exit at h
  cases hsub : ev.subject with
  | exec id execId =>
    rw [hsub] at h
    dsimp only at h
    split at h
    · next hpump =>
      obtain rfl := Option.some.inj h
      exact .ignored (t := s.task) hpump rfl rfl fun pid hpid => nomatch hsub.symm.trans hpid
    · cases h
  | pid pid =>
    rw [hsub] at h
    dsimp only at h
    split at h
    · next hpre =>
      obtain ⟨hpump, horder⟩ := hpre
      cases hres : processExit a pid ev.exitCode a.order s.task with
      | error e t =>
        rw [hres] at h
        cases h
      | ok found t =>
        rw [hres] at h
        rcases TaskService.processExit_ok hres with ⟨rfl, hmiss⟩ | ⟨event, e, x, r, rfl, hhit⟩
        · obtain rfl := Option.some.inj h
          refine .ignored hpump hmiss.table hmiss.files fun pid' hpid' x r hr => ?_
          obtain rfl := Subject.pid.inj (hsub.symm.trans hpid')
          exact hmiss.absent horder hr
        · obtain rfl := Option.some.inj h
          exact .exited hsub hpump hhit
    · cases h

/-- Every step of the shim is one of the listed ones. -/
theorem step_cases {a : Action} (h : s.step a = some s') : Step s a s' := by
  cases a with
  | call rid req ans => exact step_call h
  | next rid => exact step_next h
  | exit ev a => exact step_exit h
  | publish =>
    change s.publish = some s' at h
    unfold publish at h
    split at h
    · next event hpump =>
      obtain rfl := Option.some.inj h
      exact .published hpump
    · cases h

/-! ## Simulation -/

/-- Which effects other than an exit an action may have. -/
inductive Causes (s : Shim) : Action → Effect → Prop
  | quiet {a : Action} (insts procs : Nat) : Causes s a (.quiet insts procs)
  | create {rid : Nat} {req : CreateTaskRequest} {ans : Answers} :
    Causes s (.call rid (.create req) ans) (.create req.id req.bundle ans.pid)
  | exec {rid : Nat} {req : ExecProcessRequest} {ans : Answers} (bundle : String) :
    Causes s (.call rid (.exec req) ans) (.exec req.id req.execId bundle)
  | start {rid : Nat} {id : String} {ans : Answers} :
    Causes s (.call rid (.start id "") ans) (.start id)
  | spawn {rid : Nat} {id execId : String} {ans : Answers} (he : execId ≠ "") :
    Causes s (.call rid (.start id execId) ans) (.spawn id execId ans.pid)
  | pause {rid : Nat} {id : String} {ans : Answers} :
    Causes s (.call rid (.pause id) ans) (.pause id)
  | resume {rid : Nat} {id : String} {ans : Answers} :
    Causes s (.call rid (.resume id) ans) (.resume id)
  | register {rid : Nat} {id execId : String} {ans : Answers} (rx : Channel) :
    Causes s (.call rid (.wait id execId) ans) (.register (id, execIdOpt execId) rx)
  | remove {rid : Nat} {id execId : String} {ans : Answers} (he : execId ≠ "") :
    Causes s (.call rid (.delete id execId) ans) (.remove id execId)
  | unregister {rid : Nat} {d : Deletion} (hc : s.inflight.lookup rid = some (.unregister d)) :
    Causes s (.next rid) (.unregister d.reqId)

theorem Causes.ne_exit {a : Action} {e : Effect} (h : Causes s a e) (x : Ref) (code : Int32)
    (now : OffsetDateTime) : e ≠ .exit x code now := by
  intro heq
  subst heq
  cases h

/-- The action had one effect, which is not an exit. -/
def Acts (s : Shim) (a : Action) (T : Table) : Prop :=
  ∃ e, Causes s a e ∧ s.table.Admits e ∧ T = s.table.apply e

theorem acts_of_did {paths : Set String} {a : Action} {e : Effect} {t : TaskService}
    (h : TaskService.Did paths e s.task t) (hcause : Causes s a e) : Acts s a t.table :=
  ⟨e, hcause, h.admits, h.table⟩

theorem acts_of_quiet {paths : Set String} {a : Action} {t : TaskService}
    (h : TaskService.Quiet paths s.task t) : Acts s a t.table := by
  obtain ⟨insts, procs, hdid⟩ := h
  exact acts_of_did hdid (.quiet insts procs)

/-- The effect of a first section that returned normally. -/
theorem acts_of_handled {rid : Nat} {t : TaskService} {ans : Answers} {req : Request} {n : Next}
    (h : TaskService.Handled s.task ans t req n) : Acts s (.call rid req ans) t.table := by
  cases h with
  | simple hreq hq => exact acts_of_quiet hq
  | create hdid hfile => exact acts_of_did hdid .create
  | startInit hr hdid => exact acts_of_did hdid .start
  | startExec hid hr hdid => exact acts_of_did hdid (.spawn hid)
  | deleteFailed hr hfound hd hq => exact acts_of_quiet hq
  | deleteInit hr hfound hd hq => exact acts_of_quiet hq
  | deleteExec hid hr hfound hd hdid => exact acts_of_did hdid (.remove hid)
  | pause hr hdid => exact acts_of_did hdid .pause
  | resume hr hdid => exact acts_of_did hdid .resume
  | exec hi hdid => exact acts_of_did hdid (.exec _)
  | waitOver hr hi hover hexit hat hq => exact acts_of_quiet hq
  | waitOn hr hrx hdid => exact acts_of_did hdid (.register _)

theorem table_arrive (s : Shim) (rid : Nat) (n : Next) : (s.arrive rid n).table = s.table := by
  cases n <;> rfl

theorem exits_arrive (s : Shim) (rid : Nat) (n : Next) : (s.arrive rid n).exits = s.exits := by
  cases n <;> rfl

/-- Each step of the shim is one effect on its process table: an exit of the
process that the pump found, or an effect that is no exit. -/
theorem Step.effect {a : Action} (h : Step s a s') :
    Acts s a s'.table ∧ s'.exits = s.exits ∨
      ∃ ev an x r, a = .exit ev an ∧ ev.subject = .pid r.pid ∧ s.table.slot x = some r ∧
        s'.table = s.table.apply (.exit x ev.exitCode an.now) ∧ s'.exits = s.exits ++
          [{ inst := r.inst, proc := r.proc, code := ev.exitCode, exitedAt := an.now }] := by
  have hstill : Acts s a s.table := ⟨_, .quiet 0 0, trivial, rfl⟩
  cases h with
  | @handled rid req ans n t hpump hnew hfresh hn =>
    left
    rw [table_arrive, exits_arrive]
    exact ⟨acts_of_handled hn, rfl⟩
  | failed hpump hnew hfresh hq => exact Or.inl ⟨acts_of_quiet hq, rfl⟩
  | send hc => exact Or.inl ⟨hstill, rfl⟩
  | @unregister rid d hpump hc =>
    exact Or.inl ⟨acts_of_did (TaskService.did_unregister s.task d.reqId) (.unregister hc), rfl⟩
  | @drained rid d c hc hd =>
    exact Or.inl ⟨acts_of_did (TaskService.did_drain s.task d) (.quiet 0 0), rfl⟩
  | @undeleted rid d e hc hd =>
    exact Or.inl ⟨acts_of_did (TaskService.did_drain s.task d) (.quiet 0 0), rfl⟩
  | woken hpump hc hrx hr hq => exact Or.inl ⟨acts_of_quiet hq, rfl⟩
  | lost hpump hc hrx hq => exact Or.inl ⟨acts_of_quiet hq, rfl⟩
  | @exited ev pid an x r event e t hsub hpump hhit =>
    obtain ⟨i, -, hreported⟩ := hhit.reported
    obtain rfl := hhit.bears
    refine Or.inr ⟨ev, an, x, r, rfl, hsub, hhit.slot, hhit.did.table, ?_⟩
    rw [hreported.exit_eq]
  | ignored hpump htable hfiles habsent =>
    exact Or.inl ⟨⟨.quiet 0 0, .quiet 0 0, trivial, htable⟩, rfl⟩
  | published hpump => exact Or.inl ⟨hstill, rfl⟩

theorem Step.table {a : Action} (h : Step s a s') :
    ∃ e, s.table.Admits e ∧ s'.table = s.table.apply e := by
  rcases h.effect with ⟨⟨e, -, he, htable⟩, -⟩ | ⟨ev, an, x, r, -, -, hr, htable, -⟩
  · exact ⟨e, he, htable⟩
  · exact ⟨.exit x ev.exitCode an.now, ⟨r, hr⟩, htable⟩

/-- The shim simulates the process table. -/
theorem reachable_table {ok : Shim → Action → Prop} (h : shim.Reachable ok s) :
    Table.system.Reachable System.Any s.table := by
  refine h.map table ?_ ?_
  · exact Table.ext (funext fun _ => rfl) (Set.eq_empty_of_forall_notMem fun _ hrx => nomatch hrx)
      rfl rfl rfl
  · intro s a t _ _ hstep
    obtain ⟨e, he, htable⟩ := (step_cases hstep).table
    exact System.Run.single trivial (Table.system_step.mpr ⟨he, htable.symm⟩)

theorem distinct {ok : Shim → Action → Prop} (h : shim.Reachable ok s) : s.table.Distinct :=
  (Table.distinct_waiting (reachable_table h)).1

theorem waiting {ok : Shim → Action → Prop} (h : shim.Reachable ok s) : s.table.Waiting :=
  (Table.distinct_waiting (reachable_table h)).2

theorem settled {ok : Shim → Action → Prop} (h : shim.Reachable ok s) : s.table.Settled :=
  Table.settled (reachable_table h)

end Shim
end RustExtensions.RuncShim
