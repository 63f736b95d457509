import RustExtensions.RuncShim.PidFile
import RustExtensions.RuncShim.Spec.History

/-!
# The init pid file

The pid files of the execs of a container lie beside its own. Of all the names an
exec may have only `init` gives the path of the init pid file, so that file keeps
the pid of the init process while no exec of that name is started or deleted.
-/
namespace RustExtensions.RuncShim

open RustExtensions.Shim
open RustExtensions.Fallible
open RustExtensions.Transition

/-! ## Where the entry of an exec says its pid file is -/

namespace Table

variable {T : Table}

/-- An exec is named by its exec id, and lies in the bundle of its container. -/
def Named (T : Table) : Prop := ∀ id e r, T.slot (id, some e) = some r →
  r.id = e ∧ ∃ i, T.slot (id, none) = some i ∧ i.bundle = r.bundle

theorem Named.modify (h : T.Named) {T' : Table} {x : Ref} {f : Record → Record}
    (hT' : T'.slot = (T.modify x f).slot) : T'.Named := by
  intro id e r hr
  rw [hT'] at hr ⊢
  have hback : ∃ s, T.slot (id, some e) = some s ∧ s.id = r.id ∧ s.bundle = r.bundle := by
    obtain ⟨s, hs, ⟨-, rfl⟩ | ⟨-, rfl⟩⟩ := slot_modify T x _ f hr
    · exact ⟨_, hs, rfl, rfl⟩
    · exact ⟨s, hs, rfl, rfl⟩
  obtain ⟨s, hs, hid, hbundle⟩ := hback
  obtain ⟨hname, i, hi, hib⟩ := h id e s hs
  refine ⟨hid.symm.trans hname, ?_⟩
  by_cases hx : (id, none) = x
  · subst hx
    exact ⟨_, slot_modify_self T _ f hi, hib.trans hbundle⟩
  · exact ⟨i, (slot_modify_of_ne T x _ f hx).trans hi, hib.trans hbundle⟩

theorem Named.drop (h : T.Named) {xs : Set Ref}
    (hxs : ∀ id e, (id, none) ∈ xs → (id, some e) ∈ xs) : (T.drop xs).Named := by
  intro id e r hr
  obtain ⟨hx, hr⟩ := slot_drop T _ xs hr
  obtain ⟨hname, i, hi, hbundle⟩ := h id e r hr
  exact ⟨hname, i, (slot_drop_of_not_mem T _ xs fun hi => hx (hxs id e hi)).trans hi, hbundle⟩

theorem Named.apply (h : T.Named) {e : Effect} (he : T.Admits e) : (T.apply e).Named := by
  cases e with
  | quiet insts procs => exact h
  | create id bundle pid =>
    intro id' e r hr
    change (Table.put _ (id, none) _).slot _ = _ at hr
    change _ ∧ ∃ i, (Table.put _ (id, none) _).slot _ = _ ∧ _
    rw [slot_put_of_ne _ _ _ _ (by simp)] at hr
    obtain ⟨hx, hr⟩ := slot_drop T _ _ hr
    obtain ⟨hname, i, hi, hbundle⟩ := h id' e r hr
    refine ⟨hname, i, ?_, hbundle⟩
    rw [slot_put_of_ne _ _ _ _ fun he => hx (show id' = id from congrArg Prod.fst he)]
    exact (slot_drop_of_not_mem T (id', none) (under id) hx).trans hi
  | exec id execId bundle =>
    obtain ⟨i, hi, rfl⟩ := he
    intro id' e r hr
    change (Table.put _ (id, some execId) _).slot _ = _ at hr
    change _ ∧ ∃ i, (Table.put _ (id, some execId) _).slot _ = _ ∧ _
    have hinit (id' : String) : ((T.drop {(id, some execId)}).put (id, some execId)
        (T.fresh execId i.bundle)).slot (id', none) = T.slot (id', none) := by
      have hne : (id', none) ≠ (id, some execId) := (nomatch congrArg Prod.snd ·)
      rw [slot_put_of_ne _ _ _ _ hne]
      exact slot_drop_of_not_mem T (id', none) {(id, some execId)} hne
    rw [hinit]
    by_cases hx : (id', some e) = (id, some execId)
    · rw [hx, slot_put_self] at hr
      obtain rfl := Option.some.inj hr
      obtain ⟨rfl, he⟩ := Prod.mk.inj hx
      exact ⟨(Option.some.inj he).symm, i, hi, rfl⟩
    · rw [slot_put_of_ne _ _ _ _ hx] at hr
      exact h id' e r (slot_drop T _ _ hr).2
  | start id => exact h.modify rfl
  | spawn id execId pid => exact h.modify rfl
  | pause id => exact h.modify rfl
  | resume id => exact h.modify rfl
  | register x rx => exact h.modify rfl
  | exit x code now => exact h.modify (f := (ProcessTemplate.exited · code now)) rfl
  | remove id execId => exact h.drop fun id' e hx => nomatch congrArg Prod.snd hx
  | unregister id => exact h.drop fun _ _ hx => hx

/-- A name that has an entry had one before, or was just given. -/
theorem Origin.name {e : Effect} {x : Ref} {r : Slot} (h : T.Origin e x r) :
    (∃ s, T.slot x = some s) ∨ (∃ id bundle pid, e = .create id bundle pid ∧ x = (id, none)) ∨
      ∃ id execId bundle, e = .exec id execId bundle ∧ x = (id, some execId) := by
  cases h with
  | kept hs => exact Or.inl ⟨_, hs⟩
  | created id bundle pid => exact Or.inr (Or.inl ⟨id, bundle, pid, rfl, rfl⟩)
  | added id execId bundle => exact Or.inr (Or.inr ⟨id, execId, bundle, rfl, rfl⟩)
  | started hs => exact Or.inl ⟨_, hs⟩
  | spawned hs => exact Or.inl ⟨_, hs⟩
  | paused hs => exact Or.inl ⟨_, hs⟩
  | resumed hs => exact Or.inl ⟨_, hs⟩
  | registered hs => exact Or.inl ⟨_, hs⟩
  | exited hs => exact Or.inl ⟨_, hs⟩

end Table

namespace Shim

variable {s s' : Shim} {a : Action}

theorem named {ok : Shim → Action → Prop} (h : shim.Reachable ok s) : s.table.Named := by
  refine h.invariant (P := fun s => s.table.Named) ?_ ?_
  · exact fun _ _ _ => (nomatch ·)
  · intro s a s' _ ih _ hstep
    obtain ⟨e, he, htable⟩ := (step_cases hstep).table
    rw [htable]
    exact ih.apply he

/-- Exec ids are non-empty and without a slash. -/
def ValidExecIds (_ : Shim) (a : Action) : Prop :=
  ∀ x ∈ a.execs, ∀ e ∈ x.2, e ≠ "" ∧ '/' ∉ e.toList

instance (s : Shim) (a : Action) : Decidable (ValidExecIds s a) :=
  inferInstanceAs (Decidable (∀ x ∈ a.execs, ∀ e ∈ x.2, e ≠ "" ∧ '/' ∉ e.toList))

theorem no_slash (h : shim.Reachable ValidExecIds s) {id e : String} {r : Slot}
    (hr : s.table.slot (id, some e) = some r) : '/' ∉ e.toList := by
  have hinv : ∀ id e r, s.table.slot (id, some e) = some r → '/' ∉ e.toList := by
    refine h.invariant (P := fun s => ∀ id e r, s.table.slot (id, some e) = some r →
      '/' ∉ e.toList) ?_ ?_
    · exact fun _ _ _ => (nomatch ·)
    · intro s a s' _ ih ha hstep id e r hr
      rcases (step_cases hstep).effect with
        ⟨⟨eff, hcause, -, htable⟩, -⟩ | ⟨ev, an, x, q, -, -, -, htable, -⟩
      · rw [htable] at hr
        rcases (Table.origin _ hr).name with ⟨q, hq⟩ | ⟨_, _, _, -, hx⟩ | ⟨_, _, _, rfl, hx⟩
        · exact ih id e q hq
        · cases hx
        · cases hx
          cases hcause
          exact (ha _ rfl _ rfl).2
      · rw [htable] at hr
        rcases (Table.origin _ hr).name with ⟨q, hq⟩ | ⟨_, _, _, heff, -⟩ | ⟨_, _, _, heff, -⟩
        · exact ih id e q hq
        · cases heff
        · cases heff
  exact hinv id e r hr

/-! ## Which files a step writes -/

theorem handled_files {t t' : TaskService} {ans : Answers} {req : Request} {n : Next}
    (h : TaskService.Handled t ans t' req n) {path : String} (hpath : path ∉ t.touched req) :
    t'.world.files.lookup path = t.world.files.lookup path := by
  have hquiet (hq : TaskService.Quiet ∅ t t') :
      t'.world.files.lookup path = t.world.files.lookup path := by
    obtain ⟨insts, procs, hdid⟩ := hq
    exact hdid.files path (Set.notMem_empty _)
  cases h with
  | simple hreq hq => exact hquiet hq
  | create hdid hfile => exact hdid.files path hpath
  | startInit hr hdid => exact hdid.files path (Set.notMem_empty _)
  | startExec hid hr hdid =>
    rw [TaskService.touched, execIdOpt, if_neg hid] at hpath
    exact hdid.files path hpath
  | deleteFailed hr hfound hd hq => exact hquiet hq
  | deleteInit hr hfound hd hq => exact hquiet hq
  | deleteExec hid hr hfound hd hdid =>
    rw [TaskService.touched, execIdOpt, if_neg hid] at hpath
    exact hdid.files path hpath
  | pause hr hdid => exact hdid.files path (Set.notMem_empty _)
  | resume hr hdid => exact hdid.files path (Set.notMem_empty _)
  | exec hi hdid => exact hdid.files path (Set.notMem_empty _)
  | waitOver hr hi hover hexit hat hq => exact hquiet hq
  | waitOn hr hrx hdid => exact hdid.files path (Set.notMem_empty _)

/-- Only a first section writes files. -/
theorem Step.files (h : Step s a s') {path : String}
    (hpath : ∀ rid req ans, a = .call rid req ans → path ∉ s.task.touched req) :
    s'.task.world.files.lookup path = s.task.world.files.lookup path := by
  cases h with
  | @handled rid req ans n t hpump hnew hfresh hn =>
    have hfiles := handled_files hn (hpath rid req ans rfl)
    cases n <;> exact hfiles
  | failed hpump hnew hfresh hq =>
    obtain ⟨insts, procs, hdid⟩ := hq
    exact hdid.files path (hpath _ _ _ rfl)
  | send hc => rfl
  | unregister hpump hc => rfl
  | @drained rid d c hc hd => exact (TaskService.did_drain s.task d).files path (Set.notMem_empty _)
  | @undeleted rid d e hc hd =>
    exact (TaskService.did_drain s.task d).files path (Set.notMem_empty _)
  | woken hpump hc hrx hr hq =>
    obtain ⟨insts, procs, hdid⟩ := hq
    exact hdid.files path (Set.notMem_empty _)
  | lost hpump hc hrx hq =>
    obtain ⟨insts, procs, hdid⟩ := hq
    exact hdid.files path (Set.notMem_empty _)
  | exited hsub hpump hhit => exact hhit.did.files path (Set.notMem_empty _)
  | ignored hpump htable hfiles habsent => exact congrArg (·.lookup path) hfiles
  | published hpump => rfl

/-! ## The init pid file of one bundle -/

/-- Later containers have bundles of their own. -/
def OtherBundles (bundle : String) (_ : Shim) (a : Action) : Prop :=
  ∀ req ∈ a.creates, initPidPath req.bundle ≠ initPidPath bundle

instance (bundle : String) (s : Shim) (a : Action) : Decidable (OtherBundles bundle s a) :=
  inferInstanceAs (Decidable (∀ req ∈ a.creates, initPidPath req.bundle ≠ initPidPath bundle))

/-- The name is not that of an exec called `init` in a container on `bundle`. -/
def NotInit (bundle : String) (t : TaskService) (x : Ref) : Prop := x.2 = some "init" →
  ∀ c ∈ t.containers.lookup x.1, initPidPath c.bundle ≠ initPidPath bundle

instance (bundle : String) (t : TaskService) (x : Ref) : Decidable (NotInit bundle t x) :=
  inferInstanceAs (Decidable (_ → ∀ c ∈ t.containers.lookup x.1, _))

/-- No exec that is called `init` is started or deleted in a container on `bundle`. -/
def SparesInit (bundle : String) (s : Shim) (a : Action) : Prop :=
  (∀ x ∈ a.starts, NotInit bundle s.task x) ∧ ∀ x ∈ a.deletes, NotInit bundle s.task x

instance (bundle : String) (s : Shim) (a : Action) : Decidable (SparesInit bundle s a) :=
  inferInstanceAs (Decidable ((∀ x ∈ a.starts, NotInit bundle s.task x) ∧
    ∀ x ∈ a.deletes, NotInit bundle s.task x))

/-- The pid file of an exec that may be started or deleted is another file. -/
theorem initPidPath_not_mem (h : shim.Reachable ValidExecIds s) {bundle : String} {x : Ref}
    (hx : NotInit bundle s.task x) : initPidPath bundle ∉ s.task.pidPaths x := by
  obtain ⟨id, execId⟩ := x
  intro hexists
  obtain ⟨r, hsome, hr, hpath⟩ := hexists
  obtain ⟨e, rfl⟩ := Option.isSome_iff_exists.mp hsome
  obtain ⟨hname, i, hi, hbundle⟩ := named h id e r hr
  rw [hname] at hpath
  obtain rfl := PidFile.execPidPath_eq_initPidPath (no_slash h hr) hpath.symm
  obtain ⟨c, hc, hslot⟩ := TaskService.lookup_of_slot hi
  obtain rfl := Option.some.inj hslot
  apply hx rfl c hc
  have hc : c.bundle = r.bundle := hbundle
  rw [hc, hpath]
  rfl

/-- No step of these changes what the init pid file holds. -/
theorem Step.initPid (hr : shim.Reachable ValidExecIds s) {bundle : String}
    (hother : OtherBundles bundle s a) (hspares : SparesInit bundle s a) (h : Step s a s') :
    s'.task.world.files.lookup (initPidPath bundle) =
      s.task.world.files.lookup (initPidPath bundle) := by
  apply h.files
  intro rid req ans ha
  subst ha
  cases req with
  | create req =>
    rintro (hpath | hpath | hpath)
    · exact PidFile.joinPath_ne_initPidPath (by decide) (by decide) hpath.symm
    · exact PidFile.joinPath_ne_initPidPath (by decide) (by decide) hpath.symm
    · exact hother req rfl hpath.symm
  | start id execId => exact initPidPath_not_mem hr (hspares.1 _ rfl)
  | delete id execId => exact initPidPath_not_mem hr (hspares.2 _ rfl)
  | state | pids | exec | pause | resume | kill | resizePty | closeIo | update | wait | stats
  | connect | shutdown => exact Set.notMem_empty _

theorem initPid_call {req : CreateTaskRequest} {rid : Nat} {ans : Answers}
    (h : Step s (.call rid (.create req) ans) s') :
    (∃ p, Answering s' rid p (.create ans.pid.toUInt32) ∧
      s'.task.world.files.lookup (initPidPath req.bundle) = some (World.showPid ans.pid)) ∨
      ∃ e, s'.inflight.lookup rid = none ∧ s'.replies.lookup rid = some (.error e) := by
  cases h with
  | @failed _ _ _ e t hpump hnew hfresh hq =>
    exact Or.inr ⟨e, replied_reply { s with task := t } rid (.error e)⟩
  | handled hpump hnew hfresh hn =>
    cases hn with
    | simple hreq hq => exact hreq.elim
    | create hdid hfile =>
      exact Or.inl ⟨_, .sending (inflight_proceed_self ..) hfresh, hfile⟩

theorem deleteShim_pid {a : DeleteAnswers} {bundle id : String} {w w' : World} {pid : Int32}
    {resp : DeleteResponse} (hread : a.readPid = none)
    (hfile : w.files.lookup (initPidPath bundle) = some (World.showPid pid))
    (h : deleteShim a bundle id w = .ok resp w') : resp.pid = pid.toUInt32 := by
  obtain ⟨_, u, hopts, hrunc⟩ := bind_ok.mp h
  obtain rfl := answered_ok hopts
  obtain ⟨_, v, hcreate, hread'⟩ := bind_ok.mp hrunc
  obtain rfl := answered_ok hcreate
  obtain ⟨w₀, x, hget, hforce⟩ := bind_ok.mp hread'
  obtain ⟨rfl, rfl⟩ := EStateM.Result.ok.inj hget
  obtain ⟨_, y, -, hrest⟩ := bind_ok.mp hforce
  obtain ⟨exitedAt, z, -, hret⟩ := bind_ok.mp hrest
  obtain ⟨rfl, -⟩ := EStateM.Result.ok.inj hret
  simp only [hread, PidFile.pidInFile_of_lookup hfile, Except.toOption, Option.getD_some]

/-- The init pid file on `bundle` holds `pid`, and the `delete` action reports it. -/
def KeepsPid (s : Shim) (bundle : String) (pid : UInt32) : Prop :=
  (∃ p : Int32, p.toUInt32 = pid ∧
    s.task.world.files.lookup (initPidPath bundle) = some (World.showPid p)) ∧
    ∀ a id resp w, a.readPid = none → deleteShim a bundle id s.task.world = .ok resp w →
      resp.pid = pid

/-- Once a Create has returned, its bundle keeps the pid, whatever execs of other
names than `init` do. -/
theorem init_pid_file_kept {s₀ s₁ s₂ : Shim} (h₀ : shim.Reachable ValidExecIds s₀) (rid : Nat)
    (req : CreateTaskRequest) (ans : Answers) (pid : UInt32)
    (hcall : shim.step s₀ (.call rid (.create req) ans) = some s₁)
    (hrun : shim.Run (fun s a => ValidExecIds s a ∧ OtherBundles req.bundle s a ∧
      SparesInit req.bundle s a) s₁ s₂)
    (hreply : s₂.replies.lookup rid = some (.ok (.create pid))) :
    KeepsPid s₂ req.bundle pid := by
  have hvalid : ValidExecIds s₀ (.call rid (.create req) ans) := fun _ => (nomatch ·)
  have h₁ : shim.Reachable ValidExecIds s₁ := h₀.step hvalid hcall
  rcases initPid_call (step_cases hcall) with ⟨p, hanswering, hfile⟩ | ⟨e, hdone, he⟩
  · have hkept : Answering s₂ rid p (.create ans.pid.toUInt32) ∧
        s₂.task.world.files.lookup (initPidPath req.bundle) = some (World.showPid ans.pid) := by
      refine h₁.run_preserves (P := fun s => Answering s rid p (.create ans.pid.toUInt32) ∧
        s.task.world.files.lookup (initPidPath req.bundle) = some (World.showPid ans.pid))
        (fun _ _ ha => ha.1) ?_ hrun ⟨hanswering, hfile⟩
      rintro s a t hr ⟨hanswering, hfile⟩ ⟨-, hother, hspares⟩ hstep
      have hs : Step s a t := step_cases hstep
      exact ⟨hanswering.step hs, (hs.initPid hr hother hspares).trans hfile⟩
    obtain ⟨hresp, -⟩ := hkept.1.reply hreply
    obtain rfl := Response.create.inj hresp
    exact ⟨⟨ans.pid, rfl, hkept.2⟩, fun a id resp w hread => deleteShim_pid hread hkept.2⟩
  · exact nomatch (replied hrun hdone he).2.symm.trans hreply

def created : Shim :=
  shim.after ValidExecIds {} [.call 0 (.create { id := "c", bundle := "/b" }) {}]

theorem init_pid_file_kept_exec : KeepsPid (shim.after (fun s a => ValidExecIds s a ∧
    OtherBundles "/b" s a ∧ SparesInit "/b" s a) created (execRun "e").tail) "/b" 1 :=
  @init_pid_file_kept _ created _ System.Reachable.init 0 { id := "c", bundle := "/b" } {} 1
    (System.step_after (by decide +kernel)) (System.run_after (by decide +kernel))
    (by decide +kernel)

/-- An exec called `init` is started: its pid replaces that of the container. -/
theorem exec_overwrites_init_pid_file : ¬∀ (s₀ s₁ s₂ : Shim) (rid : Nat)
    (req : CreateTaskRequest) (ans : Answers) (pid : UInt32), shim.Reachable ValidExecIds s₀ →
    shim.step s₀ (.call rid (.create req) ans) = some s₁ →
    shim.Run (fun s a => ValidExecIds s a ∧ OtherBundles req.bundle s a) s₁ s₂ →
    s₂.replies.lookup rid = some (.ok (.create pid)) → KeepsPid s₂ req.bundle pid := by
  intro h
  let s₂ : Shim := shim.after (fun s a => ValidExecIds s a ∧ OtherBundles "/b" s a) created
    (execRun "init").tail
  obtain ⟨⟨p, hp, hfile⟩, -⟩ := h {} created s₂ 0 { id := "c", bundle := "/b" } {} 1
    System.Reachable.init (System.step_after (by decide +kernel))
    (System.run_after (by decide +kernel)) (by decide +kernel)
  have htwo : s₂.task.world.files.lookup (initPidPath "/b") = some (World.showPid 2) := by
    decide +kernel
  have hone := PidFile.parseI32_showPid p
  rw [← Option.some.inj (htwo.symm.trans hfile), PidFile.parseI32_showPid] at hone
  obtain rfl := Except.ok.inj hone
  exact absurd hp (by decide)

end Shim
end RustExtensions.RuncShim
