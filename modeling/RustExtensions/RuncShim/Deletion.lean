import RustExtensions.RuncShim.Failure

/-!
# Delete

Delete runs in up to four sections: the runtime delete, the removal of the
container from the map, the drain of its io, the event. The removal looks the id
up again, and the exit reported is whatever the entry held in the first section.
-/
namespace RustExtensions.RuncShim

open RustExtensions.Shim
open RustExtensions.Transition

namespace Table

/-- Only a Create puts another init process under an id. -/
theorem init_old {T : Table} {e : Effect} {id : String} {r : Slot}
    (hne : ∀ bundle pid, e ≠ .create id bundle pid) (hr : (T.apply e).slot (id, none) = some r) :
    ∃ s, T.slot (id, none) = some s ∧ r.inst = s.inst := by
  cases origin T hr with
  | kept hs => exact ⟨r, hs, rfl⟩
  | created id bundle pid => exact absurd rfl (hne bundle pid)
  | started hs => exact ⟨_, hs, rfl⟩
  | paused hs => exact ⟨_, hs, rfl⟩
  | resumed hs => exact ⟨_, hs, rfl⟩
  | registered hs => exact ⟨_, hs, rfl⟩
  | exited hs => exact ⟨_, hs, rfl⟩

end Table

namespace Shim

variable {s s' : Shim} {rid : Nat} {a : Action}

/-! ## What the removal removes -/

/-- The request is a Delete about to remove `id` from the map. -/
def Unregisters (id : String) : Cont → Prop
  | .unregister d => d.reqId = id
  | _ => False

instance (id : String) (c : Cont) : Decidable (Unregisters id c) :=
  match c with
  | .unregister d => inferInstanceAs (Decidable (d.reqId = id))
  | .send _ _ | .drain _ | .wait _ _ _ => inferInstanceAs (Decidable False)

/-- No Create is issued under an id that a Delete is about to remove. -/
def CreatesClear (s : Shim) (a : Action) : Prop :=
  ∀ req ∈ a.creates, ∀ rid c, s.inflight.lookup rid = some c → ¬Unregisters req.id c

instance (s : Shim) (a : Action) : Decidable (CreatesClear s a) :=
  inferInstanceAs (Decidable (∀ req ∈ a.creates, ∀ _ c, _ → ¬Unregisters req.id c))

/-- While a Delete is about to remove `id`, the container there is the one it deleted. -/
structure Removing (s : Shim) (rid : Nat) (id : String) (inst : Nat) : Prop where
  used : s.Used rid
  reqId : ∀ d, s.inflight.lookup rid = some (.unregister d) → d.reqId = id
  own : ∀ d r, s.inflight.lookup rid = some (.unregister d) →
    s.table.slot (id, none) = some r → r.inst = inst

theorem removing_call {id : String} {ans : Answers}
    (h : Step s (.call rid (.delete id "") ans) s') :
    (∃ r, s.table.slot (id, none) = some r ∧ Removing s' rid id r.inst) ∨
      ∃ e, s'.inflight.lookup rid = none ∧ s'.replies.lookup rid = some (.error e) := by
  have hu := h.used_call
  cases h with
  | @failed _ _ _ e t hpump hnew hfresh hq =>
    exact Or.inr ⟨e, replied_reply { s with task := t } rid (.error e)⟩
  | handled hpump hnew hfresh hn =>
    left
    cases hn with
    | simple hreq hq => exact hreq.elim
    | @deleteFailed _ _ r d e hr hfound hd hq =>
      refine ⟨r, hr, hu, fun d' hd' => ?_, fun d' _ hd' => ?_⟩
      · cases (inflight_proceed_self ..).symm.trans hd'
      · cases (inflight_proceed_self ..).symm.trans hd'
    | @deleteInit _ r d hr hfound hd hq =>
      refine ⟨r, hr, hu, fun d' hd' => ?_, fun d' r' hd' hr' => ?_⟩
      · cases (inflight_proceed_self ..).symm.trans hd'
        exact hfound.reqId
      · obtain ⟨insts, procs, hdid⟩ := hq
        rw [table_arrive, table, hdid.table] at hr'
        obtain rfl := Option.some.inj (hr'.symm.trans hr)
        rfl
    | deleteExec hid => exact absurd rfl hid

theorem Removing.step {id : String} {inst : Nat} (hd : Removing s rid id inst)
    (ha : CreatesClear s a) (h : Step s a s') : Removing s' rid id inst := by
  -- a removal that is pending after the step was pending before it
  have hold : ∀ d, s'.inflight.lookup rid = some (.unregister d) →
      s.inflight.lookup rid = some (.unregister d) := by
    intro d hc
    cases h.pending hc with
    | old hold hne => exact hold
    | called hn => exact (h.not_call hd.used).elim
    | drained hdr hdel =>
      obtain ⟨_, _, _, -, hsend⟩ := TaskService.deleted_ok hdel
      cases hsend
  refine ⟨h.used hd.used, fun d hc => hd.reqId d (hold d hc), fun d r hc hr => ?_⟩
  have hc := hold d hc
  obtain ⟨e, hne, htable⟩ : ∃ e, (∀ bundle pid, e ≠ .create id bundle pid) ∧
      s'.table = s.table.apply e := by
    rcases h.effect with ⟨⟨e, hcause, -, htable⟩, -⟩ | ⟨ev, an, x, r, -, -, -, htable, -⟩
    · refine ⟨e, ?_, htable⟩
      rintro bundle pid rfl
      cases hcause with
      | create => exact ha _ rfl rid _ hc (hd.reqId d hc)
    · exact ⟨.exit x ev.exitCode an.now, fun _ _ => (nomatch ·), htable⟩
  rw [htable] at hr
  obtain ⟨r', hr', hinst⟩ := Table.init_old hne hr
  exact hinst.trans (hd.own d r' hc hr')

/-- A later section that takes an entry out of the map is the removal of a Delete. -/
theorem Step.next_removes (h : Step s (.next rid) s') {x : Ref} {r : Record}
    (hr : s.task.entry x = some r) (hnone : s'.task.entry x = none) :
    ∃ d, s.inflight.lookup rid = some (.unregister d) ∧ d.reqId = x.1 := by
  obtain ⟨q, hq, rfl⟩ := TaskService.slot_of_entry hr
  have hgone : s'.table.slot x = none := by
    rw [TaskService.entry_eq] at hnone
    exact Option.map_eq_none_iff.mp hnone
  rcases h.effect with ⟨⟨e, hcause, -, htable⟩, -⟩ | ⟨ev, an, y, r, ha, -⟩
  · rw [htable] at hgone
    cases hcause with
    | quiet insts procs => exact nomatch hgone.symm.trans hq
    | @unregister _ d hc =>
      refine ⟨d, hc, ?_⟩
      by_contra hx
      have hstill := Table.slot_drop_of_not_mem s.table x (Table.under d.reqId) (Ne.symm hx)
      exact nomatch hgone.symm.trans (hstill.trans hq)
  · cases ha

/-- Whatever runs in between, what a Delete removes from the map belongs to the
container on which its first section ran the runtime delete. -/
theorem delete_removes_own {s₀ s₁ s₂ s₃ : Shim} (rid : Nat) (id : String) (ans : Answers)
    (hcall : shim.step s₀ (.call rid (.delete id "") ans) = some s₁)
    (hrun : shim.Run CreatesClear s₁ s₂) (hstep : shim.step s₂ (.next rid) = some s₃) (x : Ref)
    (r : Record) (hr : s₂.task.entry x = some r) (hnone : s₃.task.entry x = none) :
    x.1 = id ∧ ∃ r₀ i, s₀.task.entry (id, none) = some r₀ ∧ s₂.task.entry (id, none) = some i ∧
      i.inst = r₀.inst := by
  have hnext : Step s₂ (.next rid) s₃ := step_cases hstep
  obtain ⟨d, hun, hx⟩ := hnext.next_removes hr hnone
  rcases removing_call (step_cases hcall) with ⟨r₀, hr₀, hd⟩ | ⟨e, hdone, he⟩
  · have hd₂ : Removing s₂ rid id r₀.inst :=
      hrun.preserves (P := fun s => Removing s rid id r₀.inst)
        (fun _ _ _ hd ha hstep => hd.step ha (step_cases hstep)) hd
    obtain rfl := hd₂.reqId d hun
    obtain ⟨q, hq, -⟩ := TaskService.slot_of_entry hr
    obtain ⟨c, hc, -⟩ := TaskService.lookup_of_slot hq
    rw [← hx] at hc
    have hi := TaskService.slot_of_lookup hc none
    exact ⟨hx.symm, r₀.toRecord, c.init.toRecord, TaskService.entry_of_slot hr₀,
      TaskService.entry_of_slot hi, hd₂.own d _ hun hi⟩
  · exact nomatch (replied hrun hdone he).1.symm.trans hun

def stopRun : List Action := startRun ++ [exitC, .publish]

def stopped : Shim := shim.after System.Any {} stopRun

def deleteC : Action := .call 2 (.delete "c" "") {}

def deleting : Shim := shim.after System.Any stopped [deleteC]

/-- A container under another id is created meanwhile. -/
def creating : Shim :=
  shim.after CreatesClear deleting [.call 3 (.create { id := "d", bundle := "/d" }) {}]

theorem delete_removes_own_stopped : ∃ r₀ i, stopped.task.entry ("c", none) = some r₀ ∧
    creating.task.entry ("c", none) = some i ∧ i.inst = r₀.inst :=
  (@delete_removes_own stopped deleting creating (shim.after System.Any creating [.next 2])
    2 "c" {} (System.step_after (by decide +kernel)) (System.run_after (by decide +kernel))
    (System.step_after (by decide +kernel)) ("c", none) ((creating.task.entry ("c", none)).get
      (by decide +kernel)) (Option.some_get _).symm (by decide +kernel)).2

/-- The runtime creates no container that it knows, and answers for one that it
does not know that it does not exist. -/
def RuntimeKnows (s : Shim) : Action → Prop
  | .call _ (.create req) ans => s.task.world.runtime.lookup req.id ≠ none → ans.runtime ≠ none
  | .call _ (.delete id "") ans => s.task.world.runtime.lookup id = none →
    ∃ e ∈ ans.runtime, containsStr e.toLower "does not exist"
  | _ => True

instance (s : Shim) (a : Action) : Decidable (RuntimeKnows s a) := by
  unfold RuntimeKnows
  split <;> infer_instance

/-- A Create between the runtime delete and the removal: the new container goes. -/
theorem delete_removes_later_container : ¬∀ (s₀ s₁ s₂ s₃ : Shim) (rid : Nat) (id : String)
    (ans : Answers), shim.Reachable RuntimeKnows s₀ →
    RuntimeKnows s₀ (.call rid (.delete id "") ans) →
    shim.step s₀ (.call rid (.delete id "") ans) = some s₁ → shim.Run RuntimeKnows s₁ s₂ →
    shim.step s₂ (.next rid) = some s₃ → ∀ x r, s₂.task.entry x = some r →
    s₃.task.entry x = none → x.1 = id ∧ ∃ r₀ i, s₀.task.entry (id, none) = some r₀ ∧
      s₂.task.entry (id, none) = some i ∧ i.inst = r₀.inst := by
  intro h
  let s₀ : Shim := shim.after RuntimeKnows {} stopRun
  let s₁ : Shim := shim.after RuntimeKnows s₀ [deleteC]
  let s₂ : Shim := shim.after RuntimeKnows s₁ [.call 3 (.create { id := "c", bundle := "/b" }) {}]
  obtain ⟨-, r₀, i, hr₀, hi, hinst⟩ := h s₀ s₁ s₂ (shim.after RuntimeKnows s₂ [.next 2]) 2 "c" {}
    (System.run_after (by decide +kernel)) (by decide +kernel)
    (System.step_after (by decide +kernel)) (System.run_after (by decide +kernel))
    (System.step_after (by decide +kernel)) ("c", none) ((s₂.task.entry ("c", none)).get
      (by decide +kernel)) (Option.some_get _).symm (by decide +kernel)
  have hne : (s₂.task.entry ("c", none)).map (·.inst) ≠
      (s₀.task.entry ("c", none)).map (·.inst) := by
    decide +kernel
  rw [hr₀, hi] at hne
  exact hne (congrArg some hinst)

/-! ## What a Delete reports -/

/-- How far a Delete has got whose first section succeeded. -/
inductive Reporting (s : Shim) (rid : Nat) (d : Deletion) (p : Published) (resp : Response) : Prop
  | removing (hc : s.inflight.lookup rid = some (.unregister d))
    (hnone : s.replies.lookup rid = none)
  | draining (hc : s.inflight.lookup rid = some (.drain d)) (hnone : s.replies.lookup rid = none)
  | answering (h : Answering s rid p resp)

theorem Reporting.step {d : Deletion} {p : Published} {resp : Response}
    (hr : Reporting s rid d p resp) (hd : TaskService.deleted d = .ok (.send p resp))
    (h : Step s a s') : Reporting s' rid d p resp := by
  have hin (t : Shim) (c : Cont) := inflight_proceed_self t rid c
  cases hr with
  | removing hc hnone =>
    by_cases hnext : a = .next rid
    · subst hnext
      cases h.resumes hc
      exact .draining (hin _ _) hnone
    · obtain ⟨hc', hrep⟩ := h.stays hc hnext
      exact .removing hc' (hrep.trans hnone)
  | draining hc hnone =>
    by_cases hnext : a = .next rid
    · subst hnext
      cases h.resumes hc with
      | drained hd' =>
        cases hd.symm.trans hd'
        exact .answering (.sending (hin _ _) hnone)
      | undeleted hd' => cases hd.symm.trans hd'
    · obtain ⟨hc', hrep⟩ := h.stays hc hnext
      exact .draining hc' (hrep.trans hnone)
  | answering hans => exact .answering (hans.step h)

/-- The event and the response of a Delete whose first section found `r`. -/
def deleteEvent (containerId : String) (r : Record) : Published :=
  .about (some r) (.taskDelete containerId r.pid.toUInt32 r.exitCode.toUInt32
    (convertToTimestamp r.exitedAt))

def deleteResponse (r : Record) : Response := .delete {
  pid := r.pid.toUInt32
  exitStatus := r.exitCode.toUInt32
  exitedAt := convertToTimestamp r.exitedAt }

theorem deleted_eq {d : Deletion} {r : Record} (hprocess : d.process = some r)
    (hd : d.deleted = .ok (r.pid, r.exitCode, r.exitedAt)) :
    TaskService.deleted d = .ok (.send (deleteEvent d.containerId r) (deleteResponse r)) := by
  simp only [TaskService.deleted, hd, hprocess, deleteEvent, deleteResponse]

theorem reporting_call {id execId : String} {ans : Answers}
    (h : Step s (.call rid (.delete id execId) ans) s') :
    Failing s' rid ∨ ∃ r d, s.table.slot (id, execIdOpt execId) = some r ∧
      TaskService.deleted d = .ok (.send (deleteEvent d.containerId r.toRecord)
        (deleteResponse r.toRecord)) ∧
      Reporting s' rid d (deleteEvent d.containerId r.toRecord) (deleteResponse r.toRecord) := by
  cases h with
  | @failed _ _ _ e t hpump hnew hfresh hq =>
    obtain ⟨hdone, hx⟩ := replied_reply { s with task := t } rid (.error e)
    exact Or.inl (.failed hdone hx)
  | handled hpump hnew hfresh hn =>
    have hin (t : Shim) (c : Cont) := inflight_proceed_self t rid c
    cases hn with
    | simple hreq hq => exact hreq.elim
    | deleteFailed hr hfound hd hq => exact Or.inl (.draining (hin _ _) hfresh hd)
    | @deleteInit _ r d hr hfound hd hq =>
      exact Or.inr ⟨r, d, hr, deleted_eq hfound.process hd, .removing (hin _ _) hfresh⟩
    | @deleteExec _ _ r d hid hr hfound hd hdid =>
      have hopt : execIdOpt execId = some execId := if_neg hid
      rw [hopt]
      exact Or.inr ⟨r, d, hr, deleted_eq hfound.process hd, .draining (hin _ _) hfresh⟩

/-- A Delete answers with what the entry held in its first section. -/
theorem delete_answer {s₀ s₁ s₂ : Shim} {id execId : String} {ans : Answers} {resp : Response}
    (hcall : Step s₀ (.call rid (.delete id execId) ans) s₁) (hrun : shim.Run System.Any s₁ s₂)
    (hreply : s₂.replies.lookup rid = some (.ok resp)) :
    ∃ r, s₀.table.slot (id, execIdOpt execId) = some r ∧ resp = deleteResponse r.toRecord ∧
      ∃ containerId, deleteEvent containerId r.toRecord ∈ s₂.sent := by
  rcases reporting_call hcall with hf | ⟨r, d, hr, hd, hrep⟩
  · have hf₂ : Failing s₂ rid := hrun.preserves (P := fun s => Failing s rid)
      (fun _ _ _ hf _ hstep => (hf.step (step_cases hstep)).1) hf
    cases hf₂ with
    | failed hdone hx => cases hx.symm.trans hreply
    | draining hc hnone hd => cases hnone.symm.trans hreply
  · have hrep₂ := hrun.preserves (P := fun s => Reporting s rid d
        (deleteEvent d.containerId r.toRecord) (deleteResponse r.toRecord))
      (fun _ _ _ hrep _ hstep => hrep.step hd (step_cases hstep)) hrep
    cases hrep₂ with
    | removing hc hnone => cases hnone.symm.trans hreply
    | draining hc hnone => cases hnone.symm.trans hreply
    | answering hans =>
      obtain ⟨rfl, hp⟩ := hans.reply hreply
      exact ⟨r, hr, rfl, d.containerId, hp⟩

/-- The answer and the TaskDelete of `r` carry the code and the time of a TaskExit
that was published for its process before. -/
def ReportsExit (s₀ s₂ : Shim) (r : Record) (resp : Response) : Prop :=
  ∃ p ∈ s₀.sent, ∃ q ∈ s₂.sent, p.inst = some r.inst ∧ p.proc = r.proc ∧ q.inst = some r.inst ∧
    q.proc = r.proc ∧ ∃ container name container' pid pid' status exitedAt,
      p.event = .taskExit container name pid status exitedAt ∧
      q.event = .taskDelete container' pid' status exitedAt ∧
      resp = .delete { pid := pid', exitStatus := status, exitedAt := exitedAt }

theorem pump_of_call {req : Request} {ans : Answers} (h : Step s (.call rid req ans) s') :
    s.pump = none := by
  cases h with
  | handled hpump hnew hfresh hn => exact hpump
  | failed hpump hnew hfresh hq => exact hpump

/-- A Delete that returns Ok reports an exit that was handled if and only if it found
the process STOPPED. -/
theorem delete_reports_exit_iff {s₀ s₁ s₂ : Shim} (h : shim.Reachable System.Any s₀) (rid : Nat)
    (id execId : String) (ans : Answers) (resp : Response) (r : Record)
    (hr : s₀.task.entry (id, execIdOpt execId) = some r)
    (hcall : shim.step s₀ (.call rid (.delete id execId) ans) = some s₁)
    (hrun : shim.Run System.Any s₁ s₂) (hreply : s₂.replies.lookup rid = some (.ok resp)) :
    ReportsExit s₀ s₂ r resp ↔ r.state = .stopped := by
  have hlog := logged h
  obtain ⟨hexits, hsent⟩ := published_exits h
  obtain ⟨q, hq, rfl⟩ := TaskService.slot_of_entry hr
  have hs : Step s₀ (.call rid (.delete id execId) ans) s₁ := step_cases hcall
  obtain ⟨q', hq', rfl, containerId, hevent⟩ := delete_answer hs hrun hreply
  obtain rfl := Option.some.inj (hq.symm.trans hq')
  have hpub : s₀.published = s₀.sent := by
    rw [published, pump_of_call hs]
    exact List.append_nil _
  constructor
  · intro hexists
    obtain ⟨p, hp, -, -, hinst, hproc, -, -, container, name, -, pid, -, status, exitedAt, he, -⟩ :=
      hexists
    obtain ⟨e, hmem, hrep⟩ := hsent p (hpub ▸ hp) ⟨container, name, pid, status, exitedAt, he⟩
    refine hlog.same_stopped e hmem _ q hq ?_ (hproc.symm.trans hrep.proc)
    exact Option.some.inj (hinst.symm.trans hrep.inst)
  · intro hstop
    obtain ⟨now, hnow⟩ := Option.isSome_iff_exists.mp (hlog.stopped _ q hq hstop)
    obtain ⟨e, hmem, hinst, hcode, hat, hproc⟩ := hlog.recorded _ q now hq hnow
    obtain ⟨p, hp, hrep⟩ := hexits e hmem
    obtain ⟨container, name, pid, he⟩ := hrep.event
    refine ⟨p, hpub ▸ hp, _, hevent, hrep.inst.trans (congrArg some hinst),
      hrep.proc.trans (hproc hstop), rfl, rfl, container, name, containerId, pid, q.pid.toUInt32,
      _, _, he, ?_, ?_⟩
    · rw [deleteEvent, Published.about, hcode, hat, hnow]
      rfl
    · rw [deleteResponse, hcode, hat, hnow]
      rfl

/-- The rest of `deleteC`. -/
def deleted : Shim := shim.after System.Any deleting [.next 2, .next 2, .next 2]

theorem reachable_stopped : shim.Reachable System.Any stopped :=
  System.run_after (by decide +kernel)

theorem delete_reports_exit_stopped :
    ReportsExit stopped deleted ((stopped.task.entry ("c", none)).get (by decide +kernel))
      (.delete { pid := 1, exitStatus := 9, exitedAt := ⟨5, 0⟩ }) ↔
    ((stopped.task.entry ("c", none)).get (by decide +kernel)).state = .stopped :=
  @delete_reports_exit_iff _ deleting _ reachable_stopped 2 "c" "" {} _ _
    (Option.some_get _).symm (System.step_after (by decide +kernel))
    (System.run_after (by decide +kernel)) (by decide +kernel)

/-- A RUNNING process is deleted, and an exit with code 0 at the zero time reported. -/
theorem running_delete_reports_no_exit : ¬∀ (s₀ s₁ s₂ : Shim) (rid : Nat) (id execId : String)
    (ans : Answers) (resp : Response) (r : Record), shim.Reachable System.Any s₀ →
    s₀.task.entry (id, execIdOpt execId) = some r → r.state ≠ .created →
    shim.step s₀ (.call rid (.delete id execId) ans) = some s₁ → shim.Run System.Any s₁ s₂ →
    s₂.replies.lookup rid = some (.ok resp) → ReportsExit s₀ s₂ r resp := by
  intro h
  let s₁ : Shim := shim.after System.Any started [deleteC]
  let r : Record := (started.task.entry ("c", none)).get (by decide +kernel)
  obtain ⟨p, hp, -, -, -, -, -, -, container, name, -, pid, -, status, at', he, -⟩ :=
    h started s₁ (shim.after System.Any s₁ [.next 2, .next 2, .next 2]) 2 "c" "" {}
      (.delete { pid := 1, exitStatus := 0, exitedAt := {} }) r reachable_started
      (Option.some_get _).symm (by decide +kernel) (System.step_after (by decide +kernel))
      (System.run_after (by decide +kernel)) (by decide +kernel)
  have hnone : ∀ p ∈ started.published, ¬IsExit p := by
    intro p hp hex
    obtain ⟨e, he, -⟩ := (published_exits reachable_started).2 p hp hex
    have hexits : started.exits = [] := by decide +kernel
    exact List.not_mem_nil (hexits ▸ he)
  exact hnone p (List.mem_append_left _ hp) ⟨container, name, pid, status, at', he⟩

end Shim
end RustExtensions.RuncShim
