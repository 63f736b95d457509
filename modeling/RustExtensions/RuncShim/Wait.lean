import RustExtensions.RuncShim.Spec.History

/-!
# Wait

A wait that is blocked has its sender in an entry that can still exit, and a
wait is answered from the exit of the process it was issued on. The second holds
as long as no wait is issued on a live process of a paused container, no entry a
wait was registered on gives way to another of its name before the wait looks it
up again, and the exec waited on is not started again.
-/
namespace RustExtensions.RuncShim

open RustExtensions.Shim
open RustExtensions.Transition

namespace Table

variable {T : Table} {e : Effect} {x : Ref} {r : Slot} {rx : Channel}

/-- The effect does not start the exec `x` again. -/
def StartsNew (T : Table) (x : Ref) : Effect → Prop
  | .spawn id execId _ => x = (id, some execId) → ∀ r, T.slot x = some r → r.state = .created
  | _ => True

/-- What an entry keeps while its exec is not started again. -/
theorem continues (he : T.Admits e) (hnew : T.StartsNew x e)
    (hr : (T.apply e).slot x = some r) (hlt : r.inst < T.nextInst) :
    ∃ s, T.slot x = some s ∧ s.inst = r.inst ∧ (s.state = .stopped → r.state = .stopped) ∧
      (s.waitChanTx ⊆ r.waitChanTx ∨ r.state = .stopped) ∧
      (r.proc = s.proc ∨ x.2.isSome ∧ s.state = .created) := by
  have hsame : ∀ ch : List Channel, ch ⊆ ch := List.Subset.refl
  cases origin T hr with
  | kept hs => exact ⟨r, hs, rfl, id, Or.inl (hsame _), Or.inl rfl⟩
  | created id bundle pid => exact absurd rfl hlt.ne
  | added id execId bundle => exact absurd rfl hlt.ne
  | @started id s hs =>
    obtain ⟨i, hi, hstate⟩ := he
    obtain rfl := Option.some.inj (hs.symm.trans hi)
    exact ⟨s, hs, rfl, (absurd · hstate), Or.inl (hsame _), Or.inl rfl⟩
  | @spawned id execId pid s hs =>
    have hcreated : s.state = .created := hnew rfl s hs
    exact ⟨s, hs, rfl, fun hstop => (nomatch hcreated.symm.trans hstop),
      Or.inl (hsame _), Or.inr ⟨rfl, hcreated⟩⟩
  | @paused id s hs =>
    obtain ⟨i, hi, hstate⟩ := he
    obtain rfl := Option.some.inj (hs.symm.trans hi)
    exact ⟨s, hs, rfl, fun hstop => (nomatch hstate.symm.trans hstop), Or.inl (hsame _),
      Or.inl rfl⟩
  | @resumed id s hs =>
    obtain ⟨i, hi, hstate⟩ := he
    obtain rfl := Option.some.inj (hs.symm.trans hi)
    exact ⟨s, hs, rfl, fun hstop => (nomatch hstate.symm.trans hstop), Or.inl (hsame _),
      Or.inl rfl⟩
  | @registered x rx s hs =>
    exact ⟨s, hs, rfl, id, Or.inl (List.subset_append_left _ _), Or.inl rfl⟩
  | @exited x code now s hs => exact ⟨s, hs, rfl, fun _ => rfl, Or.inr rfl, Or.inl rfl⟩

/-- An exec that was not started has no process. -/
def Unstarted (T : Table) : Prop :=
  ∀ x r, T.slot x = some r → x.2.isSome → r.state = .created → r.proc = none

theorem Unstarted.apply (h : T.Unstarted) (e : Effect) : (T.apply e).Unstarted := by
  intro x r hr hexec hstate
  cases origin T hr with
  | kept hs => exact h x r hs hexec hstate
  | created id bundle pid => cases hexec
  | added id execId bundle => rfl
  | started hs => cases hexec
  | spawned hs => cases hstate
  | paused hs => cases hexec
  | resumed hs => cases hexec
  | @registered x rx s hs => exact h x s hs hexec hstate
  | exited hs => cases hstate

/-- The entry `rx` was registered on holds it or is STOPPED, and has the process
it had, if it is still at `x`. -/
def WaitsOn (T : Table) (x : Ref) (rx : Channel) (proc : Option Nat) : Prop :=
  ∀ r, T.slot x = some r → r.inst = rx.inst →
    (rx ∈ r.waitChanTx ∨ r.state = .stopped) ∧ ∀ q, proc = some q → r.proc = some q

theorem WaitsOn.apply {proc : Option Nat} (h : T.WaitsOn x rx proc) (hun : T.Unstarted)
    (hlt : rx.inst < T.nextInst) (he : T.Admits e) (hnew : T.StartsNew x e) :
    (T.apply e).WaitsOn x rx proc := by
  intro r hr hinst
  obtain ⟨s, hs, hi, hstop, hsub, hproc⟩ := continues he hnew hr (hinst ▸ hlt)
  obtain ⟨hheld, hsame⟩ := h s hs (hi.trans hinst)
  constructor
  · rcases hheld with hmem | hstate
    · exact hsub.imp (fun hsub => hsub hmem) id
    · exact Or.inr (hstop hstate)
  · intro q hq
    rcases hproc with hproc | ⟨hexec, hcreated⟩
    · exact hproc.trans (hsame q hq)
    · exact nomatch (hun x s hs hexec hcreated).symm.trans (hsame q hq)

theorem waitsOn_register (hr : T.slot x = some r) :
    (T.apply (.register x rx)).WaitsOn x rx r.proc := by
  intro r' hr' _
  obtain ⟨s, hs, ⟨hne, -⟩ | ⟨-, rfl⟩⟩ := slot_modify T x x (Record.registered rx) hr'
  · exact absurd rfl hne
  · obtain rfl := Option.some.inj (hr.symm.trans hs)
    exact ⟨Or.inl (List.mem_append_right _ (List.mem_singleton_self rx)), fun _ => id⟩

/-- The entry `inst` is STOPPED and has the process `proc`, if it is still at `x`. -/
def Ended (T : Table) (x : Ref) (inst : Nat) (proc : Option Nat) : Prop :=
  ∀ r, T.slot x = some r → r.inst = inst → r.state = .stopped ∧ r.proc = proc

theorem Ended.apply {inst : Nat} {proc : Option Nat} (h : T.Ended x inst proc)
    (hlt : inst < T.nextInst) (he : T.Admits e) (hnew : T.StartsNew x e) :
    (T.apply e).Ended x inst proc := by
  intro r hr hinst
  obtain ⟨s, hs, hi, hstop, -, hproc⟩ := continues he hnew hr (hinst ▸ hlt)
  obtain ⟨hstate, hp⟩ := h s hs (hi.trans hinst)
  refine ⟨hstop hstate, ?_⟩
  rcases hproc with hproc | ⟨-, hcreated⟩
  · exact hproc.trans hp
  · exact nomatch hstate.symm.trans hcreated

end Table

namespace Shim

variable {s s' : Shim} {rid : Nat}

/-! ## Waiters are registered -/

theorem awaited {ok : Shim → Action → Prop} (h : shim.Reachable ok s) :
    ∀ rid id execId rx, s.inflight.lookup rid = some (.wait id execId rx) →
      s.table.Awaited (id, execId) rx := by
  refine h.invariant (P := fun s => ∀ rid id execId rx,
    s.inflight.lookup rid = some (.wait id execId rx) → s.table.Awaited (id, execId) rx) ?_ ?_
  · intro rid id execId rx hc
    cases hc
  · intro s a s' hr ih _ hstep rid id execId rx hc
    have hs := step_cases hstep
    cases hs.pending hc with
    | old hold hne =>
      obtain ⟨e, -, htable⟩ := hs.table
      rw [htable]
      exact (ih rid id execId rx hold).apply e
    | called hn =>
      cases hn with
      | waitOn hr' hrx hdid =>
        change s'.task.table.Awaited _ _
        rw [hdid.table]
        exact Table.awaited_register (distinct hr) hdid.admits
    | drained hdr hd =>
      obtain ⟨_, _, _, -, hsend⟩ := TaskService.deleted_ok hd
      cases hsend

/-- A blocked wait has its sender in the entry it was registered on, which has
not exited. So once that entry is STOPPED, deleted or replaced it is not blocked. -/
theorem blocked_registered (h : shim.Reachable System.Any s) (rid : Nat) (id : String)
    (execId : Option String) (rx : Channel)
    (hc : s.inflight.lookup rid = some (.wait id execId rx))
    (hblocked : rx ∈ s.task.world.openTx) :
    ∃ r, s.task.entry (id, execId) = some r ∧ r.inst = rx.inst ∧ rx ∈ r.waitChanTx ∧
      r.state ≠ .stopped := by
  have hw := waiting h
  obtain ⟨x, r, hr, hmem⟩ := hw.held rx hblocked
  have hinst := (hw.inst_eq x r hr rx hmem).symm
  obtain rfl := (awaited h rid id execId rx hc).place x r hr hinst
  refine ⟨r.toRecord, TaskService.entry_of_slot hr, hinst, hmem, fun hstop => ?_⟩
  rw [hw.stopped _ r hr hstop] at hmem
  exact List.not_mem_nil hmem

/-- The start of a wait for it. -/
def waitC : Action := .call 2 (.wait "c" "") {}

theorem blocked_registered_started :
    ∃ r, (shim.after System.Any started [waitC]).task.entry ("c", none) = some r ∧
      r.inst = 0 ∧ { inst := 0, serial := 0 } ∈ r.waitChanTx ∧ r.state ≠ .stopped :=
  blocked_registered (reachable_started.run (System.run_after (by decide +kernel))) 2 "c" none
    { inst := 0, serial := 0 } rfl (by decide +kernel)

/-! ## Answers come from exits -/

/-- What a later section finds under the name it looks up. -/
def FindsOwn (t : TaskService) : Cont → Prop
  | .wait id execId rx => ∀ r ∈ t.entry (id, execId), r.inst = rx.inst
  | _ => True

/-- No wait is issued on a live process of a paused container, and a wait that
was woken finds the entry it was registered on, if any. -/
def WaitsInPlace (s : Shim) : Action → Prop
  | .call _ (.wait id execId) _ => ∀ i ∈ s.task.entry (id, none),
    ∀ r ∈ s.task.entry (id, execIdOpt execId), i.state = .pausing ∨ i.state = .paused →
      r.state = .stopped
  | .next rid => ∀ c ∈ s.inflight.lookup rid, FindsOwn s.task c
  | _ => True

instance (t : TaskService) (c : Cont) : Decidable (FindsOwn t c) :=
  match c with
  | .wait id execId rx => inferInstanceAs (Decidable (∀ r ∈ t.entry (id, execId), r.inst = rx.inst))
  | .send _ _ | .unregister _ | .drain _ => inferInstanceAs (Decidable True)

instance (s : Shim) (a : Action) : Decidable (WaitsInPlace s a) := by
  unfold WaitsInPlace
  split <;> infer_instance

/-- No Start addresses the exec `x` once it was started, unless the guard on the init
process refuses it. -/
def StartsNew (x : Ref) (s : Shim) (a : Action) : Prop :=
  a.starts = some x → x.2.isSome → ∀ i ∈ s.task.entry (x.1, none), ∀ r ∈ s.task.entry x,
    r.state ≠ .created → i.state = .stopped

instance (x : Ref) (s : Shim) (a : Action) : Decidable (StartsNew x s a) :=
  inferInstanceAs (Decidable (_ → _ → ∀ i ∈ s.task.entry (x.1, none), ∀ r ∈ s.task.entry x, _))

/-- What a wait on `x` needs of the steps until it is answered. -/
def WaitsThrough (x : Ref) (s : Shim) (a : Action) : Prop := WaitsInPlace s a ∧ StartsNew x s a

instance (x : Ref) (s : Shim) (a : Action) : Decidable (WaitsThrough x s a) :=
  inferInstanceAs (Decidable (_ ∧ _))

theorem Step.startsNew {a : Action} {x : Ref} (h : Step s a s') (ha : StartsNew x s a) :
    ∃ e, s.table.Admits e ∧ s.table.StartsNew x e ∧ s'.table = s.table.apply e := by
  rcases h.effect with ⟨⟨e, hcause, he, htable⟩, -⟩ | ⟨ev, an, y, r, -, -, hr, htable, -⟩
  · refine ⟨e, he, ?_, htable⟩
    cases hcause with
    | @spawn rid id execId ans hne =>
      intro hx r hr
      obtain ⟨⟨i, hi, hstate⟩, -⟩ := he
      subst hx
      by_contra hcreated
      exact hstate (ha (Action.starts_exec hne) rfl _ (TaskService.entry_of_slot hi) _
        (TaskService.entry_of_slot hr) hcreated)
    | _ => trivial
  · exact ⟨.exit y ev.exitCode an.now, ⟨r, hr⟩, trivial, htable⟩

theorem unstarted {ok : Shim → Action → Prop} (h : shim.Reachable ok s) : s.table.Unstarted := by
  refine h.invariant (P := fun s => s.table.Unstarted) ?_ ?_
  · exact fun _ _ => (nomatch ·)
  · intro s a s' _ ih _ hstep
    obtain ⟨e, -, htable⟩ := (step_cases hstep).table
    rw [htable]
    exact ih.apply e

/-- The answer reports an exit of the entry `inst` at `x`, and of its process if it
had one. The entry is STOPPED since, if it is still there. -/
structure Answered (s : Shim) (x : Ref) (inst : Nat) (proc : Option Nat) (resp : Response)
    (e : Exit) : Prop where
  mem : e ∈ s.exits
  inst_eq : e.inst = inst
  proc_eq : ∀ q, proc = some q → e.proc = some q
  resp_eq : resp =
    .wait { exitStatus := e.code.toUInt32, exitedAt := some e.exitedAt.timestamp }
  ended : s.table.Ended x inst e.proc

theorem Answered.step {x : Ref} {inst : Nat} {proc : Option Nat} {resp : Response} {e : Exit}
    {a : Action} (h : Answered s x inst proc resp e) (hr : shim.Reachable System.Any s)
    (ha : StartsNew x s a) (hs : Step s a s') : Answered s' x inst proc resp e where
  mem := hs.exits_subset h.mem
  inst_eq := h.inst_eq
  proc_eq := h.proc_eq
  resp_eq := h.resp_eq
  ended := by
    obtain ⟨eff, he, hnew, htable⟩ := hs.startsNew ha
    have hlt : inst < s.table.nextInst := h.inst_eq ▸ (logged hr).inst_lt e h.mem
    rw [htable]
    exact h.ended.apply hlt he hnew

/-- A STOPPED entry shows the exit that a wait answers with. -/
theorem answers_of_stopped {x : Ref} {r : Slot} {proc : Option Nat}
    (hr : shim.Reachable System.Any s) (hslot : s.table.slot x = some r)
    (hstop : r.state = .stopped) (hproc : ∀ q, proc = some q → r.proc = some q)
    {resp : WaitResponse} (hstatus : resp.exitStatus = r.exitCode.toUInt32)
    (hat : ∀ now, r.exitedAt = some now → resp.exitedAt = some now.timestamp) :
    ∃ e, Answered s x r.inst proc (.wait resp) e := by
  have hlog := logged hr
  obtain ⟨now, hnow⟩ := Option.isSome_iff_exists.mp (hlog.stopped x r hslot hstop)
  obtain ⟨e, he, hinst, hcode, hnow', hown⟩ := hlog.recorded x r now hslot hnow
  refine ⟨e, he, hinst, fun q hq => (hown hstop).trans (hproc q hq), ?_, ?_⟩
  · obtain ⟨status, at'⟩ := resp
    obtain rfl := hstatus
    rw [hcode, hnow']
    exact congrArg Response.wait (congrArg _ (hat now hnow))
  · intro r' hr' _
    obtain rfl := Option.some.inj (hslot.symm.trans hr')
    exact ⟨hstop, (hown hstop).symm⟩

/-- A wait on the entry `inst` is registered, or answered from an exit, or failed. -/
inductive Watched (s : Shim) (rid : Nat) (id : String) (execId : Option String) (inst : Nat)
    (proc : Option Nat) : Prop
  | registered {rx : Channel} (hc : s.inflight.lookup rid = some (.wait id execId rx))
    (hrx : rx.inst = inst) (hnone : s.replies.lookup rid = none)
    (hon : s.table.WaitsOn (id, execId) rx proc)
  | answered {x : Except TtrpcError Response} (hdone : s.inflight.lookup rid = none)
    (hx : s.replies.lookup rid = some x)
    (hok : ∀ resp, x = .ok resp → ∃ e, Answered s (id, execId) inst proc resp e)

theorem watched_reply {inst : Nat} {proc : Option Nat} {t : Shim} {rid : Nat} {id : String}
    {execId : Option String} {x : Except TtrpcError Response}
    (hok : ∀ resp, x = .ok resp → ∃ e, Answered t (id, execId) inst proc resp e) :
    Watched (t.reply rid x) rid id execId inst proc :=
  .answered (replied_reply t rid x).1 (replied_reply t rid x).2 fun resp he =>
    (hok resp he).imp fun _ h => ⟨h.mem, h.inst_eq, h.proc_eq, h.resp_eq, h.ended⟩

/-- What is answered from the table before a quiet section holds after it. -/
theorem Answered.quiet {x : Ref} {inst : Nat} {proc : Option Nat} {resp : Response} {e : Exit}
    {t : TaskService} {paths : Set String} (h : Answered s x inst proc resp e)
    (hq : TaskService.Quiet paths s.task t) :
    Answered { s with task := t } x inst proc resp e := by
  refine ⟨h.mem, h.inst_eq, h.proc_eq, h.resp_eq, ?_⟩
  obtain ⟨insts, procs, hdid⟩ := hq
  change t.table.Ended x inst e.proc
  rw [hdid.table]
  exact h.ended

/-- The first section of a wait. -/
theorem watched_call (h : shim.Reachable System.Any s) {id execId : String}
    {ans : Answers} (hcond : WaitsInPlace s (.call rid (.wait id execId) ans))
    (hstep : s.step (.call rid (.wait id execId) ans) = some s') :
    (∃ r, s.task.entry (id, execIdOpt execId) = some r ∧
      Watched s' rid id (execIdOpt execId) r.inst r.proc) ∨
    ∃ e, s'.inflight.lookup rid = none ∧ s'.replies.lookup rid = some (.error e) := by
  cases step_cases hstep with
  | @failed _ _ _ e t hpump hnew hfresh hq =>
    exact Or.inr ⟨e, replied_reply { s with task := t } rid (.error e)⟩
  | @handled _ _ _ _ t hpump hnew hfresh hn =>
    left
    cases hn with
    | simple hreq hq => exact hreq.elim
    | @waitOver _ _ r i resp hr hi hover hexit hat hq =>
      refine ⟨r.toRecord, TaskService.entry_of_slot hr, ?_⟩
      have hstopped : r.state = .stopped := by
        have hpaused := hcond _ (TaskService.entry_of_slot hi) _ (TaskService.entry_of_slot hr)
        rcases hover with ⟨hrun, hcre⟩ | hpause
        · rcases settled h _ r hr with hst | hst | hst | ⟨hst, hnone⟩
          · exact absurd hst hcre
          · exact absurd hst hrun
          · exact hst
          · -- a paused entry is the init process itself
            have hx : ((id, execIdOpt execId) : Ref) = (id, none) := Prod.ext rfl hnone
            rw [hx] at hr
            obtain rfl := Option.some.inj (hr.symm.trans hi)
            exact hpaused (Or.inr hst)
        · exact hpaused hpause
      apply watched_reply
      intro resp' he
      obtain rfl := Except.ok.inj he
      have hans : ∃ e, Answered s (id, execIdOpt execId) r.inst r.proc (.wait resp) e := by
        refine answers_of_stopped h hr hstopped (fun _ hq => hq) hexit fun now hnow => ?_
        rw [hat, hnow]
        rfl
      exact hans.imp fun _ hans => hans.quiet hq
    | @waitOn _ _ r rx hr hrx hdid =>
      have hinst : rx.inst = r.inst := congrArg Channel.inst hrx
      refine ⟨r.toRecord, TaskService.entry_of_slot hr,
        .registered (inflight_proceed_self ..) hinst hfresh ?_⟩
      have hon : t.table.WaitsOn (id, execIdOpt execId) rx r.proc := by
        rw [hdid.table]
        exact Table.waitsOn_register hr
      exact hon

theorem Watched.step {id : String} {execId : Option String} {inst : Nat} {proc : Option Nat}
    {a : Action} (h : shim.Reachable System.Any s) (hw : Watched s rid id execId inst proc)
    (hcond : WaitsThrough (id, execId) s a) (hstep : s.step a = some s') :
    Watched s' rid id execId inst proc := by
  have hs := step_cases hstep
  obtain ⟨hplace, hstarts⟩ := hcond
  cases hw with
  | answered hdone hx hok =>
    obtain ⟨hdone', hx'⟩ := hs.settled hdone hx
    exact .answered hdone' hx' fun resp he =>
      (hok resp he).imp fun _ hans => hans.step h hstarts hs
  | @registered rx hc hrx hnone hon =>
    by_cases hnext : a = .next rid
    · subst hnext
      have hfinds : ∀ r ∈ s.task.entry (id, execId), r.inst = rx.inst := hplace _ hc
      cases hs.resumes hc with
      | lost => exact watched_reply fun resp he => nomatch he
      | @woken _ _ _ r t hclosed hr hq =>
        have hinst : r.inst = rx.inst := hfinds _ (TaskService.entry_of_slot hr)
        obtain ⟨hheld, hproc⟩ := hon r hr hinst
        -- a channel that was closed is held no more
        have hstopped : r.state = .stopped :=
          hheld.resolve_left fun hmem => hclosed ((waiting h).opened _ r hr rx hmem)
        apply watched_reply
        intro resp he
        obtain rfl := Except.ok.inj he
        rw [← hrx, ← hinst]
        have hans : ∃ e, Answered s (id, execId) r.inst proc (.wait {
            exitStatus := r.exitCode.toUInt32
            exitedAt := some (convertToTimestamp r.exitedAt) }) e := by
          refine answers_of_stopped h hr hstopped hproc rfl fun now hnow => ?_
          rw [hnow]
          rfl
        exact hans.imp fun _ hans => hans.quiet hq
    · obtain ⟨hc', hrep⟩ := hs.stays hc hnext
      obtain ⟨e, he, hnew, htable⟩ := hs.startsNew hstarts
      refine .registered hc' hrx (hrep.trans hnone) ?_
      rw [htable]
      exact hon.apply (unstarted h) (awaited h rid id execId rx hc).inst_lt he hnew

/-- Whatever runs between the sections of a wait: if it returns Ok, the process it
was issued on has exited, and the answer is the exit recorded for it. The entry is
STOPPED then, if it is still in the map. -/
theorem wait_reports_exit {s₀ s₁ s₂ : Shim} (h : shim.Reachable System.Any s₀) (rid : Nat)
    (id execId : String) (ans : Answers) (resp : Response)
    (hcond : WaitsInPlace s₀ (.call rid (.wait id execId) ans))
    (hcall : shim.step s₀ (.call rid (.wait id execId) ans) = some s₁)
    (hrun : shim.Run (WaitsThrough (id, execIdOpt execId)) s₁ s₂)
    (hreply : s₂.replies.lookup rid = some (.ok resp)) :
    ∃ r, s₀.task.entry (id, execIdOpt execId) = some r ∧ ∃ e ∈ s₂.exits, e.inst = r.inst ∧
      (∀ q, r.proc = some q → e.proc = some q) ∧
      resp = .wait { exitStatus := e.code.toUInt32, exitedAt := some e.exitedAt.timestamp } ∧
      ∀ r', s₂.task.entry (id, execIdOpt execId) = some r' → r'.inst = r.inst →
        r'.state = .stopped ∧ r'.proc = e.proc := by
  have h₁ : shim.Reachable System.Any s₁ := h.step trivial hcall
  rcases watched_call h hcond hcall with ⟨r, hr, hw⟩ | ⟨e, hdone, he⟩
  · have hw₂ : Watched s₂ rid id (execIdOpt execId) r.inst r.proc :=
      h₁.run_preserves (P := fun s => Watched s rid id (execIdOpt execId) r.inst r.proc)
        (fun _ _ _ => trivial) (fun _ _ _ hr hw hcond hstep => hw.step hr hcond hstep) hrun hw
    cases hw₂ with
    | registered hc hrx hnone hon => exact nomatch hnone.symm.trans hreply
    | answered hdone hx hok =>
      obtain rfl := Option.some.inj (hx.symm.trans hreply)
      obtain ⟨e, hans⟩ := hok resp rfl
      refine ⟨r, hr, e, hans.mem, hans.inst_eq, hans.proc_eq, hans.resp_eq, fun r' hr' hinst => ?_⟩
      obtain ⟨q, hq, rfl⟩ := TaskService.slot_of_entry hr'
      exact hans.ended q hq hinst
  · exact nomatch (replied hrun hdone he).2.symm.trans hreply

theorem wait_reports_exit_started : ∃ r, started.task.entry ("c", none) = some r ∧
    ∃ e ∈ (shim.after (WaitsThrough ("c", none)) (shim.after System.Any started [waitC])
      [exitC, .publish, .next 2]).exits,
      e.inst = r.inst ∧ (∀ q, r.proc = some q → e.proc = some q) ∧
      Response.wait { exitStatus := 9, exitedAt := some ⟨5, 0⟩ } =
        .wait { exitStatus := e.code.toUInt32, exitedAt := some e.exitedAt.timestamp } ∧
      ∀ r', (shim.after (WaitsThrough ("c", none)) (shim.after System.Any started [waitC])
        [exitC, .publish, .next 2]).task.entry ("c", none) = some r' → r'.inst = r.inst →
        r'.state = .stopped ∧ r'.proc = e.proc := by
  refine @wait_reports_exit _ (shim.after System.Any started [waitC]) _ reachable_started 2 "c" ""
    {} _ ?_ ?_ (System.run_after ?_) ?_
  · decide +kernel
  · exact System.step_after (by decide +kernel)
  · decide +kernel
  · decide +kernel

/-- A paused container: the wait is answered while its process lives. -/
theorem paused_wait_reports_no_exit : ¬∀ (s₀ s₁ s₂ : Shim) (rid : Nat) (id execId : String)
    (ans : Answers) (resp : Response), shim.Reachable System.Any s₀ →
    shim.step s₀ (.call rid (.wait id execId) ans) = some s₁ → shim.Run System.Any s₁ s₂ →
    s₂.replies.lookup rid = some (.ok resp) →
    ∃ r, s₀.task.entry (id, execIdOpt execId) = some r ∧ ∃ e ∈ s₂.exits, e.inst = r.inst ∧
      (∀ q, r.proc = some q → e.proc = some q) ∧
      resp = .wait { exitStatus := e.code.toUInt32, exitedAt := some e.exitedAt.timestamp } ∧
      ∀ r', s₂.task.entry (id, execIdOpt execId) = some r' → r'.inst = r.inst →
        r'.state = .stopped ∧ r'.proc = e.proc := by
  intro h
  let paused : Shim := shim.after System.Any started [.call 3 (.pause "c") {}, .next 3]
  obtain ⟨r, -, e, he, -⟩ := h paused (shim.after System.Any paused [waitC]) _ 2 "c" "" {}
    (.wait { exitStatus := 0, exitedAt := none })
    (reachable_started.run (System.run_after (by decide +kernel)))
    (System.step_after (by decide +kernel)) (System.Run.refl _) (by decide +kernel)
  have hnone : (shim.after System.Any paused [waitC]).exits = [] := by decide +kernel
  exact List.not_mem_nil (hnone ▸ he)

end Shim
end RustExtensions.RuncShim
