import RustExtensions.RuncShim.Spec.History

/-!
# Requests that fail

A request that returns an error was a quiet section, and for Delete a drain
after it. So every entry is as it was, whichever step inside the handler failed.
-/
namespace RustExtensions.RuncShim

open RustExtensions.Shim
open RustExtensions.Transition

namespace TaskService

variable {t t' : TaskService}

theorem Quiet.entry {paths : Set String} (h : Quiet paths t t') (x : Ref) :
    t'.entry x = t.entry x := by
  obtain ⟨insts, procs, hdid⟩ := h
  rw [entry_eq, entry_eq, hdid.table]
  rfl

end TaskService

namespace Shim

variable {s s' : Shim} {rid : Nat} {a : Action}

/-- The requests that alter the task. -/
def Alters : Request → Prop
  | .create .. | .start .. | .exec .. | .pause .. | .resume .. | .kill .. | .update ..
  | .delete .. => True
  | _ => False

/-- The request failed in its first section, or is a Delete about to report an error. -/
inductive Failing (s : Shim) (rid : Nat) : Prop
  | failed {e : TtrpcError} (hdone : s.inflight.lookup rid = none)
    (hx : s.replies.lookup rid = some (.error e))
  | draining {d : Deletion} {e : Error} (hc : s.inflight.lookup rid = some (.drain d))
    (hnone : s.replies.lookup rid = none) (hd : d.deleted = .error e)

/-- What is left of a request that will return Ok. -/
def Succeeds : Cont → Prop
  | .send _ _ => True
  | .unregister d | .drain d => d.deleted.isOk
  | .wait _ _ _ => False

inductive Succeeding (s : Shim) (rid : Nat) : Prop
  | replied {resp : Response} (hdone : s.inflight.lookup rid = none)
    (hx : s.replies.lookup rid = some (.ok resp))
  | left {c : Cont} (hc : s.inflight.lookup rid = some c)
    (hnone : s.replies.lookup rid = none) (hok : Succeeds c)

theorem deleted_of_isOk {d : Deletion} (h : d.deleted.isOk) :
    ∃ p resp, TaskService.deleted d = .ok (.send p resp) := by
  unfold TaskService.deleted
  split
  · next hd =>
    rw [hd] at h
    cases h
  · exact ⟨_, _, rfl⟩

/-- A first section has either done what it is for, or nothing. -/
theorem failing_or_succeeding {req : Request} {ans : Answers} (hreq : Alters req)
    (h : Step s (.call rid req ans) s') :
    Failing s' rid ∧ (∀ x, s'.task.entry x = s.task.entry x) ∨ Succeeding s' rid := by
  cases h with
  | failed hpump hnew hfresh hq =>
    obtain ⟨hdone, hx⟩ := replied_reply { s with task := _ } rid (.error _)
    exact Or.inl ⟨.failed hdone hx, hq.entry⟩
  | handled hpump hnew hfresh hn =>
    have hin (t : Shim) (c : Cont) := inflight_proceed_self t rid c
    cases hn with
    | simple hreq' hq =>
      obtain ⟨hdone, hx⟩ := replied_reply { s with task := _ } rid (.ok _)
      exact Or.inr (.replied hdone hx)
    | create hdid hfile => exact Or.inr (.left (hin _ _) hfresh trivial)
    | startInit hr hdid => exact Or.inr (.left (hin _ _) hfresh trivial)
    | startExec hid hr hdid => exact Or.inr (.left (hin _ _) hfresh trivial)
    | deleteFailed hr hfound hd hq => exact Or.inl ⟨.draining (hin _ _) hfresh hd, hq.entry⟩
    | deleteInit hr hfound hd hq =>
      refine Or.inr (.left (hin _ _) hfresh ?_)
      rw [Succeeds, hd]
      rfl
    | deleteExec hid hr hfound hd hdid =>
      refine Or.inr (.left (hin _ _) hfresh ?_)
      rw [Succeeds, hd]
      rfl
    | pause hr hdid => exact Or.inr (.left (hin _ _) hfresh trivial)
    | resume hr hdid => exact Or.inr (.left (hin _ _) hfresh trivial)
    | exec hi hdid => exact Or.inr (.left (hin _ _) hfresh trivial)
    | waitOver hr hi hover hexit hat hq => exact hreq.elim
    | waitOn hr hrx hdid => exact hreq.elim

/-- A failing request goes on failing, and its sections change no entry. -/
theorem Failing.step (hf : Failing s rid) (h : Step s a s') :
    Failing s' rid ∧ (a = .next rid → ∀ x, s'.task.entry x = s.task.entry x) := by
  cases hf with
  | failed hdone hx =>
    obtain ⟨hdone', hx'⟩ := h.settled hdone hx
    refine ⟨.failed hdone' hx', ?_⟩
    intro heq
    subst heq
    obtain ⟨c, hc⟩ := h.next_inflight
    exact nomatch hc.symm.trans hdone
  | @draining d e hc hnone hd =>
    by_cases hnext : a = .next rid
    · subst hnext
      cases h.resumes hc with
      | drained hd' =>
        obtain ⟨_, _, _, hok, -⟩ := TaskService.deleted_ok hd'
        cases hd.symm.trans hok
      | @undeleted _ e' hd' =>
        obtain ⟨hdone, hx⟩ := replied_reply { s with task := s.task.drain d } rid (.error e')
        have hdid := TaskService.did_drain s.task d
        exact ⟨.failed hdone hx, fun _ => TaskService.Quiet.entry ⟨0, 0, hdid⟩⟩
    · obtain ⟨hc', hrep⟩ := h.stays hc hnext
      exact ⟨.draining hc' (hrep.trans hnone) hd, fun he => absurd he hnext⟩

theorem Succeeding.step (hs : Succeeding s rid) (h : Step s a s') : Succeeding s' rid := by
  cases hs with
  | replied hdone hx =>
    obtain ⟨hdone', hx'⟩ := h.settled hdone hx
    exact .replied hdone' hx'
  | @left c hc hnone hok =>
    by_cases hnext : a = .next rid
    · subst hnext
      cases c with
      | send p resp =>
        cases h.resumes hc
        obtain ⟨hdone, hx⟩ := replied_reply { s with sent := s.sent ++ [p] } rid (.ok resp)
        exact .replied hdone hx
      | unregister d =>
        cases h.resumes hc
        exact .left (inflight_proceed_self ..) hnone hok
      | drain d =>
        obtain ⟨p, resp, hsend⟩ := deleted_of_isOk hok
        cases h.resumes hc with
        | drained hd' =>
          cases hd'.symm.trans hsend
          exact .left (inflight_proceed_self ..) hnone trivial
        | undeleted hd' => cases hd'.symm.trans hsend
      | wait id execId rx => exact hok.elim
    · obtain ⟨hc', hrep⟩ := h.stays hc hnext
      exact .left hc' (hrep.trans hnone) hok

/-- The later sections of one request, with nothing in between. -/
def OwnSections (rid : Nat) : Shim → Action → Prop := fun _ a => a = .next rid

instance (rid : Nat) (s : Shim) (a : Action) : Decidable (OwnSections rid s a) :=
  match a with
  | .next rid' => decidable_of_iff (rid' = rid) ⟨congrArg _, Action.next.inj⟩
  | .call .. => .isFalse (nomatch ·)
  | .exit .. => .isFalse (nomatch ·)
  | .publish => .isFalse (nomatch ·)

/-- A request that returns an error leaves the containers, the execs and every
record as they were. -/
theorem error_keeps_entries {s₀ s₁ s₂ : Shim} (rid : Nat) (req : Request) (ans : Answers)
    (e : TtrpcError) (hreq : Alters req) (hcall : shim.step s₀ (.call rid req ans) = some s₁)
    (hrun : shim.Run (OwnSections rid) s₁ s₂) (herr : s₂.replies.lookup rid = some (.error e)) :
    (∀ id, (s₂.task.containers.lookup id).isSome = (s₀.task.containers.lookup id).isSome) ∧
      ∀ x, s₂.task.entry x = s₀.task.entry x := by
  suffices hentry : ∀ x, s₂.task.entry x = s₀.task.entry x by
    refine ⟨fun id => ?_, hentry⟩
    rw [TaskService.isSome_lookup, TaskService.isSome_lookup, hentry]
  rcases failing_or_succeeding hreq (step_cases hcall) with ⟨hf, hentry⟩ | hs
  · refine (hrun.preserves (P := fun s => Failing s rid ∧
      ∀ x, s.task.entry x = s₀.task.entry x) ?_ ⟨hf, hentry⟩).2
    intro s a s' ⟨hf, hentry⟩ hown hstep
    obtain ⟨hf', hsame⟩ := hf.step (step_cases hstep)
    exact ⟨hf', fun x => (hsame hown x).trans (hentry x)⟩
  · have hs₂ : Succeeding s₂ rid := hrun.preserves (P := fun s => Succeeding s rid)
      (fun _ _ _ hs _ hstep => hs.step (step_cases hstep)) hs
    cases hs₂ with
    | replied hdone hx => cases hx.symm.trans herr
    | left hc hnone hok => cases hnone.symm.trans herr

/-- A Delete that the runtime refuses. -/
def refusedDelete : Action := .call 2 (.delete "c" "") { runtime := some "device is busy" }

theorem error_keeps_entries_refused :
    (∀ id, ((shim.after (OwnSections 2) (shim.after System.Any started [refusedDelete])
      [.next 2]).task.containers.lookup id).isSome = (started.task.containers.lookup id).isSome) ∧
    ∀ x, (shim.after (OwnSections 2) (shim.after System.Any started [refusedDelete])
      [.next 2]).task.entry x = started.task.entry x :=
  error_keeps_entries 2 (.delete "c" "") { runtime := some "device is busy" }
    (.others ("Other: OCI runtime delete failed: (no OCI runtime error in logfile) " ++
      "device is busy"))
    trivial (System.step_after (by decide +kernel)) (System.run_after (by decide +kernel))
    (by decide +kernel)

end Shim
end RustExtensions.RuncShim
