import RustExtensions.RuncShim.Spec.History

/-!
# The order of events

A start event is sent after the lock is released, an exit event before the pump
releases it. So an exit overtakes the start of its process exactly when the pump
handles it while the start event is still on its way.
-/
namespace RustExtensions.RuncShim

open RustExtensions.Shim
open RustExtensions.Transition

namespace Shim

variable {s s' : Shim} {a : Action}

/-- The events that tell of a new process. -/
def IsStart (p : Published) : Prop :=
  match p.event with
  | .taskCreate .. | .taskStart .. | .taskExecStarted .. => True
  | _ => False

instance (p : Published) : Decidable (IsStart p) := by
  unfold IsStart
  split <;> infer_instance

/-- The request is about to send a start event of the process. -/
def Announces (proc : Option Nat) : Cont → Prop
  | .send p _ => IsStart p ∧ p.proc = proc
  | _ => False

instance (proc : Option Nat) (c : Cont) : Decidable (Announces proc c) := by
  cases c <;> unfold Announces <;> infer_instance

/-- No exit is handled of a pid whose process has a start event on its way. -/
def ExitsAnnounced (s : Shim) : Action → Prop
  | .exit ev _ => ∀ x r, s.task.entry x = some r → ev.subject = .pid r.pid →
    ∀ rid c, s.inflight.lookup rid = some c → ¬Announces r.proc c
  | _ => True

instance (s : Shim) (a : Action) : Decidable (ExitsAnnounced s a) := by
  unfold ExitsAnnounced
  split <;> infer_instance

theorem isStart_not_isExit {p : Published} (h : IsStart p) : ¬IsExit p := by
  intro hexists
  obtain ⟨container, id, pid, code, at', he⟩ := hexists
  rw [IsStart, he] at h
  exact h

/-- The processes whose start event is on its way have not exited. -/
def Unexited (s : Shim) : Prop := ∀ rid p resp q, s.inflight.lookup rid = some (.send p resp) →
  IsStart p → p.proc = some q → q < s.table.nextProc ∧ ∀ e ∈ s.exits, e.proc ≠ some q

/-- The start event that a handler leaves to be sent is about a process that has not exited. -/
theorem handled_unexited {t : TaskService} {ans : Answers} {req : Request} {p : Published}
    {resp : Response} {q : Nat} {exits : List Exit} (hd : s.table.Distinct)
    (hlog : Logged s.table exits)
    (h : TaskService.Handled s.task ans t req (.cont (.send p resp))) (hp : IsStart p)
    (hq : p.proc = some q) : q < t.table.nextProc ∧ ∀ e ∈ exits, e.proc ≠ some q := by
  have hnew (hnext : s.table.nextProc = q) : ∀ e ∈ exits, e.proc ≠ some q := by
    intro e he heq
    have := hlog.proc_lt e he q heq
    omega
  cases h with
  | create hdid hfile =>
    obtain rfl := Option.some.inj hq
    rw [hdid.table]
    exact ⟨Nat.lt_succ_self _, hnew rfl⟩
  | @startInit id r hr hdid =>
    obtain ⟨r', hr', hstate⟩ := hdid.admits
    obtain rfl := Option.some.inj (hr.symm.trans hr')
    rw [hdid.table]
    refine ⟨hd.proc_lt _ r q hr hq, fun e he heq => ?_⟩
    exact hstate (hlog.proc_stopped e he _ r q hr hq heq)
  | startExec hid hr hdid =>
    obtain rfl := Option.some.inj hq
    rw [hdid.table]
    exact ⟨Nat.lt_succ_self _, hnew rfl⟩
  | pause hr hdid => exact hp.elim
  | resume hr hdid => exact hp.elim
  | exec hi hdid => exact hp.elim

theorem deleted_not_start {d : Deletion} {p : Published} {resp : Response}
    (h : TaskService.deleted d = .ok (.send p resp)) : ¬IsStart p := by
  obtain ⟨_, _, _, -, hsend⟩ := TaskService.deleted_ok h
  obtain ⟨rfl, -⟩ := Cont.send.inj hsend
  exact id

theorem unexited (h : shim.Reachable ExitsAnnounced s) : Unexited s := by
  refine h.invariant (P := Unexited) ?_ ?_
  · intro rid p resp q hc
    cases hc
  intro s a s' hr ih ha hstep rid p resp q hc hp hq
  have hs := step_cases hstep
  cases hs.pending hc with
  | old hold hne =>
    obtain ⟨hlt, hex⟩ := ih rid p resp q hold hp hq
    rcases hs.effect with
      ⟨⟨e, -, -, htable⟩, hexits⟩ | ⟨ev, an, x, r, rfl, hsub, hx, htable, hexits⟩
    · rw [htable, hexits]
      exact ⟨hlt.trans_le (Table.nextProc_le _ e), hex⟩
    · rw [htable, hexits]
      refine ⟨hlt.trans_le (Table.nextProc_le _ _), fun e he => ?_⟩
      rcases List.mem_append.mp he with he | he
      · exact hex e he
      · obtain rfl := List.mem_singleton.mp he
        intro heq
        exact ha x _ (TaskService.entry_of_slot hx) hsub rid _ hold ⟨hp, hq.trans heq.symm⟩
  | called hn =>
    have hexits : s'.exits = s.exits := by
      rcases hs.effect with ⟨-, hexits⟩ | ⟨ev, an, x, r, ha, -⟩
      · exact hexits
      · cases ha
    rw [hexits]
    exact handled_unexited (distinct hr) (logged hr) hn hp hq
  | drained hdr hd => exact absurd hp (deleted_not_start hd)

/-- The second event is not the start of a process whose exit is the first. -/
def InOrder (p p' : Published) : Prop :=
  IsExit p → IsStart p' → ∀ q, p.proc = some q → p'.proc ≠ some q

theorem published_inOrder (h : shim.Reachable ExitsAnnounced s) :
    s.published.Pairwise InOrder := by
  refine h.invariant (P := fun s => s.published.Pairwise InOrder) List.Pairwise.nil ?_
  intro s a s' hr ih _ hstep
  rcases (step_cases hstep).publishes with ⟨hpub, -⟩ |
    ⟨rid, p, resp, hc, -, hsent, hpump, -, -⟩ |
    ⟨ev, pid, an, x, r, p, e, -, -, hnone, hhit, hsent, hpump, -⟩
  · rw [hpub]
    exact ih
  · rw [published, hsent, hpump]
    refine pairwise_send ih (fun p' hp' hex hst q hq hq' => ?_) fun p' _ hex => ?_
    · obtain ⟨e, he, hrep⟩ := (published_exits hr).2 p' (List.mem_append_left _ hp') hex
      exact (unexited hr rid p resp q hc hst hq').2 e he (hrep.proc.symm.trans hq)
    · exact absurd hex (send_not_exit hr hc)
  · obtain ⟨i, -, hreported⟩ := hhit.reported
    have hex : IsExit p := (reports_of_reported hreported).isExit
    have hold : s.sent.Pairwise InOrder := (List.pairwise_append.mp ih).1
    rw [published, hsent, hpump]
    refine List.pairwise_append.mpr ⟨hold, List.pairwise_singleton _ _, fun p' _ p₀ hp₀ _ hst => ?_⟩
    obtain rfl := List.mem_singleton.mp hp₀
    exact absurd hex (isStart_not_isExit hst)

/-- In the event channel the start events of a process stand before its exit. -/
theorem start_before_exit (h : shim.Reachable ExitsAnnounced s) (i j : Nat) (p p' : Published)
    (q : Nat) (hi : s.sent[i]? = some p) (hj : s.sent[j]? = some p') (hp : IsStart p)
    (hp' : IsExit p') (hq : p.proc = some q) (hq' : p'.proc = some q) : i < j := by
  have hsent : s.sent.Pairwise InOrder := (List.pairwise_append.mp (published_inOrder h)).1
  obtain ⟨hi', rfl⟩ := List.getElem?_eq_some_iff.mp hi
  obtain ⟨hj', rfl⟩ := List.getElem?_eq_some_iff.mp hj
  rcases Nat.lt_trichotomy i j with hlt | rfl | hlt
  · exact hlt
  · exact absurd hp' (isStart_not_isExit hp)
  · exact absurd hq (List.pairwise_iff_getElem.mp hsent j i hj' hi' hlt hp' hp q hq')

def taskStartC : Published := { event := .taskStart "c" 1, inst := some 0, proc := some 0 }

def taskExitC : Published :=
  { event := .taskExit "c" "c" 1 9 ⟨5, 0⟩, inst := some 0, proc := some 0 }

def announcedExit : Shim := shim.after ExitsAnnounced {} (startRun ++ [exitC, .publish])

theorem start_before_exit_announced : announcedExit.sent[1]? = some taskStartC ∧
    announcedExit.sent[2]? = some taskExitC ∧ 1 < 2 := by
  have hstart : announcedExit.sent[1]? = some taskStartC := by decide +kernel
  have hexit : announcedExit.sent[2]? = some taskExitC := by decide +kernel
  exact ⟨hstart, hexit, start_before_exit (System.run_after (by decide +kernel)) 1 2 taskStartC
    taskExitC 0 hstart hexit trivial ⟨"c", "c", 1, 9, ⟨5, 0⟩, rfl⟩ rfl rfl⟩

/-- The process dies before its TaskStart is sent. -/
theorem exit_overtakes_start : ¬∀ (s : Shim) (i j : Nat) (p p' : Published) (q : Nat),
    shim.Reachable System.Any s → s.sent[i]? = some p → s.sent[j]? = some p' → IsStart p →
    IsExit p' → p.proc = some q → p'.proc = some q → i < j := by
  intro h
  have hlt := h (shim.after System.Any {} [
      .call 0 (.create { id := "c", bundle := "/b" }) {}, .next 0, .call 1 (.start "c" "") {},
      exitC, .publish, .next 1])
    2 1 taskStartC taskExitC 0 (System.run_after (by decide +kernel)) (by decide +kernel)
    (by decide +kernel) trivial ⟨"c", "c", 1, 9, ⟨5, 0⟩, rfl⟩ rfl rfl
  omega

end Shim
end RustExtensions.RuncShim
