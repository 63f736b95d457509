import RustExtensions.RuncShim.Os
import RustExtensions.RuncShim.Stopped

/-!
# Whose exit it is

The pump knows an exit by its pid alone, and a STOPPED entry keeps its pid. Exits
are attributed rightly as long as no event finds its pid on an entry of another
process, and no exec is started again once it is STOPPED.
-/
namespace RustExtensions.RuncShim

open RustExtensions.Shim
open RustExtensions.Transition

namespace Table

/-- A STOPPED entry stands unless it is started again, exits again or goes. -/
theorem stopped_same {T : Table} {e : Effect} {x : Ref} {r r' : Slot} (hd : T.Distinct)
    (he : T.Admits e) (honce : T.StartsOnce e) (hexit : ∀ code now, e ≠ .exit x code now)
    (hr : T.slot x = some r) (hstop : r.state = .stopped) (hr' : (T.apply e).slot x = some r')
    (hinst : r'.inst = r.inst) : r' = r := by
  have hlt := hd.inst_lt x r hr
  cases origin T hr' with
  | kept hs => exact Option.some.inj (hs.symm.trans hr)
  | created id bundle pid => exact absurd hinst.symm hlt.ne
  | added id execId bundle => exact absurd hinst.symm hlt.ne
  | started hs =>
    obtain ⟨i, hi, hstate⟩ := he
    obtain rfl := Option.some.inj (hi.symm.trans hr)
    exact absurd hstop hstate
  | spawned hs => exact absurd hstop (honce r hr)
  | paused hs =>
    obtain ⟨i, hi, hstate⟩ := he
    obtain rfl := Option.some.inj (hi.symm.trans hr)
    exact nomatch hstate.symm.trans hstop
  | resumed hs =>
    obtain ⟨i, hi, hstate⟩ := he
    obtain rfl := Option.some.inj (hi.symm.trans hr)
    exact nomatch hstate.symm.trans hstop
  | registered hs =>
    obtain ⟨i, hi, hstate, -⟩ := he
    obtain rfl := Option.some.inj (hi.symm.trans hr)
    exact absurd hstop hstate
  | exited hs => exact absurd rfl (hexit _ _)

/-- The entry `r` of `x` stands as it is, or has gone for good. -/
structure Stands (T : Table) (x : Ref) (r : Slot) : Prop where
  inst_lt : r.inst < T.nextInst
  same : ∀ r', T.slot x = some r' → r'.inst = r.inst → r' = r

theorem Stands.apply {T : Table} {e : Effect} {x : Ref} {r : Slot} (h : T.Stands x r)
    (hstop : r.state = .stopped) (hd : T.Distinct) (he : T.Admits e) (honce : T.StartsOnce e)
    (hexit : ∀ code now, e = .exit x code now → ∀ s, T.slot x = some s → s.state ≠ .stopped) :
    (T.apply e).Stands x r where
  inst_lt := h.inst_lt.trans_le (nextInst_le T e)
  same r' hr' hinst := by
    rcases (origin T hr').fresh_or_old with ⟨hnew, -⟩ | ⟨s, hs, hold⟩
    · exact absurd (hinst.symm.trans hnew) h.inst_lt.ne
    · obtain rfl := h.same s hs (hold.symm.trans hinst)
      refine stopped_same hd he honce (fun code now hex => ?_) hs hstop hr' hinst
      exact hexit code now hex s hs hstop

end Table

namespace Os

variable {os os' : Os}

/-- No event finds its pid on an entry of another process, and no exec is started
again once it is STOPPED. -/
def Attributable (os : Os) : OsAction → Prop
  | .act a => Shim.StartsOnce os.shim a
  | .deliver _ => ∀ e ∈ os.events.head?, ∀ x r, os.shim.task.entry x = some r →
    r.pid = e.child.pid → r.proc.map Owner.container = some e.child.owner
  | _ => True

instance (os : Os) (a : OsAction) : Decidable (Attributable os a) := by
  unfold Attributable
  split <;> infer_instance

theorem startsOnce (h : host.Reachable Attributable os) :
    RuncShim.shim.Reachable Shim.StartsOnce os.shim :=
  reachable_shim (fun _ _ => id) (fun _ _ _ _ => (nomatch ·)) h

/-- No exit was handled of a process whose event is still to come. -/
def Unhandled (os : Os) : Prop :=
  ∀ c ∈ os.children, ∀ q, c.owner = .container q → ∀ e ∈ os.shim.exits, e.proc ≠ some q

/-- The entry that the pump finds is the one of the process that exited, alive until now. -/
theorem Unhandled.live {e : Reaped} {rest : List Reaped} {x : Ref} {r : Slot}
    (h : os.Unhandled) (hlog : Shim.Logged os.shim.table os.shim.exits)
    (he : os.events = e :: rest) (hr : os.shim.table.slot x = some r)
    (howner : r.proc.map Owner.container = some e.child.owner) :
    ∃ q, r.proc = some q ∧ e.child.owner = .container q ∧ r.state ≠ .stopped := by
  obtain ⟨q, hq, hown⟩ := Option.map_eq_some_iff.mp howner
  refine ⟨q, hq, hown.symm, fun hstop => ?_⟩
  obtain ⟨now, hnow⟩ := Option.isSome_iff_exists.mp (hlog.stopped x r hr hstop)
  obtain ⟨e', he', -, -, -, hproc⟩ := hlog.recorded x r now hr hnow
  have hmem : e.child ∈ os.children := by
    rw [children, he]
    exact List.mem_append_right _ (List.mem_cons_self ..)
  exact h _ hmem q hown.symm e' he' ((hproc hstop).trans hq)

theorem exits_of_act {s s' : Shim} {a : Action} (h : Shim.Step s a s')
    (hne : ∀ ev an, a ≠ .exit ev an) : Shim.Acts s a s'.table ∧ s'.exits = s.exits := by
  rcases h.effect with hacts | ⟨ev, an, x, r, ha, -⟩
  · exact hacts
  · exact absurd ha (hne ev an)

theorem unhandled (h : host.Reachable Attributable os) : os.Unhandled := by
  refine h.invariant (P := Unhandled) ?_ ?_
  · exact fun _ hc => (nomatch hc)
  intro os a os' hr ih ha hstep
  have hlog := Shim.logged (startsOnce hr)
  cases step_cases hstep with
  | acted hne hs hnext =>
    intro c hc q hq
    rw [(exits_of_act (Shim.step_cases hs) hne).2]
    exact ih c hc q hq
  | spawned hne hs hnext =>
    intro c hc q hq
    rw [(exits_of_act (Shim.step_cases hs) hne).2]
    rcases List.mem_cons.mp hc with rfl | hc
    · obtain rfl := Owner.container.inj hq
      exact fun e he heq => absurd (hlog.proc_lt e he _ heq) (lt_irrefl _)
    · exact ih c hc q hq
  | forked =>
    intro c hc q hq
    rcases List.mem_cons.mp hc with rfl | hc
    · cases hq
    · exact ih c hc q hq
  | @reaped c code hc => exact fun c' hc' => ih c' ((children_reap hc code).mem_iff.mp hc')
  | @delivered an e rest s he hs =>
    intro c hc q hq e' he'
    have hold : c ∈ os.children := (children_deliver he s).subset hc
    rcases (Shim.step_cases hs).effect with ⟨-, hexits⟩ | ⟨ev, an', x, r, hact, hsub, hx, -, hexits⟩
    · rw [hexits] at he'
      exact ih c hold q hq e' he'
    · rw [hexits] at he'
      rcases List.mem_append.mp he' with he' | he'
      · exact ih c hold q hq e' he'
      · obtain rfl := List.mem_singleton.mp he'
        obtain ⟨rfl, rfl⟩ := Action.exit.inj hact
        -- the exit just handled is the one of another child
        have howner := ha e (by rw [he]; rfl) x _ (TaskService.entry_of_slot hx)
          (Subject.pid.inj hsub).symm
        intro heq
        dsimp only at heq
        rw [heq] at howner
        exact (owned hr).head he hc (hq.trans (Option.some.inj howner))

/-! ## What the pump changes -/

/-- What a delivered event did: nothing, or an exit of the entry of its process. -/
inductive Delivered (os : Os) (e : Reaped) (an : PumpAnswers) (s : Shim) : Prop
  | missed (htable : s.table = os.shim.table) (hpub : s.published = os.shim.published)
  | hit {x : Ref} {r : Slot} {q : Nat} {p : Published} (hr : os.shim.table.slot x = some r)
    (hq : r.proc = some q) (howner : e.child.owner = .container q) (hlive : r.state ≠ .stopped)
    (hinst : p.inst = some r.inst) (hproc : p.proc = r.proc)
    (htable : s.table = os.shim.table.apply (.exit x e.code an.now))
    (hpub : s.published = os.shim.published ++ [p])

theorem delivered {an : PumpAnswers} {e : Reaped} {rest : List Reaped} {s : Shim}
    (h : host.Reachable Attributable os) (ha : Attributable os (.deliver an))
    (he : os.events = e :: rest)
    (hs : os.shim.step (.exit { subject := .pid e.child.pid, exitCode := e.code } an) = some s) :
    Delivered os e an s := by
  cases Shim.step_cases hs with
  | @exited _ pid _ x r p e' t hsub hpump hhit =>
    obtain ⟨i, -, hreported⟩ := hhit.reported
    have hrep := Shim.reports_of_reported hreported
    have hpid : r.pid = e.child.pid := hhit.bears.trans (Subject.pid.inj hsub).symm
    have howner := ha e (by rw [he]; rfl) x _ (TaskService.entry_of_slot hhit.slot) hpid
    obtain ⟨q, hq, hown, hlive⟩ :=
      (unhandled h).live (Shim.logged (startsOnce h)) he hhit.slot howner
    refine .hit (p := p) hhit.slot hq hown hlive ?_ ?_ hhit.did.table ?_
    · rw [hrep.inst, hreported.exit_eq]
    · rw [hrep.proc, hreported.exit_eq]
    · simp only [Shim.published, hpump, Option.toList_some, Option.toList_none, List.append_nil]
  | ignored hpump htable hfiles habsent => exact .missed htable rfl

/-- A STOPPED entry is not changed again. -/
theorem stands_step {a : OsAction} {x : Ref} {r : Slot} (h : host.Reachable Attributable os)
    (ha : Attributable os a) (hs : Step os a os') (hstop : r.state = .stopped)
    (hstands : os.shim.table.Stands x r) : os'.shim.table.Stands x r := by
  have hd := Shim.distinct (startsOnce h)
  have hact {a : Action} {s : Shim} (honce : Shim.StartsOnce os.shim a)
      (hs : os.shim.step a = some s) (hne : ∀ ev an, a ≠ .exit ev an) : s.table.Stands x r := by
    obtain ⟨⟨e, hcause, he, htable⟩, -⟩ := exits_of_act (Shim.step_cases hs) hne
    rw [htable]
    apply hstands.apply hstop hd he (hcause.startsOnce he honce)
    intro code now hex
    exact absurd hex (hcause.ne_exit x code now)
  cases hs with
  | acted hne hs hnext => exact hact ha hs hne
  | spawned hne hs hnext => exact hact ha hs hne
  | forked => exact hstands
  | reaped hc => exact hstands
  | @delivered an e rest s he hs =>
    cases delivered h ha he hs with
    | missed htable hpub =>
      change s.table.Stands x r
      rwa [htable]
    | @hit y r' q p hr' hq howner hlive hinst hproc htable hpub =>
      change s.table.Stands x r
      rw [htable]
      refine hstands.apply hstop hd ⟨r', hr'⟩ trivial fun code now hex s hs => ?_
      obtain ⟨rfl, -⟩ := Effect.exit.inj hex
      obtain rfl := Option.some.inj (hr'.symm.trans hs)
      exact hlive

/-! ## What is published -/

/-- The events are not exits of one entry, or of one process. -/
def Apart (p p' : Published) : Prop :=
  Shim.IsExit p → Shim.IsExit p' → p.inst ≠ p'.inst ∧ p.proc ≠ p'.proc

theorem published_apart (h : host.Reachable Attributable os) :
    os.shim.published.Pairwise Apart := by
  refine h.invariant (P := fun os => os.shim.published.Pairwise Apart) List.Pairwise.nil ?_
  intro os a os' hr ih ha hstep
  have hreach := startsOnce hr
  have hact {a : Action} {s : Shim} (hs : os.shim.step a = some s)
      (hne : ∀ ev an, a ≠ .exit ev an) : s.published.Pairwise Apart := by
    rcases (Shim.step_cases hs).publishes with ⟨hpub, -⟩ |
      ⟨rid, p, resp, hc, -, hsent, hpump, -, -⟩ | ⟨ev, pid, an, x, r, p, e, ha, -⟩
    · rwa [hpub]
    · have hnot := Shim.send_not_exit hreach hc
      rw [Shim.published, hsent, hpump]
      exact Shim.pairwise_send ih (fun p' _ _ hex => absurd hex hnot)
        fun p' _ hex => absurd hex hnot
    · exact absurd ha (hne ev an)
  cases step_cases hstep with
  | acted hne hs hnext => exact hact hs hne
  | spawned hne hs hnext => exact hact hs hne
  | forked => exact ih
  | reaped hc => exact ih
  | @delivered an e rest s he hs =>
    cases delivered hr ha he hs with
    | missed htable hpub =>
      change s.published.Pairwise Apart
      rwa [hpub]
    | @hit x r q p hx hq howner hlive hinst hproc htable hpub =>
      change s.published.Pairwise Apart
      rw [hpub]
      refine List.pairwise_append.mpr ⟨ih, List.pairwise_singleton _ _, ?_⟩
      intro p' hp' p₀ hp₀ hex _
      obtain rfl := List.mem_singleton.mp hp₀
      obtain ⟨e', he', hrep⟩ := (Shim.published_exits hreach).2 p' hp' hex
      constructor
      · rw [hrep.inst, hinst]
        intro heq
        have hexited := (Shim.logged hreach).exited e' he' x r hx (Option.some.inj heq).symm
        exact hlive ((Shim.recorded hreach x r hx).mp hexited)
      · rw [hrep.proc, hproc, hq]
        have hmem : e.child ∈ os.children := by
          rw [children, he]
          exact List.mem_append_right _ (List.mem_cons_self ..)
        exact unhandled hr _ hmem q howner e' he'

/-- An exit event changes at most the entry of the process that exited, which was
alive; a STOPPED entry stays as it is until it goes; and no entry and no process
has two exits published. -/
theorem exits_attributed (h : host.Reachable Attributable os) :
    (∀ an os', Attributable os (.deliver an) → host.step os (.deliver an) = some os' →
      ∀ e ∈ os.events.head?, ∀ x, os'.shim.task.entry x ≠ os.shim.task.entry x →
        ∃ r q, os.shim.task.entry x = some r ∧ r.proc = some q ∧ e.child.owner = .container q ∧
          r.state ≠ .stopped) ∧
    (∀ os', host.Run Attributable os os' → ∀ x r r', os.shim.task.entry x = some r →
      r.state = .stopped → os'.shim.task.entry x = some r' → r'.inst = r.inst → r' = r) ∧
    os.shim.sent.Pairwise fun p p' => Shim.IsExit p → Shim.IsExit p' →
      p.inst ≠ p'.inst ∧ p.proc ≠ p'.proc := by
  refine ⟨fun an os' ha hstep e he x hx => ?_, fun os' hrun x r r' hr hstop hr' hinst => ?_, ?_⟩
  · have hs : Step os (.deliver an) os' := step_cases hstep
    cases hs with
    | @delivered _ e' rest s he' hs =>
      rw [he'] at he
      obtain rfl := Option.some.inj he
      rw [TaskService.entry_eq, TaskService.entry_eq] at hx
      cases delivered h ha he' hs with
      | missed htable hpub => exact absurd (congrArg (fun T : Table => (T.slot x).map _) htable) hx
      | @hit y r q p hr hq howner hlive hinst hproc htable hpub =>
        by_cases hxy : x = y
        · subst hxy
          exact ⟨r.toRecord, q, TaskService.entry_of_slot hr, hq, howner, hlive⟩
        · refine absurd ?_ hx
          have hsame := Table.slot_modify_of_ne os.shim.table y x
            (ProcessTemplate.exited · e'.code an.now) hxy
          exact congrArg (Option.map _) ((congrArg (·.slot x) htable).trans hsame)
  · obtain ⟨q, hq, rfl⟩ := TaskService.slot_of_entry hr
    obtain ⟨q', hq', rfl⟩ := TaskService.slot_of_entry hr'
    have hstands : os'.shim.table.Stands x q := by
      refine h.run_preserves (P := fun os => os.shim.table.Stands x q) (fun _ _ => id) ?_ hrun ?_
      · exact fun _ _ _ hr hstands ha hstep => stands_step hr ha (step_cases hstep) hstop hstands
      · refine ⟨(Shim.distinct (startsOnce h)).inst_lt x q hq, fun s hs _ => ?_⟩
        exact Option.some.inj (hs.symm.trans hq)
    exact congrArg Slot.toRecord (hstands.same q' hq' hinst)
  · exact (List.pairwise_append.mp (published_apart h)).1

/-- The container's process exits and is reaped, and its event handled. -/
def reapRun : List OsAction := Shim.startRun.map .act ++ [
  .reap { owner := .container 0, pid := 1 } 9,
  .deliver { order := [("c", [])], now := Shim.exitTime }, .act .publish]

def reaped : Os := host.after Attributable {} reapRun

theorem reachable_reaped : host.Reachable Attributable reaped :=
  System.run_after (by decide +kernel)

theorem exits_attributed_reaped : reaped.shim.sent.Pairwise fun p p' =>
    Shim.IsExit p → Shim.IsExit p' → p.inst ≠ p'.inst ∧ p.proc ≠ p'.proc :=
  (exits_attributed reachable_reaped).2.2

/-- A helper gets the pid of the STOPPED process, and is reaped. -/
def reused : Os := host.after System.Any reaped [.fork 1, .reap { owner := .helper 0, pid := 1 } 0,
  .deliver { order := [("c", [])], now := Shim.exitTime }]

/-- Its exit is taken for another exit of the STOPPED process. -/
theorem helper_exit_misattributed : ¬∀ os, host.Reachable System.Any os →
    (∀ an os', host.step os (.deliver an) = some os' → ∀ e ∈ os.events.head?, ∀ x,
      os'.shim.task.entry x ≠ os.shim.task.entry x → ∃ r q, os.shim.task.entry x = some r ∧
        r.proc = some q ∧ e.child.owner = .container q ∧ r.state ≠ .stopped) ∧
    (∀ os', host.Run System.Any os os' → ∀ x r r', os.shim.task.entry x = some r →
      r.state = .stopped → os'.shim.task.entry x = some r' → r'.inst = r.inst → r' = r) ∧
    os.shim.sent.Pairwise fun p p' => Shim.IsExit p → Shim.IsExit p' →
      p.inst ≠ p'.inst ∧ p.proc ≠ p'.proc := by
  intro h
  have hrun : host.Run System.Any reaped reused := System.run_after (by decide +kernel)
  let r : Record := (reaped.shim.task.entry ("c", none)).get (by decide +kernel)
  let r' : Record := (reused.shim.task.entry ("c", none)).get (by decide +kernel)
  have hstop : r.state = .stopped := by decide +kernel
  have hinst : r'.inst = r.inst := by decide +kernel
  have hne : r' ≠ r := by decide +kernel
  exact hne ((h reaped reachable_reaped.any).2.1 reused hrun ("c", none) r r'
    (Option.some_get _).symm hstop (Option.some_get _).symm hinst)

end Os
end RustExtensions.RuncShim
