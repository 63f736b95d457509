import RustExtensions.RuncShim.Spec.History

/-!
# STOPPED

The exit record and the state STOPPED go together, and only Delete takes an
entry out of STOPPED, in every run in which no request starts an exec again that
is STOPPED or takes the name of an entry that is. The guard of Start looks at
the init process, so a STOPPED exec can be started again.
-/
namespace RustExtensions.RuncShim

open RustExtensions.Shim
open RustExtensions.Transition

namespace Table

variable {T : Table} {e : Effect} {x : Ref} {r : Slot}

/-- The exit of an entry is recorded if and only if it is STOPPED. -/
def Recorded (T : Table) : Prop :=
  ∀ x r, T.slot x = some r → (r.exitedAt.isSome ↔ r.state = .stopped)

/-- The effect does not start an exec again that is STOPPED. -/
def StartsOnce (T : Table) : Effect → Prop
  | .spawn id execId _ => ∀ r, T.slot (id, some execId) = some r → r.state ≠ .stopped
  | _ => True

/-- The effect puts no new entry under a name of a STOPPED one. -/
def TakesNoStopped (T : Table) : Effect → Prop
  | .exec id execId _ => ∀ r, T.slot (id, some execId) = some r → r.state ≠ .stopped
  | .create id _ _ => ∀ x r, T.slot x = some r → x.1 = id → r.state ≠ .stopped
  | _ => True

/-- The names that Delete clears. -/
def cleared : Effect → Set Ref
  | .remove id execId => {(id, some execId)}
  | .unregister id => under id
  | _ => ∅

theorem Recorded.apply (h : T.Recorded) (he : T.Admits e) (hs : T.StartsOnce e) :
    (T.apply e).Recorded := by
  intro x r hr
  cases origin T hr with
  | kept hs => exact h x r hs
  | created id bundle pid => exact ⟨(nomatch ·), (nomatch ·)⟩
  | added id execId bundle => exact ⟨(nomatch ·), (nomatch ·)⟩
  | @started id r hr₀ =>
    obtain ⟨i, hi, hstate⟩ := he
    obtain rfl := Option.some.inj (hr₀.symm.trans hi)
    exact ⟨fun hex => absurd ((h _ r hr₀).mp hex) hstate, (nomatch ·)⟩
  | @spawned id execId pid r hr₀ =>
    exact ⟨fun hex => absurd ((h _ r hr₀).mp hex) (hs r hr₀), (nomatch ·)⟩
  | @paused id r hr₀ =>
    obtain ⟨i, hi, hstate⟩ := he
    obtain rfl := Option.some.inj (hr₀.symm.trans hi)
    exact ⟨fun hex => (nomatch hstate.symm.trans ((h _ r hr₀).mp hex)), (nomatch ·)⟩
  | @resumed id r hr₀ =>
    obtain ⟨i, hi, hstate⟩ := he
    obtain rfl := Option.some.inj (hr₀.symm.trans hi)
    exact ⟨fun hex => (nomatch hstate.symm.trans ((h _ r hr₀).mp hex)), (nomatch ·)⟩
  | @registered x rx r hr₀ => exact h x r hr₀
  | exited hr₀ => exact ⟨fun _ => rfl, fun _ => rfl⟩

/-- A STOPPED entry stays in the table, and STOPPED. -/
def Stays (T : Table) (x : Ref) (r : Slot) : Prop :=
  ∃ r', T.slot x = some r' ∧ r'.inst = r.inst ∧ r'.state = .stopped

theorem stays_modify {T' : Table} {y : Ref} {f : Record → Record}
    (hT' : T'.slot = (T.modify y f).slot) (hr : T.slot x = some r) (hstop : r.state = .stopped)
    (hf : x = y → (f r.toRecord).inst = r.inst ∧ (f r.toRecord).state = .stopped) :
    T'.Stays x r := by
  by_cases hx : x = y
  · subst hx
    obtain ⟨hinst, hstate⟩ := hf rfl
    exact ⟨_, hT' ▸ slot_modify_self T x f hr, hinst, hstate⟩
  · exact ⟨r, hT' ▸ (slot_modify_of_ne T y x f hx).trans hr, rfl, hstop⟩

theorem stays_put {T' : Table} {y : Ref} {s : Slot} {xs : Set Ref}
    (hT' : T'.slot = ((T.drop xs).put y s).slot) (hr : T.slot x = some r)
    (hstop : r.state = .stopped) (hx : x ∉ xs) (hy : x ≠ y) : T'.Stays x r := by
  refine ⟨r, ?_, rfl, hstop⟩
  rw [hT', slot_put_of_ne _ _ _ _ hy, slot_drop_of_not_mem _ _ _ hx, hr]

theorem stays_drop {xs : Set Ref} (hr : T.slot x = some r) (hstop : r.state = .stopped) :
    (T.drop xs).Stays x r ∨ (T.drop xs).slot x = none ∧ x ∈ xs := by
  by_cases hx : x ∈ xs
  · exact Or.inr ⟨slot_drop_of_mem T x xs hx, hx⟩
  · exact Or.inl ⟨r, (slot_drop_of_not_mem T x xs hx).trans hr, rfl, hstop⟩

/-- Only what Delete clears leaves STOPPED. -/
theorem stays_or_cleared (he : T.Admits e) (honce : T.StartsOnce e)
    (hs : T.TakesNoStopped e) (hr : T.slot x = some r) (hstop : r.state = .stopped) :
    (T.apply e).Stays x r ∨ (T.apply e).slot x = none ∧ x ∈ cleared e := by
  have hname {y : Ref} {s : Slot} (hs : T.slot y = some s) (hstate : s.state ≠ .stopped) :
      x ≠ y := by
    intro heq
    subst heq
    obtain rfl := Option.some.inj (hr.symm.trans hs)
    exact hstate hstop
  cases e with
  | quiet insts procs => exact Or.inl ⟨r, hr, rfl, hstop⟩
  | create id bundle pid =>
    have hx : x ∉ under id := fun hx => hs x r hr hx hstop
    refine Or.inl (stays_put rfl hr hstop hx ?_)
    intro heq
    subst heq
    exact hx rfl
  | exec id execId bundle =>
    have hx : x ≠ (id, some execId) := by
      intro heq
      subst heq
      exact hs r hr hstop
    exact Or.inl (stays_put rfl hr hstop hx hx)
  | start id =>
    obtain ⟨i, hi, hstate⟩ := he
    exact Or.inl (stays_modify rfl hr hstop fun hx => absurd hx (hname hi hstate))
  | spawn id execId pid =>
    refine Or.inl (stays_modify rfl hr hstop fun hx => ?_)
    subst hx
    exact absurd hstop (honce r hr)
  | pause id =>
    obtain ⟨i, hi, hstate⟩ := he
    refine Or.inl (stays_modify rfl hr hstop fun hx => absurd hx (hname hi ?_))
    rw [hstate]
    decide
  | resume id =>
    obtain ⟨i, hi, hstate⟩ := he
    refine Or.inl (stays_modify rfl hr hstop fun hx => absurd hx (hname hi ?_))
    rw [hstate]
    decide
  | register y rx => exact Or.inl (stays_modify rfl hr hstop fun _ => ⟨rfl, hstop⟩)
  | exit y code now =>
    exact Or.inl (stays_modify (f := (ProcessTemplate.exited · code now)) rfl hr hstop
      fun _ => ⟨rfl, rfl⟩)
  | remove id execId => exact stays_drop hr hstop
  | unregister id => exact stays_drop hr hstop

end Table

namespace Shim

variable {s s' : Shim} {a : Action}

/-- No Start addresses an exec that is STOPPED, unless the guard on the init process
refuses it. -/
def StartsOnce (s : Shim) (a : Action) : Prop :=
  ∀ x ∈ a.starts, ∀ i ∈ s.task.entry (x.1, none), ∀ r ∈ s.task.entry x,
    r.state = .stopped → i.state = .stopped

instance (s : Shim) (a : Action) : Decidable (StartsOnce s a) :=
  inferInstanceAs (Decidable (∀ x ∈ a.starts, ∀ i ∈ s.task.entry (x.1, none),
    ∀ r ∈ s.task.entry x, _))

/-- No Exec or Create takes the name of an entry that is STOPPED. -/
def TakesNoStopped (s : Shim) (a : Action) : Prop :=
  (∀ x ∈ a.execs, ∀ r ∈ s.task.entry x, r.state ≠ .stopped) ∧
    ∀ req ∈ a.creates, ∀ x r, s.task.entry x = some r → x.1 = req.id → r.state ≠ .stopped

instance (s : Shim) (a : Action) : Decidable (TakesNoStopped s a) :=
  inferInstanceAs (Decidable ((∀ x ∈ a.execs, ∀ r ∈ s.task.entry x, r.state ≠ .stopped) ∧
    ∀ req ∈ a.creates, ∀ x r, s.task.entry x = some r → x.1 = req.id → r.state ≠ .stopped))

def SparesStopped (s : Shim) (a : Action) : Prop := StartsOnce s a ∧ TakesNoStopped s a

instance (s : Shim) (a : Action) : Decidable (SparesStopped s a) :=
  inferInstanceAs (Decidable (_ ∧ _))

theorem Causes.startsOnce {e : Effect} (h : Causes s a e) (he : s.table.Admits e)
    (ha : StartsOnce s a) : s.table.StartsOnce e := by
  cases h with
  | @spawn rid id execId ans hne =>
    intro r hr hstop
    obtain ⟨⟨i, hi, hstate⟩, -⟩ := he
    exact hstate (ha _ (Action.starts_exec hne) _ (TaskService.entry_of_slot hi) _
      (TaskService.entry_of_slot hr) hstop)
  | _ => trivial

theorem Causes.takesNoStopped {e : Effect} (h : Causes s a e) (ha : TakesNoStopped s a) :
    s.table.TakesNoStopped e := by
  cases h with
  | create => exact fun x r hr hx => ha.2 _ rfl x _ (TaskService.entry_of_slot hr) hx
  | exec bundle => exact fun r hr => ha.1 _ rfl _ (TaskService.entry_of_slot hr)
  | _ => trivial

/-- The step is the removal of the entry at `x` by a Delete. -/
def Deletes (s : Shim) (a : Action) (x : Ref) : Prop :=
  (∃ rid execId ans, a = .call rid (.delete x.1 execId) ans ∧ x.2 = some execId) ∨
    ∃ rid d, a = .next rid ∧ s.inflight.lookup rid = some (.unregister d) ∧ d.reqId = x.1

theorem Causes.deletes {e : Effect} {x : Ref} (h : Causes s a e) (hx : x ∈ Table.cleared e) :
    Deletes s a x := by
  cases h with
  | @remove rid id execId ans hne =>
    obtain rfl : x = (id, some execId) := hx
    exact Or.inl ⟨rid, execId, ans, rfl, rfl⟩
  | @unregister rid d hc => exact Or.inr ⟨rid, d, rfl, hc, Eq.symm hx⟩
  | _ => exact absurd hx (Set.notMem_empty x)

theorem recorded (h : shim.Reachable StartsOnce s) : s.table.Recorded := by
  refine h.invariant (P := fun s => s.table.Recorded) ?_ ?_
  · exact fun _ _ => (nomatch ·)
  · intro s a s' _ ih ha hstep
    rcases (step_cases hstep).effect with
      ⟨⟨e, hcause, he, htable⟩, -⟩ | ⟨ev, an, x, r, -, -, hr, htable, -⟩
    · rw [htable]
      exact ih.apply he (hcause.startsOnce he ha)
    · rw [htable]
      exact ih.apply (e := .exit x ev.exitCode an.now) ⟨r, hr⟩ trivial

theorem Step.stays_stopped (h : Step s a s') (ha : SparesStopped s a) {x : Ref} {r : Slot}
    (hr : s.table.slot x = some r) (hstop : r.state = .stopped) :
    s'.table.Stays x r ∨ s'.table.slot x = none ∧ Deletes s a x := by
  rcases h.effect with ⟨⟨e, hcause, he, htable⟩, -⟩ | ⟨ev, an, y, r', -, -, hr', htable, -⟩
  · rw [htable]
    rcases Table.stays_or_cleared he (hcause.startsOnce he ha.1)
        (hcause.takesNoStopped ha.2) hr hstop with hstays | ⟨hnone, hx⟩
    · exact Or.inl hstays
    · exact Or.inr ⟨hnone, hcause.deletes hx⟩
  · rw [htable]
    rcases Table.stays_or_cleared (e := .exit y ev.exitCode an.now) ⟨r', hr'⟩ trivial trivial
        hr hstop
      with hstays | ⟨-, hx⟩
    · exact Or.inl hstays
    · exact absurd hx (Set.notMem_empty x)

/-- The exit of an entry is recorded if and only if it is STOPPED, and an entry
leaves STOPPED only by being deleted. -/
theorem stopped_is_final (h : shim.Reachable SparesStopped s) :
    (∀ x r, s.task.entry x = some r → (r.exitedAt.isSome ↔ r.state = .stopped)) ∧
    ∀ a s', SparesStopped s a → shim.step s a = some s' →
      ∀ x r, s.task.entry x = some r → r.state = .stopped →
        (∃ r', s'.task.entry x = some r' ∧ r'.inst = r.inst ∧ r'.state = .stopped) ∨
          s'.task.entry x = none ∧ Deletes s a x := by
  refine ⟨fun x r hr => ?_, fun a s' ha hstep x r hr hstop => ?_⟩
  · obtain ⟨q, hq, rfl⟩ := TaskService.slot_of_entry hr
    exact recorded (h.mono fun _ _ => And.left) x q hq
  · obtain ⟨q, hq, rfl⟩ := TaskService.slot_of_entry hr
    rcases (step_cases hstep).stays_stopped ha hq hstop with
      ⟨q', hq', hinst, hstate⟩ | ⟨hnone, hdel⟩
    · exact Or.inl ⟨q'.toRecord, TaskService.entry_of_slot hq', hinst, hstate⟩
    · refine Or.inr ⟨?_, hdel⟩
      rw [TaskService.entry_eq]
      exact congrArg _ hnone

/-- The exec exits. -/
def execExitRun : List Action := execRun "e" ++ [
  .exit { subject := .pid 2, exitCode := 7 } { order := [("c", ["e"])], now := exitTime }, .publish]

theorem stopped_is_final_exec :
    (∀ x r, (shim.after SparesStopped {} execExitRun).task.entry x = some r →
      (r.exitedAt.isSome ↔ r.state = .stopped)) ∧
    ∀ a s', SparesStopped (shim.after SparesStopped {} execExitRun) a →
      shim.step (shim.after SparesStopped {} execExitRun) a = some s' →
      ∀ x r, (shim.after SparesStopped {} execExitRun).task.entry x = some r → r.state = .stopped →
        (∃ r', s'.task.entry x = some r' ∧ r'.inst = r.inst ∧ r'.state = .stopped) ∨
          s'.task.entry x = none ∧ Deletes (shim.after SparesStopped {} execExitRun) a x :=
  stopped_is_final (System.run_after (by decide +kernel))

/-- The runtime starts only a container that it has just created. -/
def StartsCreated (s : Shim) : Action → Prop
  | .call _ (.start id "") ans =>
    s.task.world.runtime.lookup id ≠ some .created → ans.runtime ≠ none
  | _ => True

instance (s : Shim) (a : Action) : Decidable (StartsCreated s a) := by
  unfold StartsCreated
  split <;> infer_instance

/-- A second Start of the exec leaves it RUNNING with its first exit recorded. -/
theorem restarted_exec_keeps_exit : ¬∀ s, shim.Reachable StartsCreated s →
    (∀ x r, s.task.entry x = some r → (r.exitedAt.isSome ↔ r.state = .stopped)) ∧
    ∀ a s', StartsCreated s a → shim.step s a = some s' → ∀ x r, s.task.entry x = some r →
      r.state = .stopped →
      (∃ r', s'.task.entry x = some r' ∧ r'.inst = r.inst ∧ r'.state = .stopped) ∨
        s'.task.entry x = none ∧ Deletes s a x := by
  intro h
  let s : Shim :=
    shim.after StartsCreated {} (execExitRun ++ [.call 4 (.start "c" "e") { pid := 3 }])
  have hr : (s.task.entry ("c", some "e")).map (fun r => (r.state, r.exitedAt)) =
      some (.running, some ⟨5, 0⟩) := by decide +kernel
  obtain ⟨r, hr, he⟩ := Option.map_eq_some_iff.mp hr
  obtain ⟨hstate, hat⟩ := Prod.mk.inj he
  have hstop := ((h s (System.run_after (by decide +kernel))).1 _ r hr).mp (by rw [hat]; rfl)
  exact nomatch hstate.symm.trans hstop

end Shim
end RustExtensions.RuncShim
