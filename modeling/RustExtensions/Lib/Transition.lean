import Mathlib.Logic.Relation

/-!
# Runs of a partial step function

A system is an initial state and a partial step on labelled actions. Runs carry
a condition on the state and the action of each step, so that a statement about
"every run whose steps all meet a condition" is a statement about `Run ok`.
-/
namespace RustExtensions.Transition

structure System (σ α : Type*) where
  init : σ
  step : σ → α → Option σ

namespace System

variable {σ α τ β : Type*} (M : System σ α) {ok ok' : σ → α → Prop} {s t u : σ} {a : α}

/-- Every step is admitted. -/
def Any : σ → α → Prop := fun _ _ => True

/-- One step, taken by an action that `ok` admits in the state it starts from. -/
def Next (ok : σ → α → Prop) (s t : σ) : Prop := ∃ a, ok s a ∧ M.step s a = some t

def Run (ok : σ → α → Prop) : σ → σ → Prop := Relation.ReflTransGen (M.Next ok)

def Reachable (ok : σ → α → Prop) (s : σ) : Prop := M.Run ok M.init s

variable {M}

theorem Run.refl (s : σ) : M.Run ok s s := Relation.ReflTransGen.refl

theorem Run.trans (h : M.Run ok s t) (h' : M.Run ok t u) : M.Run ok s u :=
  Relation.ReflTransGen.trans h h'

theorem Run.tail (h : M.Run ok s t) (ha : ok t a) (hs : M.step t a = some u) : M.Run ok s u :=
  Relation.ReflTransGen.tail h ⟨a, ha, hs⟩

theorem Run.single (ha : ok s a) (hs : M.step s a = some t) : M.Run ok s t :=
  (Run.refl s).tail ha hs

theorem Run.mono (hok : ∀ s a, ok s a → ok' s a) (h : M.Run ok s t) : M.Run ok' s t :=
  Relation.ReflTransGen.mono (fun _ _ ⟨a, ha, hs⟩ => ⟨a, hok _ a ha, hs⟩) _ _ h

/-- What every admitted step preserves, every run preserves. -/
theorem Run.preserves {P : σ → Prop}
    (hstep : ∀ s a t, P s → ok s a → M.step s a = some t → P t)
    (h : M.Run ok s t) (hs : P s) : P t := by
  induction h with
  | refl => exact hs
  | tail _ hn ih =>
    obtain ⟨a, ha, hs⟩ := hn
    exact hstep _ a _ ih ha hs

theorem Reachable.init : M.Reachable ok M.init := Run.refl _

theorem Reachable.run (h : M.Reachable ok s) (h' : M.Run ok s t) : M.Reachable ok t :=
  Run.trans h h'

theorem Reachable.step (h : M.Reachable ok s) (ha : ok s a) (hs : M.step s a = some t) :
    M.Reachable ok t :=
  Run.tail h ha hs

theorem Reachable.mono (hok : ∀ s a, ok s a → ok' s a) (h : M.Reachable ok s) :
    M.Reachable ok' s :=
  Run.mono hok h

theorem Reachable.any (h : M.Reachable ok s) : M.Reachable Any s :=
  h.mono fun _ _ _ => trivial

/-- The invariant rule. The step may use that its source is reachable, so one
invariant can rest on another proved before it. -/
theorem Reachable.invariant {P : σ → Prop} (hinit : P M.init)
    (hstep : ∀ s a t, M.Reachable ok s → P s → ok s a → M.step s a = some t → P t)
    (h : M.Reachable ok s) : P s := by
  induction h with
  | refl => exact hinit
  | tail hr hn ih =>
    obtain ⟨a, ha, hs⟩ := hn
    exact hstep _ a _ hr ih ha hs

/-- Along a run from a reachable state every intermediate state is reachable. -/
theorem Reachable.run_preserves {P : σ → Prop} (hr : M.Reachable ok' s)
    (hok : ∀ s a, ok s a → ok' s a)
    (hstep : ∀ s a t, M.Reachable ok' s → P s → ok s a → M.step s a = some t → P t)
    (h : M.Run ok s t) (hs : P s) : P t := by
  have hboth : M.Reachable ok' t ∧ P t := by
    refine Run.preserves (P := fun s => M.Reachable ok' s ∧ P s) ?_ h ⟨hr, hs⟩
    intro s a t ⟨hr, hp⟩ ha hst
    exact ⟨hr.step (hok s a ha) hst, hstep s a t hr hp ha hst⟩
  exact hboth.2

/-- A map of states that turns each step into a run carries reachability over. -/
theorem Reachable.map {N : System τ β} {okN : τ → β → Prop} (f : σ → τ)
    (hinit : f M.init = N.init)
    (hstep : ∀ s a t, M.Reachable ok s → ok s a → M.step s a = some t → N.Run okN (f s) (f t))
    (h : M.Reachable ok s) : N.Reachable okN (f s) := by
  refine h.invariant (P := fun s => N.Reachable okN (f s)) ?_ ?_
  · rw [hinit]
    exact Reachable.init
  · intro s a t hr hp ha hst
    exact hp.run (hstep s a t hr ha hst)

/-- The simulation rule: where each step from related states is answered by a run that leaves them
related, every reachable state is related to a reachable one. -/
theorem Reachable.simulated {N : System τ β} {okN : τ → β → Prop} {R : σ → τ → Prop}
    (hinit : R M.init N.init)
    (hstep : ∀ s a t x, M.Reachable ok s → N.Reachable okN x → R s x → ok s a →
      M.step s a = some t → ∃ y, N.Run okN x y ∧ R t y)
    (h : M.Reachable ok s) : ∃ x, N.Reachable okN x ∧ R s x := by
  refine h.invariant (P := fun s => ∃ x, N.Reachable okN x ∧ R s x) ⟨N.init, .init, hinit⟩ ?_
  intro s a t hr hsim ha hst
  obtain ⟨x, hx, hrel⟩ := hsim
  obtain ⟨y, hrun, hrel'⟩ := hstep s a t x hr hx hrel ha hst
  exact ⟨y, hx.run hrun, hrel'⟩

/-- Where every state short of the goal has a step that brings it closer, a run leads there. -/
theorem exists_run {Inv Done : σ → Prop} (measure : σ → Nat)
    (hstep : ∀ s, Inv s → Done s ∨ ∃ t, M.Next ok s t ∧ Inv t ∧ measure t < measure s)
    (hs : Inv s) : ∃ t, M.Run ok s t ∧ Inv t ∧ Done t := by
  induction hn : measure s using Nat.strongRecOn generalizing s with
  | ind n ih =>
    obtain hdone | ⟨t, hnext, ht, hlt⟩ := hstep s hs
    · exact ⟨s, Run.refl s, hs, hdone⟩
    · obtain ⟨u, hrun, hu⟩ := ih (measure t) (hn ▸ hlt) ht rfl
      exact ⟨u, Relation.ReflTransGen.head hnext hrun, hu⟩

/-! ## Running a list of actions -/

instance (s : σ) (a : α) : Decidable (Any s a) := .isTrue trivial

variable (M) (ok) [∀ s a, Decidable (ok s a)]

/-- Carry out a list of actions, each of which `ok` must admit. -/
def exec : σ → List α → Option σ
  | s, [] => some s
  | s, a :: as => if ok s a then (M.step s a).bind fun t => exec t as else none

/-- Where a list of actions leads, if all of them can be taken. -/
def after (s : σ) (as : List α) : σ := (M.exec ok s as).getD s

variable {M} {ok}

theorem run_of_exec : ∀ {as : List α} {s t : σ}, M.exec ok s as = some t → M.Run ok s t := by
  intro as
  induction as with
  | nil =>
    intro s t h
    obtain rfl := Option.some.inj h
    exact Run.refl s
  | cons a as ih =>
    intro s t h
    unfold exec at h
    split at h
    · next ha =>
      obtain ⟨u, hu, ht⟩ := Option.bind_eq_some_iff.mp h
      exact (Run.single ha hu).trans (ih ht)
    · cases h

/-- A run of steps that each cost something is no longer than what there is to spend. -/
theorem exec_length {Inv : σ → Prop} (measure : σ → Nat)
    (hstep : ∀ s a t, Inv s → ok s a → M.step s a = some t → Inv t ∧ measure t < measure s) :
    ∀ {as : List α} {s t : σ}, Inv s → M.exec ok s as = some t →
      Inv t ∧ as.length + measure t ≤ measure s := by
  intro as
  induction as with
  | nil =>
    intro s t hs h
    obtain rfl := Option.some.inj h
    exact ⟨hs, Nat.le_of_eq (Nat.zero_add _)⟩
  | cons a as ih =>
    intro s t hs h
    unfold exec at h
    split at h
    · next ha =>
      obtain ⟨u, hu, ht⟩ := Option.bind_eq_some_iff.mp h
      obtain ⟨hinv, hlt⟩ := hstep s a u hs ha hu
      obtain ⟨hinv', hle⟩ := ih hinv ht
      refine ⟨hinv', ?_⟩
      rw [List.length_cons]
      omega
    · cases h

theorem run_after {as : List α} (h : (M.exec ok s as).isSome) : M.Run ok s (M.after ok s as) := by
  obtain ⟨t, ht⟩ := Option.isSome_iff_exists.mp h
  rw [after, ht]
  exact run_of_exec ht

theorem step_after (h : (M.exec ok s [a]).isSome) : M.step s a = some (M.after ok s [a]) := by
  obtain ⟨t, ht⟩ := Option.isSome_iff_exists.mp h
  rw [after, ht]
  unfold exec at ht
  split at ht
  · obtain ⟨u, hu, he⟩ := Option.bind_eq_some_iff.mp ht
    obtain rfl := Option.some.inj he
    exact hu
  · cases ht

end System
end RustExtensions.Transition
