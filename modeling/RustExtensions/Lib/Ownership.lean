import Mathlib.Algebra.Order.Group.Multiset
import Mathlib.Tactic.Abel
import RustExtensions.Lib.Fallible

/-!
# Handles and their owners

A handle is closed when its owner is dropped. Some owners are the local
variables of a program, which go at each way out; others stand in the state and
outlive it. `Owns` says that a program accounts for its handles: those it was
given are in the variables it returns with, or have gone to an owner, or are
closed. Handles of anybody else are left alone.
-/
namespace RustExtensions.Ownership

/-- The handles that are open, and those of the owners that stand in the state. -/
structure Ledger (σ H : Type) where
  handles : σ → Multiset H
  owned : σ → Multiset H
  put : σ → Multiset H → σ
  handles_put : ∀ s m, handles (put s m) = m
  owned_put : ∀ s m, owned (put s m) = owned s

variable {σ H ε δ α β : Type} (L : Ledger σ H)

/-- From local variables with the handles `l`, the program returns with `r`. At an error it returns
with nothing. -/
def Owns (l : Multiset H) (x : EStateM ε σ α) (r : α → Multiset H) : Prop :=
  ∀ s rest, L.handles s = l + L.owned s + rest →
    (∀ a t, x s = .ok a t → L.handles t = r a + L.owned t + rest) ∧
      ∀ e t, x s = .error e t → L.handles t = L.owned t + rest

/-- A local variable goes. -/
def release [DecidableEq H] (m : Multiset H) : EStateM ε σ Unit := fun s =>
  .ok () (L.put s (L.handles s - m))

/-- The variable is returned, or goes at an error. -/
def holding [DecidableEq H] (m : Multiset H) (x : EStateM ε σ α) : EStateM ε σ α := fun s =>
  match x s with
  | .ok a t => .ok a t
  | .error e t => .error e (L.put t (L.handles t - m))

/-- The variable goes on either way out. -/
def dropping [DecidableEq H] (m : Multiset H) (x : EStateM ε σ α) : EStateM ε σ α := do
  let a ← holding L m x
  release L m
  return a

variable {L} {l l' m : Multiset H} {s t : σ} {a : α} {e : ε} {x : EStateM ε σ α}
  {f : α → EStateM ε σ β} {r r' : α → Multiset H} {q : β → Multiset H}

theorem Owns.of_eq (h : Owns L l x r) (hl : l' = l) (hr : ∀ a, r' a = r a) : Owns L l' x r' := by
  intro s rest hs
  rw [hl] at hs
  refine ⟨fun a t hok => ?_, (h s rest hs).2⟩
  rw [hr]
  exact (h s rest hs).1 a t hok

theorem Owns.pure (h : l = r a) : Owns L l (pure a : EStateM ε σ α) r := by
  intro s rest hs
  rw [h] at hs
  constructor
  · intro b t h
    obtain ⟨rfl, rfl⟩ := EStateM.Result.ok.inj h
    exact hs
  · intro e t h
    cases h

theorem Owns.throw (e : ε) : Owns L 0 (throw e : EStateM ε σ α) r := by
  intro s rest hs
  constructor
  · intro b t h
    cases h
  · intro e' t h
    obtain ⟨rfl, rfl⟩ := EStateM.Result.error.inj h
    rwa [zero_add] at hs

theorem Owns.bind (hx : Owns L l x r) (hf : ∀ a, Owns L (r a) (f a) q) : Owns L l (x >>= f) q := by
  intro s rest hs
  obtain ⟨hok, herr⟩ := hx s rest hs
  constructor
  · intro b u h
    obtain ⟨a, t, hxa, hfa⟩ := Fallible.bind_ok.mp h
    exact (hf a t rest (hok a t hxa)).1 b u hfa
  · intro e u h
    obtain hxe | ⟨a, t, hxa, hfa⟩ := Fallible.bind_error.mp h
    · exact herr e u hxe
    · exact (hf a t rest (hok a t hxa)).2 e u hfa

/-- A program that looks at the state first. -/
theorem Owns.bind_get {g : σ → EStateM ε σ β} (h : ∀ s, Owns L l (g s) q) :
    Owns L l (get >>= g) q := fun s rest hs => h s s rest hs

/-- What comes of an outcome that is handed on. -/
theorem Owns.attempt (h : Owns L l x r) :
    Owns L l (Fallible.attempt x : EStateM δ σ (Except ε α))
      fun o => match o with | .ok a => r a | .error _ => 0 := by
  intro s rest hs
  obtain ⟨hok, herr⟩ := h s rest hs
  constructor
  · intro o t ho
    obtain ⟨a, rfl, ha⟩ | ⟨e, rfl, he⟩ := Fallible.attempt_ok.mp ho
    · exact hok a t ha
    · rw [zero_add]
      exact herr e t he
  · intro e t he
    exact absurd he Fallible.attempt_error

/-- The frame rule, for a program without errors. -/
theorem Owns.frame (h : Owns L l x r) (hx : ∀ s e t, x s ≠ .error e t) :
    Owns L (m + l) x fun a => m + r a := by
  intro s rest hs
  have hs' : L.handles s = l + L.owned s + (m + rest) := by
    rw [hs]
    abel
  refine ⟨fun a t ha => ?_, fun e t he => absurd he (hx s e t)⟩
  rw [(h s (m + rest) hs').1 a t ha]
  beta_reduce
  abel

/-- The same, where nothing is returned. -/
theorem Owns.attempt_unit {x : EStateM ε σ Unit} (h : Owns L l x fun _ => 0) :
    Owns L l (Fallible.attempt x : EStateM δ σ (Except ε Unit)) fun _ => 0 :=
  h.attempt.of_eq rfl fun o => by cases o <;> rfl

section Drop
variable [DecidableEq H]

theorem holding_ok : holding L m x s = .ok a t ↔ x s = .ok a t := by
  unfold holding
  cases x s <;> simp

theorem holding_error : holding L m x s = .error e t ↔
    ∃ u, x s = .error e u ∧ L.put u (L.handles u - m) = t := by
  unfold holding
  cases x s <;> simp [and_assoc]

/-- A step that drops the handles `d` and moves others between the variables and the owners. -/
theorem Owns.modify {g : σ → σ} {d : σ → Multiset H} {m' : Multiset H}
    (hhandles : ∀ s, L.handles (g s) = L.handles s - d s)
    (howned : ∀ s, m' + L.owned (g s) + d s = m + L.owned s) :
    Owns L m (modify g : EStateM ε σ PUnit) fun _ => m' := by
  intro s rest hs
  constructor
  · intro a t h
    obtain ⟨rfl, rfl⟩ := EStateM.Result.ok.inj h
    rw [hhandles, hs, ← howned, add_right_comm, add_tsub_cancel_right]
  · intro e t h
    cases h

theorem Owns.release : Owns L m (release L m : EStateM ε σ Unit) fun _ => 0 := by
  intro s rest hs
  constructor
  · intro a t h
    obtain ⟨rfl, rfl⟩ := EStateM.Result.ok.inj h
    rw [L.handles_put, L.owned_put, hs, zero_add, add_assoc, add_tsub_cancel_left]
  · intro e t h
    cases h

theorem Owns.holding (h : Owns L l x r) : Owns L (m + l) (holding L m x) fun a => m + r a := by
  intro s rest hs
  have hs' : L.handles s = l + L.owned s + (m + rest) := by
    rw [hs]
    abel
  obtain ⟨hok, herr⟩ := h s (m + rest) hs'
  unfold Ownership.holding
  cases hx : x s with
  | ok a t =>
    refine ⟨fun b u hb => ?_, nofun⟩
    obtain ⟨rfl, rfl⟩ := EStateM.Result.ok.inj hb
    rw [hok a t hx]
    beta_reduce
    abel
  | error e t =>
    refine ⟨nofun, fun e' u he => ?_⟩
    obtain ⟨rfl, rfl⟩ := EStateM.Result.error.inj he
    rw [L.handles_put, L.owned_put, herr e t hx, add_left_comm, add_tsub_cancel_left]

theorem Owns.dropping (h : Owns L l x r) : Owns L (m + l) (dropping L m x) r := by
  refine h.holding.bind fun a => ?_
  have hrelease : Owns L (r a + m) (Ownership.release L m : EStateM ε σ Unit) fun _ => r a + 0 :=
    Owns.release.frame nofun
  refine (hrelease.of_eq (add_comm ..) fun _ => (add_zero _).symm).bind fun _ => .pure rfl

end Drop

end RustExtensions.Ownership
