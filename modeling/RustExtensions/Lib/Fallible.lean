import Mathlib.Order.Defs.Unbundled

/-!
# Programs that return early and keep what they wrote

`EStateM ε σ` is a function that may return an error at any point; the state it
had written by then stays written. The rules below say what such a program
leaves behind on either way out. Nothing rolls the state back.
-/
namespace RustExtensions.Fallible

variable {ε δ σ τ α β : Type} {R : σ → σ → Prop}

theorem bind_ok {x : EStateM ε σ α} {f : α → EStateM ε σ β} {s u : σ} {b : β} :
    (x >>= f) s = .ok b u ↔ ∃ a t, x s = .ok a t ∧ f a t = .ok b u := by
  simp only [bind, EStateM.bind]
  cases x s <;> simp [and_assoc]

theorem bind_error {x : EStateM ε σ α} {f : α → EStateM ε σ β} {s u : σ} {e : ε} :
    (x >>= f) s = .error e u ↔
      x s = .error e u ∨ ∃ a t, x s = .ok a t ∧ f a t = .error e u := by
  simp only [bind, EStateM.bind]
  cases x s <;> simp [and_assoc]

theorem except_bind_ok {x : Except ε α} {f : α → Except ε β} {b : β} :
    x >>= f = .ok b ↔ ∃ a, x = .ok a ∧ f a = .ok b := by
  simp only [bind, Except.bind]
  cases x <;> simp

theorem except_bind_error {x : Except ε α} {f : α → Except ε β} {e : ε} :
    x >>= f = .error e ↔ x = .error e ∨ ∃ a, x = .ok a ∧ f a = .error e := by
  simp only [bind, Except.bind]
  cases x <;> simp

/-- What every step that succeeds keeps, a fold that succeeds keeps. -/
theorem foldlM_keeps {P : β → Prop} {f : β → α → Except ε β} {xs : List α} {b c : β}
    (hstep : ∀ x ∈ xs, ∀ b c, f b x = .ok c → P b → P c) (h : xs.foldlM f b = .ok c)
    (hb : P b) : P c := by
  induction xs generalizing b with
  | nil =>
    obtain rfl := Except.ok.inj h
    exact hb
  | cons x xs ih =>
    rw [List.foldlM_cons, except_bind_ok] at h
    obtain ⟨b₁, hx, hxs⟩ := h
    exact ih (fun y hy => hstep y (List.mem_cons_of_mem x hy)) hxs
      (hstep x List.mem_cons_self b b₁ hx hb)

/-- A fold succeeds where no step fails. -/
theorem exists_foldlM_ok {f : β → α → Except ε β} {xs : List α}
    (hstep : ∀ x ∈ xs, ∀ b, ∃ c, f b x = .ok c) (b : β) : ∃ c, xs.foldlM f b = .ok c := by
  induction xs generalizing b with
  | nil => exact ⟨b, rfl⟩
  | cons x xs ih =>
    obtain ⟨b₁, hx⟩ := hstep x List.mem_cons_self b
    obtain ⟨c, hxs⟩ := ih (fun y hy => hstep y (List.mem_cons_of_mem x hy)) b₁
    refine ⟨c, ?_⟩
    rw [List.foldlM_cons, except_bind_ok]
    exact ⟨b₁, hx, hxs⟩

/-- On an error return, the final state is related to the one at entry. -/
def FailsKeep (R : σ → σ → Prop) (x : EStateM ε σ α) : Prop :=
  ∀ s e t, x s = .error e t → R s t

theorem FailsKeep.of {x : EStateM ε σ α} {s t : σ} {e : ε} (h : x s = .error e t)
    (hx : FailsKeep R x) : R s t :=
  hx s e t h

/-- On a normal return, the final state is related to the one at entry. -/
def ReturnsKeep (R : σ → σ → Prop) (x : EStateM ε σ α) : Prop :=
  ∀ s a t, x s = .ok a t → R s t

/-- However the program returns, the final state is related to the one at entry. -/
structure Keeps (R : σ → σ → Prop) (x : EStateM ε σ α) : Prop where
  returns : ReturnsKeep R x
  fails : FailsKeep R x

section Return
variable [Std.Refl R]

theorem Keeps.pure (a : α) : Keeps R (pure a : EStateM ε σ α) where
  returns := by
    intro s b t h
    obtain ⟨-, rfl⟩ := EStateM.Result.ok.inj h
    exact refl_of R s
  fails := by
    intro s e t h
    cases h

theorem Keeps.throw (e : ε) : Keeps R (throw e : EStateM ε σ α) where
  returns := by
    intro s b t h
    cases h
  fails := by
    intro s e t h
    obtain ⟨-, rfl⟩ := EStateM.Result.error.inj h
    exact refl_of R s

end Return

section Sequence
variable [IsTrans σ R]

theorem Keeps.bind {x : EStateM ε σ α} {f : α → EStateM ε σ β} (hx : Keeps R x)
    (hf : ∀ a, Keeps R (f a)) : Keeps R (x >>= f) where
  returns := by
    intro s b u h
    obtain ⟨a, t, hxa, hfa⟩ := bind_ok.mp h
    exact trans_of R (hx.returns s a t hxa) ((hf a).returns t b u hfa)
  fails := by
    intro s e u h
    rcases bind_error.mp h with hxe | ⟨a, t, hxa, hfa⟩
    · exact hx.fails s e u hxe
    · exact trans_of R (hx.returns s a t hxa) ((hf a).fails t e u hfa)

/-- A step that keeps `R` may stand before one whose errors keep `R`. -/
theorem FailsKeep.bind {x : EStateM ε σ α} {f : α → EStateM ε σ β} (hx : Keeps R x)
    (hf : ∀ a, FailsKeep R (f a)) : FailsKeep R (x >>= f) := by
  intro s e u h
  rcases bind_error.mp h with hxe | ⟨a, t, hxa, hfa⟩
  · exact hx.fails s e u hxe
  · exact trans_of R (hx.returns s a t hxa) (hf a t e u hfa)

end Sequence

/-- Run a program on one part of a larger state. -/
def zoom (get : τ → σ) (set : τ → σ → τ) (x : EStateM ε σ α) : EStateM ε τ α := fun t =>
  match x (get t) with
  | .ok a s => .ok a (set t s)
  | .error e s => .error e (set t s)

theorem zoom_ok {get : τ → σ} {set : τ → σ → τ} {x : EStateM ε σ α} {t u : τ} {a : α} :
    zoom get set x t = .ok a u ↔ ∃ s, x (get t) = .ok a s ∧ set t s = u := by
  simp only [zoom]
  cases x (get t) <;> simp [and_assoc]

theorem zoom_error {get : τ → σ} {set : τ → σ → τ} {x : EStateM ε σ α} {t u : τ} {e : ε} :
    zoom get set x t = .error e u ↔ ∃ s, x (get t) = .error e s ∧ set t s = u := by
  simp only [zoom]
  cases x (get t) <;> simp [and_assoc]

/-- The conversion of errors at a `?`. -/
def mapError (f : ε → δ) (x : EStateM ε σ α) : EStateM δ σ α := fun s =>
  match x s with
  | .ok a t => .ok a t
  | .error e t => .error (f e) t

theorem mapError_ok {f : ε → δ} {x : EStateM ε σ α} {s t : σ} {a : α} :
    mapError f x s = .ok a t ↔ x s = .ok a t := by
  simp only [mapError]
  cases x s <;> simp

theorem mapError_error {f : ε → δ} {x : EStateM ε σ α} {s t : σ} {e : δ} :
    mapError f x s = .error e t ↔ ∃ e', x s = .error e' t ∧ f e' = e := by
  simp only [mapError]
  cases x s with
  | ok a u => simp
  | error e' u =>
    simp only [EStateM.Result.error.injEq]
    constructor
    · intro hexists
      obtain ⟨rfl, rfl⟩ := hexists
      exact ⟨e', ⟨rfl, rfl⟩, rfl⟩
    · intro hexists
      obtain ⟨_, ⟨rfl, rfl⟩, rfl⟩ := hexists
      exact ⟨rfl, rfl⟩

/-- Hand the outcome on as a value instead of returning at an error. -/
def attempt (x : EStateM ε σ α) : EStateM δ σ (Except ε α) := fun s =>
  match x s with
  | .ok a t => .ok (.ok a) t
  | .error e t => .ok (.error e) t

theorem attempt_ok {x : EStateM ε σ α} {s t : σ} {r : Except ε α} :
    attempt (δ := δ) x s = .ok r t ↔
      (∃ a, r = .ok a ∧ x s = .ok a t) ∨ ∃ e, r = .error e ∧ x s = .error e t := by
  simp only [attempt]
  cases x s with
  | ok a u =>
    constructor
    · intro h
      obtain ⟨rfl, rfl⟩ := EStateM.Result.ok.inj h
      exact Or.inl ⟨a, rfl, rfl⟩
    · rintro (⟨b, rfl, h⟩ | ⟨e, rfl, h⟩)
      · obtain ⟨rfl, rfl⟩ := EStateM.Result.ok.inj h
        rfl
      · cases h
  | error e u =>
    constructor
    · intro h
      obtain ⟨rfl, rfl⟩ := EStateM.Result.ok.inj h
      exact Or.inr ⟨e, rfl, rfl⟩
    · rintro (⟨b, rfl, h⟩ | ⟨e', rfl, h⟩)
      · cases h
      · obtain ⟨rfl, rfl⟩ := EStateM.Result.error.inj h
        rfl

theorem attempt_error {x : EStateM ε σ α} {s t : σ} {e : δ} :
    attempt x s ≠ .error e t := by
  simp only [attempt]
  cases x s <;> simp

/-! ## Whether a program returns -/

/-- The program does not end at an error. -/
def Returns (x : EStateM ε σ α) (s : σ) : Prop := ∃ a t, x s = .ok a t

theorem returns_pure (a : α) (s : σ) : Returns (pure a : EStateM ε σ α) s := ⟨a, s, rfl⟩

theorem not_returns_throw (e : ε) (s : σ) : ¬Returns (throw e : EStateM ε σ α) s := by
  intro h
  obtain ⟨a, t, h⟩ := h
  cases h

theorem returns_bind {x : EStateM ε σ α} {f : α → EStateM ε σ β} {s : σ} :
    Returns (x >>= f) s ↔ ∃ a t, x s = .ok a t ∧ Returns (f a) t := by
  constructor
  · intro h
    obtain ⟨b, u, h⟩ := h
    obtain ⟨a, t, hx, hf⟩ := bind_ok.mp h
    exact ⟨a, t, hx, b, u, hf⟩
  · intro h
    obtain ⟨a, t, hx, b, u, hf⟩ := h
    exact ⟨b, u, bind_ok.mpr ⟨a, t, hx, hf⟩⟩

/-! ## Outcomes that are computed -/

def isOk : EStateM.Result ε σ α → Bool
  | .ok _ _ => true
  | .error _ _ => false

/-- The state that is left, on either way out. -/
def left : EStateM.Result ε σ α → σ
  | .ok _ s => s
  | .error _ s => s

theorem eq_ok_of_isOk {r : EStateM.Result ε σ α} (h : isOk r = true) : ∃ a, r = .ok a (left r) := by
  cases r with
  | ok a s => exact ⟨a, rfl⟩
  | error e s => cases h

theorem left_bind_pure {x : EStateM ε σ α} {f : α → β} {s : σ} :
    left ((x >>= fun a => pure (f a)) s) = left (x s) := by
  simp only [bind, EStateM.bind]
  cases x s <;> rfl

theorem left_zoom {get : τ → σ} {set : τ → σ → τ} {x : EStateM ε σ α} {t : τ} :
    left (zoom get set x t) = set t (left (x (get t))) := by
  simp only [zoom]
  cases x (get t) <;> rfl

theorem left_mapError {f : ε → δ} {x : EStateM ε σ α} {s : σ} :
    left (mapError f x s) = left (x s) := by
  simp only [mapError]
  cases x s <;> rfl

end RustExtensions.Fallible
