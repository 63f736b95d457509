import RustExtensions.Lib.Transition

/-!
# Programs that make calls

A program is a tree of the calls it makes, with what it does on each answer. A
host carries the calls out, and others act on the host between any two of them.
What holds at the calls of a program is shown by following the tree.
-/
namespace RustExtensions.Calls

open RustExtensions.Transition

/-- `exit` ends the process, `panic` unwinds to the caller. -/
inductive Program (C A α : Type) where
  | ret (a : α)
  | panic
  | exit (code : Int32)
  | call (c : C) (next : A → Program C A α)

namespace Program

variable {C A α β : Type}

def bind (p : Program C A α) (f : α → Program C A β) : Program C A β :=
  match p with
  | ret a => f a
  | panic => panic
  | exit code => exit code
  | call c next => call c fun r => (next r).bind f

instance : Monad (Program C A) where
  pure := ret
  bind := bind

/-- What is done on the way out, whether the program returns or panics. -/
def atExit (p : Program C A α) (drop : Option α → Program C A Unit) : Program C A α :=
  match p with
  | ret a => (drop (some a)).bind fun _ => ret a
  | panic => (drop none).bind fun _ => panic
  | exit code => exit code
  | call c next => call c fun r => (next r).atExit drop

/-- The call that the program stands at. -/
def standing : Program C A α → Option C
  | call c _ => some c
  | _ => none

/-- Every call of the program, on any answers, is one that `ok` allows. -/
def OnlyCalls (ok : C → Prop) : Program C A α → Prop
  | ret _ => True
  | panic => True
  | exit _ => True
  | call c next => ok c ∧ ∀ r, (next r).OnlyCalls ok

section OnlyCalls
variable {ok : C → Prop}

theorem OnlyCalls.bind {p : Program C A α} {f : α → Program C A β} (hp : p.OnlyCalls ok)
    (hf : ∀ a, (f a).OnlyCalls ok) : (p.bind f).OnlyCalls ok := by
  induction p with
  | ret a => exact hf a
  | panic => trivial
  | exit code => trivial
  | call c next ih => exact ⟨hp.1, fun r => ih r (hp.2 r)⟩

theorem OnlyCalls.atExit {p : Program C A α} {drop : Option α → Program C A Unit}
    (hp : p.OnlyCalls ok) (hdrop : ∀ a, (drop a).OnlyCalls ok) : (p.atExit drop).OnlyCalls ok := by
  induction p with
  | ret a => exact (hdrop (some a)).bind fun _ => trivial
  | panic => exact (hdrop none).bind fun _ => trivial
  | exit code => trivial
  | call c next ih => exact ⟨hp.1, fun r => ih r (hp.2 r)⟩

theorem OnlyCalls.exceptBind {ε : Type} {p : ExceptT ε (Program C A) α}
    {f : α → ExceptT ε (Program C A) β} (hp : p.run.OnlyCalls ok)
    (hf : ∀ a, (f a).run.OnlyCalls ok) : (p >>= f).run.OnlyCalls ok := by
  apply OnlyCalls.bind hp
  intro r
  cases r with
  | ok a => exact hf a
  | error e => trivial

end OnlyCalls
end Program

/-- `F` says how a call turns out, as far as the state of the host leaves that open. -/
structure Host (K C A I F : Type) where
  others : K → I → Option K
  exec : K → C → F → Option (A × K)

inductive Turn (I F : Type) where
  | others (i : I)
  | call (f : F)

variable {K C A I F α β : Type}

def Host.step (H : Host K C A I F) (s : K × Program C A α) :
    Turn I F → Option (K × Program C A α)
  | .others i => (H.others s.1 i).map fun κ => (κ, s.2)
  | .call f =>
    match s.2 with
    | .call c next => (H.exec s.1 c f).map fun (r, κ) => (κ, next r)
    | _ => none

/-- A program on a host, beside the others. -/
def Host.running (H : Host K C A I F) (κ : K) (p : Program C A α) :
    System (K × Program C A α) (Turn I F) where
  init := (κ, p)
  step := H.step

/-- What others may do, and which calls are to be followed. -/
structure Rules (K C I : Type) where
  others : K → I → Prop
  calls : K → C → Prop

def Rules.Admit (R : Rules K C I) (s : K × Program C A α) : Turn I F → Prop
  | .others i => R.others s.1 i
  | .call _ =>
    match s.2 with
    | .call c _ => R.calls s.1 c
    | _ => True

instance (R : Rules K C I) [∀ κ i, Decidable (R.others κ i)] [∀ κ c, Decidable (R.calls κ c)]
    (s : K × Program C A α) (t : Turn I F) : Decidable (R.Admit s t) :=
  match t with
  | .others i => inferInstanceAs (Decidable (R.others s.1 i))
  | .call _ =>
    match s with
    | (κ, .call c _) => inferInstanceAs (Decidable (R.calls κ c))
    | (_, .ret _) | (_, .panic) | (_, .exit _) => .isTrue trivial

section Always
variable (H : Host K C A I F) (R : Rules K C I)

/-- Others have acted, any number of times. -/
def Rely : K → K → Prop :=
  Relation.ReflTransGen fun κ κ' => ∃ i, R.others κ i ∧ H.others κ i = some κ'

/-- `P` holds at every call and `Q` at the return. -/
def Always (P : C → K → Prop) (Q : α → K → Prop) : Program C A α → K → Prop
  | .ret a, κ => ∀ κ', Rely H R κ κ' → Q a κ'
  | .panic, _ => True
  | .exit _, _ => True
  | .call c next, κ => ∀ κ', Rely H R κ κ' → P c κ' ∧
      (R.calls κ' c → ∀ f r κ'', H.exec κ' c f = some (r, κ'') → Always P Q (next r) κ'')

variable {H R} {P : C → K → Prop} {Q : α → K → Prop} {Q' : β → K → Prop}
  {p : Program C A α} {f : α → Program C A β} {κ κ' : K}

theorem Always.rely (h : Always H R P Q p κ) (hκ : Rely H R κ κ') : Always H R P Q p κ' := by
  cases p with
  | ret a => exact fun κ'' h' => h κ'' (hκ.trans h')
  | panic => trivial
  | exit code => trivial
  | call c next => exact fun κ'' h' => h κ'' (hκ.trans h')

theorem Always.bind (h : Always H R P Q p κ)
    (hf : ∀ a κ', (∀ κ'', Rely H R κ' κ'' → Q a κ'') → Always H R P Q' (f a) κ') :
    Always H R P Q' (p.bind f) κ := by
  induction p generalizing κ with
  | ret a => exact hf a κ h
  | panic => trivial
  | exit code => trivial
  | call c next ih =>
    intro κ' hκ
    obtain ⟨hc, hnext⟩ := h κ' hκ
    exact ⟨hc, fun hok f r κ'' he => ih r (hnext hok f r κ'' he)⟩

theorem Always.mono {Q₁ : α → K → Prop} (h : Always H R P Q p κ)
    (hQ : ∀ a κ, Q a κ → Q₁ a κ) : Always H R P Q₁ p κ := by
  induction p generalizing κ with
  | ret a => exact fun κ' hκ => hQ a κ' (h κ' hκ)
  | panic => trivial
  | exit code => trivial
  | call c next ih =>
    intro κ' hκ
    obtain ⟨hc, hnext⟩ := h κ' hκ
    exact ⟨hc, fun hok f r κ'' he => ih r (hnext hok f r κ'' he)⟩

theorem Always.atExit {Q₁ : α → K → Prop} {drop : Option α → Program C A Unit}
    (h : Always H R P Q p κ)
    (hdrop : ∀ a κ', (∀ κ'', Rely H R κ' κ'' → Q a κ'') →
      Always H R P (fun _ => Q₁ a) (drop (some a)) κ')
    (hpanic : ∀ κ', Always H R P (fun _ _ => True) (drop none) κ') :
    Always H R P Q₁ (p.atExit drop) κ := by
  induction p generalizing κ with
  | ret a => exact (hdrop a κ h).bind fun _ _ hq => hq
  | panic => exact (hpanic κ).bind fun _ _ _ => trivial
  | exit code => trivial
  | call c next ih =>
    intro κ' hκ
    obtain ⟨hc, hnext⟩ := h κ' hκ
    exact ⟨hc, fun hok f r κ'' he => ih r (hnext hok f r κ'' he)⟩

/-- A program that makes none but harmless calls. -/
theorem Always.of_onlyCalls {ok : C → Prop} (h : p.OnlyCalls ok) (hP : ∀ c κ, ok c → P c κ) :
    Always H R P (fun _ _ => True) p κ := by
  induction p generalizing κ with
  | ret a => exact fun _ _ => trivial
  | panic => trivial
  | exit code => trivial
  | call c next ih =>
    exact fun κ' _ => ⟨hP c κ' h.1, fun _ f r κ'' _ => ih r (h.2 r)⟩

/-- In every run, `P` holds whenever the program stands at a call. -/
theorem Always.at_call (h : Always H R P Q p κ) {s : K × Program C A α} {c : C}
    (hreach : (H.running κ p).Reachable R.Admit s) (hs : s.2.standing = some c) : P c s.1 := by
  have halways : Always H R P Q s.2 s.1 := by
    refine hreach.invariant (P := fun s => Always H R P Q s.2 s.1) h ?_
    intro s a t _ ih ha hst
    obtain ⟨κ, p⟩ := s
    cases a with
    | others i =>
      obtain ⟨κ', hκ', rfl⟩ := Option.map_eq_some_iff.mp hst
      exact ih.rely (.single ⟨i, ha, hκ'⟩)
    | call f =>
      cases p with
      | call c next =>
        obtain ⟨⟨r, κ'⟩, he, rfl⟩ := Option.map_eq_some_iff.mp hst
        exact (ih κ .refl).2 ha f r κ' he
      | _ => cases hst
  obtain ⟨κ, p⟩ := s
  cases p with
  | call c' next =>
    obtain rfl := Option.some.inj hs
    exact (halways κ .refl).1
  | _ => cases hs

/-! ## Programs that return errors -/

variable {ε : Type}

/-- `P` holds at every call and `Q` at a return that is no error. -/
def AlwaysOk (H : Host K C A I F) (R : Rules K C I) (P : C → K → Prop) (Q : α → K → Prop)
    (p : ExceptT ε (Program C A) α) (κ : K) : Prop :=
  Always H R P (fun r κ => ∀ a, r = .ok a → Q a κ) p.run κ

section AlwaysOk
variable {p : ExceptT ε (Program C A) α} {f : α → ExceptT ε (Program C A) β}

theorem AlwaysOk.pure {a : α} (h : ∀ κ', Rely H R κ κ' → Q a κ') :
    AlwaysOk H R P Q (pure a : ExceptT ε (Program C A) α) κ := by
  intro κ' hκ b hb
  obtain rfl := Except.ok.inj hb
  exact h κ' hκ

theorem AlwaysOk.throw {e : ε} :
    AlwaysOk H R P Q (throw e : ExceptT ε (Program C A) α) κ := by
  intro κ' _ b hb
  cases hb

theorem AlwaysOk.bind (h : AlwaysOk H R P Q p κ)
    (hf : ∀ a κ', (∀ κ'', Rely H R κ' κ'' → Q a κ'') → AlwaysOk H R P Q' (f a) κ') :
    AlwaysOk H R P Q' (p >>= f) κ := by
  apply Always.bind h
  intro r κ' hr
  cases r with
  | ok a => exact hf a κ' fun κ'' hκ => hr κ'' hκ a rfl
  | error e =>
    intro κ'' _ b hb
    cases hb

end AlwaysOk
end Always

/-! ## Programs that return -/

section AlwaysReturns
variable (H : Host K C A I F) (R : Rules K C I)

/-- Every call is followed and can be answered, and the program comes to return; `P` holds at
every call and `Q` at the return. -/
def AlwaysReturns (P : C → K → Prop) (Q : α → K → Prop) : Program C A α → K → Prop
  | .ret a, κ => ∀ κ', Rely H R κ κ' → Q a κ'
  | .panic, _ => False
  | .exit _, _ => False
  | .call c next, κ => ∀ κ', Rely H R κ κ' → P c κ' ∧ R.calls κ' c ∧
      (∃ f r κ'', H.exec κ' c f = some (r, κ'')) ∧
      ∀ f r κ'', H.exec κ' c f = some (r, κ'') → AlwaysReturns P Q (next r) κ''

variable {H R} {P : C → K → Prop} {Q : α → K → Prop} {Q' : β → K → Prop}
  {p : Program C A α} {f : α → Program C A β} {κ κ' : K}

theorem AlwaysReturns.bind (h : AlwaysReturns H R P Q p κ)
    (hf : ∀ a κ', (∀ κ'', Rely H R κ' κ'' → Q a κ'') → AlwaysReturns H R P Q' (f a) κ') :
    AlwaysReturns H R P Q' (p.bind f) κ := by
  induction p generalizing κ with
  | ret a => exact hf a κ h
  | panic => exact h.elim
  | exit code => exact h.elim
  | call c next ih =>
    intro κ' hκ
    obtain ⟨hc, hfollowed, hanswered, hnext⟩ := h κ' hκ
    exact ⟨hc, hfollowed, hanswered, fun f r κ'' he => ih r (hnext f r κ'' he)⟩

theorem AlwaysReturns.mono {Q₁ : α → K → Prop} (h : AlwaysReturns H R P Q p κ)
    (hQ : ∀ a κ, Q a κ → Q₁ a κ) : AlwaysReturns H R P Q₁ p κ := by
  induction p generalizing κ with
  | ret a => exact fun κ' hκ => hQ a κ' (h κ' hκ)
  | panic => exact h.elim
  | exit code => exact h.elim
  | call c next ih =>
    intro κ' hκ
    obtain ⟨hc, hfollowed, hanswered, hnext⟩ := h κ' hκ
    exact ⟨hc, hfollowed, hanswered, fun f r κ'' he => ih r (hnext f r κ'' he)⟩

/-- An error of the first program is what the second returns. -/
theorem AlwaysReturns.exceptBind {ε : Type} {p : ExceptT ε (Program C A) α}
    {f : α → ExceptT ε (Program C A) β} {Q : Except ε α → K → Prop} {Q' : Except ε β → K → Prop}
    (h : AlwaysReturns H R P Q p.run κ)
    (hok : ∀ a κ', (∀ κ'', Rely H R κ' κ'' → Q (.ok a) κ'') →
      AlwaysReturns H R P Q' (f a).run κ')
    (herror : ∀ e κ', Q (.error e) κ' → Q' (.error e) κ') :
    AlwaysReturns H R P Q' (p >>= f).run κ := by
  apply AlwaysReturns.bind h
  intro r κ' hr
  cases r with
  | ok a => exact hok a κ' hr
  | error e => exact fun κ'' hκ => herror e κ'' (hr κ'' hκ)

end AlwaysReturns
end RustExtensions.Calls
