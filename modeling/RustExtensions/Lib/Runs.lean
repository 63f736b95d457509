import Mathlib.Logic.Nonempty
import RustExtensions.Lib.Program

/-!
# Complete runs

A complete run of a program is the list of its calls with the answers, and how
it ends. Where a program stops without a return is read off the answers.
-/
namespace RustExtensions.Calls

variable {C A α β : Type}

inductive Stop where
  | panic
  | exit (code : Int32)
  deriving DecidableEq

inductive Ending (α : Type) where
  | returned (a : α)
  | stopped (s : Stop)
  deriving DecidableEq

def Ending.map (f : α → β) : Ending α → Ending β
  | .returned a => .returned (f a)
  | .stopped s => .stopped s

namespace Program

def Ends : Program C A α → List (C × A) → Ending α → Prop
  | ret a, t, e => t.isEmpty ∧ e = .returned a
  | panic, t, e => t.isEmpty ∧ e = .stopped .panic
  | exit code, t, e => t.isEmpty ∧ e = .stopped (.exit code)
  | call _ _, [], _ => False
  | call c next, q :: t, e => q.1 = c ∧ (next q.2).Ends t e

instance decidableEnds [DecidableEq C] [DecidableEq α] :
    (p : Program C A α) → (t : List (C × A)) → (e : Ending α) → Decidable (p.Ends t e)
  | ret a, t, e => inferInstanceAs (Decidable (t.isEmpty ∧ e = .returned a))
  | panic, t, e => inferInstanceAs (Decidable (t.isEmpty ∧ e = .stopped .panic))
  | exit code, t, e => inferInstanceAs (Decidable (t.isEmpty ∧ e = .stopped (.exit code)))
  | call _ _, [], _ => .isFalse id
  | call c next, q :: t, e =>
    @instDecidableAnd _ _ (decEq q.1 c) (decidableEnds (next q.2) t e)

variable {p : Program C A α} {f : α → Program C A β} {t t₁ t₂ : List (C × A)} {e : Ending α}
  {ok : C → Prop}

theorem ends_ret {a : α} : (ret a : Program C A α).Ends t e ↔ t = [] ∧ e = .returned a := by
  rw [Ends, List.isEmpty_iff]

theorem ends_panic : (panic : Program C A α).Ends t e ↔ t = [] ∧ e = .stopped .panic := by
  rw [Ends, List.isEmpty_iff]

theorem ends_exit {code : Int32} :
    (exit code : Program C A α).Ends t e ↔ t = [] ∧ e = .stopped (.exit code) := by
  rw [Ends, List.isEmpty_iff]

theorem ends_call {c : C} {next : A → Program C A α} :
    (call c next).Ends t e ↔ ∃ r t', t = (c, r) :: t' ∧ (next r).Ends t' e := by
  cases t with
  | nil => simp [Ends]
  | cons q t =>
    constructor
    · intro h
      obtain ⟨hc, hrest⟩ := h
      exact ⟨q.2, t, by rw [← hc], hrest⟩
    · intro hexists
      obtain ⟨r, t', heq, hrest⟩ := hexists
      obtain ⟨rfl, rfl⟩ := List.cons.inj heq
      exact ⟨rfl, hrest⟩

/-- Whatever the answers are, there is a run. -/
theorem exists_ends [Nonempty A] (p : Program C A α) : ∃ t e, p.Ends t e := by
  induction p with
  | ret a => exact ⟨[], .returned a, ends_ret.mpr ⟨rfl, rfl⟩⟩
  | panic => exact ⟨[], .stopped .panic, ends_panic.mpr ⟨rfl, rfl⟩⟩
  | exit code => exact ⟨[], .stopped (.exit code), ends_exit.mpr ⟨rfl, rfl⟩⟩
  | call c next ih =>
    obtain ⟨t, e, h⟩ := ih (Classical.arbitrary A)
    exact ⟨(c, _) :: t, e, ends_call.mpr ⟨_, t, rfl, h⟩⟩

theorem ends_bind {e : Ending β} : (p.bind f).Ends t e ↔
    (∃ t₁ t₂ a, t = t₁ ++ t₂ ∧ p.Ends t₁ (.returned a) ∧ (f a).Ends t₂ e) ∨
      ∃ s, e = .stopped s ∧ p.Ends t (.stopped s) := by
  induction p generalizing t with
  | ret a =>
    simp only [bind, ends_ret, Ending.returned.injEq, reduceCtorEq, and_false, exists_false,
      or_false]
    constructor
    · exact fun h => ⟨[], t, a, rfl, ⟨rfl, rfl⟩, h⟩
    · intro hexists
      obtain ⟨_, _, _, rfl, ⟨rfl, rfl⟩, h⟩ := hexists
      exact h
  | panic =>
    simp only [bind, ends_panic, reduceCtorEq, and_false, false_and, exists_false, false_or,
      Ending.stopped.injEq]
    constructor
    · exact fun h => ⟨.panic, h.2, h.1, rfl⟩
    · intro hexists
      obtain ⟨_, he, ht, rfl⟩ := hexists
      exact ⟨ht, he⟩
  | exit code =>
    simp only [bind, ends_exit, reduceCtorEq, and_false, false_and, exists_false, false_or,
      Ending.stopped.injEq]
    constructor
    · exact fun h => ⟨.exit code, h.2, h.1, rfl⟩
    · intro hexists
      obtain ⟨_, he, ht, rfl⟩ := hexists
      exact ⟨ht, he⟩
  | call c next ih =>
    simp only [bind, ends_call, ih]
    constructor
    · intro hexists
      obtain ⟨r, t', rfl, h⟩ := hexists
      rcases h with ⟨t₁, t₂, a, rfl, hp, hf⟩ | ⟨s, he, hp⟩
      · exact Or.inl ⟨(c, r) :: t₁, t₂, a, rfl, ⟨r, t₁, rfl, hp⟩, hf⟩
      · exact Or.inr ⟨s, he, r, t', rfl, hp⟩
    · intro h
      rcases h with ⟨_, t₂, a, rfl, ⟨r, t₁, rfl, hp⟩, hf⟩ | ⟨s, he, r, t', rfl, hp⟩
      · exact ⟨r, t₁ ++ t₂, rfl, Or.inl ⟨t₁, t₂, a, rfl, hp, hf⟩⟩
      · exact ⟨r, t', rfl, Or.inr ⟨s, he, hp⟩⟩

theorem ends_atExit {drop : Option α → Program C A Unit} : (p.atExit drop).Ends t e ↔
    (∃ t₁ t₂ a, t = t₁ ++ t₂ ∧ p.Ends t₁ (.returned a) ∧
        ((drop (some a)).bind fun _ => ret a).Ends t₂ e) ∨
      (∃ t₁ t₂, t = t₁ ++ t₂ ∧ p.Ends t₁ (.stopped .panic) ∧
        ((drop none).bind fun _ => (panic : Program C A α)).Ends t₂ e) ∨
      ∃ code, e = .stopped (.exit code) ∧ p.Ends t (.stopped (.exit code)) := by
  induction p generalizing t with
  | ret a =>
    simp only [atExit, ends_ret, Ending.returned.injEq, reduceCtorEq, and_false, false_and,
      exists_false, or_false]
    constructor
    · exact fun h => ⟨[], t, a, rfl, ⟨rfl, rfl⟩, h⟩
    · intro hexists
      obtain ⟨_, _, _, rfl, ⟨rfl, rfl⟩, h⟩ := hexists
      exact h
  | panic =>
    simp only [atExit, ends_panic, reduceCtorEq, and_false, false_and, exists_false, false_or,
      Ending.stopped.injEq, or_false]
    constructor
    · exact fun h => ⟨[], t, rfl, ⟨rfl, trivial⟩, h⟩
    · intro hexists
      obtain ⟨_, _, rfl, ⟨rfl, -⟩, h⟩ := hexists
      exact h
  | exit code =>
    simp only [atExit, ends_exit, reduceCtorEq, and_false, false_and, exists_false, false_or,
      Ending.stopped.injEq, Stop.exit.injEq]
    constructor
    · exact fun h => ⟨code, h.2, h.1, rfl⟩
    · intro hexists
      obtain ⟨_, he, ht, rfl⟩ := hexists
      exact ⟨ht, he⟩
  | call c next ih =>
    simp only [atExit, ends_call, ih]
    constructor
    · intro hexists
      obtain ⟨r, t', rfl, h⟩ := hexists
      rcases h with ⟨t₁, t₂, a, rfl, hp, hd⟩ | ⟨t₁, t₂, rfl, hp, hd⟩ | ⟨code, he, hp⟩
      · exact Or.inl ⟨(c, r) :: t₁, t₂, a, rfl, ⟨r, t₁, rfl, hp⟩, hd⟩
      · exact Or.inr (Or.inl ⟨(c, r) :: t₁, t₂, rfl, ⟨r, t₁, rfl, hp⟩, hd⟩)
      · exact Or.inr (Or.inr ⟨code, he, r, t', rfl, hp⟩)
    · intro h
      rcases h with ⟨_, t₂, a, rfl, ⟨r, t₁, rfl, hp⟩, hd⟩ |
        ⟨_, t₂, rfl, ⟨r, t₁, rfl, hp⟩, hd⟩ | ⟨code, he, r, t', rfl, hp⟩
      · exact ⟨r, t₁ ++ t₂, rfl, Or.inl ⟨t₁, t₂, a, rfl, hp, hd⟩⟩
      · exact ⟨r, t₁ ++ t₂, rfl, Or.inr (Or.inl ⟨t₁, t₂, rfl, hp, hd⟩)⟩
      · exact ⟨r, t', rfl, Or.inr (Or.inr ⟨code, he, hp⟩)⟩

theorem OnlyCalls.mono {ok' : C → Prop} (h : p.OnlyCalls ok) (hok : ∀ c, ok c → ok' c) :
    p.OnlyCalls ok' := by
  induction p with
  | ret a => trivial
  | panic => trivial
  | exit code => trivial
  | call c next ih => exact ⟨hok c h.1, fun r => ih r (h.2 r)⟩

theorem OnlyCalls.ends (h : p.OnlyCalls ok) (he : p.Ends t e) : ∀ q ∈ t, ok q.1 := by
  induction p generalizing t with
  | ret a =>
    obtain ⟨rfl, -⟩ := ends_ret.mp he
    exact fun q hq => absurd hq List.not_mem_nil
  | panic =>
    obtain ⟨rfl, -⟩ := ends_panic.mp he
    exact fun q hq => absurd hq List.not_mem_nil
  | exit code =>
    obtain ⟨rfl, -⟩ := ends_exit.mp he
    exact fun q hq => absurd hq List.not_mem_nil
  | call c next ih =>
    obtain ⟨r, t', rfl, hrest⟩ := ends_call.mp he
    intro q hq
    rcases List.mem_cons.mp hq with rfl | hq
    · exact h.1
    · exact ih r (h.2 r) hrest q hq

/-- A program that returns errors ends with the second part, or early with the first. -/
theorem ends_exceptBind {ε : Type} {p : ExceptT ε (Program C A) α}
    {f : α → ExceptT ε (Program C A) β} {e : Ending (Except ε β)} :
    (p >>= f).run.Ends t e ↔
      (∃ t₁ t₂ a, t = t₁ ++ t₂ ∧ p.run.Ends t₁ (.returned (.ok a)) ∧ (f a).run.Ends t₂ e) ∨
      (∃ er, e = .returned (.error er) ∧ p.run.Ends t (.returned (.error er))) ∨
      ∃ s, e = .stopped s ∧ p.run.Ends t (.stopped s) := by
  refine ends_bind.trans ?_
  constructor
  · intro h
    rcases h with ⟨t₁, t₂, r, rfl, hp, hf⟩ | ⟨s, rfl, hp⟩
    · cases r with
      | ok a => exact Or.inl ⟨t₁, t₂, a, rfl, hp, hf⟩
      | error er =>
        obtain ⟨rfl, rfl⟩ := ends_ret.mp hf
        rw [List.append_nil]
        exact Or.inr (Or.inl ⟨er, rfl, hp⟩)
    · exact Or.inr (Or.inr ⟨s, rfl, hp⟩)
  · intro h
    rcases h with ⟨t₁, t₂, a, rfl, hp, hf⟩ | ⟨er, rfl, hp⟩ | ⟨s, rfl, hp⟩
    · exact Or.inl ⟨t₁, t₂, .ok a, rfl, hp, hf⟩
    · exact Or.inl ⟨t, [], .error er, (List.append_nil t).symm, hp, ends_ret.mpr ⟨rfl, rfl⟩⟩
    · exact Or.inr ⟨s, rfl, hp⟩

/-! ## Where a program stops -/

/-- The program stops for one of the reasons exactly in the runs in which a call had a bad
answer. -/
def StopsOn (stop : Stop → Prop) (bad : C → A → Prop) (p : Program C A α) : Prop :=
  ∀ t e, p.Ends t e → ((∃ s, e = .stopped s ∧ stop s) ↔ ∃ q ∈ t, bad q.1 q.2)

section StopsOn
variable {stop : Stop → Prop} {bad : C → A → Prop}

theorem StopsOn.ret (a : α) : (ret a : Program C A α).StopsOn stop bad := by
  intro t e he
  obtain ⟨rfl, rfl⟩ := ends_ret.mp he
  simp

theorem StopsOn.call {c : C} {next : A → Program C A α} (hc : ∀ r, ¬bad c r)
    (hnext : ∀ r, (next r).StopsOn stop bad) : (call c next).StopsOn stop bad := by
  intro t e he
  obtain ⟨r, t', rfl, hrest⟩ := ends_call.mp he
  rw [hnext r t' e hrest]
  simp only [List.mem_cons, or_and_right, exists_or, exists_eq_left, hc r, false_or]

theorem StopsOn.bind (hp : p.StopsOn stop bad) (hf : ∀ a, (f a).StopsOn stop bad) :
    (p.bind f).StopsOn stop bad := by
  intro t e he
  rcases ends_bind.mp he with ⟨t₁, t₂, a, rfl, hp', hf'⟩ | ⟨s, rfl, hp'⟩
  · have hnone : ¬∃ q ∈ t₁, bad q.1 q.2 := by
      rw [← hp t₁ _ hp']
      simp
    rw [hf a t₂ e hf']
    simp only [List.mem_append, or_and_right, exists_or, hnone, false_or]
  · rw [← hp t _ hp']
    simp only [Ending.stopped.injEq]

/-- The way out makes only harmless calls and ends there. -/
theorem StopsOn.atExit {drop : Option α → Program C A Unit} (hp : p.StopsOn stop bad)
    (hdrop : ∀ a t u, (drop a).Ends t u → u = .returned () ∧ ∀ q ∈ t, ¬bad q.1 q.2) :
    (p.atExit drop).StopsOn stop bad := by
  have hquiet : ∀ {γ : Type} {a : Option α} {k : Program C A γ} {t : List (C × A)} {e : Ending γ},
      ((drop a).bind fun _ => k).Ends t e →
        ∃ t₁ t₂, t = t₁ ++ t₂ ∧ k.Ends t₂ e ∧ ∀ q ∈ t₁, ¬bad q.1 q.2 := by
    intro γ a k t e h
    rcases ends_bind.mp h with ⟨t₁, t₂, _, rfl, hd, hk⟩ | ⟨s, rfl, hd⟩
    · exact ⟨t₁, t₂, rfl, hk, (hdrop a t₁ _ hd).2⟩
    · cases (hdrop a t _ hd).1
  intro t e he
  rcases ends_atExit.mp he with ⟨t₁, t₂, a, rfl, hp', hd⟩ | ⟨t₁, t₂, rfl, hp', hd⟩ |
    ⟨code, rfl, hp'⟩
  · obtain ⟨t₃, t₄, rfl, hret, hharmless⟩ := hquiet hd
    obtain ⟨rfl, rfl⟩ := ends_ret.mp hret
    have hnone : ¬∃ q ∈ t₁, bad q.1 q.2 := by
      rw [← hp t₁ _ hp']
      simp
    simp only [reduceCtorEq, false_and, exists_false, false_iff]
    intro hexists
    obtain ⟨q, hq, hbad⟩ := hexists
    rw [List.append_nil] at hq
    rcases List.mem_append.mp hq with hq | hq
    · exact hnone ⟨q, hq, hbad⟩
    · exact hharmless q hq hbad
  · obtain ⟨t₃, t₄, rfl, hpanic, hharmless⟩ := hquiet hd
    obtain ⟨rfl, rfl⟩ := ends_panic.mp hpanic
    have hpanics := hp t₁ _ hp'
    simp only [Ending.stopped.injEq] at hpanics ⊢
    rw [hpanics, List.append_nil]
    constructor
    · intro hexists
      obtain ⟨q, hq, hbad⟩ := hexists
      exact ⟨q, List.mem_append_left t₃ hq, hbad⟩
    · intro hexists
      obtain ⟨q, hq, hbad⟩ := hexists
      rcases List.mem_append.mp hq with hq | hq
      · exact ⟨q, hq, hbad⟩
      · exact absurd hbad (hharmless q hq)
  · rw [← hp t _ hp']

theorem StopsOn.exceptBind {ε : Type} {p : ExceptT ε (Program C A) α}
    {f : α → ExceptT ε (Program C A) β} (hp : p.run.StopsOn stop bad)
    (hf : ∀ a, (f a).run.StopsOn stop bad) : (p >>= f).run.StopsOn stop bad := by
  apply StopsOn.bind hp
  intro r
  cases r with
  | ok a => exact hf a
  | error e => exact StopsOn.ret _

end StopsOn
/-! ## The run with given replies -/

section Replies
variable (reply : C → A)

/-- How the program ends if every call is answered by `reply`. -/
def ending : Program C A α → Ending α
  | ret a => .returned a
  | panic => .stopped .panic
  | exit code => .stopped (.exit code)
  | call c next => (next (reply c)).ending

variable {reply}

theorem ends_ending (p : Program C A α) : ∃ t, p.Ends t (p.ending reply) := by
  induction p with
  | ret a => exact ⟨[], ends_ret.mpr ⟨rfl, rfl⟩⟩
  | panic => exact ⟨[], ends_panic.mpr ⟨rfl, rfl⟩⟩
  | exit code => exact ⟨[], ends_exit.mpr ⟨rfl, rfl⟩⟩
  | call c next ih =>
    obtain ⟨t, h⟩ := ih (reply c)
    exact ⟨(c, reply c) :: t, ends_call.mpr ⟨_, t, rfl, h⟩⟩

theorem ending_bind_returned {a : α} (h : p.ending reply = .returned a) :
    (p.bind f).ending reply = (f a).ending reply := by
  induction p with
  | ret b =>
    obtain rfl := Ending.returned.inj h
    rfl
  | panic => cases h
  | exit code => cases h
  | call c next ih => exact ih (reply c) h

theorem ending_bind_stopped {s : Stop} (h : p.ending reply = .stopped s) :
    (p.bind f).ending reply = .stopped s := by
  induction p with
  | ret b => cases h
  | panic => exact congrArg _ (Ending.stopped.inj h)
  | exit code => exact congrArg _ (Ending.stopped.inj h)
  | call c next ih => exact ih (reply c) h

/-- A way out that returns changes nothing. -/
theorem ending_atExit {drop : Option α → Program C A Unit}
    (hdrop : ∀ a, (drop a).ending reply = .returned ()) :
    (p.atExit drop).ending reply = p.ending reply := by
  induction p with
  | ret a => exact ending_bind_returned (hdrop (some a))
  | panic => exact ending_bind_returned (hdrop none)
  | exit code => rfl
  | call c next ih => exact ih (reply c)

end Replies

end Program
end RustExtensions.Calls
