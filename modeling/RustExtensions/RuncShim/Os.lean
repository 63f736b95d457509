import RustExtensions.RuncShim.Spec.History

/-!
# The shim and its children

The shim reaps container processes and the runc helpers it forks. The kernel
hands out no pid that an unreaped child has, and the exit events reach the pump
in the order in which the children were reaped.
-/
namespace RustExtensions.RuncShim

open RustExtensions.Shim
open RustExtensions.Transition

/-- Whose process a child is. -/
inductive Owner where
  | container (proc : Nat)
  | helper (n : Nat)
  deriving DecidableEq

structure Child where
  owner : Owner
  pid : Int32
  deriving DecidableEq

/-- A child that was reaped, and whose event the pump has not taken yet. -/
structure Reaped where
  child : Child
  code : Int32
  deriving DecidableEq

structure Os where
  shim : Shim := {}
  unreaped : List Child := []
  events : List Reaped := []
  helpers : Nat := 0

inductive OsAction where
  | act (a : Action)
  | fork (pid : Int32)
  | reap (c : Child) (code : Int32)
  | deliver (an : PumpAnswers)

namespace Os

variable {os os' : Os}

/-- The kernel may hand out the pid. -/
def Free (os : Os) (pid : Int32) : Prop := ∀ c ∈ os.unreaped, c.pid ≠ pid

instance (os : Os) (pid : Int32) : Decidable (os.Free pid) :=
  inferInstanceAs (Decidable (∀ c ∈ os.unreaped, c.pid ≠ pid))

/-- A section after which there is a new container process has made a child. -/
def adopt (os : Os) (a : Action) (s : Shim) : Option Os :=
  if s.task.world.nextProc = os.shim.task.world.nextProc then some { os with shim := s }
  else
    match a with
    | .call _ _ ans =>
      if os.Free ans.pid then some { os with
        shim := s
        unreaped := { owner := .container os.shim.task.world.nextProc, pid := ans.pid } ::
          os.unreaped }
      else none
    | _ => none

def step (os : Os) : OsAction → Option Os
  | .act (.exit _ _) => none
  | .act a => (os.shim.step a).bind (os.adopt a)
  | .fork pid =>
    if os.Free pid then some { os with
      unreaped := { owner := .helper os.helpers, pid := pid } :: os.unreaped
      helpers := os.helpers + 1 }
    else none
  | .reap c code =>
    if c ∈ os.unreaped then some { os with
      unreaped := os.unreaped.erase c
      events := os.events ++ [{ child := c, code := code }] }
    else none
  | .deliver an =>
    match os.events with
    | [] => none
    | e :: rest =>
      (os.shim.step (.exit { subject := .pid e.child.pid, exitCode := e.code } an)).map
        fun s => { os with shim := s, events := rest }

end Os

def host : System Os OsAction where
  init := {}
  step := Os.step

namespace Os

variable {os os' : Os}

/-- The steps of the shim with its children. -/
inductive Step (os : Os) : OsAction → Os → Prop
  | acted {a : Action} {s : Shim} (hne : ∀ ev an, a ≠ .exit ev an)
    (hstep : os.shim.step a = some s) (hnext : s.table.nextProc = os.shim.table.nextProc) :
    Step os (.act a) { os with shim := s }
  | spawned {a : Action} {s : Shim} {pid : Int32} (hne : ∀ ev an, a ≠ .exit ev an)
    (hstep : os.shim.step a = some s) (hnext : s.table.nextProc ≠ os.shim.table.nextProc) :
    Step os (.act a) { os with
      shim := s
      unreaped := { owner := .container os.shim.table.nextProc, pid := pid } :: os.unreaped }
  | forked {pid : Int32} : Step os (.fork pid) { os with
      unreaped := { owner := .helper os.helpers, pid := pid } :: os.unreaped
      helpers := os.helpers + 1 }
  | reaped {c : Child} {code : Int32} (hc : c ∈ os.unreaped) : Step os (.reap c code) { os with
      unreaped := os.unreaped.erase c
      events := os.events ++ [{ child := c, code := code }] }
  | delivered {an : PumpAnswers} {e : Reaped} {rest : List Reaped} {s : Shim}
    (he : os.events = e :: rest)
    (hstep : os.shim.step (.exit { subject := .pid e.child.pid, exitCode := e.code } an) = some s) :
    Step os (.deliver an) { os with shim := s, events := rest }

/-- A section made no child, or the one whose pid the kernel chose among the free ones. -/
theorem adopt_cases {a : Action} {s : Shim} (h : os.adopt a s = some os') :
    (s.table.nextProc = os.shim.table.nextProc ∧ os' = { os with shim := s }) ∨
      ∃ rid req ans, a = .call rid req ans ∧ s.table.nextProc ≠ os.shim.table.nextProc ∧
        os.Free ans.pid ∧ os' = { os with
          shim := s
          unreaped := { owner := .container os.shim.table.nextProc, pid := ans.pid } ::
            os.unreaped } := by
  unfold adopt at h
  split at h
  · next hnext => exact Or.inl ⟨hnext, (Option.some.inj h).symm⟩
  · next hnext =>
    split at h
    · next rid req ans =>
      split at h
      · next hfree => exact Or.inr ⟨rid, req, ans, rfl, hnext, hfree, (Option.some.inj h).symm⟩
      · cases h
    · cases h

theorem step_act {a : Action} (hne : ∀ ev an, a ≠ .exit ev an)
    (h : (os.shim.step a).bind (os.adopt a) = some os') :
    Step os (.act a) os' := by
  obtain ⟨s, hs, hadopt⟩ := Option.bind_eq_some_iff.mp h
  rcases adopt_cases hadopt with ⟨hnext, rfl⟩ | ⟨rid, req, ans, -, hnext, -, rfl⟩
  · exact .acted hne hs hnext
  · exact .spawned hne hs hnext

theorem step_cases {a : OsAction} (h : os.step a = some os') : Step os a os' := by
  cases a with
  | act a =>
    cases a with
    | exit ev an => cases h
    | call rid req ans => exact step_act (fun _ _ => (nomatch ·)) h
    | next rid => exact step_act (fun _ _ => (nomatch ·)) h
    | publish => exact step_act (fun _ _ => (nomatch ·)) h
  | fork pid =>
    unfold step at h
    dsimp only at h
    split at h
    · obtain rfl := Option.some.inj h
      exact .forked
    · cases h
  | reap c code =>
    unfold step at h
    dsimp only at h
    split at h
    · next hc =>
      obtain rfl := Option.some.inj h
      exact .reaped hc
    · cases h
  | deliver an =>
    unfold step at h
    dsimp only at h
    split at h
    · cases h
    · next e rest he =>
      obtain ⟨s, hs, rfl⟩ := Option.map_eq_some_iff.mp h
      exact .delivered he hs

/-- What the shim does among its children it can do alone. -/
theorem reachable_shim {ok : Os → OsAction → Prop} {ok' : Shim → Action → Prop}
    (hact : ∀ os a, ok os (.act a) → ok' os.shim a) (hexit : ∀ s ev an, ok' s (.exit ev an))
    (h : host.Reachable ok os) : RuncShim.shim.Reachable ok' os.shim := by
  apply h.map Os.shim rfl
  intro os a os' _ ha hstep
  cases step_cases hstep with
  | acted hne hs hnext => exact System.Run.single (hact os _ ha) hs
  | spawned hne hs hnext => exact System.Run.single (hact os _ ha) hs
  | forked => exact System.Run.refl _
  | reaped hc => exact System.Run.refl _
  | @delivered an e rest s he hs =>
    have hok := hexit os.shim { subject := .pid e.child.pid, exitCode := e.code } an
    exact System.Run.single hok hs

/-! ## Children have names of their own -/

/-- The children whose event the pump has not taken. -/
def children (os : Os) : List Child := os.unreaped ++ os.events.map (·.child)

/-- A child that is reaped moves from one list to the other. -/
theorem children_reap {c : Child} (hc : c ∈ os.unreaped) (code : Int32) :
    ({ os with
      unreaped := os.unreaped.erase c
      events := os.events ++ [{ child := c, code := code }] } : Os).children.Perm os.children := by
  rw [children, List.map_append, ← List.append_assoc]
  apply List.perm_append_comm.trans
  exact (List.perm_cons_erase hc).symm.append_right _

theorem children_deliver {e : Reaped} {rest : List Reaped} (he : os.events = e :: rest)
    (s : Shim) : ({ os with shim := s, events := rest } : Os).children.Sublist os.children := by
  rw [children, children, he]
  exact (List.Sublist.refl _).append (List.sublist_cons_self _ _)

structure Owned (os : Os) : Prop where
  nodup : (os.children.map (·.owner)).Nodup
  proc_lt : ∀ c ∈ os.children, ∀ q, c.owner = .container q → q < os.shim.table.nextProc
  helper_lt : ∀ c ∈ os.children, ∀ n, c.owner = .helper n → n < os.helpers

theorem nextProc_mono {s s' : Shim} {a : Action} (h : Shim.Step s a s') :
    s.table.nextProc ≤ s'.table.nextProc := by
  obtain ⟨e, -, htable⟩ := h.table
  rw [htable]
  exact Table.nextProc_le _ e

theorem Owned.step {a : OsAction} (h : os.Owned) (hs : Step os a os') : os'.Owned := by
  cases hs with
  | acted hne hstep hnext =>
    refine ⟨h.nodup, fun c hc q hq => ?_, h.helper_lt⟩
    exact (h.proc_lt c hc q hq).trans_le (nextProc_mono (Shim.step_cases hstep))
  | @spawned a s pid hne hstep hnext =>
    have hle : os.shim.table.nextProc < s.table.nextProc :=
      lt_of_le_of_ne (nextProc_mono (Shim.step_cases hstep)) (Ne.symm hnext)
    refine ⟨List.nodup_cons.mpr ⟨fun hmem => ?_, h.nodup⟩, ?_, ?_⟩
    · obtain ⟨c, hc, howner⟩ := List.mem_map.mp hmem
      exact absurd (h.proc_lt c hc _ howner) (lt_irrefl _)
    · intro c hc q hq
      rcases List.mem_cons.mp hc with rfl | hc
      · obtain rfl := Owner.container.inj hq
        exact hle
      · exact (h.proc_lt c hc q hq).trans hle
    · intro c hc n hn
      rcases List.mem_cons.mp hc with rfl | hc
      · cases hn
      · exact h.helper_lt c hc n hn
  | forked =>
    refine ⟨List.nodup_cons.mpr ⟨fun hmem => ?_, h.nodup⟩, ?_, ?_⟩
    · obtain ⟨c, hc, howner⟩ := List.mem_map.mp hmem
      exact absurd (h.helper_lt c hc _ howner) (lt_irrefl _)
    · intro c hc q hq
      rcases List.mem_cons.mp hc with rfl | hc
      · cases hq
      · exact h.proc_lt c hc q hq
    · intro c hc n hn
      rcases List.mem_cons.mp hc with rfl | hc
      · obtain rfl := Owner.helper.inj hn
        exact Nat.lt_succ_self _
      · exact (h.helper_lt c hc n hn).trans (Nat.lt_succ_self _)
  | @reaped c code hc =>
    have hperm := children_reap hc code
    refine ⟨(hperm.map _).nodup_iff.mpr h.nodup, fun c' hc' => ?_, fun c' hc' => ?_⟩
    · exact h.proc_lt c' (hperm.mem_iff.mp hc')
    · exact h.helper_lt c' (hperm.mem_iff.mp hc')
  | @delivered an e rest s he hstep =>
    have hsub := children_deliver he s
    refine ⟨h.nodup.sublist (hsub.map _), fun c hc q hq => ?_, fun c hc => ?_⟩
    · exact (h.proc_lt c (hsub.subset hc) q hq).trans_le (nextProc_mono (Shim.step_cases hstep))
    · exact h.helper_lt c (hsub.subset hc)

theorem owned {ok : Os → OsAction → Prop} (h : host.Reachable ok os) : os.Owned := by
  refine h.invariant (P := Owned) ?_ fun _ _ _ _ ih _ hstep => ih.step (step_cases hstep)
  exact ⟨List.nodup_nil, fun _ hc => (nomatch hc), fun _ hc => (nomatch hc)⟩

/-- No other child has the owner of the one whose event is next. -/
theorem Owned.head {e : Reaped} {rest : List Reaped} (h : os.Owned) (he : os.events = e :: rest)
    {c : Child} (hc : c ∈ os.unreaped ++ rest.map (·.child)) : c.owner ≠ e.child.owner := by
  have hperm : os.children.Perm (e.child :: (os.unreaped ++ rest.map (·.child))) := by
    rw [children, he]
    exact List.perm_middle
  have hnodup := (hperm.map (·.owner)).nodup_iff.mp h.nodup
  intro howner
  exact (List.nodup_cons.mp hnodup).1 (List.mem_map.mpr ⟨c, hc, howner⟩)

end Os
end RustExtensions.RuncShim
