import RustExtensions.RuncShim.Attribution
import RustExtensions.RuncShim.ExitStatus

/-!
# The way of an exit

The shim, the commands it runs, the loop that reaps all their children, and the monitor whose
events the pump takes. Together they are what `host` says of the shim and its children.
-/
namespace RustExtensions.Shim

/-! ## Children of the reaper -/

/-- The child that the handler is about to notify. -/
def Handler.inHand : Handler → List (Process × Int32)
  | .notifying p exitCode => [(p, exitCode)]
  | .idle | .draining => []

namespace Reaper

variable {r r' : Reaper} {build : Build} {a : ReaperAction} {s : Subscription}

/-- The children that are still to be waited for. -/
def unreaped (r : Reaper) : List Process := r.running ++ r.zombies.map (·.1)

/-- The children that were waited for, with the codes they are notified with. -/
def waitedFor (r : Reaper) : List (Process × Int32) := r.notified ++ r.handler.inHand

def exitEvent (z : Process × Int32) : ExitEvent := { subject := .pid z.1.pid, exitCode := z.2 }

/-- What a step does to the children that are still to be waited for. -/
inductive Moves (r r' : Reaper) : ReaperAction → Prop
  | forked {pid : Int32} (hfree : r.Free pid)
    (hunreaped : r'.unreaped = { name := r.nextName, pid } :: r.unreaped)
    (hwaited : r'.waitedFor = r.waitedFor) (hname : r'.nextName = r.nextName + 1) :
    Moves r r' (.fork pid)
  | reaped {a : ReaperAction} (p : Process) (exitCode : Int32)
    (hunreaped : r.unreaped.Perm (p :: r'.unreaped))
    (hwaited : r'.waitedFor = r.waitedFor ++ [(p, exitCode)]) (hname : r'.nextName = r.nextName) :
    Moves r r' a
  | still {a : ReaperAction} (hunreaped : r'.unreaped.Perm r.unreaped)
    (hwaited : r'.waitedFor = r.waitedFor) (hname : r'.nextName = r.nextName) : Moves r r' a

theorem waitedFor_of_notified (hnotified : r'.notified = r.notified)
    (hr : r.handler.inHand = []) (hr' : r'.handler.inHand = []) :
    r'.waitedFor = r.waitedFor := by
  rw [waitedFor, waitedFor, hnotified, hr, hr']

theorem Step.moves (h : Step build r a r') (hknown : ∀ z ∈ r.zombies, z.2.Known) :
    Moves r r' a := by
  cases h with
  | forked hfree => exact .forked hfree rfl rfl rfl
  | @terminated p t hp =>
    refine .still ?_ rfl rfl
    have hrunning := (List.perm_cons_erase hp).symm.append_right (r.zombies.map (·.1))
    rw [unreaped, List.map_append, ← List.append_assoc]
    exact List.perm_append_comm.trans hrunning
  | signalled hidle =>
    exact .still (.refl _) (waitedFor_of_notified rfl (by rw [hidle]; rfl) rfl) rfl
  | drained hdraining hnone =>
    exact .still (.refl _) (waitedFor_of_notified rfl (by rw [hdraining]; rfl) rfl) rfl
  | @reaped p t hdraining hz hknown =>
    have hzombies := (List.perm_cons_erase hz).map (·.1)
    have hnone : r.waitedFor = r.notified := by
      rw [waitedFor, hdraining]
      exact List.append_nil _
    refine .reaped p t.code ((hzombies.append_left _).trans List.perm_middle) ?_ rfl
    rw [hnone]
    rfl
  | lost hdraining hz hunknown => exact absurd (hknown _ hz) hunknown
  | @notified p exitCode hp =>
    refine .still (.refl _) ?_ rfl
    rw [waitedFor, waitedFor, hp]
    exact List.append_nil _
  | subscribed hs => exact .still (.refl _) rfl rfl
  | unsubscribed => exact .still (.refl _) rfl rfl

theorem Step.known (h : Step build r a r') (hr : ∀ z ∈ r.terminated, z.2.Known)
    (ha : ∀ p t, a = .terminate p t → t.Known) : ∀ z ∈ r'.terminated, z.2.Known := by
  cases h with
  | @terminated p t hp =>
    intro z hz
    obtain hz | hz := List.mem_append.mp hz
    · exact hr z hz
    · obtain rfl := List.mem_singleton.mp hz
      exact ha p t rfl
  | _ => exact hr

theorem Step.length_notified (h : Step build r a r') : r.notified.length ≤ r'.notified.length := by
  cases h with
  | notified hp => exact (List.prefix_append _ _).length_le
  | _ => exact Nat.le_refl _

/-- The names of the children that are on their way. -/
theorem Sound.name_lt (h : r.Sound) :
    (∀ p ∈ r.unreaped, p.name < r.nextName) ∧ ∀ z ∈ r.waitedFor, z.1.name < r.nextName := by
  have hterminated {p : Process} {t : Termination} (ht : (p, t) ∈ r.terminated) :
      p.name < r.nextName :=
    h.named.lt _ (List.mem_append_right _ (List.mem_map.mpr ⟨(p, t), ht, rfl⟩))
  refine ⟨fun p hp => ?_, fun z hz => ?_⟩
  · obtain hp | hp := List.mem_append.mp hp
    · exact h.named.lt _ (List.mem_append_left _ (List.mem_map.mpr ⟨p, hp, rfl⟩))
    · obtain ⟨z, hz, rfl⟩ := List.mem_map.mp hp
      exact hterminated (h.accounted.zombies z hz)
  · obtain ⟨p, c⟩ := z
    obtain hz | hz := List.mem_append.mp hz
    · obtain ⟨t, ht, -⟩ := h.accounted.notified p c hz
      exact hterminated ht
    · cases hhandler : r.handler with
      | notifying q c' =>
        rw [hhandler] at hz
        obtain ⟨rfl, rfl⟩ := Prod.mk.inj (List.mem_singleton.mp hz)
        obtain ⟨⟨t, ht, -⟩, -⟩ := h.accounted.inHand _ _ hhandler
        exact hterminated ht
      | _ =>
        rw [hhandler] at hz
        cases hz

/-- A subscription to pids gets every notification. -/
theorem received_step (hvalid : r.bus.Valid) (hs : r.bus.Subscribed s)
    (hreceived : r.bus.received s.rx = r.notified.map exitEvent) (h : Step build r a r') :
    r'.bus.received s.rx = r'.notified.map exitEvent := by
  have hbus := bus_step h
  split at hbus
  · next c hc =>
    rw [Bus.received_called hvalid hs hbus, hreceived]
    cases h with
    | subscribed hsub =>
      obtain rfl := Option.some.inj hc
      exact List.append_nil _
    | unsubscribed =>
      obtain rfl := Option.some.inj hc
      exact List.append_nil _
    | @notified p exitCode hp =>
      simp only [monitorCall, hp] at hc
      obtain rfl := Option.some.inj hc
      rw [List.map_append]
      rfl
    | _ => cases hc
  · rw [hbus, hreceived]
    cases h with
    | notified hp => rename_i hc; simp [monitorCall, hp] at hc
    | _ => rfl

end Reaper
end RustExtensions.Shim

namespace RustExtensions.RuncShim

open RustExtensions.Shim
open RustExtensions.Transition
open RustExtensions.KeyedMap (Map)

/-! ## The pump's subscription -/

/-- The subscription that a command gives up sooner or later. -/
def Execution.subscription : Execution → Option Subscription
  | .subscribed s | .waiting s _ _ | .exited s _ _ => some s
  | .spawnFailed | .done _ _ => none

namespace Spawner

variable {sp sp' : Spawner} {build : Build} {a : SpawnerAction} {s : Subscription} {id : Int64}

/-- No command holds the id. -/
def Spares (sp : Spawner) (id : Int64) : Prop := ∀ k x s, sp.executions.lookup k = some x →
  x.subscription = some s → s.id ≠ id

/-- A step of a command is a step of the reaper that leaves the id alone, if any. -/
theorem Step.reaper_spares (h : Step build sp a sp') (hid : sp.Spares id) :
    sp'.reaper = sp.reaper ∨ ∃ b, Reaper.Step build sp.reaper b sp'.reaper ∧
      b ≠ .unsubscribe id ∧ ∀ p t, b = .terminate p t → a = .reaper (.terminate p t) := by
  have hother {k : Nat} {x : Execution} {s : Subscription}
      (hk : sp.executions.lookup k = some x) (hs : x.subscription = some s) :
      ReaperAction.unsubscribe s.id ≠ .unsubscribe id :=
    fun heq => hid k x s hk hs (ReaperAction.unsubscribe.inj heq)
  cases h with
  | reaped hne hstep => exact .inr ⟨_, hstep, hne id, fun _ _ h => by rw [h]⟩
  | executed hs hstep => exact .inr ⟨_, hstep, (fun h => by cases h), fun _ _ h => by cases h⟩
  | spawned hk hchild hbus hhandler hstep =>
    exact .inr ⟨_, hstep, (fun h => by cases h), fun _ _ h => by cases h⟩
  | failed hk => exact .inr ⟨_, .unsubscribed, hother hk rfl, fun _ _ h => by cases h⟩
  | received hk he hpid => exact .inr ⟨_, .unsubscribed, hother hk rfl, fun _ _ h => by cases h⟩
  | passed hk he hpid => exact .inl rfl
  | finished hk => exact .inr ⟨_, .unsubscribed, hother hk rfl, fun _ _ h => by cases h⟩

theorem Spares.put {sp₁ : Spawner} {k : Nat} {x : Execution} (hid : sp.Spares id)
    (hsame : sp₁.executions = sp.executions) (hx : ∀ s, x.subscription = some s → s.id ≠ id) :
    (sp₁.put k x).Spares id := by
  intro i y s hy hs
  rw [Spawner.put, Map.lookup_insert_eq] at hy
  split at hy
  · obtain rfl := Option.some.inj hy
    exact hx s hs
  · rw [hsame] at hy
    exact hid i y s hy hs

/-- New subscriptions have ids that were never given out. -/
theorem Step.spares (h : Step build sp a sp') (hid : sp.Spares id)
    (hlt : id.toInt < sp.reaper.bus.monitor.seqId.toInt) : sp'.Spares id := by
  cases h with
  | reaped hne hstep => exact hid
  | executed hs hstep =>
    refine hid.put rfl fun s' hs' heq => ?_
    obtain rfl := Option.some.inj hs'
    rw [← heq, hs.1] at hlt
    exact Int.lt_irrefl _ hlt
  | spawned hk hchild hbus hhandler hstep =>
    exact hid.put rfl fun s' hs' => hid _ _ s' hk hs'
  | failed hk => exact hid.put rfl fun s' hs' => by cases hs'
  | received hk he hpid => exact hid.put rfl fun s' hs' => hid _ _ s' hk hs'
  | passed hk he hpid => exact hid.put rfl fun s' hs' => hid _ _ s' hk hs'
  | finished hk => exact hid.put rfl fun s' hs' => by cases hs'

end Spawner

/-- The pump's subscription, which `create_task_service` makes before any command runs. -/
def pumpSubscription : Subscription × Bus := (Bus.subscribe {} .pid).get (by decide)

/-- `taken` counts the events that the pump has received. `owner` says by its name whose process a
child is, and `helpers` counts the children that are no container's; nothing reads them. -/
structure ExitPath where
  shim : Shim := {}
  spawner : Spawner := { reaper := { bus := pumpSubscription.2 } }
  taken : Nat := 0
  owner : Nat → Owner := fun _ => .helper 0
  helpers : Nat := 0

inductive ExitPathAction where
  | act (a : Action)
  | spawner (a : SpawnerAction)
  | deliver (an : PumpAnswers)

namespace ExitPath

abbrev reaper (p : ExitPath) : Reaper := p.spawner.reaper

/-- What was sent to the pump. -/
def received (p : ExitPath) : List ExitEvent := p.reaper.bus.received pumpSubscription.1.rx

/-- The next child has this owner. -/
def assign (p : ExitPath) (o : Owner) : Nat → Owner := Function.update p.owner p.reaper.nextName o

/-- A section after which there is a new container process has made a child. -/
def adopt (p : ExitPath) (a : Action) (s : Shim) : Option ExitPath :=
  if s.task.world.nextProc = p.shim.task.world.nextProc then some { p with shim := s }
  else
    match a with
    | .call _ _ ans => (p.spawner.step .asynchronous (.reaper (.fork ans.pid))).map fun spawner =>
      { p with
        shim := s
        spawner := spawner
        owner := p.assign (.container p.shim.task.world.nextProc) }
    | _ => none

/-- Any other child is a helper. -/
def help (p : ExitPath) (spawner : Spawner) : ExitPath :=
  if spawner.reaper.nextName = p.reaper.nextName then { p with spawner := spawner }
  else { p with
    spawner := spawner
    owner := p.assign (.helper p.helpers)
    helpers := p.helpers + 1 }

def step (p : ExitPath) : ExitPathAction → Option ExitPath
  | .act (.exit _ _) => none
  | .act a => (p.shim.step a).bind (p.adopt a)
  | .spawner a => (p.spawner.step .asynchronous a).map p.help
  | .deliver an => p.received[p.taken]?.bind fun e =>
    (p.shim.step (.exit e an)).map fun s => { p with shim := s, taken := p.taken + 1 }

end ExitPath

def exitPath : System ExitPath ExitPathAction where
  init := {}
  step := ExitPath.step

namespace ExitPath

variable {p p' : ExitPath} {a : ExitPathAction}

/-- No child is killed by a signal that `Signal` does not have. -/
def Known (_ : ExitPath) : ExitPathAction → Prop
  | .spawner (.reaper (.terminate _ t)) => t.Known
  | _ => True

/-- The steps of the whole. -/
inductive Step (p : ExitPath) : ExitPathAction → ExitPath → Prop
  | acted {a : Action} {s : Shim} (hne : ∀ ev an, a ≠ .exit ev an)
    (hstep : p.shim.step a = some s) (hnext : s.table.nextProc = p.shim.table.nextProc) :
    Step p (.act a) { p with shim := s }
  | adopted {rid : Nat} {req : Request} {ans : Answers} {s : Shim} {r : Reaper}
    (hstep : p.shim.step (.call rid req ans) = some s)
    (hnext : s.table.nextProc ≠ p.shim.table.nextProc)
    (hfork : Reaper.Step .asynchronous p.reaper (.fork ans.pid) r) :
    Step p (.act (.call rid req ans)) { p with
      shim := s
      spawner := { p.spawner with reaper := r }
      owner := p.assign (.container p.shim.table.nextProc) }
  | helped {a : SpawnerAction} {spawner : Spawner}
    (hstep : Spawner.Step .asynchronous p.spawner a spawner) : Step p (.spawner a) (p.help spawner)
  | delivered {an : PumpAnswers} {e : ExitEvent} {s : Shim} (he : p.received[p.taken]? = some e)
    (hstep : p.shim.step (.exit e an) = some s) :
    Step p (.deliver an) { p with shim := s, taken := p.taken + 1 }

instance (p : ExitPath) (a : ExitPathAction) : Decidable (Known p a) := by
  unfold Known
  split <;> infer_instance

/-- What the reaper, its monitor and the commands keep for the pump. -/
structure Kept (p : ExitPath) : Prop where
  sound : p.reaper.Sound
  awake : p.reaper.Awake
  known : ∀ z ∈ p.reaper.terminated, z.2.Known
  spared : p.spawner.Spares pumpSubscription.1.id
  subscribed : p.reaper.bus.Subscribed pumpSubscription.1
  received : p.received = p.reaper.notified.map Reaper.exitEvent
  taken : p.taken ≤ p.reaper.notified.length

theorem step_act {a : Action} (hne : ∀ ev an, a ≠ .exit ev an)
    (h : (p.shim.step a).bind (p.adopt a) = some p') : Step p (.act a) p' := by
  obtain ⟨s, hs, hadopt⟩ := Option.bind_eq_some_iff.mp h
  unfold adopt at hadopt
  split at hadopt
  · next hnext =>
    obtain rfl := Option.some.inj hadopt
    exact .acted hne hs hnext
  · next hnext =>
    split at hadopt
    · next rid req ans =>
      obtain ⟨spawner, hspawner, rfl⟩ := Option.map_eq_some_iff.mp hadopt
      obtain ⟨r, hr, rfl⟩ := Option.map_eq_some_iff.mp hspawner
      exact .adopted hs hnext (Reaper.step_cases hr)
    · cases hadopt

theorem step_cases (h : p.step a = some p') : Step p a p' := by
  cases a with
  | act a =>
    cases a with
    | exit ev an => cases h
    | call rid req ans => exact step_act (fun _ _ h => by cases h) h
    | next rid => exact step_act (fun _ _ h => by cases h) h
    | publish => exact step_act (fun _ _ h => by cases h) h
  | spawner a =>
    obtain ⟨spawner, hspawner, rfl⟩ := Option.map_eq_some_iff.mp h
    exact .helped (Spawner.step_cases hspawner)
  | deliver an =>
    obtain ⟨e, he, h⟩ := Option.bind_eq_some_iff.mp h
    obtain ⟨s, hs, rfl⟩ := Option.map_eq_some_iff.mp h
    exact .delivered he hs

theorem kept_init : ({} : ExitPath).Kept := by
  have hstep : Reaper.Step .asynchronous {} (.subscribe .pid) { bus := pumpSubscription.2 } :=
    .subscribed (Option.some_get _).symm
  exact ⟨Reaper.sound_init.step hstep, fun _ _ => rfl, fun _ h => (by cases h),
    fun _ _ _ h => (by cases h), rfl, rfl, Nat.le_refl 0⟩

/-- A step of the reaper that the pump's subscription survives. -/
theorem Kept.reaper (h : p.Kept) {b : ReaperAction} (spawner : Spawner)
    (hstep : Reaper.Step .asynchronous p.reaper b spawner.reaper)
    (hne : b ≠ .unsubscribe pumpSubscription.1.id)
    (hknown : ∀ c t, b = .terminate c t → t.Known)
    (hspared : spawner.Spares pumpSubscription.1.id) (hspawner : p'.spawner = spawner)
    (htaken : p'.taken = p.taken) : p'.Kept := by
  subst hspawner
  have hreceived := Reaper.received_step h.sound.valid h.subscribed h.received hstep
  refine ⟨h.sound.step hstep, h.awake.step hstep, hstep.known h.known hknown, hspared, ?_,
    hreceived, ?_⟩
  · exact Reaper.subscribed_step h.sound.valid h.subscribed hne hstep
  · rw [htaken]
    exact h.taken.trans hstep.length_notified

theorem Kept.step (h : p.Kept) (ha : Known p a) (hs : Step p a p') : p'.Kept := by
  cases hs with
  | acted hne hstep hnext => exact ⟨h.1, h.2, h.3, h.4, h.5, h.6, h.7⟩
  | @adopted rid req ans s r hstep hnext hfork =>
    exact h.reaper { p.spawner with reaper := r } hfork (fun h => by cases h)
      (fun _ _ h => by cases h) h.spared rfl rfl
  | @helped a spawner hstep =>
    have hlt := h.sound.valid.fresh.id_lt _ _ h.subscribed
    have hspared := hstep.spares h.spared hlt
    have hspawner : (p.help spawner).spawner = spawner := by
      unfold help
      split <;> rfl
    have htaken : (p.help spawner).taken = p.taken := by
      unfold help
      split <;> rfl
    obtain hsame | ⟨b, hb, hne, hterminate⟩ := hstep.reaper_spares h.spared
    · refine ⟨?_, ?_, ?_, ?_, ?_, ?_, ?_⟩
      · rw [ExitPath.reaper, hspawner, hsame]; exact h.sound
      · rw [ExitPath.reaper, hspawner, hsame]; exact h.awake
      · rw [ExitPath.reaper, hspawner, hsame]; exact h.known
      · rw [hspawner]; exact hspared
      · rw [ExitPath.reaper, hspawner, hsame]; exact h.subscribed
      · rw [ExitPath.received, ExitPath.reaper, hspawner, hsame]; exact h.received
      · rw [ExitPath.reaper, hspawner, hsame, htaken]; exact h.taken
    · refine h.reaper spawner hb hne (fun c t hb => ?_) hspared hspawner htaken
      obtain rfl := hterminate c t hb
      exact ha
  | @delivered an e s he hstep =>
    refine ⟨h.1, h.2, h.3, h.4, h.5, h.6, ?_⟩
    have hlt := (List.getElem?_eq_some_iff.mp he).1
    rw [h.received, List.length_map] at hlt
    exact hlt

theorem kept {ok : ExitPath → ExitPathAction → Prop} (hok : ∀ p a, ok p a → Known p a)
    (h : exitPath.Reachable ok p) : p.Kept :=
  h.invariant (P := Kept) kept_init fun _ _ _ _ ih ha hs => ih.step (hok _ _ ha) (step_cases hs)

/-! ## What the host sees -/

/-- A child as `host` names it. -/
def child (p : ExitPath) (c : Process) : Child := { owner := p.owner c.name, pid := c.pid }

def event (p : ExitPath) (z : Process × Int32) : Reaped := { child := p.child z.1, code := z.2 }

/-- What `host` has in place of the reaper, the monitor and the commands. -/
def os (p : ExitPath) : Os where
  shim := p.shim
  unreaped := p.reaper.unreaped.map p.child
  events := (p.reaper.waitedFor.drop p.taken).map p.event
  helpers := p.helpers

end ExitPath

/-- The same but for the order of the children that are still to be reaped. -/
structure Os.Same (os os' : Os) : Prop where
  shim : os.shim = os'.shim
  unreaped : os.unreaped.Perm os'.unreaped
  events : os.events = os'.events
  helpers : os.helpers = os'.helpers

/-- The steps of `host` that answer an action. -/
inductive Mirrors : ExitPathAction → OsAction → Prop
  | act (a : Action) : Mirrors (.act a) (.act a)
  | fork (a : SpawnerAction) (pid : Int32) : Mirrors (.spawner a) (.fork pid)
  | reap (a : SpawnerAction) (c : Child) (code : Int32) : Mirrors (.spawner a) (.reap c code)
  | deliver (an : PumpAnswers) : Mirrors (.deliver an) (.deliver an)

namespace ExitPath

variable {p p' u : ExitPath} {a : ExitPathAction} {os : Os} {b : ReaperAction} {o : Owner}

/-- The new child has its owner, and the others keep theirs. -/
theorem os_forked {pid : Int32} (h : p.Kept)
    (hunreaped : u.reaper.unreaped = { name := p.reaper.nextName, pid } :: p.reaper.unreaped)
    (hwaited : u.reaper.waitedFor = p.reaper.waitedFor) (howner : u.owner = p.assign o)
    (htaken : u.taken = p.taken) :
    u.os.unreaped = { owner := o, pid } :: p.os.unreaped ∧ u.os.events = p.os.events := by
  obtain ⟨hname, hname'⟩ := h.sound.name_lt
  have hchild {c : Process} (hc : c.name < p.reaper.nextName) : u.child c = p.child c := by
    rw [child, child, howner, assign, Function.update_of_ne hc.ne]
  constructor
  · have hnew : u.child { name := p.reaper.nextName, pid } = { owner := o, pid } := by
      rw [child, howner, assign, Function.update_self]
    rw [ExitPath.os, hunreaped, List.map_cons, hnew]
    exact congrArg _ (List.map_congr_left fun c hc => hchild (hname c hc))
  · rw [ExitPath.os, hwaited, htaken]
    refine List.map_congr_left fun z hz => ?_
    rw [event, hchild (hname' z (List.mem_of_mem_drop hz))]
    rfl

theorem child_eq (howner : u.owner = p.owner) : u.child = p.child ∧ u.event = p.event := by
  have hchild : u.child = p.child := by
    funext c
    rw [child, howner]
    rfl
  refine ⟨hchild, ?_⟩
  funext z
  rw [event, hchild]
  rfl

theorem taken_le (h : p.Kept) : p.taken ≤ p.reaper.waitedFor.length :=
  h.taken.trans (List.prefix_append _ _).length_le

/-- A child that is waited for leaves the one list for the other. -/
theorem os_reaped {c : Process} {code : Int32} (h : p.Kept)
    (hunreaped : p.reaper.unreaped.Perm (c :: u.reaper.unreaped))
    (hwaited : u.reaper.waitedFor = p.reaper.waitedFor ++ [(c, code)])
    (howner : u.owner = p.owner) (htaken : u.taken = p.taken) :
    p.os.unreaped.Perm (p.child c :: u.os.unreaped) ∧
      u.os.events = p.os.events ++ [p.event (c, code)] := by
  obtain ⟨hchild, hevent⟩ := child_eq howner
  constructor
  · rw [ExitPath.os, ExitPath.os, hchild]
    exact hunreaped.map p.child
  · rw [ExitPath.os, hwaited, htaken, List.drop_append_of_le_length (taken_le h), List.map_append,
      hevent]
    rfl

theorem os_still (hunreaped : u.reaper.unreaped.Perm p.reaper.unreaped)
    (hwaited : u.reaper.waitedFor = p.reaper.waitedFor) (howner : u.owner = p.owner)
    (htaken : u.taken = p.taken) :
    u.os.unreaped.Perm p.os.unreaped ∧ u.os.events = p.os.events := by
  obtain ⟨hchild, hevent⟩ := child_eq howner
  constructor
  · rw [ExitPath.os, ExitPath.os, hchild]
    exact hunreaped.map p.child
  · rw [ExitPath.os, hwaited, htaken, hevent]
    rfl

theorem step_act_of_ne {a : Action} (hne : ∀ ev an, a ≠ .exit ev an) :
    host.step os (.act a) = (os.shim.step a).bind (os.adopt a) := by
  cases a with
  | exit ev an => exact absurd rfl (hne ev an)
  | _ => rfl

theorem free_of_same {pid : Int32} (hsame : os.Same p.os) (hfree : p.reaper.Free pid) :
    os.Free pid := by
  intro c hc
  obtain ⟨q, hq, rfl⟩ := List.mem_map.mp (hsame.unreaped.mem_iff.mp hc)
  obtain hq | hq := List.mem_append.mp hq
  · exact hfree.1 q hq
  · obtain ⟨z, hz, rfl⟩ := List.mem_map.mp hq
    exact hfree.2 z hz

theorem helped_still {spawner : Spawner} (hname : spawner.reaper.nextName = p.reaper.nextName) :
    p.help spawner = { p with spawner } := if_pos hname

/-- The children of a step of the reaper, in the eyes of the host. -/
theorem simulated_reaper {spawner : Spawner} {ok' : Os → OsAction → Prop}
    (hfork : ∀ pid, ok' os (.fork pid)) (hreap : ∀ c code, ok' os (.reap c code)) (h : p.Kept)
    (hsame : os.Same p.os) (hmoves : Reaper.Moves p.reaper spawner.reaper b) :
    ∃ os', host.Run ok' os os' ∧ os'.Same (p.help spawner).os := by
  cases hmoves with
  | @forked pid hfree hunreaped hwaited hname =>
    have hhelp : p.help spawner = { p with
        spawner := spawner
        owner := p.assign (.helper p.helpers)
        helpers := p.helpers + 1 } :=
      if_neg (hname.trans_ne (Nat.succ_ne_self _))
    have hstep : host.step os (.fork pid) = some { os with
        unreaped := { owner := .helper os.helpers, pid := pid } :: os.unreaped
        helpers := os.helpers + 1 } := if_pos (free_of_same hsame hfree)
    rw [hhelp]
    obtain ⟨hun, hev⟩ := os_forked (u := { p with
      spawner := spawner
      owner := p.assign (.helper p.helpers)
      helpers := p.helpers + 1 }) h hunreaped hwaited rfl rfl
    refine ⟨_, .single (hfork pid) hstep, hsame.shim, ?_, hsame.events.trans hev.symm,
      congrArg (· + 1) hsame.helpers⟩
    rw [hun, hsame.helpers]
    exact hsame.unreaped.cons _
  | reaped c code hunreaped hwaited hname =>
    rw [helped_still hname]
    obtain ⟨hun, hev⟩ := os_reaped (u := { p with spawner }) h hunreaped hwaited rfl rfl
    have hmem : p.child c ∈ os.unreaped :=
      hsame.unreaped.mem_iff.mpr (hun.mem_iff.mpr (List.mem_cons_self ..))
    have hstep : host.step os (.reap (p.child c) code) = some { os with
        unreaped := os.unreaped.erase (p.child c)
        events := os.events ++ [{ child := p.child c, code := code }] } := if_pos hmem
    refine ⟨_, .single (hreap _ _) hstep, hsame.shim, ?_, ?_, hsame.helpers⟩
    · have hperm := (List.perm_cons_erase hmem).symm.trans (hsame.unreaped.trans hun)
      exact (List.perm_cons _).mp hperm
    · rw [hev, ← hsame.events]
      rfl
  | still hunreaped hwaited hname =>
    rw [helped_still hname]
    obtain ⟨hun, hev⟩ := os_still (p := p) (u := { p with spawner }) hunreaped hwaited rfl rfl
    exact ⟨os, .refl os, hsame.shim, hsame.unreaped.trans hun.symm, hsame.events.trans hev.symm,
      hsame.helpers⟩

/-- The event that the pump takes is the one of the next child that was waited for. -/
theorem received_next (h : p.Kept) {e : ExitEvent} (he : p.received[p.taken]? = some e) :
    ∃ z, p.reaper.notified[p.taken]? = some z ∧ e = Reaper.exitEvent z ∧
      p.os.events = p.event z :: (p.reaper.waitedFor.drop (p.taken + 1)).map p.event := by
  rw [h.received, List.getElem?_map] at he
  obtain ⟨z, hz, rfl⟩ := Option.map_eq_some_iff.mp he
  obtain ⟨hlt, hget⟩ := List.getElem?_eq_some_iff.mp hz
  have hwaited : p.reaper.waitedFor[p.taken]? = some z := by
    rw [Reaper.waitedFor, List.getElem?_append_left hlt, hz]
  obtain ⟨hlt', hget'⟩ := List.getElem?_eq_some_iff.mp hwaited
  refine ⟨z, hz, rfl, ?_⟩
  rw [ExitPath.os, List.drop_eq_getElem_cons hlt', hget']
  rfl

theorem simulated {ok' : Os → OsAction → Prop} (h : p.Kept) (hs : Step p a p')
    (hok : ∀ b, Mirrors a b → ok' os b) (hsame : os.Same p.os) :
    ∃ os', host.Run ok' os os' ∧ os'.Same p'.os := by
  cases hs with
  | @acted a s hne hstep hnext =>
    have hos : host.step os (.act a) = some { os with shim := s } := by
      have hadopt : os.adopt a s = some { os with shim := s } :=
        if_pos (hnext.trans (congrArg (·.table.nextProc) hsame.shim.symm))
      rw [step_act_of_ne hne, hsame.shim, ExitPath.os, hstep, Option.bind_some, hadopt]
    exact ⟨_, .single (hok _ (.act a)) hos, rfl, hsame.unreaped, hsame.events, hsame.helpers⟩
  | @adopted rid req ans s r hstep hnext hfork =>
    have hunreaped : r.unreaped =
        { name := p.reaper.nextName, pid := ans.pid } :: p.reaper.unreaped := by
      cases hfork
      rfl
    have hwaited : r.waitedFor = p.reaper.waitedFor := by
      cases hfork
      rfl
    obtain ⟨hun, hev⟩ := os_forked (u := { p with
      shim := s
      spawner := { p.spawner with reaper := r }
      owner := p.assign (.container p.shim.table.nextProc) }) h hunreaped hwaited rfl rfl
    have hfree : os.Free ans.pid := by
      cases hfork with
      | forked hfree => exact free_of_same hsame hfree
    have hos : host.step os (.act (.call rid req ans)) = some { os with
        shim := s
        unreaped := { owner := .container p.shim.table.nextProc, pid := ans.pid } ::
          os.unreaped } := by
      have hne : s.task.world.nextProc ≠ os.shim.task.world.nextProc := by
        rw [hsame.shim]
        exact hnext
      have hcall : os.shim.step (.call rid req ans) = some s := by
        rw [hsame.shim]
        exact hstep
      rw [step_act_of_ne (fun _ _ h => by cases h), hcall, Option.bind_some, Os.adopt, if_neg hne,
        if_pos hfree, hsame.shim]
      rfl
    refine ⟨_, .single (hok _ (.act _)) hos, rfl, ?_, hsame.events.trans hev.symm, hsame.helpers⟩
    rw [hun]
    exact hsame.unreaped.cons _
  | @helped a spawner hstep =>
    obtain hsame' | ⟨b, hb, -⟩ := hstep.reaper_spares h.spared
    · rw [helped_still (congrArg _ hsame')]
      refine ⟨os, .refl os, hsame.shim, ?_, ?_, hsame.helpers⟩
      · rw [ExitPath.os, ExitPath.reaper, hsame']
        exact hsame.unreaped
      · rw [ExitPath.os, ExitPath.reaper, hsame']
        exact hsame.events
    · exact simulated_reaper (fun pid => hok _ (.fork a pid))
        (fun c code => hok _ (.reap a c code)) h
        hsame (hb.moves fun z hz => h.known z (h.sound.accounted.zombies z hz))
  | @delivered an e s he hstep =>
    obtain ⟨z, -, rfl, hevents⟩ := received_next h he
    have hos : host.step os (.deliver an) = some { os with
        shim := s
        events := (p.reaper.waitedFor.drop (p.taken + 1)).map p.event } := by
      have hexit : os.shim.step (.exit {
          subject := .pid (p.event z).child.pid
          exitCode := (p.event z).code } an) = some s := by
        rw [hsame.shim]
        exact hstep
      change Os.step os (.deliver an) = _
      rw [Os.step, hsame.events, hevents]
      dsimp only
      rw [hexit, Option.map_some]
    exact ⟨_, .single (hok _ (.deliver an)) hos, rfl, hsame.unreaped, rfl, hsame.helpers⟩

theorem refines {ok : ExitPath → ExitPathAction → Prop} {ok' : Os → OsAction → Prop}
    (hknown : ∀ p a, ok p a → Known p a)
    (hok : ∀ p a os b, ok p a → os.Same p.os → Mirrors a b → ok' os b)
    (h : exitPath.Reachable ok p) : ∃ os, host.Reachable ok' os ∧ os.Same p.os := by
  refine h.simulated (N := host) (R := fun p os => os.Same p.os) ⟨rfl, .refl _, rfl, rfl⟩ ?_
  intro p a p' os hr _ hsame ha hstep
  exact simulated (kept hknown hr) (step_cases hstep) (fun b => hok p a os b ha hsame) hsame

/-- The monitor with its subscriptions, the loop that reaps and the commands show the pump what
`host` does: each child's exit once and in the order in which they were reaped, and no other. -/
theorem exit_path_refines (h : exitPath.Reachable Known p) :
    ∃ os, host.Reachable System.Any os ∧ os.Same p.os :=
  refines (fun _ _ => id) (fun _ _ _ _ _ _ _ => trivial) h

def sigterm : SignalNumber := ⟨15, by decide⟩

/-- The container's process and a command, which end before either is reaped. -/
def endedRun : List ExitPathAction :=
  let init : Process := { name := 0, pid := 1 }
  let runc : Process := { name := 1, pid := 2 }
  Shim.startRun.map .act ++ [.spawner (.execute 0), .spawner (.spawn 0 2),
    .spawner (.reaper (.terminate runc (.exited 0))),
    .spawner (.reaper (.terminate init (.signaled sigterm)))]

/-- The command gets its status before the init process is notified. -/
def reapRun : List ExitPathAction :=
  let init : Process := { name := 0, pid := 1 }
  let runc : Process := { name := 1, pid := 2 }
  [.spawner (.reaper .signal), .spawner (.reaper (.waitpid (some (runc, .exited 0)))),
    .spawner (.reaper .notify),
    .spawner (.reaper (.waitpid (some (init, .signaled sigterm)))),
    .spawner (.recv 0), .spawner (.finish 0)]

def reapedBoth : ExitPath := exitPath.after Known {} (endedRun ++ reapRun)

theorem exit_path_refines_both : ∃ os, host.Reachable System.Any os ∧ os.Same reapedBoth.os ∧
    os.events.map (·.code) = [0, 143] := by
  have hreach : exitPath.Reachable Known reapedBoth := System.run_after (by decide +kernel)
  obtain ⟨os, hos, hsame⟩ := exit_path_refines hreach
  refine ⟨os, hos, hsame, ?_⟩
  rw [hsame.events]
  decide +kernel

end ExitPath

end RustExtensions.RuncShim
