import RustExtensions.RuncShim.Os

/-!
# Whom Kill hits

Kill of an exec hands a kill(2) on the exec's pid to the blocking pool, unless
the exit of the exec is recorded. The pump records it some time after the process
was reaped, and between the two the pid is free for another process of the host.
-/
namespace RustExtensions.RuncShim

open RustExtensions.Shim
open RustExtensions.Fallible
open RustExtensions.Transition

/-- A process of the host that is no child of the shim. -/
structure Foreign where
  name : Nat
  pid : Int32
  deriving DecidableEq

/-- Who has a pid. -/
inductive Occupant where
  | child (owner : Owner)
  | foreign (name : Nat)
  deriving DecidableEq

/-- A kill(2) on the blocking pool, where `proc` names the process that the Start of the
exec has made. The handler awaits it with the lock in its hands, unless it gives up. -/
structure Kill where
  pid : Int32
  signal : UInt32
  proc : Option Nat
  awaited : Bool
  deriving DecidableEq

/-- A kill(2) that was issued, with the one who had the pid. -/
structure Signalled where
  kill : Kill
  occupant : Option Occupant
  deriving DecidableEq

structure Machine where
  os : Os := {}
  foreign : List Foreign := []
  names : Nat := 0
  kills : List Kill := []
  signalled : List Signalled := []

inductive MachineAction where
  | os (a : OsAction)
  | spawn (pid : Int32)
  | exit (f : Foreign)
  | issue (k : Kill)

namespace Machine

variable {m m' : Machine}

/-- The kill(2)s that a request has handed to the blocking pool. -/
def handedOver (os os' : Os) : OsAction → List Kill
  | .act (.call _ (.kill id execId _ _) ans) =>
    (os'.shim.task.world.calls.drop os.shim.task.world.calls.length).filterMap fun
      | .signal pid signal => some {
        pid := pid
        signal := signal
        proc := (os.shim.task.entry (id, execIdOpt execId)).bind (·.proc)
        awaited := match ans.kill with
          | .timedOut => false
          | _ => true }
      | _ => none
  | _ => []

/-- The actions that take the `containers` lock. -/
def takesLock (os : Os) : OsAction → Bool
  | .act (.call _ _ _) => true
  | .act (.next rid) =>
    match os.shim.inflight.lookup rid with
    | some (.unregister _) | some (.wait _ _ _) => true
    | _ => false
  | .deliver _ => true
  | _ => false

def occupant (m : Machine) (pid : Int32) : Option Occupant :=
  match m.os.unreaped.find? fun c => c.pid = pid with
  | some c => some (.child c.owner)
  | none => (m.foreign.find? fun f => f.pid = pid).map fun f => .foreign f.name

def step (m : Machine) : MachineAction → Option Machine
  | .os a =>
    if takesLock m.os a ∧ ∃ k ∈ m.kills, k.awaited then none
    else (m.os.step a).bind fun os =>
      -- a new child gets no pid that a foreign process has
      if ∀ c ∈ os.unreaped, c ∉ m.os.unreaped → ∀ f ∈ m.foreign, f.pid ≠ c.pid then
        some { m with os, kills := m.kills ++ handedOver m.os os a }
      else none
  | .spawn pid =>
    if m.os.Free pid ∧ ∀ f ∈ m.foreign, f.pid ≠ pid then some { m with
      foreign := { name := m.names, pid } :: m.foreign
      names := m.names + 1 }
    else none
  | .exit f => if f ∈ m.foreign then some { m with foreign := m.foreign.erase f } else none
  | .issue k =>
    if k ∈ m.kills then some { m with
      kills := m.kills.erase k
      signalled := m.signalled ++ [{ kill := k, occupant := m.occupant k.pid }] }
    else none

end Machine

def machine : System Machine MachineAction where
  init := {}
  step := Machine.step

namespace Machine

variable {m m' : Machine}

/-- The guard of the exec's kill lets a signal through. -/
def Signallable (x : Ref) (r : Record) : Prop := x.2.isSome ∧ 0 < r.pid ∧ r.exitedAt = none

instance (x : Ref) (r : Record) : Decidable (Signallable x r) :=
  inferInstanceAs (Decidable (_ ∧ _ ∧ _))

/-- No kill(2) is on its way to the pid, and none would be let through. -/
def Unwatched (m : Machine) (pid : Int32) : Prop :=
  (∀ k ∈ m.kills, k.pid ≠ pid) ∧
    ∀ x r, m.os.shim.task.entry x = some r → Signallable x r → r.pid ≠ pid

instance (m : Machine) (pid : Int32) : Decidable (m.Unwatched pid) :=
  inferInstanceAs (Decidable (_ ∧ _))

/-- A new process gets no pid that a Kill may still be aimed at. -/
def NoReuse (m : Machine) : MachineAction → Prop
  | .os a => ∀ os ∈ m.os.step a, ∀ c ∈ os.unreaped, c ∉ m.os.unreaped → m.Unwatched c.pid
  | .spawn pid => m.Unwatched pid
  | _ => True

instance (m : Machine) : ∀ a, Decidable (NoReuse m a)
  | .os a => inferInstanceAs
    (Decidable (∀ os ∈ m.os.step a, ∀ c ∈ os.unreaped, c ∉ m.os.unreaped → m.Unwatched c.pid))
  | .spawn pid => inferInstanceAs (Decidable (m.Unwatched pid))
  | .exit _ | .issue _ => .isTrue trivial

/-! ## What the guard lets through -/

end Machine

/-- The signal that the exec's kill hands over, if its guard lets one through. -/
inductive Guarded (p : ExecProcess) (signal : UInt32) (w : World) : World → Prop
  | refused : Guarded p signal w w
  | passed (hpid : 0 < p.pid) (hexit : p.exitedAt = none) :
    Guarded p signal w (w.call (.signal p.pid signal))

theorem kill_guarded (ans : Answers) (signal : UInt32) (all : Bool) (p : ExecProcess) (w : World) :
    Guarded p signal w (left (RuncExecLifecycle.kill ans signal all (p, w))).2 := by
  unfold RuncExecLifecycle.kill
  rw [getProcess_bind]
  dsimp only
  split
  · exact .refused
  · next hpid =>
    split
    · exact .refused
    · next hexit =>
      split
      · exact .refused
      · have hcall : Guarded p signal w (w.call (.signal p.pid signal)) :=
          .passed (Int32.not_le.mp hpid) (Option.not_isSome_iff_eq_none.mp hexit)
        cases hkill : ans.kill with
        | done => exact hcall
        | errno err => exact hcall
        | timedOut =>
          change Guarded p signal w (left ((if signal = 9 ∨ signal = 15 then return
            else throw (.deadlineExceeded "kill operation timed out") : Method ExecProcess Unit)
              (p, w.call (.signal p.pid signal)))).2
          split <;> exact hcall

/-- The runtime kills an init process. -/
theorem kill_init_calls (ans : Answers) (signal : UInt32) (all : Bool) (p : InitProcess)
    (w : World) : (left (RuncInitLifecycle.kill ans signal all (p, w))).2 =
      w.call (.kill p.id signal all) := by
  unfold RuncInitLifecycle.kill runtimeCall
  rw [getProcess_bind]
  cases hrt : ans.runtime with
  | none => rfl
  | some e => rfl

/-- What a Kill of the entry `x`, if there is one, adds to the calls: a kill(2) only where the
guard of an exec lets it through. -/
inductive KillCalls (x : Ref) : Option Record → List Call → Prop
  | refused {o : Option Record} : KillCalls x o []
  | runtime {o : Option Record} (id : String) (signal : UInt32) (all : Bool) :
    KillCalls x o [.kill id signal all]
  | signalled {r : Record} (signal : UInt32) (hguard : Machine.Signallable x r) :
    KillCalls x (some r) [.signal r.pid signal]

theorem Guarded.calls {p : ExecProcess} {signal : UInt32} {w w' : World} {id e : String}
    (h : Guarded p signal w w') : ∃ calls, KillCalls (id, some e) (some p.toRecord) calls ∧
      w'.calls = w.calls ++ calls := by
  cases h with
  | refused => exact ⟨[], .refused, (List.append_nil _).symm⟩
  | passed hpid hexit => exact ⟨_, .signalled signal ⟨rfl, hpid, hexit⟩, rfl⟩

theorem container_kill_calls (ans : Answers) (id : String) (execId : Option String)
    (signal : UInt32) (all : Bool) (c : Container) (w : World) :
    ∃ calls, KillCalls (id, execId) (c.record execId) calls ∧
      (left (Container.kill ans execId signal all (c, w))).2.calls = w.calls ++ calls := by
  cases execId with
  | none =>
    refine ⟨_, .runtime c.init.id signal all, ?_⟩
    have hdispatch : Container.kill ans none signal all (c, w) =
      Container.onInit (RuncInitLifecycle.kill ans signal all) (c, w) := rfl
    rw [hdispatch, Container.onInit, left_zoom]
    exact congrArg World.calls (kill_init_calls ans signal all c.init w)
  | some e =>
    have hdispatch : Container.kill ans (some e) signal all (c, w) =
      Container.onExec e (.notFoundError s!"can not find the exec by id {e}")
        (RuncExecLifecycle.kill ans signal all) (c, w) := rfl
    rw [hdispatch, Container.onExec]
    cases hp : c.processes.lookup e with
    | none => exact ⟨[], .refused, (List.append_nil _).symm⟩
    | some p =>
      dsimp only
      rw [left_zoom, Container.record, hp]
      exact (kill_guarded ans signal all p w).calls

theorem kill_calls (t : TaskService) (ans : Answers) (id execId : String) (signal : UInt32)
    (all : Bool) : ∃ calls, KillCalls (id, execIdOpt execId) (t.entry (id, execIdOpt execId)) calls ∧
      (left (TaskService.kill ans id execId signal all t)).world.calls = t.world.calls ++ calls := by
  unfold TaskService.kill TaskService.onContainer TaskService.entry
  cases hc : t.containers.lookup id with
  | none => exact ⟨[], .refused, (List.append_nil _).symm⟩
  | some c =>
    dsimp only
    rw [left_zoom, left_bind_pure, TaskService.raise, left_mapError]
    exact container_kill_calls ans id (execIdOpt execId) signal all c t.world

theorem task_of_call {s s' : Shim} {rid : Nat} {req : Request} {ans : Answers}
    (h : s.step (.call rid req ans) = some s') :
    s'.task = left (TaskService.handle ans req s.task) := by
  obtain ⟨-, rfl⟩ := (Option.ite_none_right_eq_some.mp h).imp_right Option.some.inj
  generalize TaskService.handle ans req s.task = r
  cases r with
  | ok n t => cases n <;> rfl
  | error e t => rfl

theorem shim_of_act {os os' : Os} {a : Action}
    (h : os.step (.act a) = some os') : os.shim.step a = some os'.shim := by
  cases Os.step_cases h with
  | acted _ hs _ => exact hs
  | spawned _ hs _ => exact hs

namespace Machine

variable {m m' : Machine}

/-- A kill(2) is handed over for an exec whose guard let it through. -/
theorem handedOver_guarded {os os' : Os} {a : OsAction} {k : Kill} (hstep : os.step a = some os')
    (hk : k ∈ handedOver os os' a) : ∃ x r, os.shim.task.entry x = some r ∧ Signallable x r ∧
      k.pid = r.pid ∧ k.proc = r.proc := by
  unfold handedOver at hk
  split at hk
  · next rid id execId signal all ans =>
    have hs := shim_of_act hstep
    obtain ⟨calls, hcalls, hleft⟩ := kill_calls os.shim.task ans id execId signal all
    rw [task_of_call hs, TaskService.handle, hleft, List.drop_left] at hk
    obtain ⟨c, hc, hck⟩ := List.mem_filterMap.mp hk
    generalize hentry : os.shim.task.entry (id, execIdOpt execId) = o at hcalls hck
    cases hcalls with
    | refused => cases hc
    | runtime =>
      obtain rfl := List.mem_singleton.mp hc
      cases hck
    | signalled signal hguard =>
      obtain rfl := List.mem_singleton.mp hc
      obtain rfl := Option.some.inj hck
      exact ⟨_, _, hentry, hguard, rfl, rfl⟩
  · cases hk

/-! ## Who has a pid -/

/-- The occupants of a pid; there is never more than one. -/
def Occupies (m : Machine) (pid : Int32) : Occupant → Prop
  | .child owner => { owner, pid } ∈ m.os.unreaped
  | .foreign name => { name, pid } ∈ m.foreign

/-- The process that the Start of the exec has made. -/
def IsProc (proc : Option Nat) (o : Occupant) : Prop :=
  ∃ q, proc = some q ∧ o = .child (.container q)

theorem occupies_of_occupant {pid : Int32} {o : Occupant} (h : m.occupant pid = some o) :
    m.Occupies pid o := by
  unfold occupant at h
  split at h
  · next c hc =>
    obtain rfl := Option.some.inj h
    have hpid : c.pid = pid := by simpa using List.find?_some hc
    subst hpid
    exact List.mem_of_find?_eq_some hc
  · obtain ⟨f, hf, rfl⟩ := Option.map_eq_some_iff.mp h
    have hpid : f.pid = pid := by simpa using List.find?_some hf
    subst hpid
    exact List.mem_of_find?_eq_some hf

/-- Whoever has the pid of an exec that may be signalled is the exec's own process. -/
def Tied (occupies : Int32 → Occupant → Prop) (T : Table) : Prop :=
  ∀ x r, T.slot x = some r → Signallable x r.toRecord → ∀ o, occupies r.pid o → IsProc r.proc o

theorem Tied.apply {occupies : Int32 → Occupant → Prop} {T : Table} {e : Effect}
    (h : Tied occupies T)
    (hnew : ∀ id execId pid, e = .spawn id execId pid → ∀ o, occupies pid o →
      o = .child (.container T.nextProc)) : Tied occupies (T.apply e) := by
  intro x r hr hsig o ho
  obtain ⟨hexec, hpid, hexit⟩ := hsig
  cases Table.origin T hr with
  | kept hs => exact h x r hs ⟨hexec, hpid, hexit⟩ o ho
  | created id bundle pid => cases hexec
  | added id execId bundle =>
    have hzero : (0 : Int32) < 0 := hpid
    exact absurd hzero (by decide)
  | started hs => cases hexec
  | spawned hs => exact ⟨T.nextProc, rfl, hnew _ _ _ rfl o ho⟩
  | paused hs => cases hexec
  | resumed hs => cases hexec
  | registered hs => exact h _ _ hs ⟨hexec, hpid, hexit⟩ o ho
  | exited hs => cases hexit

/-- A step of the shim has one effect, which spawns an exec only where the kernel made the child. -/
theorem Tied.step {occupies : Int32 → Occupant → Prop} {s s' : Shim} {a : Action}
    (h : Tied occupies s.table) (hs : Shim.Step s a s')
    (hnew : ∀ rid req ans, a = .call rid req ans → s'.table.nextProc ≠ s.table.nextProc →
      ∀ o, occupies ans.pid o → o = .child (.container s.table.nextProc)) :
    Tied occupies s'.table := by
  rcases hs.effect with ⟨⟨e, hcause, -, htable⟩, -⟩ | ⟨ev, an, x, r, -, -, -, htable, -⟩
  · rw [htable]
    apply h.apply
    intro id execId pid he
    subst he
    cases hcause with
    | @spawn rid _ _ ans hid =>
      apply hnew rid _ ans rfl
      rw [htable]
      exact Nat.succ_ne_self _
  · rw [htable]
    exact h.apply fun _ _ _ he => (nomatch he)

/-! ## Every signal -/

/-- Whoever has a pid that a Kill is or may be aimed at is the exec's own process. -/
structure Aimed (m : Machine) : Prop where
  entries : Tied m.Occupies m.os.shim.table
  kills : ∀ k ∈ m.kills, ∀ o, m.Occupies k.pid o → IsProc k.proc o
  signalled : ∀ s ∈ m.signalled, ∀ o ∈ s.occupant, IsProc s.kill.proc o

/-- New occupants of unwatched pids. -/
def Grows (m m' : Machine) : Prop :=
  ∀ pid o, m'.Occupies pid o → m.Occupies pid o ∨ m.Unwatched pid

theorem Aimed.tied_of_grows (h : m.Aimed) (hg : Grows m m') :
    Tied m'.Occupies m.os.shim.table := by
  intro x r hr hsig o ho
  rcases hg r.pid o ho with ho | hfree
  · exact h.entries x r hr hsig o ho
  · exact absurd rfl (hfree.2 x _ (TaskService.entry_of_slot hr) hsig)

theorem Aimed.kills_of_grows (h : m.Aimed) (hg : Grows m m') {k : Kill} (hk : k ∈ m.kills)
    {o : Occupant} (ho : m'.Occupies k.pid o) : IsProc k.proc o := by
  rcases hg k.pid o ho with ho | hfree
  · exact h.kills k hk o ho
  · exact absurd rfl (hfree.1 k hk)

theorem grows_os {a : OsAction} {os : Os} {kills : List Kill} (ha : NoReuse m (.os a))
    (hstep : m.os.step a = some os) : Grows m { m with os, kills } := by
  intro pid o ho
  cases o with
  | child owner =>
    by_cases hold : { owner, pid } ∈ m.os.unreaped
    · exact Or.inl hold
    · exact Or.inr (ha os hstep _ ho hold)
  | foreign name => exact Or.inl ho

/-- The new child of a section is alone with its pid. -/
theorem occupies_spawned {pid : Int32} {owner : Owner} {o : Occupant} (ho : m'.Occupies pid o)
    (hfree : m.os.Free pid) (hunreaped : m'.os.unreaped = { owner, pid } :: m.os.unreaped)
    (hforeign : m'.foreign = m.foreign)
    (hnew : ∀ c ∈ m'.os.unreaped, c ∉ m.os.unreaped → ∀ f ∈ m.foreign, f.pid ≠ c.pid) :
    o = .child owner := by
  cases o with
  | child owner' =>
    rw [Occupies, hunreaped] at ho
    rcases List.mem_cons.mp ho with heq | hold
    · rw [(Child.mk.inj heq).1]
    · exact absurd rfl (hfree _ hold)
  | foreign name =>
    rw [Occupies, hforeign] at ho
    have hchild : { owner, pid } ∈ m'.os.unreaped := by
      rw [hunreaped]
      exact List.mem_cons_self
    exact absurd rfl (hnew _ hchild (fun hold => hfree _ hold rfl) _ ho)

theorem Aimed.os {a : OsAction} {os : Os} {kills : List Kill} (h : m.Aimed)
    (ha : NoReuse m (.os a)) (hstep : m.os.step a = some os)
    (hnew : ∀ c ∈ os.unreaped, c ∉ m.os.unreaped → ∀ f ∈ m.foreign, f.pid ≠ c.pid) :
    Tied (Occupies { m with os, kills }) os.shim.table := by
  have hg : Grows m { m with os, kills } := grows_os ha hstep
  have htied := h.tied_of_grows hg
  cases a with
  | act a =>
    have hs := Shim.step_cases (shim_of_act hstep)
    apply htied.step hs
    intro rid req ans ha hnext o ho
    subst ha
    obtain ⟨s, -, hadopt⟩ := Option.bind_eq_some_iff.mp hstep
    rcases Os.adopt_cases hadopt with ⟨hsame, rfl⟩ | ⟨rid', req', ans', ha, -, hfree, rfl⟩
    · exact absurd hsame hnext
    · obtain ⟨rfl, rfl, rfl⟩ := Action.call.inj ha
      exact occupies_spawned ho hfree rfl rfl hnew
  | fork pid =>
    obtain ⟨-, rfl⟩ := (Option.ite_none_right_eq_some.mp hstep).imp_right Option.some.inj
    exact htied
  | reap c code =>
    obtain ⟨-, rfl⟩ := (Option.ite_none_right_eq_some.mp hstep).imp_right Option.some.inj
    exact htied
  | deliver an =>
    cases Os.step_cases hstep with
    | delivered he hs => exact htied.step (Shim.step_cases hs) fun _ _ _ ha => (nomatch ha)

theorem Aimed.step {a : MachineAction} (h : m.Aimed) (ha : NoReuse m a)
    (hs : m.step a = some m') : m'.Aimed := by
  cases a with
  | os a =>
    obtain ⟨-, hs⟩ := Option.ite_none_left_eq_some.mp hs
    obtain ⟨os, hstep, hs⟩ := Option.bind_eq_some_iff.mp hs
    obtain ⟨hnew, rfl⟩ := (Option.ite_none_right_eq_some.mp hs).imp_right Option.some.inj
    have hg : Grows m { m with os, kills := m.kills ++ handedOver m.os os a } := grows_os ha hstep
    refine ⟨h.os ha hstep hnew, fun k hk o ho => ?_, h.signalled⟩
    rcases List.mem_append.mp hk with hk | hk
    · exact h.kills_of_grows hg hk ho
    · obtain ⟨x, r, hr, hsig, hpid, hproc⟩ := handedOver_guarded hstep hk
      obtain ⟨slot, hslot, rfl⟩ := TaskService.slot_of_entry hr
      rw [hpid] at ho
      rw [hproc]
      exact h.tied_of_grows hg x slot hslot hsig o ho
  | spawn pid =>
    obtain ⟨-, rfl⟩ := (Option.ite_none_right_eq_some.mp hs).imp_right Option.some.inj
    have hg : Grows m { m with
        foreign := { name := m.names, pid } :: m.foreign
        names := m.names + 1 } := by
      intro pid' o ho
      cases o with
      | child owner => exact Or.inl ho
      | foreign name =>
        rcases List.mem_cons.mp ho with heq | hold
        · obtain ⟨-, rfl⟩ := Foreign.mk.inj heq
          exact Or.inr ha
        · exact Or.inl hold
    exact ⟨h.tied_of_grows hg, fun k hk o ho => h.kills_of_grows hg hk ho, h.signalled⟩
  | exit f =>
    obtain ⟨-, rfl⟩ := (Option.ite_none_right_eq_some.mp hs).imp_right Option.some.inj
    have hg : Grows m { m with foreign := m.foreign.erase f } := by
      intro pid o ho
      cases o with
      | child owner => exact Or.inl ho
      | foreign name => exact Or.inl (List.mem_of_mem_erase ho)
    exact ⟨h.tied_of_grows hg, fun k hk o ho => h.kills_of_grows hg hk ho, h.signalled⟩
  | issue k =>
    obtain ⟨hk, rfl⟩ := (Option.ite_none_right_eq_some.mp hs).imp_right Option.some.inj
    refine ⟨h.entries, fun k' hk' => h.kills k' (List.mem_of_mem_erase hk'), fun s hs o ho => ?_⟩
    rcases List.mem_append.mp hs with hs | hs
    · exact h.signalled s hs o ho
    · obtain rfl := List.mem_singleton.mp hs
      exact h.kills k hk o (occupies_of_occupant ho)

/-- As long as no such pid is handed out anew, every kill(2) finds the exec's own process,
if it finds one. -/
theorem kills_hit_own_process (h : machine.Reachable NoReuse m) {s : Signalled}
    (hs : s ∈ m.signalled) {o : Occupant} (ho : s.occupant = some o) :
    ∃ q, s.kill.proc = some q ∧ o = .child (.container q) := by
  have haimed : m.Aimed := by
    refine h.invariant (P := Aimed) ?_ fun _ _ _ _ ih ha hstep => ih.step ha hstep
    exact ⟨fun _ _ hr => (nomatch hr), fun _ hk => (nomatch hk), fun _ hs => (nomatch hs)⟩
  exact haimed.signalled s hs o ho

/-! ## An exec that is killed -/

def killE : OsAction := .act (.call 4 (.kill "c" "e" 9 false) {})

/-- What the Kill hands over. -/
def killOfE : Kill := { pid := 2, signal := 9, proc := some 1, awaited := true }

def execRun : List MachineAction := (Shim.execRun "e").map fun a => .os (.act a)

/-- The exec is killed while it runs. -/
def killed : Machine := machine.after NoReuse {} (execRun ++ [.os killE, .issue killOfE])

/-- The signal finds the exec's process. -/
def hitE : Signalled := { kill := killOfE, occupant := some (.child (.container 1)) }

theorem kills_hit_own_process_running : hitE ∈ killed.signalled ∧
    ∃ q, killOfE.proc = some q ∧ Occupant.child (.container 1) = .child (.container q) := by
  have hreach : machine.Reachable NoReuse killed := System.run_after (by decide +kernel)
  have hs : hitE ∈ killed.signalled := by decide +kernel
  exact ⟨hs, kills_hit_own_process hreach hs rfl⟩

/-- The exec has exited and is reaped, and its pid is given to a process of the host. -/
def stranger : Machine := machine.after System.Any {} (execRun ++ [
  .os (.reap { owner := .container 1, pid := 2 } 0), .spawn 2, .os killE, .issue killOfE])

theorem kill_hits_stranger : ¬∀ m : Machine, machine.Reachable System.Any m →
    ∀ s ∈ m.signalled, ∀ o, s.occupant = some o →
      ∃ q, s.kill.proc = some q ∧ o = .child (.container q) := by
  intro h
  have hreach : machine.Reachable System.Any stranger := System.run_after (by decide +kernel)
  obtain ⟨q, -, ho⟩ := h stranger hreach { kill := killOfE, occupant := some (.foreign 0) }
    (by decide +kernel) (.foreign 0) rfl
  cases ho

end Machine
end RustExtensions.RuncShim
