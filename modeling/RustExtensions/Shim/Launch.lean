import RustExtensions.Shim.SocketServer

/-!
# The start action

Containerd runs a shim with the action `start`, which spawns the server and reads
the server's stdout to its end before it answers with the address. The server
lets go of that pipe once it serves, or once it is over.
-/
namespace RustExtensions.Shim

open RustExtensions.Transition

/-- How far the process with the action `start` has got. -/
inductive Starter where
  | idle
  /-- `confine_shim`, in the asynchronous build. -/
  | confining
  /-- `spawn` copies the server's stdout. -/
  | reading
  /-- `start_shim` writes the `address` file, and the address goes to containerd. -/
  | answering
  | answered | failed
  deriving DecidableEq

/-- The server `i` is the child of the starter `i`. -/
structure Launch where
  sockets : Sockets := {}
  starter : Nat → Starter := fun _ => .idle
  /-- The servers whose stdout is no longer the pipe to their starter. -/
  released : Nat → Bool := fun _ => false

inductive LaunchAction where
  | spawn (i : Nat)
  | confine (i : Nat) (ok : Bool)
  /-- `signal_server_started`, or the end of the server. -/
  | release (i : Nat)
  | eof (i : Nat)
  | answer (i : Nat) (ok : Bool)
  /-- The starter is killed. -/
  | abort (i : Nat)
  | server (a : SocketAction)
  deriving DecidableEq

/-- The starter has answered, one way or the other, or was never run. -/
def Starter.Over : Starter → Prop
  | .idle | .answered | .failed => True
  | _ => False

instance : DecidablePred Starter.Over := fun p =>
  decidable_of_iff (p = .idle ∨ p = .answered ∨ p = .failed) (by cases p <;> simp [Starter.Over])

namespace Phase

/-- The server is through with its start, and may be over. -/
def Started : Phase → Prop
  | .serving | .closing | .cleaning | .gone _ => True
  | _ => False

theorem Started.ne_idle {p : Phase} (h : p.Started) : p ≠ .idle := fun hidle => by
  rw [hidle] at h
  exact h

/-- What keeps others from a start without being one. -/
theorem Busy.cleaning {p : Phase} (h : p.Busy) (hstarted : p.Started) : p.Cleaning := by
  cases p with
  | closing => trivial
  | cleaning => trivial
  | serving => exact h.elim
  | gone how => exact h.elim
  | _ => exact hstarted.elim

end Phase

namespace Launch

def setStarter (s : Launch) (i : Nat) (p : Starter) : Launch :=
  { s with starter := Function.update s.starter i p }

/-- A server waits for its exit signal after `signal_server_started`. -/
def Permits (s : Launch) : SocketAction → Prop
  | .start _ => False
  | .shutdown i => s.released i
  | _ => True

instance (s : Launch) (a : SocketAction) : Decidable (s.Permits a) := by
  unfold Permits
  split <;> infer_instance

def step (s : Launch) : LaunchAction → Option Launch
  | .spawn i =>
    if s.starter i = .idle then
      (s.sockets.step (.start i)).map fun sockets =>
        { s.setStarter i .confining with sockets := sockets }
    else none
  | .confine i ok =>
    if s.starter i = .confining then
      if ok then some (s.setStarter i .reading)
      -- the server is killed, if it is not over already
      else some { s.setStarter i .failed with
        sockets := (s.sockets.step (.crash i)).getD s.sockets }
    else none
  | .release i =>
    match s.sockets.phase i with
    | .serving | .gone _ => some { s with released := Function.update s.released i true }
    | _ => none
  | .eof i =>
    if s.starter i = .reading ∧ s.released i then some (s.setStarter i .answering) else none
  | .answer i ok =>
    if s.starter i = .answering then
      some (s.setStarter i (if ok then .answered else .failed))
    else none
  | .abort i => if ¬(s.starter i).Over then some (s.setStarter i .failed) else none
  | .server a =>
    if s.Permits a then (s.sockets.step a).map fun sockets => { s with sockets } else none

end Launch

def launch (leftover : Option Entry) : System Launch LaunchAction where
  init := { sockets := { path := leftover } }
  step := Launch.step

namespace Sockets

variable {s t : Sockets} {a : SocketAction} {i : Nat}

/-- One shim goes on. Only a start sets out, and nothing undoes one. -/
theorem goes_on (h : s.step a = some t) : ∃ k p, t.phase = (s.set k p).phase ∧ p ≠ .idle ∧
    ((s.phase k).Started → p.Started) ∧ (s.phase k = .idle → a = .start k) := by
  cases a with
  | start k => exact ⟨k, .binding, by grind [step, Phase.Started]⟩
  | bind k =>
    unfold step at h
    grind [Phase.Started]
  | bindFails k => exact ⟨k, .gone .failed, by grind [step, Phase.Started]⟩
  | listen k => exact ⟨k, .serving, by grind [step, Phase.Started]⟩
  | connect k ok =>
    unfold step at h
    dsimp only at h
    split at h
    · next n hphase =>
      cases ok with
      | true =>
        obtain ⟨j, -, rfl⟩ := Option.map_eq_some_iff.mp h
        exact ⟨k, .gone (.gaveWay j), rfl, by grind, fun _ => trivial, by grind⟩
      | false =>
        obtain rfl := Option.some.inj h
        exact ⟨k, if n = 0 then .removing else .probing n, rfl, by grind, by grind [Phase.Started],
          by grind⟩
    · cases h
  | check k =>
    unfold step at h
    grind [Phase.Started]
  | unlink k =>
    unfold step at h
    grind [Phase.Started]
  | unlinkFails k =>
    unfold step at h
    grind [Phase.Started]
  | shutdown k => exact ⟨k, .closing, by grind [step, Phase.Started]⟩
  | addressFails k => exact ⟨k, .gone .exited, by grind [step, Phase.Started]⟩
  | crash k => exact ⟨k, .gone .crashed, by grind [step, Phase.Started]⟩

theorem started_of_step (h : s.step a = some t) (hi : (s.phase i).Started) :
    (t.phase i).Started := by
  obtain ⟨k, p, ht, -, hstarted, -⟩ := goes_on h
  rw [ht]
  by_cases hik : i = k
  · subst hik
    rw [set_phase_self]
    exact hstarted hi
  · rwa [set_phase_of_ne hik]

theorem idle_of_step (h : s.step a = some t) (hi : t.phase i = .idle) : s.phase i = .idle := by
  obtain ⟨k, p, ht, hp, -, -⟩ := goes_on h
  rw [ht] at hi
  by_cases hik : i = k
  · subst hik
    rw [set_phase_self] at hi
    exact absurd hi hp
  · rwa [set_phase_of_ne hik] at hi

theorem stays_idle (h : s.step a = some t) (ha : a ≠ .start i) (hi : s.phase i = .idle) :
    t.phase i = .idle := by
  obtain ⟨k, p, ht, -, -, hstart⟩ := goes_on h
  rw [ht]
  by_cases hik : i = k
  · subst hik
    exact absurd (hstart hi) ha
  · rwa [set_phase_of_ne hik]

theorem crash_cases (s : Sockets) (i : Nat) :
    (s.step (.crash i)).getD s = s ∧ (s.phase i = .idle ∨ ∃ how, s.phase i = .gone how) ∨
      s.step (.crash i) = some (s.set i (.gone .crashed)) := by
  cases hphase : s.phase i with
  | idle => exact .inl ⟨by simp [step, hphase], .inl rfl⟩
  | gone how => exact .inl ⟨by simp [step, hphase], .inr ⟨how, rfl⟩⟩
  | _ => exact .inr (by simp only [step, hphase])

end Sockets

namespace Launch

variable {s t : Launch} {a : LaunchAction} {i j : Nat} {p : Starter}

@[simp] theorem setStarter_self : (s.setStarter i p).starter i = p := Function.update_self ..

theorem setStarter_of_ne (h : j ≠ i) : (s.setStarter i p).starter j = s.starter j :=
  Function.update_of_ne h ..

/-- What a step does to the starters, the servers and the pipes between them. -/
inductive Step (s : Launch) : LaunchAction → Launch → Prop
  | spawn {i : Nat} {sockets : Sockets} (hidle : s.starter i = .idle)
    (hstep : s.sockets.step (.start i) = some sockets) :
    Step s (.spawn i) { s.setStarter i .confining with sockets := sockets }
  | confined {i : Nat} (hconfining : s.starter i = .confining) :
    Step s (.confine i true) (s.setStarter i .reading)
  | killed {i : Nat} (hconfining : s.starter i = .confining) :
    Step s (.confine i false) { s.setStarter i .failed with
      sockets := (s.sockets.step (.crash i)).getD s.sockets }
  | release {i : Nat}
    (hphase : s.sockets.phase i = .serving ∨ ∃ how, s.sockets.phase i = .gone how) :
    Step s (.release i) { s with released := Function.update s.released i true }
  | eof {i : Nat} (hreading : s.starter i = .reading) (hreleased : s.released i) :
    Step s (.eof i) (s.setStarter i .answering)
  | answer {i : Nat} {ok : Bool} (hanswering : s.starter i = .answering) :
    Step s (.answer i ok) (s.setStarter i (if ok then .answered else .failed))
  | abort {i : Nat} (hover : ¬(s.starter i).Over) : Step s (.abort i) (s.setStarter i .failed)
  | server {a : SocketAction} {sockets : Sockets} (hpermits : s.Permits a)
    (hstep : s.sockets.step a = some sockets) : Step s (.server a) { s with sockets }

theorem step_cases (h : s.step a = some t) : Step s a t := by
  cases a with
  | spawn i =>
    obtain ⟨hidle, h⟩ := Option.ite_none_right_eq_some.mp h
    obtain ⟨sockets, hstep, rfl⟩ := Option.map_eq_some_iff.mp h
    exact .spawn hidle hstep
  | confine i ok =>
    obtain ⟨hconfining, h⟩ := Option.ite_none_right_eq_some.mp h
    cases ok with
    | true =>
      obtain rfl := Option.some.inj h
      exact .confined hconfining
    | false =>
      obtain rfl := Option.some.inj h
      exact .killed hconfining
  | release i =>
    unfold step at h
    dsimp only at h
    split at h
    · next hphase =>
      obtain rfl := Option.some.inj h
      exact .release (.inl hphase)
    · next how hphase =>
      obtain rfl := Option.some.inj h
      exact .release (.inr ⟨how, hphase⟩)
    · cases h
  | eof i =>
    obtain ⟨⟨hreading, hreleased⟩, rfl⟩ :=
      (Option.ite_none_right_eq_some.mp h).imp_right Option.some.inj
    exact .eof hreading hreleased
  | answer i ok =>
    obtain ⟨hanswering, rfl⟩ := (Option.ite_none_right_eq_some.mp h).imp_right Option.some.inj
    exact .answer hanswering
  | abort i =>
    obtain ⟨hover, rfl⟩ := (Option.ite_none_right_eq_some.mp h).imp_right Option.some.inj
    exact .abort hover
  | server a =>
    obtain ⟨hpermits, h⟩ := Option.ite_none_right_eq_some.mp h
    obtain ⟨sockets, hstep, rfl⟩ := Option.map_eq_some_iff.mp h
    exact .server hpermits hstep

/-! ## An answer -/

/-- A starter that has read to the end has a server that let go of the pipe. -/
structure Piped (s : Launch) : Prop where
  idle : ∀ i, s.starter i = .idle ↔ s.sockets.phase i = .idle
  released : ∀ i, s.released i → (s.sockets.phase i).Started
  answering : ∀ i, s.starter i = .answering ∨ s.starter i = .answered → s.released i

theorem Piped.setStarter (h : s.Piped) (hidle : s.starter i ≠ .idle) (hp : p ≠ .idle)
    (hanswering : p = .answering ∨ p = .answered → s.released i) : (s.setStarter i p).Piped := by
  refine ⟨fun j => ?_, h.released, fun j hj => ?_⟩
  · by_cases hji : j = i
    · subst hji
      rw [setStarter_self]
      exact iff_of_false hp fun hphase => hidle ((h.idle j).mpr hphase)
    · rw [setStarter_of_ne hji]
      exact h.idle j
  · by_cases hji : j = i
    · subst hji
      rw [setStarter_self] at hj
      exact hanswering hj
    · rw [setStarter_of_ne hji] at hj
      exact h.answering j hj

theorem Piped.server (h : s.Piped) {a : SocketAction} {sockets : Sockets}
    (ha : ∀ i, a ≠ .start i) (hstep : s.sockets.step a = some sockets) :
    ({ s with sockets } : Launch).Piped := by
  refine ⟨fun j => (h.idle j).trans ⟨Sockets.stays_idle hstep (ha j), Sockets.idle_of_step hstep⟩,
    fun j hj => Sockets.started_of_step hstep (h.released j hj), h.answering⟩

theorem Piped.step (h : s.Piped) (hs : Step s a t) : t.Piped := by
  cases hs with
  | @spawn i sockets hidle hstep =>
    obtain ⟨hphase, rfl⟩ := (Option.ite_none_right_eq_some.mp hstep).imp_right Option.some.inj
    refine ⟨fun j => ?_, fun j hj => ?_, fun j hj => ?_⟩
    · by_cases hji : j = i
      · subst hji
        simp
      · have hstarter := setStarter_of_ne (s := s) (p := .confining) hji
        simp only [hstarter, Sockets.set_phase_of_ne hji]
        exact h.idle j
    · by_cases hji : j = i
      · subst hji
        exact absurd hphase (h.released j hj).ne_idle
      · simp only [Sockets.set_phase_of_ne hji]
        exact h.released j hj
    · by_cases hji : j = i
      · subst hji
        simp at hj
      · have hstarter := setStarter_of_ne (s := s) (p := .confining) hji
        simp only [hstarter] at hj
        exact h.answering j hj
  | @confined i hconfining =>
    exact h.setStarter (by rw [hconfining]; nofun) nofun nofun
  | @killed i hconfining =>
    have hfailed : (s.setStarter i .failed).Piped :=
      h.setStarter (by rw [hconfining]; nofun) nofun nofun
    obtain ⟨hsame, -⟩ | hcrash := s.sockets.crash_cases i
    · rw [hsame]
      exact hfailed
    · rw [hcrash]
      exact hfailed.server (a := .crash i) (fun _ => nofun) hcrash
  | @release i hphase =>
    refine ⟨h.idle, fun j hj => ?_, fun j hj => ?_⟩
    · by_cases hji : j = i
      · subst hji
        obtain hphase | ⟨how, hphase⟩ := hphase
        · rw [hphase]
          trivial
        · rw [hphase]
          trivial
      · have hsame : Function.update s.released i true j = s.released j :=
          Function.update_of_ne hji ..
        exact h.released j (hsame ▸ hj)
    · by_cases hji : j = i
      · subst hji
        exact Function.update_self ..
      · have hsame : Function.update s.released i true j = s.released j :=
          Function.update_of_ne hji ..
        exact hsame.trans (h.answering j hj)
  | @eof i hreading hreleased =>
    exact h.setStarter (by rw [hreading]; nofun) nofun fun _ => hreleased
  | @answer i ok hanswering =>
    refine h.setStarter (by rw [hanswering]; nofun) ?_ fun _ => h.answering i (.inl hanswering)
    cases ok <;> nofun
  | @abort i hover =>
    refine h.setStarter (fun hidle => hover ?_) nofun nofun
    rw [hidle]
    trivial
  | @server a sockets hpermits hstep =>
    refine h.server (fun i hi => ?_) hstep
    rw [hi] at hpermits
    exact hpermits

theorem piped {leftover : Option Entry} {ok : Launch → LaunchAction → Prop}
    (h : (launch leftover).Reachable ok s) : s.Piped := by
  refine h.invariant ⟨fun i => iff_of_true rfl rfl, fun i hi => ?_, fun i hi => ?_⟩
    fun _ _ _ _ hs _ hstep => hs.step (step_cases hstep)
  · cases hi
  · obtain hi | hi := hi
    · cases hi
    · cases hi

/-! ## One start after the other -/

/-- Containerd awaits the answer to each start, and aborts none before its server has started. No
server starts or shuts down while another one cleans up, and none shuts down while a start is under
way. A server that listens answers who connects to it. -/
def Awaited (s : Launch) : LaunchAction → Prop
  | .spawn _ => (∀ j, (s.starter j).Over) ∧ ∀ j, ¬(s.sockets.phase j).Cleaning
  | .abort i => (s.sockets.phase i).Started
  | .server (.shutdown i) =>
    (∀ j, (s.starter j).Over) ∧ ∀ j, j ≠ i → ¬(s.sockets.phase j).Cleaning
  | .server (.connect _ false) => s.sockets.server = none
  | _ => True

/-- A server that is not through with its start has a starter that reads. -/
def Attended (s : Launch) : Prop :=
  ∀ i, (s.starter i).Over → s.starter i = .idle ∨ (s.sockets.phase i).Started

theorem Attended.setStarter (h : s.Attended) (hp : p.Over → (s.sockets.phase i).Started) :
    (s.setStarter i p).Attended := by
  intro j hj
  by_cases hji : j = i
  · subst hji
    rw [setStarter_self] at hj
    exact .inr (hp hj)
  · rw [setStarter_of_ne hji] at hj ⊢
    exact h j hj

theorem Attended.server (h : s.Attended) {a : SocketAction} {sockets : Sockets}
    (hstep : s.sockets.step a = some sockets) : ({ s with sockets } : Launch).Attended :=
  fun j hj => (h j hj).imp_right (Sockets.started_of_step hstep)

theorem Attended.step (h : s.Attended) (hpiped : s.Piped) (ha : Awaited s a) (hs : Step s a t) :
    t.Attended := by
  cases hs with
  | spawn hidle hstep => exact (h.setStarter (p := .confining) False.elim).server hstep
  | confined hconfining => exact h.setStarter False.elim
  | @killed i hconfining =>
    have hphase : s.sockets.phase i ≠ .idle := fun hphase => by
      rw [(hpiped.idle i).mpr hphase] at hconfining
      cases hconfining
    obtain ⟨hsame, hdone⟩ | hcrash := s.sockets.crash_cases i
    · rw [hsame]
      refine h.setStarter fun _ => ?_
      obtain ⟨how, hgone⟩ := hdone.resolve_left hphase
      rw [hgone]
      trivial
    · rw [hcrash]
      refine fun j hj => ?_
      by_cases hji : j = i
      · subst hji
        exact .inr (by simp [Phase.Started])
      · have hstarter := setStarter_of_ne (s := s) (p := .failed) hji
        simp only [hstarter] at hj ⊢
        exact (h j hj).imp_right (Sockets.started_of_step hcrash)
  | release hphase => exact h
  | eof hreading hreleased => exact h.setStarter False.elim
  | @answer i ok hanswering =>
    exact h.setStarter fun _ => hpiped.released i (hpiped.answering i (.inl hanswering))
  | abort hover => exact h.setStarter fun _ => ha
  | server hpermits hstep => exact h.server hstep

def Undisturbed (i : Nat) (s : Launch) : LaunchAction → Prop
  | .spawn j | .eof j => j = i
  | .confine j ok | .answer j ok => j = i ∧ ok
  | .release j => j = i ∧ ¬s.released i
  | .abort _ => False
  | .server a => Sockets.Alone i s.sockets a

instance (i : Nat) (s : Launch) (a : LaunchAction) : Decidable (Undisturbed i s a) := by
  unfold Undisturbed
  split <;> infer_instance

end Launch

/-- The steps that the starter has left. -/
def Starter.left : Starter → Nat
  | .idle => 4
  | .confining => 3
  | .reading => 2
  | .answering => 1
  | .answered | .failed => 0

namespace Launch

variable {s t u v : Launch} {a : LaunchAction} {i : Nat} {p : Starter}

/-- The steps that the start has left at most. -/
def left (i : Nat) (s : Launch) : Nat :=
  (s.sockets.phase i).left + (!s.released i).toNat + (s.starter i).left

/-- Some state of the start that `s` begins. -/
structure Launching (s : Launch) (i : Nat) (u : Launch) : Prop where
  within : s.sockets.Within i u.sockets
  idle : u.starter i = .idle ↔ u.sockets.phase i = .idle
  failed : u.starter i ≠ .failed
  released : u.released i → u.sockets.phase i = .serving ∨ ∃ how, u.sockets.phase i = .gone how
  answering : u.starter i = .answering ∨ u.starter i = .answered → u.released i

theorem elected_started (s : Sockets) (i : Nat) : (s.elected i).phase i = .serving ∨
    ∃ how, (s.elected i).phase i = .gone how := by
  unfold Sockets.elected
  split
  · exact .inr ⟨.failed, Sockets.set_phase_self⟩
  · split
    · next j _ => exact .inr ⟨.gaveWay j, Sockets.set_phase_self⟩
    · exact .inl Sockets.set_phase_self

theorem next_of_started {s : Sockets} (h : s.phase i = .serving ∨ ∃ how, s.phase i = .gone how) :
    s.next i = none := by
  obtain h | ⟨how, h⟩ := h
  · simp [Sockets.next, h]
  · simp [Sockets.next, h]

theorem permits_of_alone {a : SocketAction} (h : Sockets.Alone i s.sockets a)
    (hidle : s.sockets.phase i ≠ .idle) : s.Permits a := by
  unfold Sockets.Alone Sockets.next at h
  split at h
  · next hphase => exact absurd hphase hidle
  all_goals cases h
  all_goals trivial

theorem left_setStarter (h : p.left < (s.starter i).left) :
    (s.setStarter i p).left i < s.left i := by
  have hleft : (s.setStarter i p).left i =
      (s.sockets.phase i).left + (!s.released i).toNat + p.left := by
    rw [left, setStarter_self]
    rfl
  rw [hleft, left]
  omega

theorem Launching.setStarter (h : s.Launching i u) (hidle : u.starter i ≠ .idle) (hp : p ≠ .idle)
    (hfailed : p ≠ .failed) (hreleased : p = .answering ∨ p = .answered → u.released i) :
    s.Launching i (u.setStarter i p) := by
  refine ⟨h.within, ?_, ?_, h.released, ?_⟩
  · rw [setStarter_self]
    exact iff_of_false hp fun hphase => hidle (h.idle.mpr hphase)
  · rwa [setStarter_self]
  · rwa [setStarter_self]

theorem Launching.step (h : s.Launching i u) (hidle : s.sockets.phase i = .idle)
    (ha : Undisturbed i u a) (hs : Step u a v) : s.Launching i v ∧ v.left i < u.left i := by
  cases hs with
  | @spawn j sockets hstarter hstep =>
    obtain rfl : j = i := ha
    have hphase := h.idle.mp hstarter
    have halone : Sockets.Alone j u.sockets (.start j) := by
      simp [Sockets.Alone, Sockets.next, hphase]
    obtain ⟨hwithin, hlt⟩ := Sockets.within_step hidle h.within halone hstep
    obtain ⟨-, rfl⟩ := (Option.ite_none_right_eq_some.mp hstep).imp_right Option.some.inj
    refine ⟨⟨hwithin, by simp, by simp, fun hreleased => ?_, by simp⟩, ?_⟩
    · have hstarted := h.released hreleased
      rw [hphase] at hstarted
      obtain hserving | ⟨how, hgone⟩ := hstarted
      · cases hserving
      · cases hgone
    · have hstarters : u.left j = (u.sockets.phase j).left + (!u.released j).toNat + 4 := by
        rw [left, hstarter]
        rfl
      have hleft : left j { u.setStarter j .confining with sockets := u.sockets.set j .binding } =
          ((u.sockets.set j .binding).phase j).left + (!u.released j).toNat + 3 := by
        rw [left, setStarter_self]
        rfl
      omega
  | @confined j hconfining =>
    obtain rfl : j = i := ha.1
    have hlt : Starter.reading.left < (u.starter j).left := by
      rw [hconfining]
      exact Nat.lt_succ_self 2
    exact ⟨h.setStarter (by simp [hconfining]) (by simp) (by simp) (by simp), left_setStarter hlt⟩
  | killed hconfining => exact absurd ha.2 Bool.false_ne_true
  | @release j hphase =>
    obtain rfl : j = i := ha.1
    have hreleased : u.released j = false := Bool.eq_false_iff.mpr ha.2
    refine ⟨⟨h.within, h.idle, h.failed, fun _ => hphase, fun _ => Function.update_self ..⟩, ?_⟩
    simp [left, hreleased]
  | @eof j hreading hreleased =>
    obtain rfl : j = i := ha
    have hlt : Starter.answering.left < (u.starter j).left := by
      rw [hreading]
      exact Nat.lt_succ_self 1
    exact ⟨h.setStarter (by simp [hreading]) (by simp) (by simp) fun _ => hreleased,
      left_setStarter hlt⟩
  | @answer j ok hanswering =>
    obtain ⟨rfl, rfl⟩ := ha
    have hlt : Starter.answered.left < (u.starter j).left := by
      rw [hanswering]
      exact Nat.lt_succ_self 0
    exact ⟨h.setStarter (by simp [hanswering]) (by simp) (by simp)
      fun _ => h.answering (.inl hanswering), left_setStarter hlt⟩
  | abort => exact ha.elim
  | @server b sockets hpermits hstep =>
    obtain ⟨hwithin, hlt⟩ := Sockets.within_step hidle h.within ha hstep
    have hstart : b ≠ .start i := fun hb => by
      rw [hb] at hpermits
      exact hpermits
    have hreleased : ¬u.released i := fun hreleased => by
      have hnone := next_of_started (h.released hreleased)
      cases hnone.symm.trans ha
    refine ⟨⟨hwithin, h.idle.trans ⟨Sockets.stays_idle hstep hstart, Sockets.idle_of_step hstep⟩,
      h.failed, fun hr => absurd hr hreleased, h.answering⟩, ?_⟩
    simp only [left]
    omega

/-- A start is answered, or goes on. -/
theorem Launching.outcome (h : s.Launching i u) (hidle : s.sockets.phase i = .idle) :
    u.starter i = .answered ∧ u.sockets = s.sockets.elected i ∨
      ∃ a v, Undisturbed i u a ∧ u.step a = some v := by
  obtain ⟨p, q, hsockets, hp⟩ := h.within
  have hnext := Sockets.electing_next hidle hp
  rw [← hsockets] at hnext
  cases hstarter : u.starter i with
  | idle =>
    have hphase := h.idle.mp hstarter
    refine .inr ⟨.spawn i,
      { u.setStarter i .confining with sockets := u.sockets.set i .binding }, rfl, ?_⟩
    simp [Launch.step, hstarter, Sockets.step, hphase]
  | confining =>
    exact .inr ⟨.confine i true, u.setStarter i .reading, ⟨rfl, rfl⟩,
      by simp [Launch.step, hstarter]⟩
  | reading =>
    right
    by_cases hreleased : u.released i
    · exact ⟨.eof i, u.setStarter i .answering, rfl, by simp [Launch.step, hstarter, hreleased]⟩
    · obtain helected | ⟨a, p', q', halone, hmove, -, -⟩ := hnext
      · have hphase := elected_started s.sockets i
        rw [← helected] at hphase
        refine ⟨.release i, { u with released := Function.update u.released i true },
          ⟨rfl, hreleased⟩, ?_⟩
        obtain hserving | ⟨how, hgone⟩ := hphase
        · simp only [Launch.step, hserving]
        · simp only [Launch.step, hgone]
      · have hphase : u.sockets.phase i ≠ .idle := fun hphase => by
          rw [h.idle.mpr hphase] at hstarter
          cases hstarter
        refine ⟨.server a, { u with sockets := s.sockets.place i p' q' }, halone, ?_⟩
        simp only [Launch.step, if_pos (permits_of_alone halone hphase), hmove, Option.map_some]
  | answering =>
    exact .inr ⟨.answer i true, u.setStarter i .answered, ⟨rfl, rfl⟩,
      by simp [Launch.step, hstarter]⟩
  | answered =>
    left
    obtain helected | ⟨a, -, -, halone, -, -, -⟩ := hnext
    · exact ⟨rfl, helected⟩
    · have hnone := next_of_started (h.released (h.answering (.inr hstarter)))
      cases hnone.symm.trans halone
  | failed => exact absurd hstarter h.failed

/-- A start that nobody disturbs is answered, after 211 steps at most of the starter and of the
server together, and its server has then been elected. -/
theorem start_answered (hstarter : s.starter i = .idle) (hidle : s.sockets.phase i = .idle)
    (hreleased : ¬s.released i) {leftover : Option Entry} (as : List LaunchAction) (t : Launch)
    (hexec : (launch leftover).exec (Undisturbed i) s as = some t) :
    as.length ≤ 211 ∧ (t.starter i = .answered ∧ t.sockets = s.sockets.elected i ∨
      ∃ a u, Undisturbed i t a ∧ t.step a = some u) := by
  have hstart : s.Launching i s := by
    refine ⟨⟨.idle, s.sockets.path, (Sockets.place_idle hidle).symm, rfl⟩,
      iff_of_true hstarter hidle, ?_, fun hr => absurd hr hreleased, ?_⟩
    · rw [hstarter]
      nofun
    · rw [hstarter]
      nofun
  have hstep : ∀ u a v, s.Launching i u → Undisturbed i u a → u.step a = some v →
      s.Launching i v ∧ v.left i < u.left i := fun _ _ _ hu ha h => hu.step hidle ha (step_cases h)
  obtain ⟨ht, hlength⟩ := System.exec_length (left i) hstep hstart hexec
  have hleft : s.left i = 211 := by
    simp [left, hstarter, hidle, hreleased, Phase.left, connects, Starter.left]
  exact ⟨by omega, ht.outcome hidle⟩

/-- The second shim of a group, started while the first one serves. -/
def served : Launch :=
  (launch none).after System.Any {} [.spawn 0, .confine 0 true, .server (.bind 0),
    .server (.listen 0), .release 0, .eof 0, .answer 0 true]

theorem start_answered_served : ∃ as t, (launch none).exec (Undisturbed 1) served as = some t ∧
    as.length = 7 ∧ (t.starter 1 = .answered ∧ t.sockets = served.sockets.elected 1 ∨
      ∃ a u, Undisturbed 1 t a ∧ t.step a = some u) := by
  let as : List LaunchAction := [.spawn 1, .server (.bind 1), .confine 1 true,
    .server (.connect 1 true), .release 1, .eof 1, .answer 1 true]
  have hexec : (launch none).exec (Undisturbed 1) served as =
    some ((launch none).after (Undisturbed 1) served as) := rfl
  exact ⟨as, _, hexec, rfl, (start_answered rfl rfl Bool.false_ne_true as _ hexec).2⟩

end Launch
end RustExtensions.Shim
