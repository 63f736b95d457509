import Mathlib.Logic.Function.Basic
import RustExtensions.Lib.Transition

/-!
# Who serves a socket

The shims of one group are told the same address. Each tries to bind it in
`create_server_with_retry`; whoever finds it taken looks for a server there, and
gives way to it, or takes the place of a dead one. A shim that exits removes the
socket that its `address` file names.
-/
namespace RustExtensions.Shim

open RustExtensions.Transition

/-- What is found at the path of the address: a socket, by the shim that bound it (`none` for one
from before), or something else. -/
inductive Entry where
  | socket (owner : Option Nat)
  | file
  deriving DecidableEq

inductive Outcome where
  | gaveWay (server : Nat)
  | failed | exited | crashed
  deriving DecidableEq

/-- How far a shim has got. `probing` counts the connects that `wait_socket_working` has left. -/
inductive Phase where
  | idle | binding
  | probing (left : Nat)
  | removing | unlinking | rebinding
  | bound | serving
  | closing | cleaning
  | gone (how : Outcome)
  deriving DecidableEq

structure Sockets where
  path : Option Entry := none
  phase : Nat → Phase := fun _ => .idle

/-- What the shim `i` does. The environment chooses whether a connect succeeds that could. -/
inductive SocketAction where
  | start (i : Nat) | bind (i : Nat) | bindFails (i : Nat) | listen (i : Nat)
  | connect (i : Nat) (ok : Bool)
  | check (i : Nat) | unlink (i : Nat) | unlinkFails (i : Nat)
  | shutdown (i : Nat) | addressFails (i : Nat)
  | crash (i : Nat)
  deriving DecidableEq

/-- The retries of `wait_socket_working`, as `create_server_with_retry` asks for them. -/
def connects : Nat := 200

namespace Phase

/-- The socket is bound, and its listener open. -/
def Live : Phase → Prop
  | .bound | .serving => True
  | _ => False

/-- The shim found the socket dead, or closed its own, and is about to remove it. -/
def Cleaning : Phase → Prop
  | .removing | .unlinking | .closing | .cleaning => True
  | _ => False

/-- The shim is on its way to something: containerd has not heard of its start, or it exits. -/
def Busy : Phase → Prop
  | .idle | .serving | .gone _ => False
  | _ => True

instance : DecidablePred Live := fun p =>
  decidable_of_iff (p = .bound ∨ p = .serving) (by cases p <;> simp [Live])

instance : DecidablePred Cleaning := fun p =>
  decidable_of_iff (p = .removing ∨ p = .unlinking ∨ p = .closing ∨ p = .cleaning)
    (by cases p <;> simp [Cleaning])

theorem Cleaning.not_live {p : Phase} (h : p.Cleaning) : ¬p.Live := by
  intro hlive
  cases p with
  | removing => exact hlive
  | unlinking => exact hlive
  | closing => exact hlive
  | cleaning => exact hlive
  | _ => exact h

theorem Cleaning.busy {p : Phase} (h : p.Cleaning) : p.Busy := by
  cases p with
  | idle => exact h
  | serving => exact h
  | gone how => exact h
  | _ => trivial

/-- The steps that the phase leaves at most. -/
def left : Phase → Nat
  | .idle => connects + 6
  | .binding => connects + 5
  | .probing n => n + 4
  | .removing => 4
  | .unlinking => 3
  | .rebinding => 2
  | .bound => 1
  | _ => 0

end Phase

namespace Sockets

def set (s : Sockets) (i : Nat) (p : Phase) : Sockets :=
  { s with phase := Function.update s.phase i p }

/-- The listener that a connect reaches. -/
def server (s : Sockets) : Option Nat :=
  match s.path with
  | some (.socket (some j)) => if s.phase j = .serving then some j else none
  | _ => none

def step (s : Sockets) : SocketAction → Option Sockets
  | .start i => if s.phase i = .idle then some (s.set i .binding) else none
  | .bind i =>
    match s.phase i, s.path with
    | .binding, none | .rebinding, none =>
      some { s.set i .bound with path := some (.socket (some i)) }
    | .binding, some _ => some (s.set i (.probing connects))
    | .rebinding, some _ => some (s.set i (.gone .failed))
    | _, _ => none
  | .bindFails i =>
    match s.phase i with
    | .binding | .rebinding => some (s.set i (.gone .failed))
    | _ => none
  | .listen i => if s.phase i = .bound then some (s.set i .serving) else none
  | .connect i ok =>
    match s.phase i with
    | .probing (n + 1) =>
      if ok then s.server.map fun j => s.set i (.gone (.gaveWay j))
      else some (s.set i (if n = 0 then .removing else .probing n))
    | _ => none
  | .check i =>
    match s.phase i, s.path with
    | .removing, some (.socket _) => some (s.set i .unlinking)
    | .removing, _ => some (s.set i .rebinding)
    | .closing, some (.socket _) => some (s.set i .cleaning)
    | .closing, _ => some (s.set i (.gone .exited))
    | _, _ => none
  | .unlink i =>
    match s.phase i, s.path with
    | .unlinking, some _ => some { s.set i .rebinding with path := none }
    | .unlinking, none => some (s.set i (.gone .failed))
    | .cleaning, _ => some { s.set i (.gone .exited) with path := none }
    | _, _ => none
  | .unlinkFails i =>
    match s.phase i with
    | .unlinking => some (s.set i (.gone .failed))
    | .cleaning => some (s.set i (.gone .exited))
    | _ => none
  | .shutdown i => if s.phase i = .serving then some (s.set i .closing) else none
  | .addressFails i => if s.phase i = .closing then some (s.set i (.gone .exited)) else none
  | .crash i =>
    match s.phase i with
    | .idle | .gone _ => none
    | _ => some (s.set i (.gone .crashed))

end Sockets

/-- What earlier shims may have left at the path. -/
def sockets (leftover : Option Entry) : System Sockets SocketAction where
  init := { path := leftover }
  step := Sockets.step

namespace Sockets

variable {s t : Sockets} {a : SocketAction} {i j : Nat} {p : Phase}

/-- The last connect of a probe fails. -/
def TimesOut (s : Sockets) (a : SocketAction) (i : Nat) : Prop :=
  a = .connect i false ∧ s.phase i = .probing 1

/-- What a step can do: a shim goes on, binds the free path, or frees it. -/
inductive Step (s : Sockets) (a : SocketAction) : Sockets → Prop
  | moves (i : Nat) (p : Phase) (hlive : p.Live → (s.phase i).Live)
    (hcleaning : p.Cleaning → (s.phase i).Cleaning ∨ (s.phase i).Live ∨ s.TimesOut a i)
    (hbusy : p.Busy → (s.phase i).Busy ∨ a = .start i ∨ a = .shutdown i) :
    Step s a (s.set i p)
  | binds (i : Nat) (ha : a = .bind i) (hpath : s.path = none) (hbusy : (s.phase i).Busy) :
    Step s a { s.set i .bound with path := some (.socket (some i)) }
  | unlinks (i : Nat) (p : Phase) (ha : a = .unlink i) (hcleaning : (s.phase i).Cleaning)
    (hlive : ¬p.Live) (hdone : ¬p.Cleaning) : Step s a { s.set i p with path := none }

theorem step_cases (h : s.step a = some t) : Step s a t := by
  cases a with
  | start i =>
    obtain ⟨-, rfl⟩ := (Option.ite_none_right_eq_some.mp h).imp_right Option.some.inj
    exact .moves i _ False.elim False.elim fun _ => .inr (.inl rfl)
  | bind i =>
    unfold step at h
    dsimp only at h
    split at h
    · next hphase hpath =>
      obtain rfl := Option.some.inj h
      exact .binds i rfl hpath (hphase ▸ trivial)
    · next hphase hpath =>
      obtain rfl := Option.some.inj h
      exact .binds i rfl hpath (hphase ▸ trivial)
    · next hphase _ =>
      obtain rfl := Option.some.inj h
      exact .moves i _ False.elim False.elim fun _ => .inl (hphase ▸ trivial)
    · obtain rfl := Option.some.inj h
      exact .moves i _ False.elim False.elim False.elim
    · cases h
  | bindFails i =>
    unfold step at h
    dsimp only at h
    split at h
    · obtain rfl := Option.some.inj h
      exact .moves i _ False.elim False.elim False.elim
    · obtain rfl := Option.some.inj h
      exact .moves i _ False.elim False.elim False.elim
    · cases h
  | listen i =>
    obtain ⟨hbound, rfl⟩ := (Option.ite_none_right_eq_some.mp h).imp_right Option.some.inj
    exact .moves i _ (fun _ => hbound ▸ trivial) False.elim False.elim
  | connect i ok =>
    unfold step at h
    dsimp only at h
    split at h
    · next n hphase =>
      cases ok with
      | true =>
        obtain ⟨j, -, rfl⟩ := Option.map_eq_some_iff.mp h
        exact .moves i _ False.elim False.elim False.elim
      | false =>
        obtain rfl := Option.some.inj h
        cases n with
        | zero =>
          exact .moves i _ False.elim (fun _ => .inr (.inr ⟨rfl, hphase⟩))
            fun _ => .inl (hphase ▸ trivial)
        | succ n => exact .moves i _ False.elim False.elim fun _ => .inl (hphase ▸ trivial)
    · cases h
  | check i =>
    unfold step at h
    dsimp only at h
    split at h
    · next hphase _ =>
      obtain rfl := Option.some.inj h
      exact .moves i _ False.elim (fun _ => .inl (hphase ▸ trivial))
        fun _ => .inl (hphase ▸ trivial)
    · next hphase _ =>
      obtain rfl := Option.some.inj h
      exact .moves i _ False.elim False.elim fun _ => .inl (hphase ▸ trivial)
    · next hphase _ =>
      obtain rfl := Option.some.inj h
      exact .moves i _ False.elim (fun _ => .inl (hphase ▸ trivial))
        fun _ => .inl (hphase ▸ trivial)
    · obtain rfl := Option.some.inj h
      exact .moves i _ False.elim False.elim False.elim
    · cases h
  | unlink i =>
    unfold step at h
    dsimp only at h
    split at h
    · next hphase _ =>
      obtain rfl := Option.some.inj h
      exact .unlinks i _ rfl (hphase ▸ trivial) id id
    · obtain rfl := Option.some.inj h
      exact .moves i _ False.elim False.elim False.elim
    · next hphase =>
      obtain rfl := Option.some.inj h
      exact .unlinks i _ rfl (hphase ▸ trivial) id id
    · cases h
  | unlinkFails i =>
    unfold step at h
    dsimp only at h
    split at h
    · obtain rfl := Option.some.inj h
      exact .moves i _ False.elim False.elim False.elim
    · obtain rfl := Option.some.inj h
      exact .moves i _ False.elim False.elim False.elim
    · cases h
  | shutdown i =>
    obtain ⟨hserving, rfl⟩ := (Option.ite_none_right_eq_some.mp h).imp_right Option.some.inj
    exact .moves i _ False.elim (fun _ => .inr (.inl (hserving ▸ trivial)))
      fun _ => .inr (.inr rfl)
  | addressFails i =>
    obtain ⟨-, rfl⟩ := (Option.ite_none_right_eq_some.mp h).imp_right Option.some.inj
    exact .moves i _ False.elim False.elim False.elim
  | crash i =>
    unfold step at h
    dsimp only at h
    split at h
    · cases h
    · cases h
    · obtain rfl := Option.some.inj h
      exact .moves i _ False.elim False.elim False.elim

/-! ## One server -/

/-- No shim binds the path while another one is about to remove the socket that is found there, and
the last connect of a probe does not fail while the path leads to a live server. -/
def Exclusive (s : Sockets) : SocketAction → Prop
  | .bind i => s.path = none → ∀ j, j ≠ i → ¬(s.phase j).Cleaning
  | .connect i false =>
    s.phase i = .probing 1 → ∀ j, s.path = some (.socket (some j)) → ¬(s.phase j).Live
  | _ => True

/-- Every listener is the one that the path leads to, and no socket of a listener is about to be
removed. -/
structure OneServer (s : Sockets) : Prop where
  path : ∀ i, (s.phase i).Live → s.path = some (.socket (some i))
  cleaning : ∀ i j, (s.phase i).Cleaning → ¬(s.phase j).Live

@[simp] theorem set_phase_self : (s.set i p).phase i = p := Function.update_self ..

theorem set_phase_of_ne (h : j ≠ i) : (s.set i p).phase j = s.phase j :=
  Function.update_of_ne h ..

theorem live_of_set (hlive : p.Live → (s.phase i).Live) (h : ((s.set i p).phase j).Live) :
    (s.phase j).Live := by
  by_cases hj : j = i
  · subst hj
    rw [set_phase_self] at h
    exact hlive h
  · rwa [set_phase_of_ne hj] at h

theorem OneServer.step (hs : s.OneServer) (ha : Exclusive s a) (h : Step s a t) :
    t.OneServer := by
  obtain ⟨hpath, hclean⟩ := hs
  cases h with
  | moves i p hlive hcleaning _ =>
    refine ⟨fun k hk => hpath k (live_of_set hlive hk), fun k j hk hj => ?_⟩
    have hj' := live_of_set hlive hj
    by_cases hki : k = i
    · subst hki
      rw [set_phase_self] at hk
      obtain hbefore | hbefore | ⟨rfl, hprobing⟩ := hcleaning hk
      · exact hclean k j hbefore hj'
      · -- the shim that closes its listener is the only one that had one
        have heq := (hpath k hbefore).symm.trans (hpath j hj')
        obtain rfl := Option.some.inj (Entry.socket.inj (Option.some.inj heq))
        rw [set_phase_self] at hj
        exact Phase.Cleaning.not_live hk hj
      · exact ha hprobing j (hpath j hj') hj'
    · rw [set_phase_of_ne hki] at hk
      exact hclean k j hk hj'
  | binds i ha' hnone _ =>
    subst ha'
    have hnot (k : Nat) : ¬(s.phase k).Live := fun hk => by
      have hsome := hpath k hk
      rw [hnone] at hsome
      cases hsome
    refine ⟨fun k hk => ?_, fun k j hk _ => ?_⟩
    · by_cases hki : k = i
      · rw [hki]
      · exact absurd (by rwa [← set_phase_of_ne (s := s) (p := .bound) hki]) (hnot k)
    · by_cases hki : k = i
      · subst hki
        have hbound : ((s.set k .bound).phase k).Cleaning := hk
        rwa [set_phase_self] at hbound
      · refine ha hnone k hki ?_
        rwa [← set_phase_of_ne (s := s) (p := .bound) hki]
  | unlinks i p _ hcleaning hlive hdone =>
    have hnot (k : Nat) : ¬((s.set i p).phase k).Live := fun hk =>
      hclean i k hcleaning (live_of_set (fun hp => absurd hp hlive) hk)
    exact ⟨fun k hk => absurd hk (hnot k), fun _ k _ hk => hnot k hk⟩

theorem oneServer {leftover : Option Entry} (h : (sockets leftover).Reachable Exclusive s) :
    s.OneServer :=
  h.invariant ⟨fun _ => False.elim, fun _ _ => False.elim⟩
    fun _ _ _ _ hs ha hstep => hs.step ha (step_cases hstep)

theorem unlink_cleaning (h : s.step (.unlink i) = some t) : (s.phase i).Cleaning := by
  unfold step at h
  dsimp only at h
  split at h
  · next hphase _ => exact hphase ▸ trivial
  · next hphase _ => exact hphase ▸ trivial
  · next hphase => exact hphase ▸ trivial
  · cases h

/-- As long as no shim binds the path while another one is on the way to removing what it saw there,
and no probe's last connect fails while the path leads to a live server, a group has one server at
most, everyone who connects to the address reaches it, and nobody removes the socket of a server. -/
theorem one_server {leftover : Option Entry} (h : (sockets leftover).Reachable Exclusive s) :
    (∀ i, (s.phase i).Live → s.path = some (.socket (some i))) ∧
      (∀ i j, (s.phase i).Live → (s.phase j).Live → i = j) ∧
      (∀ i t, s.step (.unlink i) = some t → ∀ j, ¬(s.phase j).Live) := by
  have hs := oneServer h
  refine ⟨hs.path, fun i j hi hj => ?_, fun i t ht j hj => ?_⟩
  · have heq := (hs.path i hi).symm.trans (hs.path j hj)
    exact Option.some.inj (Entry.socket.inj (Option.some.inj heq))
  · exact hs.cleaning i j (unlink_cleaning ht) hj

/-- The second shim of a group finds the first one. -/
def joined : Sockets :=
  (sockets none).after System.Any {}
    [.start 0, .bind 0, .listen 0, .start 1, .bind 1, .connect 1 true]

theorem one_server_joined :
    joined.phase 1 = .gone (.gaveWay 0) ∧ joined.path = some (.socket (some 0)) := by
  have hbind : Exclusive (({} : Sockets).set 0 .binding) (.bind 0) := fun _ j hj hcleaning => by
    rw [set_phase_of_ne hj] at hcleaning
    exact hcleaning
  have hinUse (s : Sockets) (h : s.path ≠ none) : Exclusive s (.bind 1) :=
    fun hnone => absurd hnone h
  have hr : (sockets none).Reachable Exclusive joined :=
    ((((((Relation.ReflTransGen.refl).tail ⟨.start 0, trivial, rfl⟩).tail
      ⟨.bind 0, hbind, rfl⟩).tail ⟨.listen 0, trivial, rfl⟩).tail ⟨.start 1, trivial, rfl⟩).tail
      ⟨.bind 1, hinUse _ nofun, rfl⟩).tail ⟨.connect 1 true, trivial, rfl⟩
  exact ⟨rfl, (one_server hr).1 0 trivial⟩

/-- Containerd starts one shim of a group at a time, none while one exits, and a server answers. -/
def Sequential (s : Sockets) : SocketAction → Prop
  | .start i | .shutdown i => ∀ j, j ≠ i → ¬(s.phase j).Busy
  | .connect _ false => s.server = none
  | _ => True

def OneBusy (s : Sockets) : Prop := ∀ i j, (s.phase i).Busy → (s.phase j).Busy → i = j

theorem oneBusy_set (hs : s.OneBusy)
    (h : p.Busy → (s.phase i).Busy ∨ ∀ j, j ≠ i → ¬(s.phase j).Busy) : (s.set i p).OneBusy := by
  have hother (j : Nat) (hj : j ≠ i) (hbusy : ((s.set i p).phase j).Busy) : ¬p.Busy := fun hp => by
    rw [set_phase_of_ne hj] at hbusy
    exact (h hp).elim (fun hi => hj (hs j i hbusy hi)) fun hnone => hnone j hj hbusy
  intro j k hj hk
  by_cases hji : j = i
  · by_cases hki : k = i
    · rw [hji, hki]
    · subst hji
      rw [set_phase_self] at hj
      exact absurd hj (hother k hki hk)
  · by_cases hki : k = i
    · subst hki
      rw [set_phase_self] at hk
      exact absurd hk (hother j hji hj)
    · rw [set_phase_of_ne hji] at hj
      rw [set_phase_of_ne hki] at hk
      exact hs j k hj hk

theorem OneBusy.step (hs : s.OneBusy) (ha : Sequential s a) (h : Step s a t) : t.OneBusy := by
  cases h with
  | moves i p _ _ hbusy =>
    refine oneBusy_set hs fun hp => (hbusy hp).imp_right ?_
    rintro (rfl | rfl)
    · exact ha
    · exact ha
  | binds i _ _ hbusy => exact oneBusy_set (p := .bound) hs fun _ => .inl hbusy
  | unlinks i p _ hcleaning _ _ =>
    exact oneBusy_set (p := p) hs fun _ => .inl (Phase.Cleaning.busy hcleaning)

/-- What the shim does next, and what a connect then finds. -/
def next (s : Sockets) (i : Nat) : Option SocketAction :=
  match s.phase i with
  | .idle => some (.start i)
  | .binding | .rebinding => some (.bind i)
  | .probing _ => some (.connect i s.server.isSome)
  | .removing => some (.check i)
  | .unlinking => some (.unlink i)
  | .bound => some (.listen i)
  | _ => none

def Alone (i : Nat) (s : Sockets) (a : SocketAction) : Prop := s.next i = some a

instance (i : Nat) (s : Sockets) (a : SocketAction) : Decidable (Alone i s a) :=
  inferInstanceAs (Decidable (_ = _))

/-- Something that is not a socket stays, a server is given way to, and otherwise the shim is the
server. -/
def elected (s : Sockets) (i : Nat) : Sockets :=
  if s.path = some .file then s.set i (.gone .failed)
  else match s.server with
    | some j => s.set i (.gone (.gaveWay j))
    | none => { s.set i .serving with path := some (.socket (some i)) }

/-- What the shim knows in each phase, and what is at the path. -/
def Electing (s : Sockets) (i : Nat) : Phase → Option Entry → Prop
  | .idle, q | .binding, q => q = s.path
  | .probing n, q => 0 < n ∧ n ≤ connects ∧ q = s.path ∧ q ≠ none
  | .removing, q => q = s.path ∧ q ≠ none ∧ s.server = none
  | .unlinking, q => q = s.path ∧ (∃ owner, q = some (.socket owner)) ∧ s.server = none
  | .rebinding, q =>
    s.server = none ∧ (q = none ∧ s.path ≠ some .file ∨ q = some .file ∧ s.path = some .file)
  | .bound, q | .serving, q =>
    q = some (.socket (some i)) ∧ s.path ≠ some .file ∧ s.server = none
  | .gone (.gaveWay j), q => q = s.path ∧ s.server = some j
  | .gone .failed, q => q = s.path ∧ q = some .file
  | _, _ => False

/-- The state with the shim in the phase `p`, and `q` at the path. -/
def place (s : Sockets) (i : Nat) (p : Phase) (q : Option Entry) : Sockets :=
  { s.set i p with path := q }

variable {q : Option Entry}

@[simp] theorem place_phase : (s.place i p q).phase i = p := set_phase_self

@[simp] theorem place_path : (s.place i p q).path = q := rfl

theorem place_set {p' : Phase} : (s.place i p q).set i p' = s.place i p' q := by
  simp only [place, set, Function.update_idem]

theorem set_path {p' : Phase} {q' : Option Entry} :
    { (s.place i p q).set i p' with path := q' } = s.place i p' q' := by
  rw [place_set]
  rfl

/-- A shim that does not listen changes nothing about who does. -/
theorem place_server (hidle : s.phase i = .idle) (hp : p ≠ .serving) :
    (s.place i p s.path).server = s.server := by
  have hphase (j : Nat) : (s.place i p s.path).phase j = .serving ↔ s.phase j = .serving := by
    by_cases hj : j = i
    · subst hj
      rw [place_phase, hidle]
      exact iff_of_false hp nofun
    · rw [place, set_phase_of_ne hj]
  unfold server
  rw [place_path]
  split
  · next j _ => simp only [hphase]
  · rfl

theorem server_of_socket_none (h : s.path = none) : s.server = none := by
  rw [server, h]

theorem server_of_file (h : s.path = some .file) : s.server = none := by
  rw [server, h]

/-- The shim is through, or has a next step. -/
theorem electing_next (hidle : s.phase i = .idle) (h : s.Electing i p q) :
    s.place i p q = s.elected i ∨ ∃ a p' q', Alone i (s.place i p q) a ∧
      (s.place i p q).step a = some (s.place i p' q') ∧ s.Electing i p' q' ∧
        p'.left < p.left := by
  cases p with
  | idle =>
    refine .inr ⟨.start i, .binding, q, ?_, ?_, h, Nat.lt_succ_self _⟩
    · simp [Alone, next]
    · simp [step, place_set]
  | binding =>
    right
    obtain rfl : q = s.path := h
    cases hpath : s.path with
    | none =>
      refine ⟨.bind i, .bound, some (.socket (some i)), ?_, ?_, ?_, by decide⟩
      · simp [Alone, next]
      · simp [step, set_path]
      · exact ⟨rfl, by simp [hpath], server_of_socket_none hpath⟩
    | some e =>
      refine ⟨.bind i, .probing connects, some e, ?_, ?_, ?_, by decide⟩
      · simp [Alone, next]
      · simp [step, place_set]
      · exact ⟨by decide, Nat.le_refl _, hpath.symm, nofun⟩
  | probing n =>
    right
    obtain ⟨hpos, hle, rfl, hsome⟩ := h
    obtain ⟨n, rfl⟩ := Nat.exists_eq_succ_of_ne_zero (Nat.ne_of_gt hpos)
    have hserver := place_server hidle (p := .probing (n + 1)) nofun
    cases hs : s.server with
    | some j =>
      refine ⟨.connect i true, .gone (.gaveWay j), s.path, ?_, ?_, ⟨rfl, hs⟩, by simp [Phase.left]⟩
      · simp [Alone, next, hserver, hs]
      · simp [step, hserver, hs, place_set]
    | none =>
      refine ⟨.connect i false, if n = 0 then .removing else .probing n, s.path, ?_, ?_, ?_, ?_⟩
      · simp [Alone, next, hserver, hs]
      · simp [step, place_set]
      · split
        · exact ⟨rfl, hsome, hs⟩
        · next hn => exact ⟨Nat.pos_of_ne_zero hn, by omega, rfl, hsome⟩
      · split
        · simp [Phase.left]
        · simp [Phase.left]
  | removing =>
    right
    obtain ⟨rfl, hsome, hserver⟩ := h
    cases hpath : s.path with
    | none => exact absurd hpath hsome
    | some e =>
      cases e with
      | socket owner =>
        refine ⟨.check i, .unlinking, some (.socket owner), ?_, ?_,
          ⟨hpath.symm, ⟨owner, rfl⟩, hserver⟩, by decide⟩
        · simp [Alone, next]
        · simp [step, place_set]
      | file =>
        refine ⟨.check i, .rebinding, some .file, ?_, ?_, ⟨hserver, .inr ⟨rfl, hpath⟩⟩, by decide⟩
        · simp [Alone, next]
        · simp [step, place_set]
  | unlinking =>
    right
    obtain ⟨hpath, ⟨owner, rfl⟩, hserver⟩ := h
    refine ⟨.unlink i, .rebinding, none, ?_, ?_, ⟨hserver, .inl ⟨rfl, ?_⟩⟩, by decide⟩
    · simp [Alone, next]
    · simp [step, set_path]
    · rw [← hpath]
      nofun
  | rebinding =>
    right
    obtain ⟨hserver, ⟨rfl, hfile⟩ | ⟨rfl, hfile⟩⟩ := h
    · refine ⟨.bind i, .bound, some (.socket (some i)), ?_, ?_, ⟨rfl, hfile, hserver⟩, by decide⟩
      · simp [Alone, next]
      · simp [step, set_path]
    · refine ⟨.bind i, .gone .failed, some .file, ?_, ?_, ⟨hfile.symm, rfl⟩, by decide⟩
      · simp [Alone, next]
      · simp [step, place_set]
  | bound =>
    refine .inr ⟨.listen i, .serving, q, ?_, ?_, h, by decide⟩
    · simp [Alone, next]
    · simp [step, place_set]
  | serving =>
    left
    obtain ⟨rfl, hfile, hserver⟩ := h
    rw [elected, if_neg hfile, hserver]
    rfl
  | gone how =>
    left
    cases how with
    | gaveWay j =>
      obtain ⟨rfl, hserver⟩ := h
      have hfile : s.path ≠ some .file := fun hfile => by
        rw [server_of_file hfile] at hserver
        cases hserver
      rw [elected, if_neg hfile, hserver]
      rfl
    | failed =>
      obtain ⟨rfl, hfile⟩ := h
      rw [elected, if_pos hfile]
      rfl
    | exited => exact h.elim
    | crashed => exact h.elim
  | closing => exact h.elim
  | cleaning => exact h.elim

theorem elected_next : (s.elected i).next i = none := by
  unfold elected
  split
  · simp [next]
  · split
    · simp [next]
    · simp [next, set]

theorem place_idle (hidle : s.phase i = .idle) : s.place i .idle s.path = s := by
  simp only [place, set, ← hidle, Function.update_eq_self]

/-- Some phase of the election that `s` begins. -/
def Within (s : Sockets) (i : Nat) (u : Sockets) : Prop :=
  ∃ p q, u = s.place i p q ∧ s.Electing i p q

theorem within_step {u v : Sockets} (hidle : s.phase i = .idle) (h : s.Within i u)
    (ha : Alone i u a) (hstep : u.step a = some v) :
    s.Within i v ∧ (v.phase i).left < (u.phase i).left := by
  obtain ⟨p, q, rfl, hp⟩ := h
  obtain heq | ⟨a', p', q', ha', hstep', hp', hlt⟩ := electing_next hidle hp
  · rw [Alone, heq, elected_next] at ha
    cases ha
  · obtain rfl := Option.some.inj (ha'.symm.trans ha)
    obtain rfl := Option.some.inj (hstep'.symm.trans hstep)
    rw [place_phase, place_phase]
    exact ⟨⟨p', q', rfl, hp'⟩, hlt⟩

/-- A shim that nobody disturbs while it starts comes through `create_server_with_retry`, in 206
steps at most: it leaves alone what is not a socket, gives way to the server that listens at the
path, and else becomes the server, whatever an earlier one left behind. -/
theorem start_alone {leftover : Option Entry} (hidle : s.phase i = .idle)
    (as : List SocketAction) (t : Sockets)
    (hexec : (sockets leftover).exec (Alone i) s as = some t) :
    as.length ≤ 206 ∧
      (t = s.elected i ∨ ∃ a u, Alone i t a ∧ t.step a = some u) := by
  have hstart : s.Within i s := ⟨.idle, s.path, (place_idle hidle).symm, rfl⟩
  have hstep : ∀ u a v, s.Within i u → Alone i u a → u.step a = some v →
      s.Within i v ∧ (v.phase i).left < (u.phase i).left :=
    fun _ _ _ => within_step hidle
  obtain ⟨⟨p, q, rfl, hp⟩, hlength⟩ :=
    System.exec_length (fun u => (u.phase i).left) hstep hstart hexec
  refine ⟨?_, (electing_next hidle hp).imp_right ?_⟩
  · rw [hidle] at hlength
    exact Nat.le_of_add_right_le hlength
  · rintro ⟨a, p', q', ha, hs, -, -⟩
    exact ⟨a, _, ha, hs⟩

theorem start_alone_second :
    ∃ t : Sockets, t.phase 1 = .gone (.gaveWay 0) ∧
      (t = Sockets.elected ⟨some (.socket (some 0)), fun j => if j = 0 then .serving else .idle⟩ 1 ∨
        ∃ a u, Alone 1 t a ∧ t.step a = some u) := by
  let s : Sockets := ⟨some (.socket (some 0)), fun j => if j = 0 then .serving else .idle⟩
  refine ⟨s.set 1 (.gone (.gaveWay 0)), rfl, ?_⟩
  have hexec : (sockets none).exec (Alone 1) s [.start 1, .bind 1, .connect 1 true] =
      some (((s.set 1 .binding).set 1 (.probing 200)).set 1 (.gone (.gaveWay 0))) := rfl
  simp only [set, Function.update_idem] at hexec
  exact (start_alone rfl _ _ hexec).2

end Sockets
end RustExtensions.Shim
