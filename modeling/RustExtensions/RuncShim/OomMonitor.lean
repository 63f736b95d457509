import Mathlib.Data.List.Perm.Subperm
import RustExtensions.Lib.Transition

/-!
# Watching a container for running out of memory

`register_memory_event` has the kernel count on an eventfd and leaves a task
behind, which takes the count and sends one notice for all that it found there.
`run_oom_monitor` makes a TaskOOM event of each notice. The kernel counts once
more when the cgroup goes, and takes its files away before that.
-/
namespace RustExtensions.RuncShim

open RustExtensions.Transition

/-- What the reader sends. Nothing reads how often the kernel had counted by then. -/
structure Notice where
  key : String
  upTo : Nat
  deriving DecidableEq

/-- `TaskOOM`, with the count of its notice. -/
structure TaskOom where
  containerId : String
  upTo : Nat
  deriving DecidableEq

/-- The task of `register_memory_event`. -/
inductive OomReader where
  | awaiting
  | looking (upTo : Nat)
  | sending (upTo : Nat)
  | returned | panicked
  deriving DecidableEq

/-- The task of `run_oom_monitor`. -/
inductive OomForwarder where
  | receiving
  | sending (upTo : Nat)
  | ended
  deriving DecidableEq

/-- `told` says that the kernel has counted the end of the cgroup, and `closed` that nobody takes
the service's events any more. Nothing reads `looked`, the count at the last look that found the
control file. -/
structure OomMonitor where
  alive : Bool := true
  controlFile : Bool := true
  told : Bool := false
  ooms : Nat := 0
  counter : Nat := 0
  reader : OomReader := .awaiting
  looked : Nat := 0
  queue : List Notice := []
  forwarder : OomForwarder := .receiving
  closed : Bool := false
  events : List TaskOom := []
  deriving DecidableEq

inductive OomAction where
  | oom | remove | remake | farewell
  | read | readFails | look | send
  | recv | forward | close
  deriving DecidableEq

/-- The places of the channel between the two tasks. -/
def noticeCapacity : Nat := 128

/-- The reader's end of the channel is gone. -/
def OomReader.Gone : OomReader → Prop
  | .returned | .panicked => True
  | _ => False

instance : DecidablePred OomReader.Gone
  | .returned | .panicked => .isTrue trivial
  | .awaiting | .looking _ | .sending _ => .isFalse id

namespace OomMonitor

/-- `id` is the container's. A cgroup that another container makes at the same path has a control
file there again, and counts elsewhere. -/
def step (id : String) (m : OomMonitor) : OomAction → Option OomMonitor
  | .oom =>
    if m.alive then some { m with ooms := m.ooms + 1, counter := m.counter + 1 } else none
  | .remove => if m.alive then some { m with alive := false, controlFile := false } else none
  | .remake => if m.alive || m.controlFile then none else some { m with controlFile := true }
  | .farewell =>
    if m.alive || m.told then none else some { m with told := true, counter := m.counter + 1 }
  | .read =>
    match m.reader with
    | .awaiting =>
      if 0 < m.counter then some { m with counter := 0, reader := .looking m.ooms } else none
    | _ => none
  | .readFails =>
    match m.reader with
    | .awaiting => some { m with reader := .returned }
    | _ => none
  | .look =>
    match m.reader with
    | .looking n =>
      if m.controlFile then some { m with reader := .sending n, looked := n }
      else some { m with reader := .returned }
    | _ => none
  | .send =>
    match m.reader with
    | .sending n =>
      -- the outcome of the send is unwrapped
      if m.forwarder = .ended then some { m with reader := .panicked }
      else if m.queue.length < noticeCapacity then
        some { m with queue := m.queue ++ [{ key := id, upTo := n }], reader := .awaiting }
      else none
    | _ => none
  | .recv =>
    match m.forwarder, m.queue with
    | .receiving, x :: queue => some { m with queue, forwarder := .sending x.upTo }
    | .receiving, [] => if m.reader.Gone then some { m with forwarder := .ended } else none
    | _, _ => none
  | .forward =>
    match m.forwarder with
    | .sending n =>
      let events := if m.closed then m.events else m.events ++ [{ containerId := id, upTo := n }]
      some { m with forwarder := .receiving, events }
    | _ => none
  | .close => some { m with closed := true }

end OomMonitor

def oomMonitor (id : String) : System OomMonitor OomAction where
  init := {}
  step := OomMonitor.step id

namespace OomMonitor

variable {id : String} {m m' : OomMonitor} {a : OomAction}

/-- What a step can do. -/
inductive Step (id : String) (m : OomMonitor) : OomAction → OomMonitor → Prop
  | oom (halive : m.alive = true) :
    Step id m .oom { m with ooms := m.ooms + 1, counter := m.counter + 1 }
  | removed (halive : m.alive = true) :
    Step id m .remove { m with alive := false, controlFile := false }
  | remade (halive : m.alive = false) : Step id m .remake { m with controlFile := true }
  | farewell (halive : m.alive = false) :
    Step id m .farewell { m with told := true, counter := m.counter + 1 }
  | read (hreader : m.reader = .awaiting) (hcounter : 0 < m.counter) :
    Step id m .read { m with counter := 0, reader := .looking m.ooms }
  | readFails (hreader : m.reader = .awaiting) :
    Step id m .readFails { m with reader := .returned }
  | seen {n : Nat} (hreader : m.reader = .looking n) (hfile : m.controlFile = true) :
    Step id m .look { m with reader := .sending n, looked := n }
  | missed {n : Nat} (hreader : m.reader = .looking n) (hfile : m.controlFile = false) :
    Step id m .look { m with reader := .returned }
  | panicked {n : Nat} (hreader : m.reader = .sending n) (hended : m.forwarder = .ended) :
    Step id m .send { m with reader := .panicked }
  | sent {n : Nat} (hreader : m.reader = .sending n) (hended : m.forwarder ≠ .ended)
    (hroom : m.queue.length < noticeCapacity) : Step id m .send
      { m with queue := m.queue ++ [{ key := id, upTo := n }], reader := .awaiting }
  | received {x : Notice} {queue : List Notice} (hforwarder : m.forwarder = .receiving)
    (hqueue : m.queue = x :: queue) :
    Step id m .recv { m with queue, forwarder := .sending x.upTo }
  | ended (hforwarder : m.forwarder = .receiving) (hqueue : m.queue = [])
    (hgone : m.reader.Gone) : Step id m .recv { m with forwarder := .ended }
  | forwarded {n : Nat} (hforwarder : m.forwarder = .sending n) (hclosed : m.closed = false) :
    Step id m .forward { m with
      forwarder := .receiving, events := m.events ++ [{ containerId := id, upTo := n }] }
  | dropped {n : Nat} (hforwarder : m.forwarder = .sending n) (hclosed : m.closed = true) :
    Step id m .forward { m with forwarder := .receiving }
  | closed : Step id m .close { m with closed := true }

theorem step_cases (h : m.step id a = some m') : Step id m a m' := by
  cases a with
  | oom =>
    obtain ⟨halive, h⟩ := Option.ite_none_right_eq_some.mp h
    obtain rfl := Option.some.inj h
    exact .oom halive
  | remove =>
    obtain ⟨halive, h⟩ := Option.ite_none_right_eq_some.mp h
    obtain rfl := Option.some.inj h
    exact .removed halive
  | remake =>
    obtain ⟨hor, h⟩ := Option.ite_none_left_eq_some.mp h
    obtain rfl := Option.some.inj h
    exact .remade (by simp_all)
  | farewell =>
    obtain ⟨hor, h⟩ := Option.ite_none_left_eq_some.mp h
    obtain rfl := Option.some.inj h
    exact .farewell (by simp_all)
  | read =>
    unfold step at h
    dsimp only at h
    split at h
    · next hreader =>
      obtain ⟨hcounter, h⟩ := Option.ite_none_right_eq_some.mp h
      obtain rfl := Option.some.inj h
      exact .read hreader hcounter
    · cases h
  | readFails =>
    unfold step at h
    dsimp only at h
    split at h
    · next hreader =>
      obtain rfl := Option.some.inj h
      exact .readFails hreader
    · cases h
  | look =>
    unfold step at h
    dsimp only at h
    split at h
    · next n hreader =>
      split at h
      · next hfile =>
        obtain rfl := Option.some.inj h
        exact .seen hreader hfile
      · next hfile =>
        obtain rfl := Option.some.inj h
        exact .missed hreader (eq_false_of_ne_true hfile)
    · cases h
  | send =>
    unfold step at h
    dsimp only at h
    split at h
    · next n hreader =>
      split at h
      · next hended =>
        obtain rfl := Option.some.inj h
        exact .panicked hreader hended
      · next hended =>
        obtain ⟨hroom, h⟩ := Option.ite_none_right_eq_some.mp h
        obtain rfl := Option.some.inj h
        exact .sent hreader hended hroom
    · cases h
  | recv =>
    unfold step at h
    dsimp only at h
    split at h
    · next x queue hforwarder hqueue =>
      obtain rfl := Option.some.inj h
      exact .received hforwarder hqueue
    · next hforwarder hqueue =>
      obtain ⟨hgone, h⟩ := Option.ite_none_right_eq_some.mp h
      obtain rfl := Option.some.inj h
      exact .ended hforwarder hqueue hgone
    · cases h
  | forward =>
    unfold step at h
    dsimp only at h
    split at h
    · next n hforwarder =>
      obtain rfl := Option.some.inj h
      split
      · next hclosed => exact .dropped hforwarder hclosed
      · next hclosed => exact .forwarded hforwarder (eq_false_of_ne_true hclosed)
    · cases h
  | close =>
    obtain rfl := Option.some.inj h
    exact .closed

/-! ## The counts on their way -/

/-- No cgroup is made at the path of the one that is watched. -/
def Unmade (_ : OomMonitor) (a : OomAction) : Prop := a ≠ .remake

instance (m : OomMonitor) (a : OomAction) : Decidable (Unmade m a) :=
  inferInstanceAs (Decidable (_ ≠ _))

variable {ok : OomMonitor → OomAction → Prop}

/-- The receiving end of the channel goes last, when there is nothing left in it. -/
structure Open (m : OomMonitor) : Prop where
  gone : m.forwarder = .ended → m.reader.Gone
  drained : m.forwarder = .ended → m.queue = []
  sound : m.reader ≠ .panicked

theorem Open.step (h : m.Open) (hs : Step id m a m') : m'.Open := by
  have hlive {r : OomReader} (hr : m.reader = r) (hgone : ¬r.Gone) : m.forwarder ≠ .ended :=
    fun hended => hgone (hr ▸ h.gone hended)
  cases hs with
  | read hreader | sent hreader | seen hreader =>
    have hne := hlive hreader (fun hgone => hgone)
    exact ⟨fun hended => absurd hended hne, fun hended => absurd hended hne, nofun⟩
  | readFails | missed => exact ⟨fun _ => trivial, h.drained, nofun⟩
  | panicked hreader hended => exact absurd hended (hlive hreader (fun hgone => hgone))
  | received | forwarded | dropped => exact ⟨nofun, nofun, h.sound⟩
  | ended hforwarder hqueue hgone => exact ⟨fun _ => hgone, fun _ => hqueue, h.sound⟩
  | _ => exact ⟨h.gone, h.drained, h.sound⟩

theorem reachable_open (h : (oomMonitor id).Reachable ok m) : m.Open := by
  have hinit : Open {} := ⟨nofun, nofun, nofun⟩
  refine h.invariant hinit ?_
  intro m a m' _ ih _ hstep
  exact ih.step (step_cases hstep)

def reading (m : OomMonitor) : List Nat :=
  match m.reader with
  | .sending n => [n]
  | _ => []

def forwarding (m : OomMonitor) : List Nat :=
  match m.forwarder with
  | .sending n => [n]
  | _ => []

/-- The counts of the looks that found the control file, as far as their events were not dropped. -/
def noticed (m : OomMonitor) : List Nat :=
  m.events.map (·.upTo) ++ m.forwarding ++ m.queue.map (·.upTo) ++ m.reading

/-- A look that finds the file adds its count. Nothing else changes the counts, but for an event
that nobody takes. -/
theorem noticed_step (hopen : m.Open) (hs : Step id m a m') :
    (∃ n, m.reader = .looking n ∧ m.controlFile = true ∧ m'.noticed = m.noticed ++ [n] ∧
      m' = { m with reader := .sending n, looked := n }) ∨
    m'.noticed.Sublist m.noticed ∧ m'.looked = m.looked ∧
      (m.closed = false → m'.noticed = m.noticed) := by
  have hsame (h : m'.noticed = m.noticed) (hlooked : m'.looked = m.looked) :
      m'.noticed.Sublist m.noticed ∧ m'.looked = m.looked ∧
        (m.closed = false → m'.noticed = m.noticed) :=
    ⟨h ▸ List.Sublist.refl _, hlooked, fun _ => h⟩
  cases hs with
  | seen hreader hfile =>
    exact .inl ⟨_, hreader, hfile, by simp [noticed, reading, forwarding, hreader], rfl⟩
  | read hreader | readFails hreader | missed hreader | sent hreader =>
    exact .inr (hsame (by simp [noticed, reading, forwarding, hreader]) rfl)
  | panicked hreader hended =>
    have hgone := hopen.gone hended
    rw [hreader] at hgone
    exact hgone.elim
  | received hforwarder hqueue =>
    exact .inr (hsame (by simp [noticed, reading, forwarding, hforwarder, hqueue]) rfl)
  | ended hforwarder | forwarded hforwarder =>
    exact .inr (hsame (by simp [noticed, reading, forwarding, hforwarder]) rfl)
  | dropped hforwarder hclosed =>
    refine .inr ⟨?_, rfl, fun hfalse => nomatch hfalse.symm.trans hclosed⟩
    simp [noticed, reading, forwarding, hforwarder]
  | _ => exact .inr (hsame rfl rfl)

/-- The count that the reader took last, where the cgroup was there then. -/
def latest (m : OomMonitor) : Nat :=
  match m.reader with
  | .looking n => n
  | _ => m.looked

/-- The kernel's counter holds what was counted since the last read. -/
structure Counts (m : OomMonitor) : Prop where
  file : m.controlFile = m.alive
  counter : m.alive = true → m.latest + m.counter = m.ooms
  looked : m.looked ≤ m.ooms
  more : ∀ n, m.reader = .looking n → m.alive = true → m.looked < n

theorem Counts.step (h : m.Counts) (ha : a ≠ .remake) (hs : Step id m a m') : m'.Counts := by
  cases hs with
  | oom halive =>
    exact ⟨h.file, fun halive => congrArg Nat.succ (h.counter halive), Nat.le_succ_of_le h.looked,
      h.more⟩
  | removed => exact ⟨rfl, nofun, h.looked, nofun⟩
  | remade => exact absurd rfl ha
  | farewell halive =>
    have hdead : m.alive ≠ true := ne_true_of_eq_false halive
    exact ⟨h.file, fun htrue => absurd htrue hdead, h.looked, h.more⟩
  | read hreader hcounter =>
    have hlatest : m.latest = m.looked := by rw [latest, hreader]
    refine ⟨h.file, fun _ => rfl, h.looked, fun n hn halive => ?_⟩
    obtain rfl := OomReader.looking.inj hn
    have hsum := h.counter halive
    dsimp only
    omega
  | @seen n hreader hfile =>
    have halive := h.file.symm.trans hfile
    have hsum := h.counter halive
    have hlatest : m.latest = n := by rw [latest, hreader]
    refine ⟨h.file, fun _ => hlatest ▸ hsum, ?_, nofun⟩
    dsimp only
    omega
  | missed hreader hfile =>
    have hdead : m.alive ≠ true := ne_true_of_eq_false (h.file.symm.trans hfile)
    exact ⟨h.file, fun htrue => absurd htrue hdead, h.looked, nofun⟩
  | readFails hreader | panicked hreader | sent hreader =>
    have hlatest : m.latest = m.looked := by rw [latest, hreader]
    exact ⟨h.file, fun halive => hlatest ▸ h.counter halive, h.looked, nofun⟩
  | _ => exact ⟨h.file, h.counter, h.looked, h.more⟩

theorem counts (h : (oomMonitor id).Reachable Unmade m) : m.Counts := by
  have hinit : Counts {} := ⟨rfl, fun _ => rfl, Nat.le_refl _, nofun⟩
  refine h.invariant hinit ?_
  intro m a m' _ ih ha hstep
  exact ih.step ha (step_cases hstep)

/-- Each notice is for more than the one before it. -/
structure Ordered (m : OomMonitor) : Prop where
  looked : ∀ n ∈ m.noticed, 0 < n ∧ n ≤ m.looked
  sorted : m.noticed.Pairwise (· < ·)

theorem Ordered.step (h : m.Ordered) (hcounts : m.Counts) (hopen : m.Open)
    (hs : Step id m a m') : m'.Ordered := by
  obtain ⟨n, hreader, hfile, hnoticed, rfl⟩ | ⟨hsub, hlooked, -⟩ := noticed_step hopen hs
  · have hmore := hcounts.more n hreader (hcounts.file.symm.trans hfile)
    constructor
    · rw [hnoticed]
      intro k hk
      obtain hk | hk := List.mem_append.mp hk
      · obtain ⟨hpos, hle⟩ := h.looked k hk
        exact ⟨hpos, Nat.le_trans hle (Nat.le_of_lt hmore)⟩
      · obtain rfl := List.mem_singleton.mp hk
        exact ⟨Nat.zero_lt_of_lt hmore, Nat.le_refl _⟩
    · rw [hnoticed, List.pairwise_append]
      refine ⟨h.sorted, List.pairwise_singleton .., fun k hk j hj => ?_⟩
      obtain rfl := List.mem_singleton.mp hj
      exact Nat.lt_of_le_of_lt (h.looked k hk).2 hmore
  · constructor
    · rw [hlooked]
      exact fun n hn => h.looked n (hsub.subset hn)
    · exact h.sorted.sublist hsub

theorem ordered (h : (oomMonitor id).Reachable Unmade m) : m.Ordered := by
  have hinit : Ordered {} := ⟨nofun, .nil⟩
  refine h.invariant hinit ?_
  intro m a m' hr ih _ hstep
  exact ih.step (counts hr) (reachable_open hr) (step_cases hstep)

theorem named (h : (oomMonitor id).Reachable ok m) : ∀ e ∈ m.events, e.containerId = id := by
  refine h.invariant (P := fun m => ∀ e ∈ m.events, e.containerId = id) nofun ?_
  intro m a m' _ ih _ hstep e he
  cases step_cases hstep with
  | forwarded =>
    obtain he | he := List.mem_append.mp he
    · exact ih e he
    · obtain rfl := List.mem_singleton.mp he
      rfl
  | _ => exact ih e he

/-- Numbers from one to `n` in strict order are `n` at most. -/
theorem length_le_of_sorted {l : List Nat} {n : Nat} (hsorted : l.Pairwise (· < ·))
    (hl : ∀ k ∈ l, 0 < k ∧ k ≤ n) : l.length ≤ n := by
  have hsub : l ⊆ List.range' 1 n := fun k hk =>
    List.mem_range'_1.mpr ⟨(hl k hk).1, Nat.lt_of_le_of_lt (hl k hk).2 (by omega)⟩
  have hnodup : l.Nodup := hsorted.imp fun hlt => Nat.ne_of_lt hlt
  simpa using (hnodup.subperm hsub).length_le

/-- Each event is for times out of memory of its own: there are no more events than the kernel
counted, each is for more than the one before it, and the reader does not panic on its send. -/
theorem events_for_ooms (h : (oomMonitor id).Reachable Unmade m) :
    m.events.length ≤ m.ooms ∧ (m.events.map (·.upTo)).Pairwise (· < ·) ∧
      (∀ e ∈ m.events, e.containerId = id ∧ 0 < e.upTo ∧ e.upTo ≤ m.ooms) ∧
      m.reader ≠ .panicked := by
  have hevents : (m.events.map (·.upTo)).Sublist m.noticed := by
    rw [noticed, List.append_assoc, List.append_assoc]
    exact List.sublist_append_left ..
  have hsorted := (ordered h).sorted.sublist hevents
  have hooms : ∀ n ∈ m.events.map (·.upTo), 0 < n ∧ n ≤ m.ooms := by
    intro n hn
    obtain ⟨hpos, hle⟩ := (ordered h).looked n (hevents.subset hn)
    exact ⟨hpos, Nat.le_trans hle (counts h).looked⟩
  refine ⟨?_, hsorted, fun e he => ⟨named h e he, hooms _ (List.mem_map_of_mem he)⟩,
    (reachable_open h).sound⟩
  simpa using length_le_of_sorted hsorted hooms

/-! ## At rest -/

/-- What the tasks do by themselves, and what the kernel owes to one that waits. -/
def ownActions : List OomAction := [.farewell, .read, .look, .send, .recv, .forward]

def AtRest (id : String) (m : OomMonitor) : Prop := ∀ a ∈ ownActions, m.step id a = none

instance : Decidable (m.AtRest id) := inferInstanceAs (Decidable (∀ _ ∈ _, _))

/-- No cgroup is made at the path, the eventfd can be read, and the service's events are taken. -/
def Undisturbed (_ : OomMonitor) (a : OomAction) : Prop :=
  a ≠ .remake ∧ a ≠ .readFails ∧ a ≠ .close

instance (m : OomMonitor) (a : OomAction) : Decidable (Undisturbed m a) :=
  inferInstanceAs (Decidable (_ ∧ _))

/-- What a reader is told of the end of its cgroup waits for it, and it returns for nothing else. -/
structure Heard (m : OomMonitor) : Prop where
  dead : m.told = true → m.alive = false
  awake : m.told = true → m.reader = .awaiting ∨ (∃ n, m.reader = .sending n) → 0 < m.counter
  gone : m.reader = .returned → m.alive = false

theorem Heard.step (h : m.Heard) (hcounts : m.Counts) (ha : Undisturbed m a)
    (hs : Step id m a m') : m'.Heard := by
  cases hs with
  | oom halive => exact ⟨h.dead, fun _ _ => Nat.succ_pos _, h.gone⟩
  | removed => exact ⟨fun _ => rfl, h.awake, fun _ => rfl⟩
  | remade => exact absurd rfl ha.1
  | farewell halive => exact ⟨fun _ => halive, fun _ _ => Nat.succ_pos _, h.gone⟩
  | read => exact ⟨h.dead, nofun, nofun⟩
  | readFails => exact absurd rfl ha.2.1
  | seen hreader hfile =>
    have halive : m.alive ≠ false := ne_false_of_eq_true (hcounts.file.symm.trans hfile)
    exact ⟨h.dead, fun htold => absurd (h.dead htold) halive, nofun⟩
  | missed hreader hfile => exact ⟨h.dead, nofun, fun _ => hcounts.file.symm.trans hfile⟩
  | panicked => exact ⟨h.dead, nofun, nofun⟩
  | @sent n hreader => exact ⟨h.dead, fun htold _ => h.awake htold (.inr ⟨n, hreader⟩), nofun⟩
  | closed => exact absurd rfl ha.2.2
  | _ => exact ⟨h.dead, h.awake, h.gone⟩

theorem reachable_unmade (h : (oomMonitor id).Reachable Undisturbed m) :
    (oomMonitor id).Reachable Unmade m :=
  h.mono fun _ _ ha => ha.1

theorem heard (h : (oomMonitor id).Reachable Undisturbed m) : m.Heard := by
  have hinit : Heard {} := ⟨nofun, nofun, nofun⟩
  refine h.invariant hinit ?_
  intro m a m' hr ih ha hstep
  exact ih.step (counts (reachable_unmade hr)) ha (step_cases hstep)

/-- The last look that found the control file is not lost. -/
theorem looked_mem (h : (oomMonitor id).Reachable Undisturbed m) :
    m.closed = false ∧ (0 < m.looked → m.looked ∈ m.noticed) := by
  refine h.invariant (P := fun m => m.closed = false ∧ (0 < m.looked → m.looked ∈ m.noticed))
    ⟨rfl, fun hpos => absurd hpos (Nat.lt_irrefl 0)⟩ ?_
  intro m a m' hr ih ha hstep
  obtain ⟨hclosed, hlooked⟩ := ih
  have hs := step_cases hstep
  refine ⟨?_, ?_⟩
  · cases hs with
    | closed => exact absurd rfl ha.2.2
    | _ => exact hclosed
  · obtain ⟨n, -, -, hnoticed, rfl⟩ | ⟨-, heq, hsame⟩ := noticed_step (reachable_open hr) hs
    · intro _
      rw [hnoticed]
      exact List.mem_append_right _ (List.mem_singleton_self n)
    · rw [heq, hsame hclosed]
      exact hlooked

/-- At rest nothing is left in the channel. -/
theorem forwarder_atRest (hopen : m.Open) (hrest : m.AtRest id) :
    m.queue = [] ∧ m.forwarding = [] ∧
      (m.forwarder = .receiving ∧ ¬m.reader.Gone ∨ m.forwarder = .ended) := by
  have hrecv := hrest .recv (by decide)
  have hforward := hrest .forward (by decide)
  unfold step at hrecv hforward
  cases hforwarder : m.forwarder with
  | receiving =>
    cases hqueue : m.queue with
    | nil =>
      simp only [hforwarder, hqueue, ite_eq_right_iff, reduceCtorEq, imp_false] at hrecv
      exact ⟨rfl, by rw [forwarding, hforwarder], .inl ⟨rfl, hrecv⟩⟩
    | cons x queue => simp [hforwarder, hqueue] at hrecv
  | sending n => simp [hforwarder] at hforward
  | ended => exact ⟨hopen.drained hforwarder, by rw [forwarding, hforwarder], .inr rfl⟩

/-- At rest the reader waits for the kernel to count, or it has returned. -/
theorem reader_atRest (hopen : m.Open) (hrest : m.AtRest id) :
    m.reader = .awaiting ∧ m.counter = 0 ∨ m.reader = .returned := by
  obtain ⟨hqueue, -, -⟩ := forwarder_atRest hopen hrest
  cases hreader : m.reader with
  | awaiting =>
    have hread := hrest .read (by decide)
    simp only [step, hreader, ite_eq_right_iff, reduceCtorEq, imp_false] at hread
    exact .inl ⟨rfl, Nat.eq_zero_of_not_pos hread⟩
  | looking n =>
    have hlook := hrest .look (by decide)
    simp only [step, hreader] at hlook
    split at hlook <;> cases hlook
  | sending n =>
    have hsend := hrest .send (by decide)
    simp only [step, hreader, hqueue] at hsend
    split at hsend <;> cases hsend
  | returned => exact .inr rfl
  | panicked => exact absurd hreader hopen.sound

/-- At rest every time out of memory up to the last look is reported. While the cgroup is there
these are all, and when it is gone both tasks have ended. -/
theorem ooms_reported (h : (oomMonitor id).Reachable Undisturbed m) (hrest : m.AtRest id) :
    (∀ n, 0 < n → n ≤ m.looked → ∃ e ∈ m.events, n ≤ e.upTo) ∧
      (m.alive = true ∧ m.looked = m.ooms ∨
        m.alive = false ∧ m.reader = .returned ∧ m.forwarder = .ended) := by
  have hopen := reachable_open h
  have hheard := heard h
  obtain ⟨hqueue, hforwarding, hforwarder⟩ := forwarder_atRest hopen hrest
  have hreader := reader_atRest hopen hrest
  have hreading : m.reading = [] := by
    obtain ⟨hr, -⟩ | hr := hreader <;> rw [reading, hr]
  have hnoticed : m.noticed = m.events.map (·.upTo) := by
    simp [noticed, hqueue, hforwarding, hreading]
  refine ⟨fun n hpos hle => ?_, ?_⟩
  · have hmem := (looked_mem h).2 (Nat.lt_of_lt_of_le hpos hle)
    rw [hnoticed] at hmem
    obtain ⟨e, he, heq⟩ := List.mem_map.mp hmem
    exact ⟨e, he, heq ▸ hle⟩
  · obtain ⟨hr, hcounter⟩ | hr := hreader
    · -- a reader that waits has not been told of an end
      have halive : m.alive = true := by
        by_contra hdead
        have hfarewell := hrest .farewell (by decide)
        have htold : m.told = true := by
          simpa [step, eq_false_of_ne_true hdead] using hfarewell
        have hpos := hheard.awake htold (.inl hr)
        omega
      have hsum := (counts (reachable_unmade h)).counter halive
      rw [latest, hr, hcounter] at hsum
      exact .inl ⟨halive, hsum⟩
    · refine .inr ⟨hheard.gone hr, hr, ?_⟩
      obtain ⟨-, hgone⟩ | hended := hforwarder
      · rw [hr] at hgone
        exact absurd trivial hgone
      · exact hended

/-! ## Coming to rest -/

def readerLeft : OomReader → Nat
  | .awaiting | .returned | .panicked => 0
  | .sending _ => 3
  | .looking _ => 4

def forwarderLeft : OomForwarder → Nat
  | .ended => 0
  | .receiving => 1
  | .sending _ => 2

/-- How many steps the tasks have left at most. -/
def left (m : OomMonitor) : Nat :=
  2 * m.queue.length + readerLeft m.reader + forwarderLeft m.forwarder +
    (if 0 < m.counter then 5 else 0) + (if m.told then 0 else 6)

def Own (_ : OomMonitor) (a : OomAction) : Prop := a ∈ ownActions

instance (m : OomMonitor) (a : OomAction) : Decidable (Own m a) :=
  inferInstanceAs (Decidable (_ ∈ _))

theorem left_lt (ha : Own m a) (h : m.step id a = some m') : m'.left < m.left := by
  have hs := step_cases h
  cases hs with
  | farewell halive =>
    have htold : m.told = false := by
      obtain ⟨hor, -⟩ := Option.ite_none_left_eq_some.mp h
      simpa [halive] using hor
    have hcounter : (if 0 < m.counter + 1 then 5 else 0) ≤ 5 := by split <;> omega
    simp only [left, htold, if_true, Bool.false_eq_true, if_false]
    omega
  | read hreader hcounter =>
    simp only [left, readerLeft, hreader, hcounter, if_true, Nat.lt_irrefl, if_false]
    omega
  | seen hreader | missed hreader | panicked hreader => simp [left, readerLeft, hreader]
  | sent hreader =>
    simp only [left, readerLeft, hreader, List.length_append, List.length_singleton]
    omega
  | received hforwarder hqueue =>
    simp only [left, forwarderLeft, hforwarder, hqueue, List.length_cons]
    omega
  | ended hforwarder | forwarded hforwarder | dropped hforwarder =>
    simp [left, forwarderLeft, hforwarder]
  | oom | removed | remade | readFails | closed => simp [Own, ownActions] at ha

/-- Left to themselves the tasks come to rest: they take two steps at most for each notice in the
channel, and seventeen. -/
theorem watch_comes_to_rest (id : String) (m : OomMonitor) :
    (∀ as t, (oomMonitor id).exec Own m as = some t → as.length ≤ 2 * m.queue.length + 17) ∧
      ∃ t, (oomMonitor id).Run Own m t ∧ t.AtRest id := by
  have hstep : ∀ u a v, True → Own u a → (oomMonitor id).step u a = some v →
      True ∧ v.left < u.left := fun _ _ _ _ ha hs => ⟨trivial, left_lt ha hs⟩
  constructor
  · intro as t hexec
    obtain ⟨-, hlength⟩ := System.exec_length left hstep trivial hexec
    have hreader : readerLeft m.reader ≤ 4 := by unfold readerLeft; split <;> omega
    have hforwarder : forwarderLeft m.forwarder ≤ 2 := by unfold forwarderLeft; split <;> omega
    have hleft : m.left ≤ 2 * m.queue.length + 17 := by
      unfold left
      split <;> split <;> omega
    omega
  · have hrun : ∃ t, (oomMonitor id).Run Own m t ∧ True ∧ t.AtRest id := by
      refine System.exists_run left ?_ trivial
      intro u _
      by_cases hrest : u.AtRest id
      · exact .inl hrest
      · obtain ⟨a, ha⟩ := not_forall.mp hrest
        obtain ⟨ha, hs⟩ := Classical.not_imp.mp ha
        obtain ⟨v, hv⟩ := Option.ne_none_iff_exists'.mp hs
        exact .inr ⟨v, ⟨a, ha, hv⟩, trivial, left_lt ha hv⟩
    obtain ⟨t, hrun, -, hrest⟩ := hrun
    exact ⟨t, hrun, hrest⟩

/-! ## A container that runs out of memory twice -/

def watchedRun : List OomAction :=
  [.oom, .oom, .read, .look, .oom, .send, .recv, .forward, .read, .look, .send, .recv, .forward]

def watched : OomMonitor := (oomMonitor "c").after Undisturbed {} watchedRun

theorem events_for_ooms_watched : watched.events.length ≤ watched.ooms ∧
    watched.events.map (·.upTo) = [2, 3] := by
  have hreach : (oomMonitor "c").Reachable Unmade watched :=
    reachable_unmade (System.run_after (by decide +kernel))
  exact ⟨(events_for_ooms hreach).1, by decide +kernel⟩

theorem ooms_reported_watched : ∃ e ∈ watched.events, 3 ≤ e.upTo := by
  have hreach : (oomMonitor "c").Reachable Undisturbed watched :=
    System.run_after (by decide +kernel)
  exact (ooms_reported hreach (by decide +kernel)).1 3 (by decide) (by decide +kernel)

end OomMonitor
end RustExtensions.RuncShim
