import Mathlib.Data.List.Sort
import RustExtensions.RuncShim.EventOrder
import RustExtensions.Shim.PublishOrder

/-!
# From the service to containerd

The task behind `forward` takes the events out of the service's channel one
after the other, and has each of them published before it takes the next.
-/
namespace RustExtensions.RuncShim

open RustExtensions.Shim
open RustExtensions.Transition

/-- `Event::topic`. -/
def topic : Event → String
  | .taskCreate .. => "/tasks/create"
  | .taskStart .. => "/tasks/start"
  | .taskExecAdded .. => "/tasks/exec-added"
  | .taskExecStarted .. => "/tasks/exec-started"
  | .taskPaused .. => "/tasks/paused"
  | .taskResumed .. => "/tasks/resumed"
  | .taskExit .. => "/tasks/exit"
  | .taskDelete .. => "/tasks/delete"

/-- A shim and the publisher that `forward` was given. -/
structure Forwarding where
  service : Shim := {}
  remote : Publisher := {}
  /-- How many events the loop has taken from the channel. -/
  taken : Nat := 0
  /-- Those of them that `publish` found an envelope for. -/
  passed : List Published := []

inductive ForwardAction where
  | serve (a : Action)
  | take (timestamp : Option Timestamp)
  | send (a : PublisherAction)

namespace Forwarding

/-- The loop awaits `publish`: no event waits for a place in the publisher's queue but those that
are put back. -/
def Awaits (c : Forwarding) : Prop := ∀ x ∈ c.remote.channel.sends, x.name ∈ c.remote.failed

instance (c : Forwarding) : Decidable c.Awaits := inferInstanceAs (Decidable (∀ _ ∈ _, _))

section Encoding

-- the namespace of the service, and how an event is put into an Any
variable (ns : String) (convertToAny : Event → Option Any)

/-- What `publish` makes of an event, which takes a clock that does not stand before the epoch. -/
def envelope (timestamp : Option Timestamp) (event : Event) : Option Envelope := do
  let timestamp ← timestamp
  let any ← convertToAny event
  return { topic := topic event, ns := ns, timestamp := timestamp, event := any }

/-- An error of `publish` is logged, and the loop goes on. -/
def step (c : Forwarding) : ForwardAction → Option Forwarding
  | .serve a => (c.service.step a).map fun service => { c with service }
  | .take timestamp =>
    if c.Awaits then
      match c.service.sent[c.taken]? with
      | some p =>
        match envelope ns convertToAny timestamp p.event with
        | some ev => (c.remote.step (.publish ev)).map fun remote =>
          { c with remote, taken := c.taken + 1, passed := c.passed ++ [p] }
        | none => some { c with taken := c.taken + 1 }
      | none => none
    else none
  | .send (.publish _) => none
  | .send a => (c.remote.step a).map fun remote => { c with remote }

end Encoding

/-- The events that containerd was forwarded at the first try, in the order it got them. -/
def firstTries (c : Forwarding) : List Published :=
  (Publisher.untried c.remote.failed c.remote.forwarded).filterMap (c.passed[·]?)

/-- The service meets `ok`. -/
def When (ok : Shim → Action → Prop) (c : Forwarding) : ForwardAction → Prop
  | .serve a => ok c.service a
  | _ => True

instance (ok : Shim → Action → Prop) [∀ s a, Decidable (ok s a)] (c : Forwarding)
    (a : ForwardAction) : Decidable (When ok c a) := by
  cases a <;> unfold When <;> infer_instance

end Forwarding

def forward (ns : String) (convertToAny : Event → Option Any) :
    System Forwarding ForwardAction where
  init := {}
  step := Forwarding.step ns convertToAny

namespace Forwarding

variable {ns : String} {convertToAny : Event → Option Any} {ok : Shim → Action → Prop}
  {ok' : Forwarding → ForwardAction → Prop} {c c' : Forwarding} {a : ForwardAction}

/-- What a step of the loop, of the service or of the publisher does. -/
inductive Step (ns : String) (convertToAny : Event → Option Any) (c : Forwarding) :
    ForwardAction → Forwarding → Prop
  | served {a : Action} {service : Shim} (hstep : c.service.step a = some service) :
    Step ns convertToAny c (.serve a) { c with service }
  | passed {timestamp : Option Timestamp} {p : Published} {ev : Envelope} {remote : Publisher}
    (hawaits : c.Awaits) (hp : c.service.sent[c.taken]? = some p)
    (hev : envelope ns convertToAny timestamp p.event = some ev)
    (hstep : c.remote.step (.publish ev) = some remote) :
    Step ns convertToAny c (.take timestamp)
      { c with remote, taken := c.taken + 1, passed := c.passed ++ [p] }
  | skipped {timestamp : Option Timestamp} {p : Published}
    (hp : c.service.sent[c.taken]? = some p)
    (hev : envelope ns convertToAny timestamp p.event = none) :
    Step ns convertToAny c (.take timestamp) { c with taken := c.taken + 1 }
  | sent {a : PublisherAction} {remote : Publisher} (ha : ∀ ev, a ≠ .publish ev)
    (hstep : c.remote.step a = some remote) : Step ns convertToAny c (.send a) { c with remote }

theorem step_cases (h : c.step ns convertToAny a = some c') : Step ns convertToAny c a c' := by
  cases a with
  | serve b =>
    obtain ⟨service, hstep, rfl⟩ := Option.map_eq_some_iff.mp h
    exact .served hstep
  | take timestamp =>
    obtain ⟨hawaits, h⟩ := Option.ite_none_right_eq_some.mp h
    split at h
    · next p hp =>
      split at h
      · next ev hev =>
        obtain ⟨remote, hstep, rfl⟩ := Option.map_eq_some_iff.mp h
        exact .passed hawaits hp hev hstep
      · next hev =>
        obtain rfl := Option.some.inj h
        exact .skipped hp hev
    · cases h
  | send b =>
    have hsend : (∀ ev, b ≠ .publish ev) ∧
        (c.remote.step b).map (fun remote => { c with remote }) = some c' := by
      cases b with
      | publish ev => cases h
      | _ => exact ⟨nofun, h⟩
    obtain ⟨remote, hstep, rfl⟩ := Option.map_eq_some_iff.mp hsend.2
    exact .sent hsend.1 hstep

theorem reachable_service (h : (forward ns convertToAny).Reachable (When ok) c) :
    shim.Reachable ok c.service := by
  refine System.Reachable.map Forwarding.service rfl ?_ h
  intro c a c' _ ha hstep
  cases step_cases hstep with
  | served hb => exact System.Run.single ha hb
  | passed => exact System.Run.refl _
  | skipped => exact System.Run.refl _
  | sent => exact System.Run.refl _

theorem reachable_remote (h : (forward ns convertToAny).Reachable ok' c) :
    publisher.Reachable Publisher.InTurn c.remote := by
  refine System.Reachable.map Forwarding.remote rfl ?_ h
  intro c a c' _ _ hstep
  cases step_cases hstep with
  | served => exact System.Run.refl _
  | passed hawaits hp hev hb =>
    exact System.Run.single (a := PublisherAction.publish _) hawaits hb
  | skipped => exact System.Run.refl _
  | @sent b remote hb hmove =>
    refine System.Run.single ?_ hmove
    cases b with
    | publish ev => exact absurd rfl (hb ev)
    | _ => trivial

/-- An envelope that `publish` made of an event. -/
def Carries (ns : String) (convertToAny : Event → Option Any) (ev : Envelope) (p : Published) :
    Prop :=
  ∃ timestamp, envelope ns convertToAny timestamp p.event = some ev

/-- The events are published in the order of the channel. -/
structure Copied (ns : String) (convertToAny : Event → Option Any) (c : Forwarding) : Prop where
  passed : c.passed.Sublist (c.service.sent.take c.taken)
  published : List.Forall₂ (Carries ns convertToAny) c.remote.published c.passed

theorem publish_published {p p' : Publisher} {ev : Envelope}
    (h : p.step (.publish ev) = some p') : p'.published = p.published ++ [ev] := by
  obtain ⟨q, hmove, rfl⟩ := Option.map_eq_some_iff.mp h
  obtain rfl := Option.some.inj hmove
  rfl

theorem other_published {p p' : Publisher} {b : PublisherAction} (h : p.step b = some p')
    (hb : ∀ ev, b ≠ .publish ev) : p'.published = p.published := by
  obtain ⟨q, hmove, rfl⟩ := Option.map_eq_some_iff.mp h
  exact (Publisher.published_of_move hmove hb : q.published = p.published)

theorem sent_prefix {s s' : Shim} {b : Action} (h : Shim.Step s b s') : s.sent <+: s'.sent := by
  cases h with
  | @handled rid req ans n t hpump hnew hfresh hn => cases n <;> exact List.prefix_rfl
  | send hc => exact List.prefix_append _ _
  | published hpump => exact List.prefix_append _ _
  | failed hpump hnew hfresh hq => exact List.prefix_rfl
  | unregister hpump hc => exact List.prefix_rfl
  | drained hc hd => exact List.prefix_rfl
  | undeleted hc hd => exact List.prefix_rfl
  | woken hpump hc hrx hr hq => exact List.prefix_rfl
  | lost hpump hc hrx hq => exact List.prefix_rfl
  | exited hsub hpump hhit => exact List.prefix_rfl
  | ignored hpump htable hfiles habsent => exact List.prefix_rfl

theorem take_succ_of_getElem? {l : List Published} {n : Nat} {p : Published}
    (h : l[n]? = some p) : l.take (n + 1) = l.take n ++ [p] := by
  rw [List.take_add_one, h, Option.toList_some]

theorem Copied.step (h : c.Copied ns convertToAny) (hs : Step ns convertToAny c a c') :
    c'.Copied ns convertToAny := by
  cases hs with
  | @served b service hb =>
    obtain ⟨l, hl⟩ := sent_prefix (Shim.step_cases hb)
    have htake : (c.service.sent.take c.taken).Sublist (service.sent.take c.taken) := by
      rw [← hl]
      exact (List.prefix_append _ _).take _ |>.sublist
    exact ⟨h.passed.trans htake, h.published⟩
  | @passed timestamp p ev remote hawaits hp hev hb =>
    refine ⟨?_, ?_⟩
    · rw [take_succ_of_getElem? hp]
      exact h.passed.append_right [p]
    · have hpublished : remote.published = c.remote.published ++ [ev] := publish_published hb
      rw [hpublished]
      exact List.rel_append h.published (.cons ⟨timestamp, hev⟩ .nil)
  | @skipped timestamp p hp hev =>
    refine ⟨?_, h.published⟩
    rw [take_succ_of_getElem? hp]
    exact h.passed.trans (List.sublist_append_left _ _)
  | @sent b remote hb hmove =>
    refine ⟨h.passed, ?_⟩
    have hpublished : remote.published = c.remote.published := other_published hmove hb
    rw [hpublished]
    exact h.published

theorem copied (h : (forward ns convertToAny).Reachable ok' c) : c.Copied ns convertToAny := by
  refine h.invariant (P := Copied ns convertToAny) ⟨.slnil, .nil⟩ ?_
  intro c a c' _ hc _ hstep
  exact hc.step (step_cases hstep)

/-- The places of a list, taken in their order. -/
theorem filterMap_sublist {α : Type} (l : List α) {ns : List Nat} (hsorted : ns.Pairwise (· < ·))
    (hlt : ∀ n ∈ ns, n < l.length) : (ns.filterMap (l[·]?)).Sublist l := by
  have hrange : (List.range l.length).filterMap (l[·]?) = l := by
    clear hlt
    induction l with
    | nil => rfl
    | cons x l ih =>
      rw [List.length_cons, List.range_succ_eq_map,
        List.filterMap_cons_some (List.getElem?_cons_zero), List.filterMap_map]
      exact congrArg (x :: ·) ih
  have hsub : ns.Sublist (List.range l.length) := by
    refine List.sublist_of_subperm_of_pairwise (r := (· < ·)) ?_ hsorted List.pairwise_lt_range
    exact List.subperm_of_subset (hsorted.imp Nat.ne_of_lt) fun n hn =>
      List.mem_range.mpr (hlt n hn)
  have hfilter := hsub.filterMap (l[·]?)
  rwa [hrange] at hfilter

/-- What containerd was forwarded at the first try it got in the order of the channel. -/
theorem firstTries_sublist (h : (forward ns convertToAny).Reachable ok' c) :
    c.firstTries.Sublist c.service.sent := by
  have hcopied := copied h
  have hline := (Publisher.inLine (reachable_remote h)).sorted
  rw [Publisher.line, Publisher.untried_append] at hline
  refine (filterMap_sublist c.passed (List.pairwise_append.mp hline).1 fun n hn => ?_).trans
    (hcopied.passed.trans (List.take_sublist _ _))
  rw [← hcopied.published.length_eq]
  exact Publisher.mem_line_lt (Publisher.accounted (reachable_remote h).any)
    (List.mem_append_left _ (List.mem_of_mem_filter hn))

/-- Of the events that containerd was forwarded at the first try, the start of a process never
follows its exit. -/
theorem starts_forwarded_first
    (h : (forward ns convertToAny).Reachable (When Shim.ExitsAnnounced) c) :
    c.firstTries.Pairwise Shim.InOrder := by
  have hpublished := Shim.published_inOrder (reachable_service h)
  exact (List.pairwise_append.mp hpublished).1.sublist (firstTries_sublist h)

/-! ## The exits among them -/

instance (p : Published) : Decidable (Shim.IsExit p) :=
  match h : p.event with
  | .taskExit containerId id pid code exitedAt => .isTrue ⟨containerId, id, pid, code, exitedAt, h⟩
  | .taskCreate .. | .taskStart .. | .taskExecAdded .. | .taskExecStarted .. | .taskPaused ..
  | .taskResumed .. | .taskDelete .. => .isFalse fun hexit => by
    obtain ⟨containerId, id, pid, code, exitedAt, he⟩ := hexit
    cases h.symm.trans he

/-- The service publishes the exits it handles, each once and in their order. -/
theorem exits_published {s : Shim} {ok : Shim → Action → Prop} (h : shim.Reachable ok s) :
    List.Forall₂ Shim.Reports (s.published.filter (Shim.IsExit ·)) s.exits := by
  refine h.invariant (P := fun s => List.Forall₂ Shim.Reports
    (s.published.filter (Shim.IsExit ·)) s.exits) .nil ?_
  intro s a s' hr ih _ hstep
  rcases (Shim.step_cases hstep).publishes with ⟨hpub, hexits⟩ |
    ⟨rid, p, resp, hc, -, hsent, hpump, hexits, -⟩ |
    ⟨ev, pid, an, x, r, p, e, -, -, hnone, hhit, hsent, hpump, hexits⟩
  · rw [hpub, hexits]
    exact ih
  · have hnot : [p].filter (Shim.IsExit ·) = [] :=
      List.filter_eq_nil_iff.mpr fun q hq => by
        obtain rfl := List.mem_singleton.mp hq
        simpa using Shim.send_not_exit hr hc
    rw [Shim.published, hsent, hpump, hexits, List.filter_append, List.filter_append, hnot,
      List.append_nil, ← List.filter_append]
    exact ih
  · obtain ⟨i, -, hreported⟩ := hhit.reported
    have hrep := Shim.reports_of_reported hreported
    have hfilter : [p].filter (Shim.IsExit ·) = [p] :=
      List.filter_eq_self.mpr fun q hq => by
        obtain rfl := List.mem_singleton.mp hq
        simpa using hrep.isExit
    rw [Shim.published, hnone, Option.toList_none, List.append_nil] at ih
    rw [Shim.published, hsent, hpump, hexits, List.filter_append, Option.toList_some, hfilter]
    exact List.rel_append ih (.cons hrep .nil)

theorem sublistForall₂_of_sublist {α β : Type} {R : α → β → Prop} {l₁ l₂ : List α} {l₃ : List β}
    (h : l₁.Sublist l₂) (hl : List.Forall₂ R l₂ l₃) : List.SublistForall₂ R l₁ l₃ := by
  induction h generalizing l₃ with
  | slnil => exact .nil
  | cons a _ ih =>
    cases hl with
    | cons _ hl => exact .cons_right (ih hl)
  | cons_cons a _ ih =>
    cases hl with
    | cons ha hl => exact .cons ha (ih hl)

/-- The exits that containerd was forwarded at the first try are exits that the shim handled, each
once, with the status and the time that it recorded, and in the order it handled them. -/
theorem exits_forwarded_in_order (h : (forward ns convertToAny).Reachable ok' c) :
    List.SublistForall₂ Shim.Reports (c.firstTries.filter (Shim.IsExit ·)) c.service.exits := by
  have hsent : c.service.sent.Sublist c.service.published := List.sublist_append_left _ _
  have hany : (forward ns convertToAny).Reachable (When System.Any) c :=
    h.mono fun c a _ => by cases a <;> trivial
  have hservice : shim.Reachable System.Any c.service := reachable_service hany
  exact sublistForall₂_of_sublist (((firstTries_sublist h).trans hsent).filter _)
    (exits_published hservice)

/-- The exit of process 0 is handled once its start was sent. -/
def startedThenExited : Forwarding :=
  (forward "default" fun _ => some {}).after (When Shim.ExitsAnnounced) {}
    (Shim.startRun.map .serve ++ [.serve Shim.exitC, .serve .publish, .take none,
      .take (some {}), .take (some {}), .send .recv, .send (.forward .ok), .send .recv,
      .send (.forward .ok)])

theorem starts_forwarded_first_exited :
    startedThenExited.firstTries = [Shim.taskStartC, Shim.taskExitC] ∧
    startedThenExited.firstTries.Pairwise Shim.InOrder :=
  ⟨by decide +kernel, starts_forwarded_first (System.run_after (by decide +kernel))⟩

theorem exits_forwarded_in_order_exited :
    startedThenExited.firstTries.filter (Shim.IsExit ·) = [Shim.taskExitC] ∧
    List.SublistForall₂ Shim.Reports (startedThenExited.firstTries.filter (Shim.IsExit ·))
      startedThenExited.service.exits := by
  have hreach : (forward "default" fun _ => some {}).Reachable (When Shim.ExitsAnnounced)
      startedThenExited := System.run_after (by decide +kernel)
  exact ⟨by decide +kernel, exits_forwarded_in_order hreach⟩

end Forwarding
end RustExtensions.RuncShim
