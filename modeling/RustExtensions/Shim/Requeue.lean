import Mathlib.Data.List.Nodup
import RustExtensions.Shim.Publisher

/-!
# Where an event is

A published event is in one place on its way, or forwarded, or dropped. Its copy
carries how often its forward has failed.
-/
namespace RustExtensions.Shim

open RustExtensions.Transition
open RustExtensions.BoundedChannel

def Loop.items : Loop → List Item
  | .receiving => []
  | .forwarding item => [item]
  | .reconnecting item => [item]

namespace Publisher

variable {p p' : Publisher} {item : Item} {a : PublisherAction}

/-- The events that are queued, being forwarded, or waiting to be requeued. -/
def places (p : Publisher) : List Item :=
  p.channel.contents ++ p.loop.items ++ p.sleeping.map (·.1)

/-- The steps of a publisher. -/
inductive Step (p : Publisher) : Publisher → Prop
  | published (ev : Envelope) : Step p ({ p with published := p.published ++ [ev] : Publisher }.send
      { name := p.published.length, ev, count := 0 })
  | dropped {item : Item} {channel : Channel Item} (hloop : p.loop = .receiving)
    (hrecv : p.channel.recv = some (item, channel)) (hcount : maxRequeue < item.count) :
    Step p { p with channel, dropped := p.dropped ++ [(item, .requeuedTooOften)] }
  | received {item : Item} {channel : Channel Item} (hloop : p.loop = .receiving)
    (hrecv : p.channel.recv = some (item, channel)) (hcount : item.count ≤ maxRequeue) :
    Step p { p with channel, loop := .forwarding item }
  | forwarded {item : Item} (hloop : p.loop = .forwarding item) :
    Step p { p with loop := .receiving, forwarded := p.forwarded ++ [item.name] }
  | closed {item : Item} (hloop : p.loop = .forwarding item) : Step p { p with
      loop := .reconnecting { item with count := item.count + 1 }
      failed := p.failed ++ [item.name] }
  | failed {item : Item} (hloop : p.loop = .forwarding item) :
    Step p ({ p with loop := .receiving, failed := p.failed ++ [item.name] : Publisher }.requeue
      { item with count := item.count + 1 })
  | connected {item : Item} (hloop : p.loop = .reconnecting item) :
    Step p ({ p with loop := .receiving : Publisher }.requeue item)
  | woken {item : Item} {time : Nat} (hmem : (item, time) ∈ p.sleeping) :
    Step p ({ p with sleeping := p.sleeping.erase (item, time) : Publisher }.send item)
  | delivered {item : Item} {channel : Channel Item}
    (hdeliver : p.channel.deliver item = some channel) : Step p { p with channel }
  | timedOut {w : Waiting Item} {channel : Channel Item} (hsince : w.since + sendTimeout ≤ p.now)
    (hgive : p.channel.giveUp w = some channel) :
    Step p { p with channel, dropped := p.dropped ++ [(w.item, .queueFull p.fullSince p.now)] }
  | ticked (d : Nat) : Step p { p with now := p.now + d }

/-- What comes out of the queue is dropped for the failures it counts, or forwarded. -/
theorem recv_cases (h : p.move .recv = some p') : ∃ item channel,
    p.loop = .receiving ∧ p.channel.recv = some (item, channel) ∧
      (maxRequeue < item.count ∧
          p' = { p with channel, dropped := p.dropped ++ [(item, .requeuedTooOften)] } ∨
        item.count ≤ maxRequeue ∧ p' = { p with channel, loop := .forwarding item }) := by
  unfold move at h
  dsimp only at h
  split at h
  · next hloop =>
    obtain ⟨⟨item, channel⟩, hrecv, rfl⟩ := Option.map_eq_some_iff.mp h
    refine ⟨item, channel, hloop, hrecv, ?_⟩
    dsimp only
    unfold handle
    split
    · next hcount => exact .inl ⟨hcount, rfl⟩
    · next hcount => exact .inr ⟨Nat.le_of_not_lt hcount, rfl⟩
  · cases h

theorem forward_cases {result : ForwardResult} (h : p.move (.forward result) = some p') :
    ∃ item, p.loop = .forwarding item ∧ p' = p.handleResult item result := by
  unfold move at h
  dsimp only at h
  split at h
  · next item hloop => exact ⟨item, hloop, (Option.some.inj h).symm⟩
  · cases h

theorem connect_cases (h : p.move .connect = some p') : ∃ item, p.loop = .reconnecting item ∧
    p' = { p with loop := .receiving : Publisher }.requeue item := by
  unfold move at h
  dsimp only at h
  split at h
  · next item hloop => exact ⟨item, hloop, (Option.some.inj h).symm⟩
  · cases h

theorem move_cases (h : p.move a = some p') : Step p p' := by
  cases a with
  | publish ev =>
    obtain rfl := Option.some.inj h
    exact .published ev
  | recv =>
    obtain ⟨item, channel, hloop, hrecv, ⟨hcount, rfl⟩ | ⟨hcount, rfl⟩⟩ := recv_cases h
    · exact .dropped hloop hrecv hcount
    · exact .received hloop hrecv hcount
  | forward result =>
    obtain ⟨item, hloop, rfl⟩ := forward_cases h
    cases result with
    | ok => exact .forwarded hloop
    | closed => exact .closed hloop
    | failed => exact .failed hloop
  | connect =>
    obtain ⟨item, hloop, rfl⟩ := connect_cases h
    exact .connected hloop
  | wake item time =>
    obtain ⟨⟨hmem, -⟩, rfl⟩ := (Option.ite_none_right_eq_some.mp h).imp_right Option.some.inj
    exact .woken hmem
  | deliver item =>
    obtain ⟨channel, hdeliver, rfl⟩ := Option.map_eq_some_iff.mp h
    exact .delivered hdeliver
  | timeout w =>
    obtain ⟨hsince, h⟩ := Option.ite_none_right_eq_some.mp h
    obtain ⟨channel, hgive, rfl⟩ := Option.map_eq_some_iff.mp h
    exact .timedOut hsince hgive
  | tick d =>
    obtain rfl := Option.some.inj h
    exact .ticked d

/-- What every step preserves that does not look at `fullSince`, every run preserves. -/
theorem reachable_invariant {P : Publisher → Prop} (hinit : P {})
    (hstep : ∀ {p p'}, P p → Step p p' → P p') (hobserve : ∀ {p}, P p → P p.observe)
    (h : publisher.Reachable System.Any p) : P p := by
  apply h.invariant (P := P) hinit
  intro p a p' _ hp _ hs
  obtain ⟨q, hmove, rfl⟩ := Option.map_eq_some_iff.mp hs
  exact hobserve (hstep hp (move_cases hmove))

/-! ## Every event is in one place -/

/-- How often the event is on its way, forwarded or dropped. -/
def tally (p : Publisher) (n : Nat) : Nat :=
  (p.places.map (·.name)).count n + p.forwarded.count n + (p.dropped.map (·.1.name)).count n

def Accounted (p : Publisher) : Prop :=
  ∀ n, p.tally n = if n < p.published.length then 1 else 0

theorem count_contents {xs ys : List Item} (h : xs.Perm ys) (n : Nat) :
    (xs.map (·.name)).count n = (ys.map (·.name)).count n := (h.map _).count_eq n

theorem Accounted.step (h : p.Accounted) (hs : Step p p') : p'.Accounted := by
  intro n
  have hn := h n
  unfold tally places at hn ⊢
  cases hs with
  | published ev =>
    let item : Item := { name := p.published.length, ev, count := 0 }
    have hperm : (p.channel.send queueSize item p.now).contents.Perm _ := Channel.contents_send
    have hsend := count_contents hperm n
    simp only [send, List.map_append, List.map_cons, List.count_append, List.count_cons,
      List.length_append, List.length_singleton] at hn hsend ⊢
    grind
  | dropped hloop hrecv =>
    have hcontents := count_contents (Channel.contents_recv hrecv) n
    simp only [List.map_append, List.map_cons, List.count_append, List.count_cons] at hn hcontents ⊢
    grind
  | received hloop hrecv =>
    have hcontents := count_contents (Channel.contents_recv hrecv) n
    simp only [hloop, Loop.items, List.map_append, List.map_cons, List.count_append,
      List.count_cons] at hn hcontents ⊢
    grind
  | forwarded hloop =>
    simp only [hloop, Loop.items, List.map_append, List.map_cons, List.count_append,
      List.count_cons] at hn ⊢
    grind
  | closed hloop =>
    simp only [hloop, Loop.items, List.map_append, List.map_cons] at hn ⊢
    exact hn
  | failed hloop =>
    simp only [hloop, Loop.items, requeue, List.map_append, List.map_cons, List.count_append,
      List.count_cons] at hn ⊢
    grind
  | connected hloop =>
    simp only [hloop, Loop.items, requeue, List.map_append, List.map_cons, List.count_append,
      List.count_cons] at hn ⊢
    grind
  | @woken item time hmem =>
    have hperm : (p.channel.send queueSize item p.now).contents.Perm _ := Channel.contents_send
    have hsend := count_contents hperm n
    have herase := (((List.perm_cons_erase hmem).map (·.1)).map (·.name)).count_eq n
    simp only [send, List.map_append, List.map_cons, List.count_append,
      List.count_cons] at hn hsend herase ⊢
    grind
  | delivered hdeliver =>
    have hcontents := count_contents (Channel.contents_deliver hdeliver) n
    simp only [List.map_append, List.count_append] at hn hcontents ⊢
    grind
  | timedOut hsince hgive =>
    have hcontents := count_contents (Channel.contents_giveUp hgive) n
    simp only [List.map_append, List.map_cons, List.count_append, List.count_cons] at hn hcontents ⊢
    grind
  | ticked d => exact hn

theorem accounted (h : publisher.Reachable System.Any p) : p.Accounted := by
  refine reachable_invariant (P := Accounted) ?_ Accounted.step (fun hp => hp) h
  intro n
  rfl

/-- The event that the loop holds is nowhere else. -/
theorem Accounted.alone (h : p.Accounted) (hloop : p.loop.items = [item]) (x : Item)
    (hx : x ∈ p.channel.contents ∨ x ∈ p.sleeping.map (·.1) ∨ x ∈ p.dropped.map (·.1)) :
    x.name ≠ item.name := by
  intro hname
  have htally := h item.name
  unfold tally places at htally
  have hcount : ∀ {xs : List Item}, x ∈ xs → 0 < (xs.map (·.name)).count item.name := by
    intro xs hxs
    exact List.count_pos_iff.mpr (List.mem_map.mpr ⟨x, hxs, hname⟩)
  have hdropped : p.dropped.map (·.1.name) = (p.dropped.map (·.1)).map (·.name) := by
    rw [List.map_map]
    rfl
  rw [hdropped] at htally
  simp only [hloop, List.map_append, List.map_cons, List.map_nil, List.count_append,
    List.count_singleton_self] at htally
  split at htally
  · rcases hx with hx | hx | hx
    · have hpos := hcount hx
      omega
    · have hpos := hcount hx
      omega
    · have hpos := hcount hx
      omega
  · omega

/-! ## The copy counts the forwards that failed -/

/-- The copy carries what was published and how often its forward has failed. -/
structure Faithful (published : List Envelope) (failed : List Nat) (item : Item) : Prop where
  ev : published[item.name]? = some item.ev
  count : item.count = failed.count item.name

section Faithful
variable {published : List Envelope} {failed : List Nat}

theorem Faithful.publish (h : Faithful published failed item) (ev : Envelope) :
    Faithful (published ++ [ev]) failed item := by
  refine ⟨?_, h.count⟩
  obtain ⟨hlt, -⟩ := List.getElem?_eq_some_iff.mp h.ev
  exact (List.getElem?_append_left hlt).trans h.ev

theorem Faithful.fail (h : Faithful published failed item) {n : Nat} (hn : item.name ≠ n) :
    Faithful published (failed ++ [n]) item := by
  refine ⟨h.ev, ?_⟩
  have hcount : [n].count item.name = 0 := List.count_eq_zero.mpr (by simpa using hn)
  rw [List.count_append, hcount, Nat.add_zero]
  exact h.count

/-- After a failure the new copy is the faithful one. -/
theorem Faithful.retry (h : Faithful published failed item) :
    Faithful published (failed ++ [item.name]) { item with count := item.count + 1 } := by
  refine ⟨h.ev, ?_⟩
  rw [List.count_append, List.count_singleton_self]
  exact congrArg (· + 1) h.count

end Faithful

structure Counted (p : Publisher) : Prop where
  places : ∀ item ∈ p.places, Faithful p.published p.failed item
  dropped : ∀ item ∈ p.dropped.map (·.1), Faithful p.published p.failed item
  failed : ∀ n ∈ p.failed, n < p.published.length

theorem mem_places : item ∈ p.places ↔
    item ∈ p.channel.contents ∨ item ∈ p.loop.items ∨ item ∈ p.sleeping.map (·.1) := by
  rw [places, List.mem_append, List.mem_append, or_assoc]

theorem mem_map_concat {β : Type} {xs : List (Item × β)} {b : β} {x : Item}
    (hx : x ∈ (xs ++ [(item, b)]).map (·.1)) : x = item ∨ x ∈ xs.map (·.1) := by
  rw [List.map_append, List.mem_append] at hx
  rcases hx with hx | hx
  · exact .inr hx
  · exact .inl (List.mem_singleton.mp hx)

/-- Items that only move, or are dropped, stay faithful. -/
theorem Counted.moved (h : p.Counted) (hpublished : p'.published = p.published)
    (hfailed : p'.failed = p.failed) (hplaces : ∀ x ∈ p'.places, x ∈ p.places)
    (hdropped : ∀ x ∈ p'.dropped.map (·.1), x ∈ p.places ∨ x ∈ p.dropped.map (·.1)) :
    p'.Counted := by
  refine ⟨fun x hx => ?_, fun x hx => ?_, fun n hn => ?_⟩
  · rw [hpublished, hfailed]
    exact h.places x (hplaces x hx)
  · rw [hpublished, hfailed]
    rcases hdropped x hx with hx | hx
    · exact h.places x hx
    · exact h.dropped x hx
  · rw [hfailed] at hn
    rw [hpublished]
    exact h.failed n hn

/-- An item leaves the channel and is dropped. -/
theorem Counted.drop {channel : Channel Item} {reason : Reason} (h : p.Counted)
    (hcontents : p.channel.contents.Perm (item :: channel.contents)) :
    { p with channel, dropped := p.dropped ++ [(item, reason)] : Publisher }.Counted := by
  refine h.moved rfl rfl (fun x hx => mem_places.mpr ?_) fun x hx => ?_
  · rcases mem_places.mp hx with hx | hx
    · exact .inl (hcontents.mem_iff.mpr (List.mem_cons_of_mem _ hx))
    · exact .inr hx
  · rcases mem_map_concat hx with rfl | hx
    · exact .inl (mem_places.mpr (.inl (hcontents.mem_iff.mpr List.mem_cons_self)))
    · exact .inr hx

/-- A forward fails: only the item that the loop holds has a new count. -/
theorem Counted.failing (h : p.Counted) (haccounted : p.Accounted)
    (hloop : p.loop = .forwarding item) (hpublished : p'.published = p.published)
    (hfailed : p'.failed = p.failed ++ [item.name]) (hdropped : p'.dropped = p.dropped)
    (hplaces : ∀ x ∈ p'.places, x = { item with count := item.count + 1 } ∨
      x ∈ p.channel.contents ∨ x ∈ p.sleeping.map (·.1)) : p'.Counted := by
  have hitems : p.loop.items = [item] := by rw [hloop]; rfl
  have halone := haccounted.alone hitems
  have hitem : Faithful p.published p.failed item := by
    refine h.places item (mem_places.mpr (.inr (.inl ?_)))
    rw [hitems]
    exact List.mem_singleton_self _
  refine ⟨fun x hx => ?_, fun x hx => ?_, fun n hn => ?_⟩
  · rw [hpublished, hfailed]
    rcases hplaces x hx with rfl | hx | hx
    · exact hitem.retry
    · exact (h.places x (mem_places.mpr (.inl hx))).fail (halone x (.inl hx))
    · exact (h.places x (mem_places.mpr (.inr (.inr hx)))).fail (halone x (.inr (.inl hx)))
  · rw [hpublished, hfailed]
    rw [hdropped] at hx
    exact (h.dropped x hx).fail (halone x (.inr (.inr hx)))
  · rw [hfailed] at hn
    rw [hpublished]
    rcases List.mem_append.mp hn with hn | hn
    · exact h.failed n hn
    · obtain rfl := List.mem_singleton.mp hn
      exact (List.getElem?_eq_some_iff.mp hitem.ev).1

theorem Counted.publish (h : p.Counted) (ev : Envelope) :
    ({ p with published := p.published ++ [ev] : Publisher }.send
      { name := p.published.length, ev, count := 0 }).Counted := by
  have hnew : p.failed.count p.published.length = 0 :=
    List.count_eq_zero.mpr fun hmem => absurd (h.failed _ hmem) (Nat.lt_irrefl _)
  have hold : ∀ x ∈ p.places, Faithful (p.published ++ [ev]) p.failed x :=
    fun x hx => (h.places x hx).publish ev
  refine ⟨fun x hx => ?_, fun x hx => (h.dropped x hx).publish ev, fun n hn => ?_⟩
  · rcases mem_places.mp hx with hx | hx | hx
    · rcases List.mem_cons.mp (Channel.contents_send.mem_iff.mp hx) with rfl | hx
      · exact ⟨List.getElem?_concat_length, hnew.symm⟩
      · exact hold x (mem_places.mpr (.inl hx))
    · exact hold x (mem_places.mpr (.inr (.inl hx)))
    · exact hold x (mem_places.mpr (.inr (.inr hx)))
  · have hlt := h.failed n hn
    simp only [send, List.length_append, List.length_singleton]
    omega

theorem Counted.step (h : p.Counted) (haccounted : p.Accounted) (hs : Step p p') : p'.Counted := by
  cases hs with
  | published ev => exact h.publish ev
  | dropped hloop hrecv => exact h.drop (Channel.contents_recv hrecv)
  | received hloop hrecv =>
    have hcontents := Channel.contents_recv hrecv
    refine h.moved rfl rfl (fun x hx => mem_places.mpr ?_) fun x hx => .inr hx
    rcases mem_places.mp hx with hx | hx | hx
    · exact .inl (hcontents.mem_iff.mpr (List.mem_cons_of_mem _ hx))
    · obtain rfl := List.mem_singleton.mp hx
      exact .inl (hcontents.mem_iff.mpr (List.mem_cons_self ..))
    · exact .inr (.inr hx)
  | forwarded hloop =>
    refine h.moved rfl rfl (fun x hx => mem_places.mpr ?_) fun x hx => .inr hx
    rcases mem_places.mp hx with hx | hx | hx
    · exact .inl hx
    · cases hx
    · exact .inr (.inr hx)
  | @closed item hloop =>
    refine h.failing haccounted hloop rfl rfl rfl fun x hx => ?_
    rcases mem_places.mp hx with hx | hx | hx
    · exact .inr (.inl hx)
    · exact .inl (List.mem_singleton.mp hx)
    · exact .inr (.inr hx)
  | @failed item hloop =>
    refine h.failing haccounted hloop rfl rfl rfl fun x hx => ?_
    rcases mem_places.mp hx with hx | hx | hx
    · exact .inr (.inl hx)
    · cases hx
    · exact (mem_map_concat hx).imp_right .inr
  | @connected item hloop =>
    refine h.moved rfl rfl (fun x hx => mem_places.mpr ?_) fun x hx => .inr hx
    rcases mem_places.mp hx with hx | hx | hx
    · exact .inl hx
    · cases hx
    · rcases mem_map_concat hx with rfl | hx
      · exact .inr (.inl (by rw [hloop]; exact List.mem_singleton_self _))
      · exact .inr (.inr hx)
  | @woken item time hmem =>
    refine h.moved rfl rfl (fun x hx => mem_places.mpr ?_) fun x hx => .inr hx
    rcases mem_places.mp hx with hx | hx | hx
    · rcases List.mem_cons.mp (Channel.contents_send.mem_iff.mp hx) with rfl | hx
      · exact .inr (.inr (List.mem_map.mpr ⟨_, hmem, rfl⟩))
      · exact .inl hx
    · exact .inr (.inl hx)
    · obtain ⟨y, hy, rfl⟩ := List.mem_map.mp hx
      exact .inr (.inr (List.mem_map.mpr ⟨y, List.mem_of_mem_erase hy, rfl⟩))
  | delivered hdeliver =>
    refine h.moved rfl rfl (fun x hx => mem_places.mpr ?_) fun x hx => .inr hx
    rcases mem_places.mp hx with hx | hx
    · exact .inl ((Channel.contents_deliver hdeliver).mem_iff.mpr hx)
    · exact .inr hx
  | timedOut hsince hgive => exact h.drop (Channel.contents_giveUp hgive)
  | ticked d => exact h.moved rfl rfl (fun x hx => hx) fun x hx => .inr hx

theorem counted (h : publisher.Reachable System.Any p) : p.Counted := by
  refine (reachable_invariant (P := fun p => p.Accounted ∧ p.Counted) ?_ ?_ (fun hp => ?_) h).2
  · refine ⟨fun n => rfl, ?_, ?_, ?_⟩
    · intro item hitem
      cases hitem
    · intro item hitem
      cases hitem
    · intro n hn
      cases hn
  · intro p p' hp hs
    exact ⟨hp.1.step hs, hp.2.step hp.1 hs⟩
  · exact ⟨hp.1, hp.2.places, hp.2.dropped, hp.2.failed⟩

/-! ## Why an event is dropped -/

/-- The event was requeued too often, or its send has seen a full queue for as long as it waits. -/
def Stated : Item × Reason → Prop
  | (item, .requeuedTooOften) => maxRequeue < item.count
  | (_, .queueFull since time) => ∃ t, since = some t ∧ t + sendTimeout ≤ time

/-- Whoever waits has waited no longer than the queue has been full. -/
structure Watched (p : Publisher) : Prop where
  fair : p.channel.Fair queueSize
  since : ∀ t, p.fullSince = some t → t ≤ p.now
  waiting : ∀ w ∈ p.channel.waiting, ∃ t, p.fullSince = some t ∧ t ≤ w.since
  stated : ∀ d ∈ p.dropped, Stated d

theorem Watched.step (h : p.Watched) (hfull : p.channel.Full queueSize → p.fullSince.isSome)
    (hs : Step p p') : p'.Watched := by
  have hsend : ∀ {w item}, w ∈ (p.channel.send queueSize item p.now).waiting →
      ∃ t, p.fullSince = some t ∧ t ≤ w.since := by
    intro w item hw
    rcases Channel.mem_waiting_send hw with hw | ⟨hf, hnow⟩
    · exact h.waiting w hw
    · obtain ⟨t, ht⟩ := Option.isSome_iff_exists.mp (hfull hf)
      exact ⟨t, ht, hnow ▸ h.since t ht⟩
  cases hs with
  | published ev => exact ⟨h.fair.send, h.since, fun w hw => hsend hw, h.stated⟩
  | dropped hloop hrecv hcount =>
    refine ⟨h.fair.recv hrecv, h.since, fun w hw => ?_, fun d hd => ?_⟩
    · exact h.waiting w (Channel.mem_waiting_recv hrecv hw)
    · rcases List.mem_append.mp hd with hd | hd
      · exact h.stated d hd
      · obtain rfl := List.mem_singleton.mp hd
        exact hcount
  | received hloop hrecv =>
    exact ⟨h.fair.recv hrecv, h.since,
      fun w hw => h.waiting w (Channel.mem_waiting_recv hrecv hw), h.stated⟩
  | forwarded => exact ⟨h.fair, h.since, h.waiting, h.stated⟩
  | closed => exact ⟨h.fair, h.since, h.waiting, h.stated⟩
  | failed => exact ⟨h.fair, h.since, h.waiting, h.stated⟩
  | connected => exact ⟨h.fair, h.since, h.waiting, h.stated⟩
  | woken => exact ⟨h.fair.send, h.since, fun w hw => hsend hw, h.stated⟩
  | delivered hdeliver =>
    refine ⟨h.fair.deliver hdeliver, h.since, fun w hw => ?_, h.stated⟩
    exact h.waiting w (Channel.waiting_deliver hdeliver ▸ hw)
  | @timedOut w channel hsince hgive =>
    obtain ⟨hmem, hsub⟩ := Channel.mem_of_giveUp hgive
    refine ⟨h.fair.giveUp hgive, h.since, fun w hw => h.waiting w (hsub hw), fun d hd => ?_⟩
    rcases List.mem_append.mp hd with hd | hd
    · exact h.stated d hd
    · obtain rfl := List.mem_singleton.mp hd
      obtain ⟨t, ht, hle⟩ := h.waiting w hmem
      exact ⟨t, ht, by omega⟩
  | ticked d =>
    exact ⟨h.fair, fun t ht => (h.since t ht).trans (Nat.le_add_right ..), h.waiting, h.stated⟩

theorem Watched.observe (h : p.Watched) : p.observe.Watched := by
  by_cases hfull : p.channel.Full queueSize
  · have hsince : p.observe.fullSince = some (p.fullSince.getD p.now) := if_pos hfull
    refine ⟨h.fair, fun t ht => ?_, fun w hw => ?_, h.stated⟩
    · rw [hsince] at ht
      obtain rfl := Option.some.inj ht
      cases hp : p.fullSince with
      | none => exact Nat.le_refl _
      | some t => exact h.since t hp
    · obtain ⟨t, ht, hle⟩ := h.waiting w hw
      exact ⟨t, by rw [hsince, ht]; rfl, hle⟩
  · have hsince : p.observe.fullSince = none := if_neg hfull
    refine ⟨h.fair, fun t ht => ?_, fun w hw => ?_, h.stated⟩
    · rw [hsince] at ht
      cases ht
    · exact absurd (h.fair (List.ne_nil_of_mem hw)) hfull

theorem observe_full (h : p.observe.channel.Full queueSize) : p.observe.fullSince.isSome := by
  have hsince : p.observe.fullSince = some (p.fullSince.getD p.now) := if_pos h
  rw [hsince]
  rfl

theorem watched (h : publisher.Reachable System.Any p) : p.Watched := by
  refine (h.invariant (P := fun p => p.Watched ∧
    (p.channel.Full queueSize → p.fullSince.isSome)) ?_ ?_).1
  · refine ⟨⟨fun hne => absurd rfl hne, ?_, ?_, ?_⟩, fun hfull => ?_⟩
    · intro t ht
      cases ht
    · intro w hw
      cases hw
    · intro d hd
      cases hd
    · exact absurd hfull (by decide)
  · intro p a p' _ hp _ hs
    obtain ⟨q, hmove, rfl⟩ := Option.map_eq_some_iff.mp hs
    exact ⟨(hp.1.step hp.2 (move_cases hmove)).observe, observe_full⟩

/-- Time goes on, and a step does not touch `fullSince` until it is observed. -/
theorem Step.now_le (h : Step p p') : p.now ≤ p'.now ∧ p'.fullSince = p.fullSince := by
  cases h with
  | ticked d => exact ⟨Nat.le_add_right .., rfl⟩
  | _ => exact ⟨Nat.le_refl _, rfl⟩

theorem run_now (h : publisher.Run System.Any p p') : p.now ≤ p'.now := by
  refine h.preserves (P := fun q => p.now ≤ q.now) ?_ (Nat.le_refl _)
  intro q a q' hle _ hs
  obtain ⟨q₁, hmove, rfl⟩ := Option.map_eq_some_iff.mp hs
  exact hle.trans (move_cases hmove).now_le.1

theorem fullSince_of_run (h : publisher.Run System.Any p p') {t : Nat}
    (hsince : p'.fullSince = some t) (hbetween : t < p.now) : p.fullSince = some t := by
  induction h with
  | refl => exact hsince
  | @tail q q' hrun hnext ih =>
    obtain ⟨a, -, hs⟩ := hnext
    obtain ⟨q₁, hmove, rfl⟩ := Option.map_eq_some_iff.mp hs
    obtain ⟨hnow, hsame⟩ := (move_cases hmove).now_le
    have hle := run_now hrun
    obtain ⟨-, ht⟩ := Option.ite_none_right_eq_some.mp hsince
    rw [hsame] at ht
    cases hq : q.fullSince with
    | some u =>
      rw [hq] at ht
      obtain rfl := Option.some.inj ht
      exact ih hq
    | none =>
      rw [hq] at ht
      have hnew : q₁.now = t := Option.some.inj ht
      omega

/-- Between `fullSince` and now there was no place in the queue. -/
theorem full_throughout (hr : publisher.Reachable System.Any p)
    (h : publisher.Run System.Any p p') {t : Nat} (hsince : p'.fullSince = some t)
    (hbetween : t < p.now) : p.channel.Full queueSize := by
  have hp := fullSince_of_run h hsince hbetween
  have hfull : ∀ t, p.fullSince = some t → p.channel.Full queueSize := by
    refine hr.invariant (P := fun p => ∀ t, p.fullSince = some t → p.channel.Full queueSize) ?_ ?_
    · intro t ht
      cases ht
    · intro p a p' _ _ _ hs t ht
      obtain ⟨q, hmove, rfl⟩ := Option.map_eq_some_iff.mp hs
      exact (Option.ite_none_right_eq_some.mp ht).1
  exact hfull t hp

/-! ## The whole story -/

/-- A published event is in one place, and then it was neither forwarded nor dropped; or it was
forwarded, once; or it was dropped, for a reason. Its copy counts the forwards that failed. -/
theorem events_accounted (h : publisher.Reachable System.Any p) :
    (p.places.map (·.name)).Nodup ∧ p.forwarded.Nodup ∧
    (∀ n ∈ p.forwarded, n ∉ p.places.map (·.name) ∧ n ∉ p.dropped.map (·.1.name)) ∧
    (∀ item ∈ p.places, p.published[item.name]? = some item.ev ∧
      item.count = p.failed.count item.name) ∧
    (∀ n < p.published.length, n ∈ p.places.map (·.name) ∨ n ∈ p.forwarded ∨
      ∃ item reason, (item, reason) ∈ p.dropped ∧ item.name = n ∧
        item.count = p.failed.count n ∧ Stated (item, reason)) := by
  have haccounted := accounted h
  have hcounted := counted h
  have hwatched := watched h
  have hone : ∀ n, (p.places.map (·.name)).count n + p.forwarded.count n +
      (p.dropped.map (·.1.name)).count n ≤ 1 := by
    intro n
    have hn := haccounted n
    unfold tally at hn
    split at hn <;> omega
  refine ⟨?_, ?_, fun n hn => ?_, fun item hitem => ?_, fun n hn => ?_⟩
  · apply List.nodup_iff_count_le_one.mpr
    intro n
    have hn := hone n
    omega
  · apply List.nodup_iff_count_le_one.mpr
    intro n
    have hn := hone n
    omega
  · have hpos := List.count_pos_iff.mpr hn
    have hone := hone n
    refine ⟨fun hmem => ?_, fun hmem => ?_⟩
    · have hplace := List.count_pos_iff.mpr hmem
      omega
    · have hdropped := List.count_pos_iff.mpr hmem
      omega
  · have hfaithful := hcounted.places item hitem
    exact ⟨hfaithful.ev, hfaithful.count⟩
  · have htally := haccounted n
    unfold tally at htally
    rw [if_pos hn] at htally
    by_cases hplace : n ∈ p.places.map (·.name)
    · exact .inl hplace
    by_cases hforwarded : n ∈ p.forwarded
    · exact .inr (.inl hforwarded)
    rw [List.count_eq_zero.mpr hplace, List.count_eq_zero.mpr hforwarded] at htally
    have hdropped : n ∈ p.dropped.map (·.1.name) := List.count_pos_iff.mp (by omega)
    obtain ⟨⟨item, reason⟩, hmem, rfl⟩ := List.mem_map.mp hdropped
    have hfaithful := hcounted.dropped item (List.mem_map.mpr ⟨_, hmem, rfl⟩)
    exact .inr (.inr ⟨item, reason, hmem, rfl, hfaithful.count, hwatched.stated _ hmem⟩)

/-- An event whose first forward fails because the connection is closed. -/
def retriedRun : List PublisherAction :=
  let ev : Envelope := { topic := "/tasks/exit", ns := "default", timestamp := {}, event := {} }
  [.publish ev, .recv, .forward .closed, .connect, .tick 1000,
    .wake { name := 0, ev, count := 1 } 1000]

def retried : Publisher := publisher.after System.Any {} retriedRun

theorem events_accounted_retried : (retried.places.map (·.name)).Nodup ∧
    ∀ item ∈ retried.places, item.count = retried.failed.count item.name := by
  have hreach : publisher.Reachable System.Any retried := System.run_after (by decide +kernel)
  obtain ⟨hnodup, -, -, hcount, -⟩ := events_accounted hreach
  exact ⟨hnodup, fun item hitem => (hcount item hitem).2⟩

end Publisher
end RustExtensions.Shim
