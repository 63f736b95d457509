import RustExtensions.Shim.Requeue

/-!
# The order in which events are forwarded

Where one caller publishes event after event, those that are forwarded without a
failure are forwarded in that order. An event whose forward fails is put back
behind others.
-/
namespace RustExtensions.Shim

open RustExtensions.Transition
open RustExtensions.BoundedChannel

namespace Publisher

variable {p p' : Publisher} {item : Item} {a : PublisherAction} {n : Nat}

/-- The caller awaits each `publish`: no other one is still waiting for a place in the queue. -/
def InTurn (p : Publisher) : PublisherAction → Prop
  | .publish _ => ∀ x ∈ p.channel.sends, x.name ∈ p.failed
  | _ => True

instance (p : Publisher) (a : PublisherAction) : Decidable (InTurn p a) := by
  unfold InTurn
  split
  · infer_instance
  · exact .isTrue trivial

/-- The events that never failed. -/
def untried (failed : List Nat) (ns : List Nat) : List Nat := ns.filter (· ∉ failed)

/-- The events in the order they came, from the first that was forwarded to the last that was
published, but for those that a requeue has in its hands. -/
def line (p : Publisher) : List Nat :=
  p.forwarded ++ (p.loop.items.map (·.name) ++
    (p.channel.queue.map (·.name) ++ p.channel.sends.map (·.name)))

/-- The events that never failed are in line, and one call of `publish` at most is under way. -/
structure InLine (p : Publisher) : Prop where
  sorted : (untried p.failed p.line).Pairwise (· < ·)
  calls : (untried p.failed (p.channel.sends.map (·.name))).length ≤ 1
  sleeping : ∀ x ∈ p.sleeping, x.1.name ∈ p.failed
  reconnecting : ∀ item, p.loop = .reconnecting item → item.name ∈ p.failed

section Untried
variable {failed ns ms : List Nat}

theorem untried_append : untried failed (ns ++ ms) = untried failed ns ++ untried failed ms :=
  List.filter_append ..

theorem untried_singleton (h : n ∈ failed) : untried failed [n] = [] := by
  simp [untried, h]

/-- What failed since is in line no longer. -/
theorem untried_sublist (h : ns.Sublist ms) : (untried (failed ++ [n]) ns).Sublist
    (untried failed ms) := by
  have hfilter : untried (failed ++ [n]) ns = (untried failed ns).filter (· ≠ n) := by
    rw [untried, untried, List.filter_filter]
    congr 1
    funext k
    simp [and_comm]
  rw [hfilter]
  exact List.filter_sublist.trans (h.filter _)

/-- Of at most one, no other order is possible. -/
theorem untried_perm (h : ns.Perm ms) (hlength : (untried failed ns).length ≤ 1) :
    untried failed ns = untried failed ms := by
  have hperm : (untried failed ns).Perm (untried failed ms) := h.filter _
  match hns : untried failed ns with
  | [] =>
    rw [hns] at hperm
    exact (List.nil_perm.mp hperm).symm
  | [k] =>
    rw [hns] at hperm
    exact List.singleton_perm.mp hperm
  | _ :: _ :: _ =>
    rw [hns] at hlength
    simp at hlength

end Untried

/-- A step that only takes from the line. -/
theorem InLine.shrink (h : p.InLine) {k : List Nat} (hfailed : p'.failed = p.failed ++ k)
    (hk : k.length ≤ 1) (hline : p'.line.Sublist p.line)
    (hsends : (p'.channel.sends.map (·.name)).Sublist (p.channel.sends.map (·.name)))
    (hsleeping : ∀ x ∈ p'.sleeping, x ∈ p.sleeping ∨ x.1.name ∈ p'.failed)
    (hreconnecting : ∀ item, p'.loop = .reconnecting item → item.name ∈ p'.failed) :
    p'.InLine := by
  have hsub {ns ms : List Nat} (hsub : ns.Sublist ms) :
      (untried p'.failed ns).Sublist (untried p.failed ms) := by
    rw [hfailed]
    match k, hk with
    | [], _ =>
      rw [List.append_nil]
      exact hsub.filter _
    | [n], _ => exact untried_sublist hsub
  refine ⟨h.sorted.sublist (hsub hline), (hsub hsends).length_le.trans h.calls, fun x hx => ?_,
    hreconnecting⟩
  rcases hsleeping x hx with hx | hx
  · rw [hfailed]
    exact List.mem_append_left _ (h.sleeping x hx)
  · exact hx

theorem mem_line_lt (haccounted : p.Accounted) (hn : n ∈ p.line) : n < p.published.length := by
  have hpos : 0 < p.tally n := by
    unfold tally
    rcases List.mem_append.mp hn with hn | hn
    · have hcount := List.count_pos_iff.mpr hn
      omega
    · have hplaces : n ∈ p.places.map (·.name) := by
        rw [places, Channel.contents_eq]
        simp only [List.map_append, List.mem_append] at hn ⊢
        tauto
      have hcount := List.count_pos_iff.mpr hplaces
      omega
  rw [haccounted n] at hpos
  split at hpos
  · assumption
  · exact absurd hpos (Nat.lt_irrefl 0)

/-- What is sent comes last, if it never failed, as then no other call waits. -/
theorem InLine.send (h : p.InLine) (hitem : item.name ∈ p.failed ∨
    untried p.failed (p.channel.sends.map (·.name)) = [] ∧ ∀ n ∈ p.line, n < item.name) :
    (p.send item).InLine := by
  have hline : untried p.failed (p.send item).line =
      untried p.failed p.line ++ untried p.failed [item.name] := by
    obtain ⟨-, hqueue, hsends⟩ | ⟨-, hqueue, hsends⟩ :=
      Channel.send_cases queueSize p.channel item p.now
    · simp only [line, Publisher.send, hqueue, hsends, List.map_append, List.map_cons,
        List.map_nil, untried_append, List.append_assoc]
    · rcases hitem with hitem | ⟨hitem, -⟩
      · simp only [line, Publisher.send, hqueue, hsends, List.map_append, List.map_cons,
          List.map_nil, untried_append, List.append_assoc, untried_singleton hitem,
          List.nil_append, List.append_nil]
      · simp only [line, Publisher.send, hqueue, hsends, List.map_append, List.map_cons,
          List.map_nil, untried_append, List.append_assoc, hitem, List.append_nil]
  have hcalls : (untried p.failed ((p.send item).channel.sends.map (·.name))).length ≤
      (untried p.failed (p.channel.sends.map (·.name)) ++ untried p.failed [item.name]).length := by
    obtain ⟨-, -, hsends⟩ | ⟨-, -, hsends⟩ :=
      Channel.send_cases queueSize p.channel item p.now
    · simp only [Publisher.send, hsends, List.map_append, List.map_cons, List.map_nil,
        untried_append, Nat.le_refl]
    · simp only [Publisher.send, hsends, List.length_append, Nat.le_add_right]
  refine ⟨?_, hcalls.trans ?_, h.sleeping, h.reconnecting⟩
  · have hsorted : (untried p.failed (p.send item).line).Pairwise (· < ·) := by
      rw [hline]
      rcases hitem with hitem | ⟨-, hlt⟩
      · rw [untried_singleton hitem, List.append_nil]
        exact h.sorted
      · refine List.pairwise_append.mpr ⟨h.sorted, (List.pairwise_singleton _ _).filter _, ?_⟩
        intro n hn m hm
        obtain rfl := List.mem_singleton.mp (List.mem_of_mem_filter hm)
        exact hlt n (List.mem_of_mem_filter hn)
    exact hsorted
  · rcases hitem with hitem | ⟨hnone, -⟩
    · rw [untried_singleton hitem, List.append_nil]
      exact h.calls
    · rw [hnone]
      exact List.length_filter_le _ _

theorem InLine.step (h : p.InLine) (hs : Step p p') (hpublished : p'.published = p.published) :
    p'.InLine := by
  cases hs with
  | published ev => exact absurd hpublished (by simp [Publisher.send])
  | dropped hloop hrecv hcount =>
    obtain ⟨hqueue, hsends⟩ := Channel.recv_order hrecv
    refine h.shrink (k := []) (List.append_nil _).symm (Nat.zero_le 1) ?_ ?_ (fun _ => .inl)
      h.reconnecting
    · simp [line, hqueue, hsends]
    · simp [hsends]
  | received hloop hrecv hcount =>
    obtain ⟨hqueue, hsends⟩ := Channel.recv_order hrecv
    refine h.shrink (k := []) (List.append_nil _).symm (Nat.zero_le 1) ?_ ?_ (fun _ => .inl)
      fun _ hitem => by cases hitem
    · simp [line, hqueue, hsends, hloop, Loop.items]
    · simp [hsends]
  | forwarded hloop =>
    refine h.shrink (k := []) (List.append_nil _).symm (Nat.zero_le 1) ?_ ?_ (fun _ => .inl)
      fun _ hitem => by cases hitem
    · simp [line, hloop, Loop.items]
    · simp
  | @closed item hloop =>
    refine h.shrink (k := [item.name]) rfl (Nat.le_refl 1) ?_ ?_ (fun _ => .inl) ?_
    · simp [line, hloop, Loop.items]
    · simp
    · intro item' hitem
      obtain rfl := Loop.reconnecting.inj hitem
      exact List.mem_append_right _ (List.mem_singleton_self _)
  | @failed item hloop =>
    refine h.shrink (k := [item.name]) rfl (Nat.le_refl 1) ?_ ?_ (fun x hx => ?_)
      fun _ hitem => by cases hitem
    · simp [line, hloop, Loop.items, requeue]
    · simp [requeue]
    · rcases List.mem_append.mp hx with hx | hx
      · exact .inl hx
      · obtain rfl := List.mem_singleton.mp hx
        exact .inr (List.mem_append_right _ (List.mem_singleton_self _))
  | @connected item hloop =>
    refine h.shrink (k := []) (List.append_nil _).symm (Nat.zero_le 1) ?_ ?_ (fun x hx => ?_)
      fun _ hitem => by cases hitem
    · simp [line, hloop, Loop.items, requeue]
    · simp [requeue]
    · rcases List.mem_append.mp hx with hx | hx
      · exact .inl hx
      · obtain rfl := List.mem_singleton.mp hx
        exact .inr (h.reconnecting item hloop)
  | @woken item time hmem =>
    have herased : ({ p with sleeping := p.sleeping.erase (item, time) } : Publisher).InLine :=
      ⟨h.sorted, h.calls, fun x hx => h.sleeping x (List.mem_of_mem_erase hx), h.reconnecting⟩
    exact herased.send (.inl (h.sleeping _ hmem))
  | @delivered item channel hdeliver =>
    obtain ⟨hqueue, hperm⟩ := Channel.deliver_order hdeliver
    have hnames := hperm.map (·.name)
    have huntried := untried_perm hnames h.calls
    refine ⟨?_, ?_, h.sleeping, h.reconnecting⟩
    · have hsorted := h.sorted
      simp only [line, untried_append, hqueue, List.map_append, List.append_assoc] at hsorted ⊢
      rw [huntried] at hsorted
      rwa [← @untried_append p.failed ([item].map (·.name))]
    · have hle := h.calls
      rw [huntried] at hle
      exact ((List.sublist_cons_self _ _).filter _).length_le.trans hle
  | timedOut hsince hgive =>
    obtain ⟨hqueue, hsends⟩ := Channel.giveUp_order hgive
    have hnames := hsends.map (·.name)
    refine h.shrink (k := []) (List.append_nil _).symm (Nat.zero_le 1) ?_ hnames (fun _ => .inl)
      h.reconnecting
    simpa [line, hqueue] using hnames
  | ticked d => exact ⟨h.sorted, h.calls, h.sleeping, h.reconnecting⟩

theorem published_of_move (h : p.move a = some p') (ha : ∀ ev, a ≠ .publish ev) :
    p'.published = p.published := by
  cases a with
  | publish ev => exact absurd rfl (ha ev)
  | recv =>
    obtain ⟨item, channel, -, -, ⟨-, rfl⟩ | ⟨-, rfl⟩⟩ := recv_cases h
    · rfl
    · rfl
  | forward result =>
    obtain ⟨item, -, rfl⟩ := forward_cases h
    cases result <;> rfl
  | connect =>
    obtain ⟨item, -, rfl⟩ := connect_cases h
    rfl
  | wake item time =>
    obtain ⟨-, rfl⟩ := (Option.ite_none_right_eq_some.mp h).imp_right Option.some.inj
    rfl
  | deliver item =>
    obtain ⟨channel, -, rfl⟩ := Option.map_eq_some_iff.mp h
    rfl
  | timeout w =>
    obtain ⟨-, h⟩ := Option.ite_none_right_eq_some.mp h
    obtain ⟨channel, -, rfl⟩ := Option.map_eq_some_iff.mp h
    rfl
  | tick d =>
    obtain rfl := Option.some.inj h
    rfl

theorem InLine.move (h : p.InLine) (hr : publisher.Reachable System.Any p) (ha : InTurn p a)
    (hmove : p.move a = some p') : p'.InLine := by
  by_cases hpublish : ∃ ev, a = .publish ev
  · obtain ⟨ev, rfl⟩ := hpublish
    obtain rfl := Option.some.inj hmove
    have hbefore : ({ p with published := p.published ++ [ev] } : Publisher).InLine :=
      ⟨h.sorted, h.calls, h.sleeping, h.reconnecting⟩
    refine hbefore.send (.inr ⟨?_, fun n hn => mem_line_lt (accounted hr) hn⟩)
    refine List.filter_eq_nil_iff.mpr fun n hn => ?_
    obtain ⟨x, hx, rfl⟩ := List.mem_map.mp hn
    simpa using ha x hx
  · exact h.step (move_cases hmove) (published_of_move hmove fun ev hev => hpublish ⟨ev, hev⟩)

theorem InLine.init : ({} : Publisher).InLine where
  sorted := List.Pairwise.nil
  calls := Nat.zero_le 1
  sleeping := nofun
  reconnecting := nofun

theorem inLine (h : publisher.Reachable InTurn p) : p.InLine := by
  refine h.invariant (P := InLine) InLine.init ?_
  intro p a p' hr hp ha hs
  obtain ⟨q, hmove, rfl⟩ := Option.map_eq_some_iff.mp hs
  have hq := hp.move hr.any ha hmove
  exact ⟨hq.sorted, hq.calls, hq.sleeping, hq.reconnecting⟩

/-- Where every call of `publish` is awaited, containerd gets the events that never failed in the
order in which they were published. -/
theorem forwarded_in_order (h : publisher.Reachable InTurn p) :
    p.forwarded.Pairwise fun n m => n ∉ p.failed → m ∉ p.failed → n < m := by
  have hsorted := (inLine h).sorted
  rw [line, untried_append] at hsorted
  have hforwarded := List.pairwise_filter.mp (List.pairwise_append.mp hsorted).1
  exact hforwarded.imp fun hlt hn hm => hlt (decide_eq_true hn) (decide_eq_true hm)

def orderedEvent : Envelope :=
  { topic := "/tasks/start", ns := "default", timestamp := {}, event := {} }

/-- The first forward fails, and the event comes after the others. -/
def overtaken : Publisher := publisher.after InTurn {}
  [.publish orderedEvent, .publish orderedEvent, .publish orderedEvent, .recv, .forward .failed,
    .recv, .forward .ok, .tick 1000, .wake { name := 0, ev := orderedEvent, count := 1 } 1000,
    .recv, .forward .ok, .recv, .forward .ok]

theorem forwarded_in_order_overtaken : overtaken.forwarded = [1, 2, 0] ∧
    overtaken.forwarded.Pairwise fun n m => n ∉ overtaken.failed → m ∉ overtaken.failed → n < m :=
  ⟨by decide +kernel, forwarded_in_order (System.run_after (by decide +kernel))⟩

end Publisher
end RustExtensions.Shim
