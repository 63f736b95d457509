import Mathlib.Data.List.Perm.Basic

/-!
# A bounded channel

Sends that find the channel full wait in line. A receive hands the place it
frees to the first of them, which puts its item in at some later time of its
own. A send that waits for a place may give up.
-/
namespace RustExtensions.BoundedChannel

variable {α : Type}

/-- A waiting send with the time at which it began to wait. -/
structure Waiting (α : Type) where
  item : α
  since : Nat
  deriving DecidableEq

structure Channel (α : Type) where
  queue : List α := []
  granted : List α := []
  waiting : List (Waiting α) := []

namespace Channel

variable (capacity : Nat) (c : Channel α)

/-- No place is left: each holds an item or is promised to a send. -/
def Full : Prop := capacity ≤ c.queue.length + c.granted.length

instance : Decidable (c.Full capacity) := inferInstanceAs (Decidable (_ ≤ _))

def send (x : α) (now : Nat) : Channel α :=
  if c.Full capacity then { c with waiting := c.waiting ++ [{ item := x, since := now }] }
  else { c with queue := c.queue ++ [x] }

def recv : Option (α × Channel α) :=
  match c.queue with
  | [] => none
  | x :: queue =>
    match c.waiting with
    | [] => some (x, { c with queue })
    | w :: waiting => some (x, { queue, granted := c.granted ++ [w.item], waiting })

/-- A send that was given a place puts its item in. -/
def deliver [DecidableEq α] (x : α) : Option (Channel α) :=
  if x ∈ c.granted then
    some { c with queue := c.queue ++ [x], granted := c.granted.erase x }
  else none

def giveUp [DecidableEq α] (w : Waiting α) : Option (Channel α) :=
  if w ∈ c.waiting then some { c with waiting := c.waiting.erase w } else none

/-- All that was sent and neither received nor given up. -/
def contents : List α := c.queue ++ c.granted ++ c.waiting.map (·.item)

/-- Nobody waits for a place while there is one. -/
def Fair : Prop := c.waiting ≠ [] → c.Full capacity

variable {capacity c} {c' : Channel α} {x : α} {w : Waiting α} {now : Nat}

/-! ## Nothing is lost or made -/

theorem contents_send : (c.send capacity x now).contents.Perm (x :: c.contents) := by
  unfold send contents
  split
  · rw [List.map_append, ← List.append_assoc]
    exact List.perm_append_singleton ..
  · rw [List.append_assoc, List.append_assoc, List.append_assoc]
    exact List.perm_middle

theorem contents_recv (h : c.recv = some (x, c')) : c.contents.Perm (x :: c'.contents) := by
  unfold recv at h
  split at h
  · cases h
  · next y queue hqueue =>
    split at h
    · next hwaiting =>
      obtain ⟨rfl, rfl⟩ := Prod.mk.inj (Option.some.inj h)
      simp [contents, hqueue, hwaiting]
    · next w waiting hwaiting =>
      obtain ⟨rfl, rfl⟩ := Prod.mk.inj (Option.some.inj h)
      simp [contents, hqueue, hwaiting]

/-- What is received is the first of the queue. -/
theorem head_of_recv (h : c.recv = some (x, c')) : c.queue.head? = some x := by
  unfold recv at h
  split at h
  · cases h
  · next y queue hqueue =>
    rw [hqueue, List.head?_cons]
    split at h <;> exact congrArg some (Prod.mk.inj (Option.some.inj h)).1

variable [DecidableEq α]

theorem contents_deliver (h : c.deliver x = some c') : c.contents.Perm c'.contents := by
  obtain ⟨hmem, rfl⟩ := (Option.ite_none_right_eq_some.mp h).imp_right Option.some.inj
  have herase := List.perm_cons_erase hmem
  apply List.Perm.append_right _
  rw [List.append_assoc, List.singleton_append]
  exact herase.append_left _

theorem contents_giveUp (h : c.giveUp w = some c') : c.contents.Perm (w.item :: c'.contents) := by
  obtain ⟨hmem, rfl⟩ := (Option.ite_none_right_eq_some.mp h).imp_right Option.some.inj
  have herase := (List.perm_cons_erase hmem).map (·.item)
  exact (herase.append_left _).trans List.perm_middle

/-! ## Who waits -/

omit [DecidableEq α] in
theorem mem_waiting_send (h : w ∈ (c.send capacity x now).waiting) :
    w ∈ c.waiting ∨ c.Full capacity ∧ w.since = now := by
  unfold send at h
  split at h
  · next hfull =>
    rcases List.mem_append.mp h with h | h
    · exact .inl h
    · obtain rfl := List.mem_singleton.mp h
      exact .inr ⟨hfull, rfl⟩
  · exact .inl h

omit [DecidableEq α] in
theorem mem_waiting_recv (h : c.recv = some (x, c')) (hw : w ∈ c'.waiting) : w ∈ c.waiting := by
  unfold recv at h
  split at h
  · cases h
  · split at h
    · obtain ⟨rfl, rfl⟩ := Prod.mk.inj (Option.some.inj h)
      exact hw
    · next hwaiting =>
      obtain ⟨rfl, rfl⟩ := Prod.mk.inj (Option.some.inj h)
      rw [hwaiting]
      exact List.mem_cons_of_mem _ hw

theorem waiting_deliver (h : c.deliver x = some c') : c'.waiting = c.waiting := by
  obtain ⟨-, rfl⟩ := (Option.ite_none_right_eq_some.mp h).imp_right Option.some.inj
  rfl

theorem mem_of_giveUp (h : c.giveUp w = some c') : w ∈ c.waiting ∧ c'.waiting ⊆ c.waiting := by
  obtain ⟨hmem, rfl⟩ := (Option.ite_none_right_eq_some.mp h).imp_right Option.some.inj
  exact ⟨hmem, List.erase_subset⟩

/-! ## Nobody waits while there is a place -/

omit [DecidableEq α] in
theorem Fair.send (h : c.Fair capacity) : (c.send capacity x now).Fair capacity := by
  unfold Channel.send
  split
  · next hfull => exact fun _ => hfull
  · next hfull =>
    intro hwaiting
    exact absurd (h hwaiting) hfull

omit [DecidableEq α] in
theorem Fair.recv (h : c.Fair capacity) (hrecv : c.recv = some (x, c')) : c'.Fair capacity := by
  unfold Channel.recv at hrecv
  split at hrecv
  · cases hrecv
  · next y queue hqueue =>
    split at hrecv
    · next hwaiting =>
      obtain ⟨rfl, rfl⟩ := Prod.mk.inj (Option.some.inj hrecv)
      exact fun hne => absurd hwaiting hne
    · next w waiting hwaiting =>
      obtain ⟨rfl, rfl⟩ := Prod.mk.inj (Option.some.inj hrecv)
      intro _
      have hfull := h (by simp [hwaiting])
      unfold Full at hfull ⊢
      rw [hqueue, List.length_cons] at hfull
      dsimp only
      rw [List.length_append, List.length_singleton]
      omega

theorem length_deliver (h : c.deliver x = some c') :
    c'.queue.length + c'.granted.length = c.queue.length + c.granted.length := by
  obtain ⟨hmem, rfl⟩ := (Option.ite_none_right_eq_some.mp h).imp_right Option.some.inj
  have hpos := List.length_pos_of_mem hmem
  rw [List.length_append, List.length_erase_of_mem hmem, List.length_singleton]
  omega

theorem Fair.deliver (h : c.Fair capacity) (hx : c.deliver x = some c') : c'.Fair capacity := by
  have hlen := length_deliver hx
  obtain ⟨hmem, rfl⟩ := (Option.ite_none_right_eq_some.mp hx).imp_right Option.some.inj
  intro hwaiting
  have hfull := h hwaiting
  unfold Full at hfull ⊢
  omega

theorem Fair.giveUp (h : c.Fair capacity) (hw : c.giveUp w = some c') : c'.Fair capacity := by
  obtain ⟨hmem, rfl⟩ := (Option.ite_none_right_eq_some.mp hw).imp_right Option.some.inj
  exact fun _ => h (List.ne_nil_of_mem hmem)

/-! ## The order of what is in the channel -/

/-- The sends that have not put their item in yet. -/
def sends (c : Channel α) : List α := c.granted ++ c.waiting.map (·.item)

omit [DecidableEq α] in
theorem contents_eq : c.contents = c.queue ++ c.sends := List.append_assoc ..

omit [DecidableEq α] in
theorem send_cases (capacity : Nat) (c : Channel α) (x : α) (now : Nat) : c.Full capacity ∧ (c.send capacity x now).queue = c.queue ∧
      (c.send capacity x now).sends = c.sends ++ [x] ∨
    ¬c.Full capacity ∧ (c.send capacity x now).queue = c.queue ++ [x] ∧
      (c.send capacity x now).sends = c.sends := by
  unfold send
  split
  · next hfull => exact .inl ⟨hfull, rfl, by simp [sends]⟩
  · next hfull => exact .inr ⟨hfull, rfl, rfl⟩

omit [DecidableEq α] in
theorem recv_order (h : c.recv = some (x, c')) :
    c.queue = x :: c'.queue ∧ c'.sends = c.sends := by
  unfold recv at h
  split at h
  · cases h
  · next y queue hqueue =>
    split at h
    · obtain ⟨rfl, rfl⟩ := Prod.mk.inj (Option.some.inj h)
      exact ⟨hqueue, rfl⟩
    · next w waiting hwaiting =>
      obtain ⟨rfl, rfl⟩ := Prod.mk.inj (Option.some.inj h)
      exact ⟨hqueue, by simp [sends, hwaiting]⟩

theorem deliver_order (h : c.deliver x = some c') :
    c'.queue = c.queue ++ [x] ∧ c.sends.Perm (x :: c'.sends) := by
  obtain ⟨hmem, rfl⟩ := (Option.ite_none_right_eq_some.mp h).imp_right Option.some.inj
  exact ⟨rfl, (List.perm_cons_erase hmem).append_right _⟩

theorem giveUp_order (h : c.giveUp w = some c') :
    c'.queue = c.queue ∧ c'.sends.Sublist c.sends := by
  obtain ⟨-, rfl⟩ := (Option.ite_none_right_eq_some.mp h).imp_right Option.some.inj
  exact ⟨rfl, (List.erase_sublist.map _).append_left _⟩

end Channel
end RustExtensions.BoundedChannel
