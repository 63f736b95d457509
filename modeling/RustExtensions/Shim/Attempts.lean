import RustExtensions.Shim.Requeue

/-!
# How often an event is forwarded

Before the loop forwards an event it drops it if its copy counts too many
failures. The copies count from zero, so the last one that is let through has
failed as often as the limit says, and is tried once more.
-/
namespace RustExtensions.Shim

open RustExtensions.Transition
open RustExtensions.BoundedChannel

/-- The event that `client.forward` was called with and has not answered for yet. -/
def Loop.underway : Loop → List Nat
  | .forwarding item => [item.name]
  | _ => []

namespace Publisher

variable {p p' : Publisher} {item : Item} {a : PublisherAction} {n : Nat}

/-- How often an event was passed to `client.forward`: the calls that failed, the one that
succeeded, and the one that is under way. -/
def attempts (p : Publisher) (n : Nat) : Nat :=
  p.failed.count n + p.forwarded.count n + p.loop.underway.count n

/-- The event does not come out of the queue with as many failures as the limit says. -/
def Spares (n : Nat) (p : Publisher) : PublisherAction → Prop
  | .recv => ∀ item ∈ p.channel.queue.head?, item.name = n → item.count ≠ maxRequeue
  | _ => True

instance (n : Nat) (p : Publisher) (a : PublisherAction) : Decidable (Spares n p a) :=
  match a with
  | .recv => inferInstanceAs (Decidable (∀ item ∈ p.channel.queue.head?, _))
  | .publish _ | .forward _ | .connect | .wake _ _ | .deliver _ | .timeout _ | .tick _ =>
    .isTrue trivial

/-- Nothing but a receive begins a forward. -/
theorem attempts_move (h : p.move a = some p') (ha : a ≠ .recv) :
    p'.attempts n = p.attempts n := by
  cases a with
  | publish ev =>
    obtain rfl := Option.some.inj h
    rfl
  | recv => exact absurd rfl ha
  | forward result =>
    obtain ⟨item, hloop, rfl⟩ := forward_cases h
    cases result <;>
    · simp only [handleResult, requeue, attempts, hloop, Loop.underway, List.count_append,
        List.count_nil]
      omega
  | connect =>
    obtain ⟨item, hloop, rfl⟩ := connect_cases h
    simp only [requeue, attempts, hloop, Loop.underway]
  | wake item time =>
    obtain ⟨-, rfl⟩ := (Option.ite_none_right_eq_some.mp h).imp_right Option.some.inj
    rfl
  | deliver item =>
    obtain ⟨channel, -, rfl⟩ := Option.map_eq_some_iff.mp h
    rfl
  | timeout w =>
    obtain ⟨-, h⟩ := Option.ite_none_right_eq_some.mp h
    obtain ⟨channel, -, rfl⟩ := Option.map_eq_some_iff.mp h
    rfl
  | tick d =>
    obtain rfl := Option.some.inj h
    rfl

/-- An event in the queue has been tried as often as its copy counts. -/
theorem attempts_of_contents (h : publisher.Reachable System.Any p) (hloop : p.loop = .receiving)
    (hitem : item ∈ p.channel.contents) : p.attempts item.name = item.count := by
  have hplace : item ∈ p.places := mem_places.mpr (.inl hitem)
  have hpos : 0 < (p.places.map (·.name)).count item.name :=
    List.count_pos_iff.mpr (List.mem_map.mpr ⟨item, hplace, rfl⟩)
  have htally := accounted h item.name
  have hforwarded : p.forwarded.count item.name = 0 := by
    unfold tally at htally
    split at htally <;> omega
  rw [attempts, hloop, hforwarded, ((counted h).places item hplace).count]
  rfl

/-- A step leaves the attempts as they are, or makes one more than the copy counts. -/
theorem attempts_step (hr : publisher.Reachable System.Any p)
    (hs : publisher.step p a = some p') :
    p'.attempts n = p.attempts n ∧ Spares n p a ∨
    ∃ item : Item, p.attempts n = item.count ∧ item.count ≤ maxRequeue ∧
      p'.attempts n = item.count + 1 ∧ (Spares n p a ↔ item.count ≠ maxRequeue) := by
  obtain ⟨q, hmove, rfl⟩ := Option.map_eq_some_iff.mp hs
  have hobserve : q.observe.attempts n = q.attempts n := rfl
  rw [hobserve]
  by_cases ha : a = .recv
  · subst ha
    obtain ⟨item, channel, hloop, hrecv, hcases⟩ := recv_cases hmove
    have hhead := Channel.head_of_recv hrecv
    have hspares : Spares n p .recv ↔ (item.name = n → item.count ≠ maxRequeue) := by
      simp [Spares, hhead]
    have hmem : item ∈ p.channel.contents :=
      (Channel.contents_recv hrecv).mem_iff.mpr List.mem_cons_self
    rcases hcases with ⟨hcount, rfl⟩ | ⟨hcount, rfl⟩
    · refine .inl ⟨rfl, hspares.mpr fun _ => ?_⟩
      omega
    · by_cases hname : item.name = n
      · subst hname
        have hbefore := attempts_of_contents hr hloop hmem
        refine .inr ⟨item, hbefore, hcount, ?_, ?_⟩
        · rw [← hbefore]
          simp [attempts, hloop, Loop.underway]
        · exact hspares.trans ⟨fun h => h rfl, fun h _ => h⟩
      · refine .inl ⟨?_, hspares.mpr fun h => absurd h hname⟩
        simp [attempts, hloop, Loop.underway, hname]
  · refine .inl ⟨attempts_move hmove ha, ?_⟩
    cases a with
    | recv => exact absurd rfl ha
    | _ => trivial

/-- An event is passed to `client.forward` at most five times exactly along the runs in which it
does not come out of the queue after five failures. -/
theorem attempts_within_iff (p : Publisher) (n : Nat) (h : publisher.Reachable System.Any p) :
    p.attempts n ≤ 5 ↔ publisher.Reachable (Spares n) p := by
  constructor
  · intro hle
    -- attempts are never taken back, so the bound holds all along the run
    induction h with
    | refl => exact System.Reachable.init
    | tail hrun hnext ih =>
      obtain ⟨a, -, hs⟩ := hnext
      rcases attempts_step hrun hs with ⟨hsame, hspares⟩ | ⟨item, hbefore, -, hafter, hspares⟩
      · exact (ih (hsame ▸ hle)).step hspares hs
      · have hne : item.count ≠ maxRequeue := by
          intro heq
          rw [hafter, heq] at hle
          exact absurd hle (by decide)
        exact (ih (by omega)).step (hspares.mpr hne) hs
  · intro hrun
    refine hrun.invariant (P := fun p => p.attempts n ≤ 5) (Nat.zero_le 5) ?_
    intro q a q' hq hle hspares hs
    rcases attempts_step hq.any hs with ⟨hsame, -⟩ | ⟨item, -, hcount, hafter, hiff⟩
    · rwa [hsame]
    · have hne := hiff.mp hspares
      have hmax : maxRequeue = 5 := rfl
      omega

def exampleEvent : Envelope :=
  { topic := "/tasks/exit", ns := "default", timestamp := {}, event := {} }

/-- A forward that fails, and the event in the queue again some seconds later. -/
def failedRound (count time : Nat) : List PublisherAction :=
  [.recv, .forward .failed, .tick (count * 1000),
    .wake { name := 0, ev := exampleEvent, count } time]

def retriedOnce : Publisher :=
  publisher.after System.Any {} (.publish exampleEvent :: failedRound 1 1000)

theorem attempts_within_once : publisher.Reachable (Spares 0) retriedOnce :=
  (attempts_within_iff retriedOnce 0 (System.run_after (by decide +kernel))).mp (by decide +kernel)

/-- Five forwards that fail, and a sixth one. -/
def exhaustingRun : List PublisherAction :=
  .publish exampleEvent :: failedRound 1 1000 ++ failedRound 2 3000 ++ failedRound 3 6000 ++
    failedRound 4 10000 ++ failedRound 5 15000 ++ [.recv, .forward .ok]

theorem sixth_attempt :
    ¬∀ (p : Publisher) (n : Nat), publisher.Reachable System.Any p → p.attempts n ≤ 5 := by
  intro h
  have hrun : (publisher.exec System.Any {} exhaustingRun).isSome := by decide +kernel
  have hsix : (publisher.after System.Any {} exhaustingRun).attempts 0 = 6 := by decide +kernel
  have hle : (publisher.after System.Any {} exhaustingRun).attempts 0 ≤ 5 :=
    h _ 0 (System.run_after hrun)
  rw [hsix] at hle
  exact absurd hle (by decide)

end Publisher
end RustExtensions.Shim
