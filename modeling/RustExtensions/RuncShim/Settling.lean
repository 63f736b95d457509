import RustExtensions.RuncShim.Wait

/-!
# Requests are answered

Where no request comes and no process exits, the shim comes to rest, and what it
has not answered then are waits for processes that live.
-/
namespace RustExtensions.RuncShim

open RustExtensions.Shim
open RustExtensions.Transition

/-- How many sections of its own a request still has. -/
def Cont.left : Cont → Nat
  | .send _ _ => 1
  | .unregister _ => 3
  | .drain _ => 2
  | .wait _ _ _ => 1

namespace Shim

variable {s s' : Shim} {a : Action} {rid : Nat}

/-- The shim goes on with what it has. -/
def Own (_ : Shim) : Action → Prop
  | .next _ | .publish => True
  | _ => False

instance (s : Shim) : (a : Action) → Decidable (Own s a)
  | .next _ | .publish => .isTrue trivial
  | .call .. | .exit .. => .isFalse id

def left (s : Shim) : Nat := KeyedMap.Map.total s.inflight Cont.left + s.pump.toList.length

theorem left_reply {c : Cont} (hc : s.inflight.lookup rid = some c) (hleft : 0 < c.left)
    (t : TaskService) (sent : List Published) (x : Except TtrpcError Response) :
    ({ s with task := t, sent := sent }.reply rid x).left < s.left := by
  have htotal := KeyedMap.Map.total_of_lookup Cont.left hc
  simp only [left, reply]
  omega

theorem left_proceed {c : Cont} (hc : s.inflight.lookup rid = some c) (t : TaskService) (c' : Cont)
    (hleft : c'.left < c.left) : ({ s with task := t }.proceed rid c').left < s.left := by
  have htotal := KeyedMap.Map.total_of_lookup Cont.left hc
  simp only [left, proceed, KeyedMap.Map.total_insert]
  omega

theorem Step.left_lt (h : Step s a s') (ha : Own s a) : s'.left < s.left := by
  cases h with
  | handled => exact ha.elim
  | failed => exact ha.elim
  | exited => exact ha.elim
  | ignored => exact ha.elim
  | send hc => exact left_reply hc Nat.one_pos s.task _ _
  | unregister hpump hc => exact left_proceed hc _ _ (Nat.lt_succ_self 2)
  | drained hc hd =>
    obtain ⟨_, _, _, -, rfl⟩ := TaskService.deleted_ok hd
    exact left_proceed hc _ _ (Nat.lt_succ_self 1)
  | undeleted hc hd => exact left_reply hc Nat.two_pos _ s.sent _
  | woken hpump hc hrx hr hq => exact left_reply hc Nat.one_pos _ s.sent _
  | lost hpump hc hrx hq => exact left_reply hc Nat.one_pos _ s.sent _
  | published hpump => simp [left, hpump]

/-- The request waits for a process in the map that has not exited. -/
def Waits (s : Shim) (rid : Nat) : Prop := ∃ id execId rx r,
  s.inflight.lookup rid = some (.wait id execId rx) ∧ s.task.entry (id, execId) = some r ∧
    rx ∈ r.waitChanTx ∧ r.state ≠ .stopped

theorem waits_of_open {ok : Shim → Action → Prop} (h : shim.Reachable ok s) {id : String}
    {execId : Option String} {rx : Channel} (hc : s.inflight.lookup rid = some (.wait id execId rx))
    (hopen : rx ∈ s.task.world.openTx) : s.Waits rid := by
  have hw := waiting h
  obtain ⟨x, r, hr, hmem⟩ := hw.held rx hopen
  have hinst := (hw.inst_eq x r hr rx hmem).symm
  obtain rfl := (awaited h rid id execId rx hc).place x r hr hinst
  refine ⟨id, execId, rx, r.toRecord, hc, TaskService.entry_of_slot hr, hmem, fun hstop => ?_⟩
  rw [hw.stopped _ r hr hstop] at hmem
  exact List.not_mem_nil hmem

/-- Nothing is left but waits for processes that live. -/
def AtRest (s : Shim) : Prop :=
  s.pump = none ∧ ∀ rid, s.inflight.lookup rid ≠ none → s.Waits rid

/-- The next section of a request that is not such a wait can run once the pump is done. -/
theorem next_of_not_waits {ok : Shim → Action → Prop} (h : shim.Reachable ok s)
    (hpump : s.pump = none) (hrid : s.inflight.lookup rid ≠ none) (hwaits : ¬s.Waits rid) :
    ∃ t, s.step (.next rid) = some t := by
  obtain ⟨c, hc⟩ := Option.ne_none_iff_exists'.mp hrid
  cases c with
  | send p resp =>
    refine ⟨{ s with sent := s.sent ++ [p] }.reply rid (.ok resp), ?_⟩
    simp only [step, next, hc]
  | unregister d =>
    refine ⟨{ s with task := s.task.unregister d.reqId }.proceed rid (.drain d), ?_⟩
    simp only [step, next, hc, if_pos hpump]
  | drain d =>
    cases hd : TaskService.deleted d with
    | ok c =>
      refine ⟨{ s with task := s.task.drain d }.proceed rid c, ?_⟩
      simp only [step, next, hc, hd]
    | error e =>
      refine ⟨{ s with task := s.task.drain d }.reply rid (.error e), ?_⟩
      simp only [step, next, hc, hd]
  | wait id execId rx =>
    have hclosed : rx ∉ s.task.world.openTx := fun hopen => hwaits (waits_of_open h hc hopen)
    cases hres : TaskService.waitExited id execId s.task with
    | ok resp t =>
      refine ⟨{ s with task := t }.reply rid (.ok resp), ?_⟩
      simp only [step, next, hc, if_pos (And.intro hpump hclosed), hres]
    | error e t =>
      refine ⟨{ s with task := t }.reply rid (.error e), ?_⟩
      simp only [step, next, hc, if_pos (And.intro hpump hclosed), hres]

theorem atRest_or_step {ok : Shim → Action → Prop} (h : shim.Reachable ok s) :
    s.AtRest ∨ ∃ a t, Own s a ∧ s.step a = some t := by
  cases hpump : s.pump with
  | some p => exact .inr ⟨.publish, _, trivial, by simp only [step, publish, hpump]; rfl⟩
  | none =>
    by_cases hrest : ∀ rid, s.inflight.lookup rid ≠ none → s.Waits rid
    · exact .inl ⟨hpump, hrest⟩
    · obtain ⟨rid, hnot⟩ := not_forall.mp hrest
      obtain ⟨hrid, hwaits⟩ := Classical.not_imp.mp hnot
      obtain ⟨t, ht⟩ := next_of_not_waits h hpump hrid hwaits
      exact .inr ⟨.next rid, t, trivial, ht⟩

end Shim
end RustExtensions.RuncShim
