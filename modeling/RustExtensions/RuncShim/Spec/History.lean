import RustExtensions.RuncShim.Spec.Shim

/-!
# Requests in flight, and the record of exits

Where a continuation or a reply of the shim comes from, and what the exits that
were handled say about the entries that are still in the map.
-/
namespace RustExtensions.RuncShim

open RustExtensions.Shim
open RustExtensions.Transition
open RustExtensions.KeyedMap (Map)

namespace Shim

variable {s s' : Shim} {a : Action}

/-! ## Requests in flight -/

theorem inflight_reply (s : Shim) (rid rid' : Nat) (r : Except TtrpcError Response) :
    (s.reply rid r).inflight.lookup rid' = if rid' = rid then none else s.inflight.lookup rid' :=
  KeyedMap.Map.lookup_erase_eq ..

theorem replies_reply (s : Shim) (rid rid' : Nat) (r : Except TtrpcError Response) :
    (s.reply rid r).replies.lookup rid' =
      if rid' = rid then some r else s.replies.lookup rid' :=
  KeyedMap.Map.lookup_insert_eq ..

theorem inflight_proceed (s : Shim) (rid rid' : Nat) (c : Cont) :
    (s.proceed rid c).inflight.lookup rid' =
      if rid' = rid then some c else s.inflight.lookup rid' :=
  KeyedMap.Map.lookup_insert_eq ..

theorem replied_reply (s : Shim) (rid : Nat) (r : Except TtrpcError Response) :
    (s.reply rid r).inflight.lookup rid = none ∧ (s.reply rid r).replies.lookup rid = some r :=
  ⟨(inflight_reply ..).trans (if_pos rfl), (replies_reply ..).trans (if_pos rfl)⟩

theorem inflight_proceed_self (s : Shim) (rid : Nat) (c : Cont) :
    (s.proceed rid c).inflight.lookup rid = some c :=
  (inflight_proceed ..).trans (if_pos rfl)

/-- Where a continuation comes from. -/
inductive Pending (s s' : Shim) (rid : Nat) : Action → Cont → Prop
  | old {a : Action} {c : Cont} (hc : s.inflight.lookup rid = some c) (ha : a ≠ .next rid) :
    Pending s s' rid a c
  | called {req : Request} {ans : Answers} {c : Cont}
    (hn : TaskService.Handled s.task ans s'.task req (.cont c)) :
    Pending s s' rid (.call rid req ans) c
  | unregistered {d : Deletion} (hc : s.inflight.lookup rid = some (.unregister d)) :
    Pending s s' rid (.next rid) (.drain d)
  | drained {d : Deletion} {c : Cont} (hc : s.inflight.lookup rid = some (.drain d))
    (hd : TaskService.deleted d = .ok c) : Pending s s' rid (.next rid) c

theorem pending_reply {rid rid' : Nat} {c : Cont}
    (hc : (s.inflight.erase rid').lookup rid = some c) : Pending s s' rid (.next rid') c := by
  rw [KeyedMap.Map.lookup_erase_eq] at hc
  split at hc
  · cases hc
  · next hne => exact .old hc fun he => hne (Action.next.inj he).symm

theorem Step.pending {rid : Nat} {c : Cont} (h : Step s a s')
    (hc : s'.inflight.lookup rid = some c) : Pending s s' rid a c := by
  cases h with
  | @handled rid' req ans n t hpump hnew hfresh hn =>
    cases n with
    | reply resp =>
      change ((Shim.reply { s with task := t } rid' (.ok resp))).inflight.lookup rid = some c at hc
      rw [inflight_reply] at hc
      split at hc
      · cases hc
      · exact .old hc (nomatch ·)
    | cont c' =>
      change ((Shim.proceed { s with task := t } rid' c')).inflight.lookup rid = some c at hc
      rw [inflight_proceed] at hc
      split at hc
      · next he =>
        subst he
        obtain rfl := Option.some.inj hc
        exact .called hn
      · exact .old hc (nomatch ·)
  | failed hpump hnew hfresh hq =>
    rw [inflight_reply] at hc
    split at hc
    · cases hc
    · exact .old hc (nomatch ·)
  | send hsend => exact pending_reply hc
  | unregister hpump hun =>
    rw [inflight_proceed] at hc
    split at hc
    · next he =>
      subst he
      obtain rfl := Option.some.inj hc
      exact .unregistered hun
    · next hne => exact .old hc fun he => hne (Action.next.inj he).symm
  | drained hdr hd =>
    rw [inflight_proceed] at hc
    split at hc
    · next he =>
      subst he
      obtain rfl := Option.some.inj hc
      exact .drained hdr hd
    · next hne => exact .old hc fun he => hne (Action.next.inj he).symm
  | undeleted hdr hd => exact pending_reply hc
  | woken hpump hw hrx hr hq => exact pending_reply hc
  | lost hpump hw hrx hq => exact pending_reply hc
  | exited hsub hpump hhit => exact .old hc (nomatch ·)
  | ignored hpump htable hfiles habsent => exact .old hc (nomatch ·)
  | published hpump => exact .old hc (nomatch ·)

/-- A step of one request leaves the others where they are. -/
theorem Step.other {rid : Nat} (h : Step s a s') (hcall : ∀ req ans, a ≠ .call rid req ans)
    (hnext : a ≠ .next rid) :
    s'.inflight.lookup rid = s.inflight.lookup rid ∧
      s'.replies.lookup rid = s.replies.lookup rid := by
  have hreply {t : Shim} {rid' : Nat} {r : Except TtrpcError Response} (hne : rid ≠ rid') :
      (t.reply rid' r).inflight.lookup rid = t.inflight.lookup rid ∧
        (t.reply rid' r).replies.lookup rid = t.replies.lookup rid := by
    rw [inflight_reply, replies_reply, if_neg hne, if_neg hne]
    exact ⟨rfl, rfl⟩
  have hproceed {t : Shim} {rid' : Nat} {c : Cont} (hne : rid ≠ rid') :
      (t.proceed rid' c).inflight.lookup rid = t.inflight.lookup rid ∧
        (t.proceed rid' c).replies.lookup rid = t.replies.lookup rid := by
    rw [inflight_proceed, if_neg hne]
    exact ⟨rfl, rfl⟩
  cases h with
  | @handled rid' req ans n t hpump hnew hfresh hn =>
    have hne : rid ≠ rid' := fun he => hcall req ans (by rw [he])
    cases n with
    | reply resp => exact hreply hne
    | cont c => exact hproceed hne
  | failed hpump hnew hfresh hq => exact hreply fun he => hcall _ _ (by rw [he])
  | send hc => exact hreply fun he => hnext (by rw [he])
  | unregister hpump hc => exact hproceed fun he => hnext (by rw [he])
  | drained hc hd => exact hproceed fun he => hnext (by rw [he])
  | undeleted hc hd => exact hreply fun he => hnext (by rw [he])
  | woken hpump hc hrx hr hq => exact hreply fun he => hnext (by rw [he])
  | lost hpump hc hrx hq => exact hreply fun he => hnext (by rw [he])
  | exited hsub hpump hhit => exact ⟨rfl, rfl⟩
  | ignored hpump htable hfiles habsent => exact ⟨rfl, rfl⟩
  | published hpump => exact ⟨rfl, rfl⟩

/-- Only a request number that was never used is called. -/
theorem Step.call_fresh {rid : Nat} {req : Request} {ans : Answers}
    (h : Step s (.call rid req ans) s') :
    s.inflight.lookup rid = none ∧ s.replies.lookup rid = none := by
  cases h with
  | handled hpump hnew hfresh hn => exact ⟨hnew, hfresh⟩
  | failed hpump hnew hfresh hq => exact ⟨hnew, hfresh⟩

theorem Step.next_inflight {rid : Nat} (h : Step s (.next rid) s') :
    ∃ c, s.inflight.lookup rid = some c := by
  cases h with
  | send hc => exact ⟨_, hc⟩
  | unregister hpump hc => exact ⟨_, hc⟩
  | drained hc hd => exact ⟨_, hc⟩
  | undeleted hc hd => exact ⟨_, hc⟩
  | woken hpump hc hrx hr hq => exact ⟨_, hc⟩
  | lost hpump hc hrx hq => exact ⟨_, hc⟩

/-- The request number was used. -/
def Used (s : Shim) (rid : Nat) : Prop :=
  s.inflight.lookup rid ≠ none ∨ s.replies.lookup rid ≠ none

theorem used_reply (s : Shim) (rid : Nat) (r : Except TtrpcError Response) :
    (s.reply rid r).Used rid := by
  apply Or.inr
  rw [(replied_reply s rid r).2]
  exact Option.some_ne_none r

theorem used_proceed (s : Shim) (rid : Nat) (c : Cont) : (s.proceed rid c).Used rid := by
  apply Or.inl
  rw [inflight_proceed_self]
  exact Option.some_ne_none c

theorem Step.used_call {rid : Nat} {req : Request} {ans : Answers}
    (h : Step s (.call rid req ans) s') : s'.Used rid := by
  cases h with
  | @handled _ _ _ n t hpump hnew hfresh hn =>
    cases n with
    | reply resp => exact used_reply ..
    | cont c => exact used_proceed ..
  | failed hpump hnew hfresh hq => exact used_reply ..

theorem Step.not_call {rid : Nat} {req : Request} {ans : Answers} (hu : s.Used rid)
    (h : Step s (.call rid req ans) s') : False := by
  obtain ⟨hnew, hfresh⟩ := h.call_fresh
  rcases hu with hu | hu
  · exact hu hnew
  · exact hu hfresh

theorem Step.used {rid : Nat} (h : Step s a s') (hu : s.Used rid) : s'.Used rid := by
  by_cases hnext : a = .next rid
  · subst hnext
    cases h with
    | send hc => exact used_reply ..
    | unregister hpump hc => exact used_proceed ..
    | drained hc hd => exact used_proceed ..
    | undeleted hc hd => exact used_reply ..
    | woken hpump hc hrx hr hq => exact used_reply ..
    | lost hpump hc hrx hq => exact used_reply ..
  · obtain ⟨hin, hrep⟩ := h.other (fun req ans he => (he ▸ h).not_call hu) hnext
    unfold Used at hu ⊢
    rwa [hin, hrep]

/-- What the next section of a request does, by where the request is. -/
inductive Resumes (s : Shim) (rid : Nat) : Cont → Shim → Prop
  | send {p : Published} {resp : Response} :
    Resumes s rid (.send p resp) ({ s with sent := s.sent ++ [p] }.reply rid (.ok resp))
  | unregister {d : Deletion} : Resumes s rid (.unregister d)
      ({ s with task := s.task.unregister d.reqId }.proceed rid (.drain d))
  | drained {d : Deletion} {c : Cont} (hd : TaskService.deleted d = .ok c) :
    Resumes s rid (.drain d) ({ s with task := s.task.drain d }.proceed rid c)
  | undeleted {d : Deletion} {e : TtrpcError} (hd : TaskService.deleted d = .error e) :
    Resumes s rid (.drain d) ({ s with task := s.task.drain d }.reply rid (.error e))
  | woken {id : String} {execId : Option String} {rx : Channel} {r : Slot} {t : TaskService}
    (hrx : rx ∉ s.table.openTx) (hr : s.table.slot (id, execId) = some r)
    (hq : TaskService.Quiet ∅ s.task t) :
    Resumes s rid (.wait id execId rx) ({ s with task := t }.reply rid (.ok (.wait {
      exitStatus := r.exitCode.toUInt32
      exitedAt := some (convertToTimestamp r.exitedAt) })))
  | lost {id : String} {execId : Option String} {rx : Channel} {e : TtrpcError} {t : TaskService} :
    Resumes s rid (.wait id execId rx) ({ s with task := t }.reply rid (.error e))

theorem Step.resumes {rid : Nat} {c : Cont} (h : Step s (.next rid) s')
    (hc : s.inflight.lookup rid = some c) : Resumes s rid c s' := by
  cases h with
  | send hc' =>
    cases hc.symm.trans hc'
    exact .send
  | unregister hpump hc' =>
    cases hc.symm.trans hc'
    exact .unregister
  | drained hc' hd =>
    cases hc.symm.trans hc'
    exact .drained hd
  | undeleted hc' hd =>
    cases hc.symm.trans hc'
    exact .undeleted hd
  | woken hpump hc' hrx hr hq =>
    cases hc.symm.trans hc'
    exact .woken hrx hr hq
  | lost hpump hc' hrx hq =>
    cases hc.symm.trans hc'
    exact .lost

/-- A request is answered once. -/
theorem Step.settled {rid : Nat} {x : Except TtrpcError Response} (h : Step s a s')
    (hdone : s.inflight.lookup rid = none) (hx : s.replies.lookup rid = some x) :
    s'.inflight.lookup rid = none ∧ s'.replies.lookup rid = some x := by
  have hcall : ∀ req ans, a ≠ .call rid req ans := by
    rintro req ans rfl
    exact nomatch h.call_fresh.2.symm.trans hx
  have hnext : a ≠ .next rid := by
    intro heq
    subst heq
    obtain ⟨c, hc⟩ := h.next_inflight
    exact nomatch hc.symm.trans hdone
  obtain ⟨hin, hrep⟩ := h.other hcall hnext
  exact ⟨hin.trans hdone, hrep.trans hx⟩

theorem replied {ok : Shim → Action → Prop} {rid : Nat} {x : Except TtrpcError Response}
    (h : shim.Run ok s s') (hdone : s.inflight.lookup rid = none)
    (hx : s.replies.lookup rid = some x) :
    s'.inflight.lookup rid = none ∧ s'.replies.lookup rid = some x := by
  refine h.preserves (P := fun t => t.inflight.lookup rid = none ∧
    t.replies.lookup rid = some x) ?_ ⟨hdone, hx⟩
  intro t a u ⟨hdone, hx⟩ _ hstep
  exact (step_cases hstep).settled hdone hx

/-- A request in flight stays where it is until its own next section. -/
theorem Step.stays {rid : Nat} {c : Cont} (h : Step s a s')
    (hc : s.inflight.lookup rid = some c) (hnext : a ≠ .next rid) :
    s'.inflight.lookup rid = some c ∧ s'.replies.lookup rid = s.replies.lookup rid := by
  have hcall : ∀ req ans, a ≠ .call rid req ans := by
    rintro req ans rfl
    exact nomatch h.call_fresh.1.symm.trans hc
  obtain ⟨hin, hrep⟩ := h.other hcall hnext
  exact ⟨hin.trans hc, hrep⟩

/-- A request that only has to send its event, or has sent it and returned. -/
inductive Answering (s : Shim) (rid : Nat) (p : Published) (resp : Response) : Prop
  | sending (hc : s.inflight.lookup rid = some (.send p resp))
    (hnone : s.replies.lookup rid = none)
  | done (hdone : s.inflight.lookup rid = none) (hx : s.replies.lookup rid = some (.ok resp))
    (hp : p ∈ s.sent)

/-! ## What is published -/

/-- The events published so far, with the one the pump is about to send. -/
def published (s : Shim) : List Published := s.sent ++ s.pump.toList

/-- The event reports this exit. -/
structure Reports (p : Published) (e : Exit) : Prop where
  inst : p.inst = some e.inst
  proc : p.proc = e.proc
  event : ∃ containerId id pid,
    p.event = .taskExit containerId id pid e.code.toUInt32 e.exitedAt.timestamp

def IsExit (p : Published) : Prop := ∃ containerId id pid code exitedAt,
  p.event = .taskExit containerId id pid code exitedAt

theorem reports_of_reported {containerId : String} {r : Slot} {code : Int32}
    {now : OffsetDateTime} {p : Published} {e : Exit} (h : Reported containerId r code now p e) :
    Reports p e := by
  obtain ⟨rfl, rfl⟩ := h
  exact ⟨rfl, rfl, containerId, r.id, r.pid.toUInt32, rfl⟩

theorem Reports.isExit {p : Published} {e : Exit} (h : Reports p e) : IsExit p := by
  obtain ⟨containerId, id, pid, he⟩ := h.event
  exact ⟨containerId, id, pid, _, _, he⟩

/-- What a handler leaves to be sent is not an exit. -/
theorem handled_not_exit {t t' : TaskService} {ans : Answers} {req : Request} {p : Published}
    {resp : Response} (h : TaskService.Handled t ans t' req (.cont (.send p resp))) :
    ¬IsExit p := by
  intro hexists
  obtain ⟨containerId, id, pid, code, exitedAt, he⟩ := hexists
  cases h <;> cases he

theorem deleted_not_exit {d : Deletion} {p : Published} {resp : Response}
    (h : TaskService.deleted d = .ok (.send p resp)) : ¬IsExit p := by
  intro hexists
  obtain ⟨containerId, id, pid, code, exitedAt, he⟩ := hexists
  obtain ⟨_, _, _, -, hsend⟩ := TaskService.deleted_ok h
  obtain ⟨rfl, -⟩ := Cont.send.inj hsend
  cases he

/-- Only the pump publishes exits. -/
theorem send_not_exit {ok : Shim → Action → Prop} (h : shim.Reachable ok s) {rid : Nat}
    {p : Published} {resp : Response} (hc : s.inflight.lookup rid = some (.send p resp)) :
    ¬IsExit p := by
  have hinv : ∀ rid p resp, s.inflight.lookup rid = some (.send p resp) → ¬IsExit p := by
    refine h.invariant (P := fun s => ∀ rid p resp,
      s.inflight.lookup rid = some (.send p resp) → ¬IsExit p) ?_ ?_
    · intro rid p resp hc
      cases hc
    · intro s a s' _ ih _ hstep rid p resp hc
      cases (step_cases hstep).pending hc with
      | old hold _ => exact ih rid p resp hold
      | called hn => exact handled_not_exit hn
      | drained hdr hd => exact deleted_not_exit hd
  exact hinv rid p resp hc

theorem Step.sent_subset (h : Step s a s') : s.sent ⊆ s'.sent := by
  cases h with
  | @handled rid req ans n t hpump hnew hfresh hn =>
    cases n <;> exact List.Subset.refl _
  | send hc => exact List.subset_append_left _ _
  | published hpump => exact List.subset_append_left _ _
  | failed hpump hnew hfresh hq => exact List.Subset.refl _
  | unregister hpump hc => exact List.Subset.refl _
  | drained hc hd => exact List.Subset.refl _
  | undeleted hc hd => exact List.Subset.refl _
  | woken hpump hc hrx hr hq => exact List.Subset.refl _
  | lost hpump hc hrx hq => exact List.Subset.refl _
  | exited hsub hpump hhit => exact List.Subset.refl _
  | ignored hpump htable hfiles habsent => exact List.Subset.refl _

theorem Answering.step {rid : Nat} {p : Published} {resp : Response}
    (hr : Answering s rid p resp) (h : Step s a s') : Answering s' rid p resp := by
  cases hr with
  | sending hc hnone =>
    by_cases hnext : a = .next rid
    · subst hnext
      cases h.resumes hc
      obtain ⟨hdone, hx⟩ := replied_reply { s with sent := s.sent ++ [p] } rid (.ok resp)
      exact .done hdone hx (List.mem_append_right _ (List.mem_singleton_self p))
    · obtain ⟨hc', hrep⟩ := h.stays hc hnext
      exact .sending hc' (hrep.trans hnone)
  | done hdone hx hp =>
    obtain ⟨hdone', hx'⟩ := h.settled hdone hx
    exact .done hdone' hx' (h.sent_subset hp)

theorem Answering.reply {rid : Nat} {p : Published} {resp : Response} {x : Response}
    (hr : Answering s rid p resp) (hx : s.replies.lookup rid = some (.ok x)) :
    x = resp ∧ p ∈ s.sent := by
  cases hr with
  | sending hc hnone => cases hnone.symm.trans hx
  | done hdone hx' hp =>
    cases hx'.symm.trans hx
    exact ⟨rfl, hp⟩

/-- Each step publishes at most one event more. -/
theorem Step.publishes (h : Step s a s') :
    s'.published = s.published ∧ s'.exits = s.exits ∨
    (∃ rid p resp, s.inflight.lookup rid = some (.send p resp) ∧ a = .next rid ∧
      s'.sent = s.sent ++ [p] ∧ s'.pump = s.pump ∧ s'.exits = s.exits ∧ s'.table = s.table) ∨
    ∃ ev pid an x r p e, a = .exit ev an ∧ ev.subject = .pid pid ∧ s.pump = none ∧
      TaskService.Hit s.task s'.task pid ev.exitCode an.now x r p e ∧
      s'.sent = s.sent ∧ s'.pump = some p ∧ s'.exits = s.exits ++ [e] := by
  cases h with
  | @handled rid' req ans n t hpump hnew hfresh hn =>
    left
    cases n <;> exact ⟨rfl, rfl⟩
  | failed hpump hnew hfresh hq => exact Or.inl ⟨rfl, rfl⟩
  | @send rid p resp hsend =>
    exact Or.inr (Or.inl ⟨rid, p, resp, hsend, rfl, rfl, rfl, rfl, rfl⟩)
  | unregister hpump hun => exact Or.inl ⟨rfl, rfl⟩
  | drained hdr hd => exact Or.inl ⟨rfl, rfl⟩
  | undeleted hdr hd => exact Or.inl ⟨rfl, rfl⟩
  | woken hpump hw hrx hr hq => exact Or.inl ⟨rfl, rfl⟩
  | lost hpump hw hrx hq => exact Or.inl ⟨rfl, rfl⟩
  | @exited ev pid an x r p e t hsub hpump hhit =>
    exact Or.inr (Or.inr ⟨ev, pid, an, x, r, p, e, rfl, hsub, hpump, hhit, rfl, rfl, rfl⟩)
  | ignored hpump htable hfiles habsent => exact Or.inl ⟨rfl, rfl⟩
  | @published p hpump =>
    left
    refine ⟨?_, rfl⟩
    simp only [Shim.published, hpump, Option.toList_some, Option.toList_none, List.append_nil]

/-- An event sent while the pump still holds one stands before that one. -/
theorem pairwise_send {R : Published → Published → Prop} {sent pump : List Published}
    {p : Published} (h : (sent ++ pump).Pairwise R) (hsent : ∀ p' ∈ sent, R p' p)
    (hpump : ∀ p' ∈ pump, R p p') : (sent ++ [p] ++ pump).Pairwise R := by
  obtain ⟨hold, hpumped, hcross⟩ := List.pairwise_append.mp h
  have hnew : (sent ++ [p]).Pairwise R := by
    refine List.pairwise_append.mpr ⟨hold, List.pairwise_singleton R p, fun p' hp' q hq => ?_⟩
    obtain rfl := List.mem_singleton.mp hq
    exact hsent p' hp'
  refine List.pairwise_append.mpr ⟨hnew, hpumped, fun p' hp' q hq => ?_⟩
  rcases List.mem_append.mp hp' with hp' | hp'
  · exact hcross p' hp' q hq
  · obtain rfl := List.mem_singleton.mp hp'
    exact hpump q hq

/-! ## The record of exits -/

/-- What the list of handled exits says about the entries still in the map: an
exit that was recorded is the one the entry shows, and the entry of a process
whose exit was handled is STOPPED. -/
structure Logged (T : Table) (exits : List Exit) : Prop where
  inst_lt : ∀ e ∈ exits, e.inst < T.nextInst
  proc_lt : ∀ e ∈ exits, ∀ q, e.proc = some q → q < T.nextProc
  exited : ∀ e ∈ exits, ∀ x r, T.slot x = some r → r.inst = e.inst → r.exitedAt.isSome
  same_stopped : ∀ e ∈ exits, ∀ x r, T.slot x = some r → r.inst = e.inst → r.proc = e.proc →
    r.state = .stopped
  proc_stopped : ∀ e ∈ exits, ∀ x r q, T.slot x = some r → r.proc = some q → e.proc = some q →
    r.state = .stopped
  recorded : ∀ x r now, T.slot x = some r → r.exitedAt = some now → ∃ e ∈ exits,
    e.inst = r.inst ∧ e.code = r.exitCode ∧ e.exitedAt = now ∧
      (r.state = .stopped → e.proc = r.proc)
  stopped : ∀ x r, T.slot x = some r → r.state = .stopped → r.exitedAt.isSome

/-- What an entry has from the one it comes from, if the effect is not an exit. -/
inductive Inherits (T : Table) (x : Ref) (r : Slot) : Prop
  | fresh (hinst : r.inst = T.nextInst) (hnone : r.exitedAt = none) (hstop : r.state ≠ .stopped)
    (hproc : ∀ q, r.proc = some q → q = T.nextProc)
  | kept {s : Slot} (hs : T.slot x = some s) (hinst : r.inst = s.inst)
    (hcode : r.exitCode = s.exitCode) (hat : r.exitedAt = s.exitedAt) (hproc : r.proc = s.proc)
    (hstop : r.state = .stopped ↔ s.state = .stopped)
  | spawned {s : Slot} (hs : T.slot x = some s) (hinst : r.inst = s.inst)
    (hcode : r.exitCode = s.exitCode) (hat : r.exitedAt = s.exitedAt)
    (hproc : r.proc = some T.nextProc) (hstop : r.state ≠ .stopped)

theorem inherits {T : Table} {e : Effect} {x : Ref} {r : Slot} (he : T.Admits e)
    (hexit : ∀ x code now, e ≠ .exit x code now) (hr : (T.apply e).slot x = some r) :
    Inherits T x r := by
  cases Table.origin T hr with
  | kept hs => exact .kept hs rfl rfl rfl rfl Iff.rfl
  | created id bundle pid =>
    exact .fresh rfl rfl (nomatch ·) fun q hq => (Option.some.inj hq).symm
  | added id execId bundle => exact .fresh rfl rfl (nomatch ·) fun q hq => nomatch hq
  | started hs =>
    obtain ⟨s, hs', hstate⟩ := he
    obtain rfl := Option.some.inj (hs.symm.trans hs')
    exact .kept hs rfl rfl rfl rfl ⟨(nomatch ·), (absurd · hstate)⟩
  | spawned hs => exact .spawned hs rfl rfl rfl rfl (nomatch ·)
  | paused hs =>
    obtain ⟨s, hs', hstate⟩ := he
    obtain rfl := Option.some.inj (hs.symm.trans hs')
    exact .kept hs rfl rfl rfl rfl ⟨(nomatch ·), fun hstop => nomatch hstate.symm.trans hstop⟩
  | resumed hs =>
    obtain ⟨s, hs', hstate⟩ := he
    obtain rfl := Option.some.inj (hs.symm.trans hs')
    exact .kept hs rfl rfl rfl rfl ⟨(nomatch ·), fun hstop => nomatch hstate.symm.trans hstop⟩
  | registered hs => exact .kept hs rfl rfl rfl rfl Iff.rfl
  | exited hs => exact absurd rfl (hexit _ _ _)

/-- An effect other than an exit keeps what the exits say. -/
theorem Logged.apply {T : Table} {exits : List Exit} (h : Logged T exits) {e : Effect}
    (he : T.Admits e) (hexit : ∀ x code now, e ≠ .exit x code now) :
    Logged (T.apply e) exits where
  inst_lt x hx := (h.inst_lt x hx).trans_le (Table.nextInst_le T e)
  proc_lt x hx q hq := (h.proc_lt x hx q hq).trans_le (Table.nextProc_le T e)
  exited x hx y r hr hinst := by
    have hlt := h.inst_lt x hx
    cases inherits he hexit hr with
    | fresh hi hnone hstop hproc => omega
    | kept hs hi hcode hat hproc hstop =>
      rw [hat]
      exact h.exited x hx y _ hs (hi ▸ hinst)
    | spawned hs hi hcode hat hproc hstop =>
      rw [hat]
      exact h.exited x hx y _ hs (hi ▸ hinst)
  same_stopped x hx y r hr hinst hproc := by
    have hlt := h.inst_lt x hx
    cases inherits he hexit hr with
    | fresh hi hnone hstop hp => omega
    | kept hs hi hcode hat hp hstop =>
      exact hstop.mpr (h.same_stopped x hx y _ hs (hi ▸ hinst) (hp ▸ hproc))
    | spawned hs hi hcode hat hp hstop =>
      have := h.proc_lt x hx _ (hproc.symm.trans hp)
      omega
  proc_stopped x hx y r q hr hq hxq := by
    have hlt := h.proc_lt x hx q hxq
    cases inherits he hexit hr with
    | fresh hi hnone hstop hp =>
      have := hp q hq
      omega
    | kept hs hi hcode hat hp hstop =>
      exact hstop.mpr (h.proc_stopped x hx y _ q hs (hp ▸ hq) hxq)
    | spawned hs hi hcode hat hp hstop =>
      have := Option.some.inj (hq.symm.trans hp)
      omega
  recorded y r now hr hnow := by
    cases inherits he hexit hr with
    | fresh hi hnone hstop hp => exact nomatch hnone.symm.trans hnow
    | kept hs hi hcode hat hp hstop =>
      obtain ⟨x, hx, hxi, hxc, hxat, hxp⟩ := h.recorded y _ now hs (hat ▸ hnow)
      exact ⟨x, hx, hxi.trans hi.symm, hxc.trans hcode.symm, hxat,
        fun hst => (hxp (hstop.mp hst)).trans hp.symm⟩
    | spawned hs hi hcode hat hp hstop =>
      obtain ⟨x, hx, hxi, hxc, hxat, -⟩ := h.recorded y _ now hs (hat ▸ hnow)
      exact ⟨x, hx, hxi.trans hi.symm, hxc.trans hcode.symm, hxat, (absurd · hstop)⟩
  stopped y r hr hst := by
    cases inherits he hexit hr with
    | fresh hi hnone hstop hp => exact absurd hst hstop
    | kept hs hi hcode hat hp hstop =>
      rw [hat]
      exact h.stopped y _ hs (hstop.mp hst)
    | spawned hs hi hcode hat hp hstop => exact absurd hst hstop

/-- After an exit the other entries stand, and have other names. -/
theorem exit_inv {T : Table} (hd : T.Distinct) {x y : Ref} {r s : Slot} {code : Int32}
    {now : OffsetDateTime} (hr : T.slot x = some r)
    (hs : (T.apply (.exit x code now)).slot y = some s) :
    T.slot y = some s ∧ s.inst ≠ r.inst ∧ (∀ q, s.proc = some q → r.proc ≠ some q) ∨
      s = { r with toRecord := ProcessTemplate.exited r.toRecord code now } := by
  obtain ⟨s₀, hs₀, ⟨hne, rfl⟩ | ⟨rfl, rfl⟩⟩ :=
    Table.slot_modify T x y (ProcessTemplate.exited · code now) hs
  · refine Or.inl ⟨hs₀, fun hi => hne (hd.inst_inj y x s r hs₀ hr hi), fun q hq hrq => ?_⟩
    exact hne (hd.proc_inj y x s r q hs₀ hr hq hrq)
  · obtain rfl := Option.some.inj (hr.symm.trans hs₀)
    exact Or.inr rfl

/-- An exit adds its own record. -/
theorem Logged.exit {T : Table} {exits : List Exit} (h : Logged T exits) (hd : T.Distinct)
    {x : Ref} {r : Slot} (hr : T.slot x = some r) (code : Int32) (now : OffsetDateTime) :
    Logged (T.apply (.exit x code now))
      (exits ++ [{ inst := r.inst, proc := r.proc, code := code, exitedAt := now }]) where
  inst_lt e he := by
    rcases List.mem_append.mp he with he | he
    · exact h.inst_lt e he
    · obtain rfl := List.mem_singleton.mp he
      exact hd.inst_lt x r hr
  proc_lt e he q hq := by
    rcases List.mem_append.mp he with he | he
    · exact h.proc_lt e he q hq
    · obtain rfl := List.mem_singleton.mp he
      exact hd.proc_lt x r q hr hq
  exited e he y s hs hinst := by
    rcases exit_inv hd hr hs with ⟨hs₀, hi, -⟩ | rfl
    · rcases List.mem_append.mp he with he | he
      · exact h.exited e he y s hs₀ hinst
      · obtain rfl := List.mem_singleton.mp he
        exact absurd hinst hi
    · rfl
  same_stopped e he y s hs hinst hproc := by
    rcases exit_inv hd hr hs with ⟨hs₀, hi, -⟩ | rfl
    · rcases List.mem_append.mp he with he | he
      · exact h.same_stopped e he y s hs₀ hinst hproc
      · obtain rfl := List.mem_singleton.mp he
        exact absurd hinst hi
    · rfl
  proc_stopped e he y s q hs hq heq := by
    rcases exit_inv hd hr hs with ⟨hs₀, -, hp⟩ | rfl
    · rcases List.mem_append.mp he with he | he
      · exact h.proc_stopped e he y s q hs₀ hq heq
      · obtain rfl := List.mem_singleton.mp he
        exact absurd heq (hp q hq)
    · rfl
  recorded y s at' hs hat := by
    rcases exit_inv hd hr hs with ⟨hs₀, -, -⟩ | rfl
    · obtain ⟨e, he, hrest⟩ := h.recorded y s at' hs₀ hat
      exact ⟨e, List.mem_append_left _ he, hrest⟩
    · refine ⟨_, List.mem_append_right _ (List.mem_singleton_self _), rfl, rfl, ?_, fun _ => rfl⟩
      exact Option.some.inj hat
  stopped y s hs hstop := by
    rcases exit_inv hd hr hs with ⟨hs₀, -, -⟩ | rfl
    · exact h.stopped y s hs₀ hstop
    · rfl

theorem logged {ok : Shim → Action → Prop} (h : shim.Reachable ok s) :
    Logged s.table s.exits := by
  refine h.invariant (P := fun s => Logged s.table s.exits) ?_ ?_
  · exact ⟨fun _ => (nomatch ·), fun _ => (nomatch ·), fun _ => (nomatch ·), fun _ => (nomatch ·),
      fun _ => (nomatch ·), fun _ _ _ => (nomatch ·), fun _ _ => (nomatch ·)⟩
  · intro s a s' hr ih _ hstep
    rcases (step_cases hstep).effect with
      ⟨⟨e, hcause, he, htable⟩, hexits⟩ | ⟨ev, an, x, r, -, -, hslot, htable, hexits⟩
    · rw [htable, hexits]
      exact ih.apply he hcause.ne_exit
    · rw [htable, hexits]
      exact ih.exit (distinct hr) hslot ev.exitCode an.now

/-- An exit once handled stays in the list. -/
theorem Step.exits_subset (h : Step s a s') : s.exits ⊆ s'.exits := by
  rcases h.effect with ⟨-, hexits⟩ | ⟨ev, an, x, r, -, -, -, -, hexits⟩
  · rw [hexits]
    exact List.Subset.refl _
  · rw [hexits]
    exact List.subset_append_left _ _

/-- The exits published are the exits handled. -/
theorem published_exits {ok : Shim → Action → Prop} (h : shim.Reachable ok s) :
    (∀ e ∈ s.exits, ∃ p ∈ s.published, Reports p e) ∧
      ∀ p ∈ s.published, IsExit p → ∃ e ∈ s.exits, Reports p e := by
  refine h.invariant (P := fun s => (∀ e ∈ s.exits, ∃ p ∈ s.published, Reports p e) ∧
      ∀ p ∈ s.published, IsExit p → ∃ e ∈ s.exits, Reports p e) ?_ ?_
  · exact ⟨fun e he => (nomatch he), fun p hp => (nomatch hp)⟩
  · intro s a s' hr ⟨ihe, ihp⟩ _ hstep
    rcases (step_cases hstep).publishes with ⟨hpub, hexits⟩ |
      ⟨rid, p, resp, hc, -, hsent, hpump, hexits, -⟩ |
      ⟨ev, pid, an, x, r, p, e, -, -, hnone, hhit, hsent, hpump, hexits⟩
    · rw [hpub, hexits]
      exact ⟨ihe, ihp⟩
    · have hmem (q : Published) : q ∈ s'.published ↔ q ∈ s.published ∨ q = p := by
        simp only [published, hsent, hpump, List.mem_append, List.mem_singleton]
        tauto
      rw [hexits]
      refine ⟨fun e he => ?_, fun q hq hex => ?_⟩
      · obtain ⟨q, hq, hrep⟩ := ihe e he
        exact ⟨q, (hmem q).mpr (Or.inl hq), hrep⟩
      · rcases (hmem q).mp hq with hq | rfl
        · exact ihp q hq hex
        · exact absurd hex (send_not_exit hr hc)
    · have hmem (q : Published) : q ∈ s'.published ↔ q ∈ s.published ∨ q = p := by
        simp [published, hsent, hpump, hnone]
      obtain ⟨i, -, hreported⟩ := hhit.reported
      have hrep := reports_of_reported hreported
      rw [hexits]
      refine ⟨fun e' he' => ?_, fun q hq hex => ?_⟩
      · rcases List.mem_append.mp he' with he' | he'
        · obtain ⟨q, hq, hrep'⟩ := ihe e' he'
          exact ⟨q, (hmem q).mpr (Or.inl hq), hrep'⟩
        · obtain rfl := List.mem_singleton.mp he'
          exact ⟨p, (hmem p).mpr (Or.inr rfl), hrep⟩
      · rcases (hmem q).mp hq with hq | rfl
        · obtain ⟨e', he', hrep'⟩ := ihp q hq hex
          exact ⟨e', List.mem_append_left _ he', hrep'⟩
        · exact ⟨e, List.mem_append_right _ (List.mem_singleton_self _), hrep⟩

/-! ## Runs to start from -/

def startRun : List Action := [
  .call 0 (.create { id := "c", bundle := "/b" }) {}, .next 0, .call 1 (.start "c" "") {}, .next 1]

/-- A container whose process runs. -/
def started : Shim := shim.after System.Any {} startRun

theorem reachable_started : shim.Reachable System.Any started :=
  System.run_after (by decide +kernel)

def exitTime : OffsetDateTime := ⟨5, 0⟩

/-- The container's process exits. -/
def exitC : Action :=
  .exit { subject := .pid 1, exitCode := 9 } { order := [("c", [])], now := exitTime }

/-- An exec runs beside the container's process. -/
def execRun (execId : String) : List Action := startRun ++ [
  .call 2 (.exec { id := "c", execId, spec := some {} }) {}, .next 2,
  .call 3 (.start "c" execId) { pid := 2 }, .next 3]

end Shim
end RustExtensions.RuncShim
