import RustExtensions.RuncShim.Spec.History

/-!
# Started processes are tracked

`Watch` keeps beside the shim what it owes its caller: the processes that a
successful Create or Start reported and whose exit is still to come. Each of
them is held by an entry, unless an Exec, a Start or a Create puts something else
in the place of an entry whose process is alive. Its exit is recorded there,
unless another entry bears its pid.
-/
namespace RustExtensions.RuncShim

open RustExtensions.Shim
open RustExtensions.Transition

/-- A process that a successful Create or Start reported, with its pid as reported. -/
structure Owed where
  proc : Option Nat
  pid : UInt32
  deriving DecidableEq

structure Watch where
  shim : Shim := {}
  owed : List Owed := []

namespace Watch

/-- The processes that the entries of a container hold. -/
def procsUnder (t : TaskService) (id : String) : List (Option Nat) :=
  (t.refs.filter (·.1 = id)).map fun x => (t.entry x).bind (·.proc)

/-- What a first section adds or takes away: a new process, or those that a
successful Delete answers for. -/
def afterCall (s : Shim) (owed : List Owed) : Option Cont → List Owed
  | some (.send p (.create pid)) | some (.send p (.start pid)) =>
    { proc := p.proc, pid := pid } :: owed
  | some (.unregister d) => owed.filter fun o => o.proc ∉ procsUnder s.task d.reqId
  | some (.drain d) =>
    if d.deleted.isOk then owed.filter fun o => o.proc ≠ d.process.bind (·.proc) else owed
  | _ => owed

/-- What is owed after a step from `s` to `s'`. -/
def settle (s : Shim) (a : Action) (s' : Shim) (owed : List Owed) : List Owed :=
  match a with
  | .call rid _ _ => afterCall s owed (s'.inflight.lookup rid)
  | .exit ev _ =>
    match ev.subject with
    | .pid pid => owed.filter fun o => o.pid ≠ pid.toUInt32
    | .exec _ _ => owed
  | .next _ | .publish => owed

def step (w : Watch) (a : Action) : Option Watch :=
  (w.shim.step a).map fun s => { shim := s, owed := settle w.shim a s w.owed }

end Watch

def watch : System Watch Action where
  init := {}
  step := Watch.step

/-- The entry holds a process that has not exited. -/
def Live (x : Ref) (r : Record) : Prop := r.state ≠ .stopped ∧ (x.2.isSome → r.state ≠ .created)

instance (x : Ref) (r : Record) : Decidable (Live x r) := inferInstanceAs (Decidable (_ ∧ _))

theorem live_created {id : String} {r : Record} (h : r.state = .created) : Live (id, none) r := by
  simp [Live, h]

theorem live_running {x : Ref} {r : Record} (h : r.state = .running) : Live x r := by
  simp [Live, h]

theorem live_paused {x : Ref} {r : Record} (h : r.state = .paused) : Live x r := by
  simp [Live, h]

namespace Table

variable {T : Table} {e : Effect} {x : Ref} {o : Owed}

/-- The entry at `x` holds the process. -/
def Carries (T : Table) (o : Owed) (x : Ref) : Prop :=
  ∃ r, T.slot x = some r ∧ r.pid.toUInt32 = o.pid ∧ r.proc = o.proc ∧ Live x r.toRecord

/-- The names whose entries lose their process, or go. -/
def disturbed : Effect → Set Ref
  | .create id _ _ | .unregister id => under id
  | .exec id execId _ | .spawn id execId _ | .remove id execId => {(id, some execId)}
  | .exit x _ _ => {x}
  | _ => ∅

theorem carries_modify {T' : Table} {y : Ref} {f : Record → Record}
    (hT' : T'.slot = (T.modify y f).slot) (h : T.Carries o x)
    (hf : x = y → ∀ r, Live x r → (f r).pid = r.pid ∧ (f r).proc = r.proc ∧ Live x (f r)) :
    T'.Carries o x := by
  obtain ⟨r, hr, hpid, hproc, hlive⟩ := h
  by_cases hx : x = y
  · subst hx
    obtain ⟨hpid', hproc', hlive'⟩ := hf rfl r.toRecord hlive
    refine ⟨_, hT' ▸ slot_modify_self T x f hr, ?_, hproc'.trans hproc, hlive'⟩
    rw [hpid', hpid]
  · exact ⟨r, hT' ▸ (slot_modify_of_ne T y x f hx).trans hr, hpid, hproc, hlive⟩

theorem carries_drop {xs : Set Ref} (h : T.Carries o x) (hx : x ∉ xs) :
    (T.drop xs).Carries o x := by
  obtain ⟨r, hr, hrest⟩ := h
  exact ⟨r, (slot_drop_of_not_mem T x xs hx).trans hr, hrest⟩

theorem carries_put {y : Ref} {r : Slot} (h : T.Carries o x) (hx : x ≠ y) :
    (T.put y r).Carries o x := by
  obtain ⟨s, hs, hrest⟩ := h
  exact ⟨s, (slot_put_of_ne T y x r hx).trans hs, hrest⟩

/-- A process is lost only where an effect takes its entry. -/
theorem Carries.apply (h : T.Carries o x) (hx : x ∉ disturbed e) : (T.apply e).Carries o x := by
  cases e with
  | quiet insts procs => exact h
  | create id bundle pid =>
    apply carries_put (carries_drop h hx)
    intro heq
    subst heq
    exact hx rfl
  | exec id execId bundle => exact carries_put (carries_drop h hx) hx
  | start id => exact carries_modify rfl h fun _ r _ => ⟨rfl, rfl, live_running rfl⟩
  | spawn id execId pid => exact carries_modify rfl h fun he => absurd he hx
  | pause id => exact carries_modify rfl h fun _ r _ => ⟨rfl, rfl, live_paused rfl⟩
  | resume id => exact carries_modify rfl h fun _ r _ => ⟨rfl, rfl, live_running rfl⟩
  | register y rx => exact carries_modify rfl h fun _ r hlive => ⟨rfl, rfl, hlive⟩
  | exit y code now =>
    exact carries_modify (f := (ProcessTemplate.exited · code now)) rfl h fun he => absurd he hx
  | remove id execId => exact carries_drop h hx
  | unregister id => exact carries_drop h hx

end Table

/-- The pid whose exit an action reports. -/
def Action.exits : Action → Option Int32
  | .exit ev _ =>
    match ev.subject with
    | .pid pid => some pid
    | .exec _ _ => none
  | _ => none

namespace Shim

variable {s s' : Shim} {rid : Nat} {a : Action}

def IsWait : Cont → Prop
  | .wait _ _ _ => True
  | _ => False

instance (c : Cont) : Decidable (IsWait c) :=
  match c with
  | .wait _ _ _ => inferInstanceAs (Decidable True)
  | .send _ _ | .unregister _ | .drain _ => inferInstanceAs (Decidable False)

/-- A request is issued once the ones before it are answered, blocked waits apart. -/
def Sequential (s : Shim) : Action → Prop
  | .call _ _ _ => ∀ rid c, s.inflight.lookup rid = some c → IsWait c
  | _ => True

instance (s : Shim) (a : Action) : Decidable (Sequential s a) := by
  unfold Sequential
  split <;> infer_instance

/-- An exit of a live process finds its pid on no other entry. -/
def ExitsApart (s : Shim) (a : Action) : Prop :=
  ∀ x r, s.task.entry x = some r → a.exits = some r.pid → Live x r →
    ∀ y q, s.task.entry y = some q → q.pid = r.pid → y = x

instance (s : Shim) (a : Action) : Decidable (ExitsApart s a) :=
  inferInstanceAs (Decidable (∀ x r, s.task.entry x = some r → _))

/-- No Exec or Create takes the name of an entry whose process is alive, and no exec
is started again whose process is. -/
structure KeepsLive (s : Shim) (a : Action) : Prop where
  execs : ∀ x ∈ a.execs, ∀ r ∈ s.task.entry x, ¬Live x r
  starts : ∀ x ∈ a.starts, ∀ i ∈ s.task.entry (x.1, none), ∀ r ∈ s.task.entry x,
    x.2.isSome → Live x r → i.state = .stopped
  creates : ∀ req ∈ a.creates, ∀ x r, s.task.entry x = some r → x.1 = req.id → ¬Live x r

instance (s : Shim) (a : Action) : Decidable (KeepsLive s a) :=
  decidable_of_iff ((∀ x ∈ a.execs, ∀ r ∈ s.task.entry x, ¬Live x r) ∧
    (∀ x ∈ a.starts, ∀ i ∈ s.task.entry (x.1, none), ∀ r ∈ s.task.entry x,
      x.2.isSome → Live x r → i.state = .stopped) ∧
    ∀ req ∈ a.creates, ∀ x r, s.task.entry x = some r → x.1 = req.id → ¬Live x r)
    ⟨fun ⟨hexecs, hstarts, hcreates⟩ => ⟨hexecs, hstarts, hcreates⟩,
      fun h => ⟨h.execs, h.starts, h.creates⟩⟩

end Shim

namespace Watch

open RustExtensions.RuncShim.Shim (ExitsApart KeepsLive Sequential)

variable {w w' : Watch}

/-- What is owed is held, and not by a container that is about to be removed. -/
def Held (w : Watch) : Prop := ∀ o ∈ w.owed, ∃ x, w.shim.table.Carries o x ∧
  ∀ rid d, w.shim.inflight.lookup rid = some (.unregister d) → d.reqId ≠ x.1

/-- One request after another, each of which keeps live processes, and exits of
live processes that can be told apart. -/
def Orderly (w : Watch) (a : Action) : Prop :=
  Sequential w.shim a ∧ KeepsLive w.shim a ∧ ExitsApart w.shim a

instance (w : Watch) (a : Action) : Decidable (Orderly w a) := inferInstanceAs (Decidable (_ ∧ _))

/-- A call made in sequence leaves no removal pending but its own. -/
theorem unregister_of_call {s s' : Shim} {rid rid' : Nat} {req : Request} {ans : Answers}
    {d : Deletion} (hseq : Sequential s (.call rid req ans))
    (h : Shim.Step s (.call rid req ans) s')
    (hc : s'.inflight.lookup rid' = some (.unregister d)) :
    rid' = rid ∧ TaskService.Handled s.task ans s'.task req (.cont (.unregister d)) := by
  cases h.pending hc with
  | old hold hne => exact (hseq rid' _ hold).elim
  | called hn => exact ⟨rfl, hn⟩

/-- What a first section leaves in flight. -/
def left : Next → Option Cont
  | .reply _ => none
  | .cont c => some c

theorem inflight_arrive (s : Shim) (rid : Nat) (n : Next) :
    (s.arrive rid n).inflight.lookup rid = left n := by
  cases n with
  | reply resp => exact (Shim.replied_reply s rid (.ok resp)).1
  | cont c => exact Shim.inflight_proceed_self s rid c

theorem left_send (p : Published) (resp : Response) (d : Deletion) :
    left (.cont (.send p resp)) ≠ some (.unregister d) := by
  simp [left]

theorem left_drain (d' d : Deletion) : left (.cont (.drain d')) ≠ some (.unregister d) := by
  simp [left]

theorem left_reply (resp : Response) (d : Deletion) :
    left (.reply resp) ≠ some (.unregister d) := by
  simp [left]

theorem left_wait (id : String) (execId : Option String) (rx : Channel) (d : Deletion) :
    left (.cont (.wait id execId rx)) ≠ some (.unregister d) := by
  simp [left]

theorem mem_procsUnder {t : TaskService} {x : Ref} {r : Slot} (h : t.table.slot x = some r) :
    r.proc ∈ procsUnder t x.1 := by
  have hr := TaskService.entry_of_slot h
  have hx : x ∈ t.refs.filter (·.1 = x.1) :=
    List.mem_filter.mpr ⟨TaskService.mem_refs hr, decide_eq_true rfl⟩
  refine List.mem_map.mpr ⟨x, hx, ?_⟩
  rw [hr]
  rfl

section Handled
variable {s : Shim} {t : TaskService} {owed : List Owed} {rid : Nat} {req : Request}
variable {ans : Answers} {n : Next} {o : Owed}

/-- The process is held after a first section, and not by an entry about to be removed. -/
def Safe (t : TaskService) (n : Next) (o : Owed) : Prop :=
  ∃ x, t.table.Carries o x ∧ ∀ d, left n = some (.unregister d) → d.reqId ≠ x.1

/-- What was held is still held where the effect takes nothing. -/
theorem safe_of_did {paths : Set String} {e : Effect} (h : ∀ o ∈ owed, ∃ x, s.table.Carries o x)
    (hdid : TaskService.Did paths e s.task t) (ho : o ∈ owed)
    (hx : ∀ x, s.table.Carries o x → x ∉ Table.disturbed e)
    (hleft : ∀ d, left n ≠ some (.unregister d)) : Safe t n o := by
  obtain ⟨x, hc⟩ := h o ho
  refine ⟨x, ?_, fun d hd => absurd hd (hleft d)⟩
  rw [hdid.table]
  exact hc.apply (hx x hc)

theorem safe_of_quiet (h : ∀ o ∈ owed, ∃ x, s.table.Carries o x)
    (hq : TaskService.Quiet ∅ s.task t) (ho : o ∈ owed)
    (hleft : ∀ d, left n ≠ some (.unregister d)) : Safe t n o := by
  obtain ⟨insts, procs, hdid⟩ := hq
  exact safe_of_did h hdid ho (fun _ _ => Set.notMem_empty _) hleft

/-- A new process is held by its entry. -/
theorem safe_new {paths : Set String} {e : Effect} {x : Ref} {r : Slot} {p : Published}
    {pid : Int32} {resp : Response} (hdid : TaskService.Did paths e s.task t)
    (hr : (s.table.apply e).slot x = some r) (hpid : r.pid = pid) (hproc : r.proc = p.proc)
    (hlive : Live x r.toRecord) :
    Safe t (.cont (.send p resp)) { proc := p.proc, pid := pid.toUInt32 } := by
  have hslot : t.table.slot x = some r := (congrArg (Table.slot · x) hdid.table).trans hr
  exact ⟨x, ⟨r, hslot, congrArg Int32.toUInt32 hpid, hproc, hlive⟩,
    fun d hd => absurd hd (left_send p resp d)⟩

/-- A Delete of a container answers for all the processes under its id. -/
theorem safe_deleteInit {d : Deletion} (h : ∀ o ∈ owed, ∃ x, s.table.Carries o x)
    (hq : TaskService.Quiet ∅ s.task t)
    (ho : o ∈ afterCall s owed (left (.cont (.unregister d)))) :
    Safe t (.cont (.unregister d)) o := by
  obtain ⟨ho, hproc⟩ := List.mem_filter.mp ho
  obtain ⟨insts, procs, hdid⟩ := hq
  obtain ⟨x, hc⟩ := h o ho
  refine ⟨x, ?_, fun d' hd' hx => ?_⟩
  · rw [hdid.table]
    exact hc
  · obtain rfl := Cont.unregister.inj (Option.some.inj hd')
    obtain ⟨q, hq, -, hqproc, -⟩ := hc
    have hmem := mem_procsUnder hq
    rw [hqproc, ← hx] at hmem
    exact absurd hmem (of_decide_eq_true hproc)

theorem safe_deleteExec {id execId : String} {r : Slot} {d : Deletion} {paths : Set String}
    (h : ∀ o ∈ owed, ∃ x, s.table.Carries o x) (hr : s.table.slot (id, some execId) = some r)
    (hprocess : d.process = some r.toRecord) (hd : d.deleted.isOk)
    (hdid : TaskService.Did paths (.remove id execId) s.task t)
    (ho : o ∈ afterCall s owed (left (.cont (.drain d)))) : Safe t (.cont (.drain d)) o := by
  have howed : afterCall s owed (left (.cont (.drain d))) =
      owed.filter fun o => o.proc ≠ r.proc := by
    simp only [left, afterCall, hd, hprocess, if_true, Option.bind_some]
  rw [howed] at ho
  obtain ⟨ho, hproc⟩ := List.mem_filter.mp ho
  refine safe_of_did h hdid ho (fun x hc hx => ?_) (left_drain d)
  obtain rfl : x = (id, some execId) := hx
  obtain ⟨q, hq, -, hqproc, -⟩ := hc
  obtain rfl := Option.some.inj (hq.symm.trans hr)
  exact of_decide_eq_true hproc hqproc.symm

/-- A first section that returned normally: what is owed after it is held. -/
theorem safe_handled (h : ∀ o ∈ owed, ∃ x, s.table.Carries o x)
    (hlive : KeepsLive s (.call rid req ans)) (hn : TaskService.Handled s.task ans t req n)
    (ho : o ∈ afterCall s owed (left n)) : Safe t n o := by
  have hempty {e : Effect} (he : Table.disturbed e = ∅) (x : Ref) (_ : s.table.Carries o x) :
      x ∉ Table.disturbed e := he ▸ Set.notMem_empty x
  cases hn with
  | simple hreq hq => exact safe_of_quiet h hq ho (left_reply _)
  | @create req hdid hfile =>
    rcases List.mem_cons.mp ho with rfl | ho
    · exact safe_new hdid (Table.slot_put_self ..) rfl rfl (live_created rfl)
    · refine safe_of_did h hdid ho (fun x hc hx => ?_) (left_send _ _)
      obtain ⟨r, hr, -, -, hr'⟩ := hc
      exact hlive.creates req rfl x _ (TaskService.entry_of_slot hr) hx hr'
  | @startInit id r hr hdid =>
    rcases List.mem_cons.mp ho with rfl | ho
    · have hslot := Table.slot_modify_self s.table (id, none) Record.running hr
      exact safe_new hdid hslot rfl rfl (live_running rfl)
    · exact safe_of_did h hdid ho (hempty rfl) (left_send _ _)
  | @startExec id execId r hid hr hdid =>
    rcases List.mem_cons.mp ho with rfl | ho
    · have hslot := Table.slot_modify_self s.table (id, some execId)
        (Record.spawned ans.pid s.table.nextProc) hr
      exact safe_new hdid hslot rfl rfl (live_running rfl)
    · refine safe_of_did h hdid ho (fun x hc hx => ?_) (left_send _ _)
      obtain rfl : x = (id, some execId) := hx
      obtain ⟨q, hq, -, -, hq'⟩ := hc
      obtain ⟨⟨i, hi, hstate⟩, -⟩ := hdid.admits
      exact hstate (hlive.starts _ (Action.starts_exec hid) _ (TaskService.entry_of_slot hi) _
        (TaskService.entry_of_slot hq) rfl hq')
  | @deleteFailed id execId r d e hr hfound hd hq =>
    have howed : afterCall s owed (left (.cont (.drain d))) = owed := by
      simp only [left, afterCall, hd, Except.isOk, Except.toBool, Bool.false_eq_true, if_false]
    rw [howed] at ho
    exact safe_of_quiet h hq ho (left_drain d)
  | deleteInit hr hfound hd hq => exact safe_deleteInit h hq ho
  | deleteExec hid hr hfound hd hdid =>
    exact safe_deleteExec h hr hfound.process (by rw [hd]; rfl) hdid ho
  | pause hr hdid => exact safe_of_did h hdid ho (hempty rfl) (left_send _ _)
  | resume hr hdid => exact safe_of_did h hdid ho (hempty rfl) (left_send _ _)
  | @exec req i hi hdid =>
    refine safe_of_did h hdid ho (fun x hc hx => ?_) (left_send _ _)
    obtain rfl : x = (req.id, some req.execId) := hx
    obtain ⟨q, hq, -, -, hq'⟩ := hc
    exact hlive.execs _ rfl _ (TaskService.entry_of_slot hq) hq'
  | waitOver hr hi hover hexit hat hq => exact safe_of_quiet h hq ho (left_reply _)
  | waitOn hr hrx hdid => exact safe_of_did h hdid ho (hempty rfl) (left_wait _ _ _)

end Handled

theorem held_call {s s' : Shim} {owed : List Owed} {rid : Nat} {req : Request} {ans : Answers}
    (h : Held ⟨s, owed⟩) (hseq : Sequential s (.call rid req ans))
    (hlive : KeepsLive s (.call rid req ans)) (hs : Shim.Step s (.call rid req ans) s') :
    Held ⟨s', afterCall s owed (s'.inflight.lookup rid)⟩ := by
  have hold : ∀ o ∈ owed, ∃ x, s.table.Carries o x := fun o ho => (h o ho).imp fun _ => And.left
  -- only this request can have a removal pending
  have hown {o : Owed} {x : Ref}
      (hx : ∀ d, s'.inflight.lookup rid = some (.unregister d) → d.reqId ≠ x.1) :
      ∀ rid' d, s'.inflight.lookup rid' = some (.unregister d) → d.reqId ≠ x.1 := by
    intro rid' d hc
    obtain ⟨rfl, -⟩ := unregister_of_call hseq hs hc
    exact hx d hc
  cases hs with
  | @handled _ _ _ n t hpump hnew hfresh hn =>
    intro o ho
    rw [inflight_arrive] at ho hown
    obtain ⟨x, hc, hx⟩ := safe_handled hold hlive hn ho
    refine ⟨x, ?_, hown (o := o) hx⟩
    rw [Shim.table_arrive]
    exact hc
  | @failed _ _ _ e t hpump hnew hfresh hq =>
    intro o ho
    rw [(Shim.replied_reply { s with task := t } rid (.error e)).1] at ho hown
    obtain ⟨x, hc⟩ := hold o ho
    obtain ⟨insts, procs, hdid⟩ := hq
    refine ⟨x, ?_, hown (o := o) fun d => (nomatch ·)⟩
    change t.table.Carries o x
    rw [hdid.table]
    exact hc

/-- A step that is no call: what is still owed after it was not taken by its effect. -/
theorem held_later {s s' : Shim} {owed owed' : List Owed} {a : Action} {e : Effect}
    (h : Held ⟨s, owed⟩) (hs : Shim.Step s a s') (hcall : ∀ rid req ans, a ≠ .call rid req ans)
    (htable : s'.table = s.table.apply e)
    (howed : ∀ o ∈ owed', o ∈ owed ∧ ∀ x, s.table.Carries o x →
      (∀ rid d, s.inflight.lookup rid = some (.unregister d) → d.reqId ≠ x.1) →
      x ∉ Table.disturbed e) : Held ⟨s', owed'⟩ := by
  intro o ho
  obtain ⟨ho, hx⟩ := howed o ho
  obtain ⟨x, hc, hkept⟩ := h o ho
  refine ⟨x, ?_, fun rid d hd => ?_⟩
  · change s'.table.Carries o x
    rw [htable]
    exact hc.apply (hx x hc hkept)
  · cases hs.pending hd with
    | old hold hne => exact hkept rid d hold
    | called hn => exact absurd rfl (hcall _ _ _)
    | drained hdr hdel =>
      obtain ⟨_, _, _, -, hsend⟩ := TaskService.deleted_ok hdel
      cases hsend

theorem held_step {a : Action} (h : w.Held) (ha : w.Orderly a) (hstep : w.step a = some w') :
    w'.Held := by
  obtain ⟨s', hs, rfl⟩ := Option.map_eq_some_iff.mp hstep
  have hs := Shim.step_cases hs
  cases a with
  | call rid req ans => exact held_call h ha.1 ha.2.1 hs
  | next rid =>
    rcases hs.effect with ⟨⟨e, hcause, -, htable⟩, -⟩ | ⟨ev, an, x, r, hact, -⟩
    · refine held_later h hs (fun _ _ _ => (nomatch ·)) htable fun o ho => ⟨ho, fun x _ hkept => ?_⟩
      cases hcause with
      | quiet insts procs => exact Set.notMem_empty x
      | unregister hc => exact fun hx => hkept rid _ hc (Eq.symm hx)
    · cases hact
  | exit ev an =>
    rcases hs.effect with ⟨⟨e, hcause, -, htable⟩, -⟩ | ⟨ev', an', x, r, hact, hsub, hr, htable, -⟩
    · cases hcause with
      | quiet insts procs =>
        refine held_later h hs (fun _ _ _ => (nomatch ·)) htable fun o ho => ⟨?_, fun x _ _ => ?_⟩
        · unfold settle at ho
          dsimp only at ho
          split at ho
          · exact (List.mem_filter.mp ho).1
          · exact ho
        · exact Set.notMem_empty x
    · obtain ⟨rfl, rfl⟩ := Action.exit.inj hact
      refine held_later h hs (fun _ _ _ => (nomatch ·)) htable fun o ho => ?_
      simp only [settle, hsub] at ho
      obtain ⟨ho, hpid⟩ := List.mem_filter.mp ho
      refine ⟨ho, fun y hc _ hy => ?_⟩
      obtain rfl : y = x := hy
      obtain ⟨q, hq, hqpid, -⟩ := hc
      obtain rfl := Option.some.inj (hq.symm.trans hr)
      exact of_decide_eq_true hpid hqpid.symm
  | publish =>
    rcases hs.effect with ⟨⟨e, hcause, -, htable⟩, -⟩ | ⟨ev, an, x, r, hact, -⟩
    · cases hcause with
      | quiet insts procs =>
        exact held_later h hs (fun _ _ _ => (nomatch ·)) htable
          fun o ho => ⟨ho, fun x _ _ => Set.notMem_empty x⟩
    · cases hact

theorem held (h : watch.Reachable Orderly w) : w.Held := by
  refine h.invariant (P := Held) ?_ fun _ _ _ _ ih ha hstep => held_step ih ha hstep
  exact fun _ ho => (nomatch ho)

/-- Every process that is owed is held by an entry with its pid, and the next exit of
that pid is recorded as its own and published. -/
theorem started_tracked (h : watch.Reachable Orderly w) (o : Owed) (ho : o ∈ w.owed) :
    ∃ x r, w.shim.task.entry x = some r ∧ r.pid.toUInt32 = o.pid ∧ r.proc = o.proc ∧
      ∀ ev an w', ev.subject = .pid r.pid → Orderly w (.exit ev an) →
        watch.step w (.exit ev an) = some w' →
        ∃ e p, w'.shim.exits = w.shim.exits ++ [e] ∧ e.proc = o.proc ∧ w'.shim.pump = some p ∧
          Shim.Reports p e := by
  obtain ⟨x, ⟨r, hr, hpid, hproc, hlive⟩, -⟩ := held h o ho
  refine ⟨x, r.toRecord, TaskService.entry_of_slot hr, hpid, hproc, ?_⟩
  intro ev an w' hsub hord hstep
  obtain ⟨s', hs, rfl⟩ := Option.map_eq_some_iff.mp hstep
  have hexits : Action.exits (.exit ev an) = some r.pid := by
    simp only [Action.exits, hsub]
  cases Shim.step_cases hs with
  | @exited _ pid _ y q p e t hsub' hpump hhit =>
    obtain ⟨i, -, hreported⟩ := hhit.reported
    have hq : q.pid = r.pid := hhit.bears.trans (Subject.pid.inj (hsub'.symm.trans hsub))
    obtain rfl := hord.2.2 x _ (TaskService.entry_of_slot hr) hexits hlive y _
      (TaskService.entry_of_slot hhit.slot) hq
    obtain rfl := Option.some.inj (hr.symm.trans hhit.slot)
    refine ⟨e, p, rfl, ?_, rfl, Shim.reports_of_reported hreported⟩
    rw [hreported.exit_eq]
    exact hproc
  | ignored hpump htable hfiles habsent => exact absurd rfl (habsent r.pid hsub x r hr)

def executing : Watch := watch.after Orderly {} (Shim.execRun "e")

theorem reachable_executing : watch.Reachable Orderly executing :=
  System.run_after (by decide +kernel)

/-- The exec exits. -/
def exitE : Action :=
  .exit { subject := .pid 2, exitCode := 7 } { order := [("c", ["e"])], now := Shim.exitTime }

theorem started_tracked_exec : ∃ x r, executing.shim.task.entry x = some r ∧
    r.pid.toUInt32 = 2 ∧ r.proc = some 1 ∧
    ∃ e p, (watch.after Orderly executing [exitE]).shim.exits = executing.shim.exits ++ [e] ∧
      e.proc = some 1 ∧ (watch.after Orderly executing [exitE]).shim.pump = some p ∧
      Shim.Reports p e := by
  obtain ⟨x, r, hr, hpid, hproc, hexit⟩ :=
    started_tracked reachable_executing { proc := some 1, pid := 2 } (by decide +kernel)
  have hpid' : r.pid = 2 := congrArg UInt32.toInt32 hpid
  refine ⟨x, r, hr, hpid, hproc, hexit _ _ _ (congrArg Subject.pid hpid'.symm) ?_
    (System.step_after ?_)⟩
  · decide +kernel
  · decide +kernel

/-- A second Exec under the same exec id: the pid of the running exec is lost. -/
def replaced : Watch := watch.after (fun w => Sequential w.shim) executing [
  .call 4 (.exec { id := "c", execId := "e", spec := some {} }) {}, .next 4]

theorem replaced_exec_untracked : ¬∀ (w : Watch), watch.Reachable (fun w => Sequential w.shim) w →
    ∀ o ∈ w.owed, ∃ x r, w.shim.task.entry x = some r ∧ r.pid.toUInt32 = o.pid := by
  intro h
  have hreach : watch.Reachable (fun w => Sequential w.shim) executing :=
    reachable_executing.mono fun _ _ => And.left
  have hrun : watch.Run (fun w => Sequential w.shim) executing replaced :=
    System.run_after (by decide +kernel)
  obtain ⟨x, r, hr, hpid⟩ := h replaced (hreach.run hrun) { proc := some 1, pid := 2 }
    (by decide +kernel)
  have hnone : ∀ x r, replaced.shim.task.entry x = some r → r.pid.toUInt32 ≠ 2 := by
    decide +kernel
  exact hnone x r hr hpid

end Watch
end RustExtensions.RuncShim
