import RustExtensions.RuncShim.Service
import RustExtensions.RuncShim.Spec.Handlers

/-!
# The exit pump as an effect

The pump stops at the first entry that bears the pid. It is one exit effect if
there is such an entry, and changes nothing if there is none.
-/
namespace RustExtensions.RuncShim

open RustExtensions.Shim
open RustExtensions.Fallible
open RustExtensions.KeyedMap (Map)

/-- What the pump publishes and records for the entry at `x`. -/
structure Reported (containerId : String) (r : Slot) (code : Int32) (now : OffsetDateTime)
    (event : Published) (e : Exit) : Prop where
  event_eq : event = {
    event := .taskExit containerId r.id r.pid.toUInt32 code.toUInt32 now.timestamp
    inst := some r.inst
    proc := r.proc }
  exit_eq : e = { inst := r.inst, proc := r.proc, code := code, exitedAt := now }

namespace Container

variable {s t : Container × World}

theorem exitProcess_ok {containerId : String} {execId : Option String} {code : Int32}
    {now : OffsetDateTime} {found : Published × Exit}
    (h : exitProcess containerId execId code now s = .ok found t) :
    ∃ r, s.1.slot execId = some r ∧ Reported containerId r code now found.1 found.2 ∧
      t.2 = s.2.dropSenders r.waitChanTx ∧
      t.1.slot = Function.update s.1.slot execId
        (some { r with toRecord := ProcessTemplate.exited r.toRecord code now }) := by
  unfold exitProcess onMutProcess at h
  cases execId with
  | none =>
    obtain ⟨q, hq, rfl⟩ := onInit_ok h
    obtain ⟨rfl, rfl⟩ := EStateM.Result.ok.inj hq
    exact ⟨_, rfl, ⟨rfl, rfl⟩, rfl, slot_withInit s.1 _⟩
  | some e =>
    obtain ⟨p, q, hp, hq, rfl⟩ := onExec_ok h
    obtain ⟨rfl, rfl⟩ := EStateM.Result.ok.inj hq
    refine ⟨p.slot RuncExecLifecycle.bundle, ?_, ⟨rfl, rfl⟩, rfl, ?_⟩
    · simp only [slot, hp, Option.map_some]
    · exact slot_insert s.1 e _

theorem execWithPid_some {c : Container} {order : List String} {pid : Int32} {e : String}
    (h : c.execWithPid order pid = some e) : ∃ p, c.processes.lookup e = some p ∧ p.pid = pid := by
  unfold execWithPid at h
  have hany := List.find?_some h
  cases hp : c.processes.lookup e with
  | none =>
    rw [hp] at hany
    cases hany
  | some p =>
    rw [hp] at hany
    exact ⟨p, rfl, eq_of_beq hany⟩

theorem execWithPid_none {c : Container} {order : List String} {pid : Int32} {e : String}
    {p : ExecProcess} (h : c.execWithPid order pid = none) (he : e ∈ order)
    (hp : c.processes.lookup e = some p) : p.pid ≠ pid := by
  unfold execWithPid at h
  have hno := List.find?_eq_none.mp h e he
  rw [hp] at hno
  exact fun hpid => hno (beq_iff_eq.mpr hpid)

/-- Nothing happened but calls to the runtime. -/
structure OnlyCalls {P : Type} (s t : P × World) : Prop where
  same : t.1 = s.1
  world : World.Steady s.2 t.2

instance {P : Type} : Std.Refl (OnlyCalls (P := P)) where
  refl _ := ⟨rfl, rfl, rfl, rfl, rfl, rfl⟩

instance {P : Type} : IsTrans (P × World) OnlyCalls where
  trans _ _ _ h h' := ⟨h'.same.trans h.same, h'.world.openTx.trans h.world.openTx,
    h'.world.nextSerial.trans h.world.nextSerial, h'.world.nextInst.trans h.world.nextInst,
    h'.world.nextProc.trans h.world.nextProc, h'.world.files.trans h.world.files⟩

theorem onlyCalls_kill (ans : Answers) (signal : UInt32) (all : Bool) :
    Keeps OnlyCalls (RuncInitLifecycle.kill ans signal all) := by
  have hcall {f : World → World} (hf : ∀ w, World.Steady w (f w)) :
      Keeps OnlyCalls (modifyWorld (ε := Error) (P := InitProcess) f) :=
    keeps_modifyWorld fun _ w => ⟨rfl, hf w⟩
  refine .bind keeps_getProcess fun p => .bind (.bind (hcall fun w => ?_) fun _ => ?_) fun r => ?_
  · exact ⟨rfl, rfl, rfl, rfl, rfl⟩
  · cases ans.runtime with
    | none => exact .bind (hcall fun w => ⟨rfl, rfl, rfl, rfl, rfl⟩) fun _ => .pure _
    | some e => exact .pure _
  · cases r with
    | error e => exact .throw _
    | ok _ => exact .pure _

/-- Killing the remaining processes changes no entry and no file. -/
theorem killAll_onlyCalls {ans : Answers} {r : Except Error Unit}
    (h : attempt (δ := Error) (kill ans none 9 true) s = .ok r t) : OnlyCalls s t := by
  rcases attempt_ok.mp h with ⟨_, -, hok⟩ | ⟨e, -, herr⟩
  · obtain ⟨q, hq, rfl⟩ := onInit_ok hok
    have hq := (onlyCalls_kill ans 9 true).returns _ _ q hq
    exact ⟨by rw [hq.same], hq.world⟩
  · obtain ⟨q, hq, rfl⟩ := onInit_error herr
    have hq := (onlyCalls_kill ans 9 true).fails _ e q hq
    exact ⟨by rw [hq.same], hq.world⟩

/-- The pump made the process at `k`, which bears the pid, exit. -/
structure Exits (s t : Container × World) (pid code : Int32) (now : OffsetDateTime)
    (k : Option String) (r : Slot) (found : Published × Exit) : Prop where
  slot : s.1.slot k = some r
  bears : r.pid = pid
  reported : Reported s.1.id r code now found.1 found.2
  world : ∃ w, World.Steady s.2 w ∧ t.2 = w.dropSenders r.waitChanTx
  update : t.1.slot = Function.update s.1.slot k
    (some { r with toRecord := ProcessTemplate.exited r.toRecord code now })

theorem exits_of {u : Container × World} {pid code : Int32} {now : OffsetDateTime}
    {k : Option String} {found : Option (Published × Exit)} (hu : OnlyCalls s u)
    (hpid : ∀ r, s.1.slot k = some r → r.pid = pid)
    (h : (exitProcess s.1.id k code now >>= fun x => pure (some x)) u = .ok found t) :
    ∃ x r, found = some x ∧ Exits s t pid code now k r x := by
  obtain ⟨x, v, hx, hret⟩ := bind_ok.mp h
  obtain ⟨rfl, rfl⟩ := EStateM.Result.ok.inj hret
  obtain ⟨r, hr, hrep, hw, hslot⟩ := exitProcess_ok hx
  rw [hu.same] at hr hslot
  exact ⟨x, r, rfl, hr, hpid r hr, hrep, ⟨u.2, hu.world, hw⟩, hslot⟩

/-- On one container the pump either finds the pid or leaves everything as it is. -/
theorem exitIn_ok {a : PumpAnswers} {execs : List String} {pid code : Int32}
    {found : Option (Published × Exit)} (h : exitIn a execs pid code s = .ok found t) :
    (found = none ∧ t = s ∧ s.1.init.pid ≠ pid ∧
      ∀ e ∈ execs, ∀ r, s.1.slot (some e) = some r → r.pid ≠ pid) ∨
    ∃ x k r, found = some x ∧ Exits s t pid code a.now k r x := by
  unfold exitIn at h
  rw [getProcess_bind] at h
  dsimp only at h
  split at h
  · next hpid =>
    have hinit : ∀ r, s.1.slot none = some r → r.pid = pid := by
      intro r hr
      obtain rfl := Option.some.inj hr
      exact hpid
    right
    split at h
    · obtain ⟨_, u, hkill, hrest⟩ := bind_ok.mp h
      obtain ⟨x, r, hx⟩ := exits_of (killAll_onlyCalls hkill) hinit hrest
      exact ⟨x, none, r, hx⟩
    · obtain ⟨x, r, hx⟩ := exits_of (refl_of OnlyCalls s) hinit h
      exact ⟨x, none, r, hx⟩
  · next hpid =>
    cases hfind : s.1.execWithPid execs pid with
    | some e =>
      have hexec : ∀ r, s.1.slot (some e) = some r → r.pid = pid := by
        intro r hr
        obtain ⟨p, hp, hpid⟩ := execWithPid_some hfind
        simp only [slot, hp, Option.map_some] at hr
        obtain rfl := Option.some.inj hr
        exact hpid
      rw [hfind] at h
      obtain ⟨x, r, hx⟩ := exits_of (refl_of OnlyCalls s) hexec h
      exact Or.inr ⟨x, some e, r, hx⟩
    | none =>
      left
      rw [hfind] at h
      obtain ⟨rfl, rfl⟩ := EStateM.Result.ok.inj h
      refine ⟨rfl, rfl, hpid, fun e he r hr => ?_⟩
      obtain ⟨p, hp, rfl⟩ := Option.map_eq_some_iff.mp hr
      exact execWithPid_none hfind he hp

end Container

namespace TaskService

variable {t t' : TaskService}

/-- A container that is stored as it was found. -/
theorem table_store_self {id : String} {c : Container} (hc : t.containers.lookup id = some c) :
    (t.store id (c, t.world)).table = t.table := by
  refine Table.ext ?_ rfl rfl rfl rfl
  rw [slot_store (s := (c, t.world)) (o := c.slot none) hc
    (Function.update_eq_self none c.slot).symm, ← slot_of_lookup hc]
  exact Function.update_eq_self (id, none) t.table.slot

theorem did_exit {id : String} {c : Container} {s : Container × World} {k : Option String}
    {r : Slot} {pid code : Int32} {now : OffsetDateTime} {x : Published × Exit}
    (hc : t.containers.lookup id = some c)
    (h : Container.Exits (c, t.world) s pid code now k r x) :
    Did ∅ (.exit (id, k) code now) t (t.store id s) := by
  obtain ⟨hr, -, -, ⟨w, hsteady, hw⟩, hslot⟩ := h
  have hr' : t.table.slot (id, k) = some r := (slot_of_lookup hc k).trans hr
  obtain ⟨c', w'⟩ := s
  obtain rfl : w' = _ := hw
  refine ⟨⟨r, hr'⟩, ?_, fun q _ => congrArg (·.lookup q) hsteady.files⟩
  rw [table_store (f := (ProcessTemplate.exited · code now)) hc hr hslot]
  refine Table.ext rfl ?_ hsteady.nextInst hsteady.nextProc hsteady.nextSerial
  apply openTx_dropSenders (T := t.table) (openTx_eq hsteady.openTx).symm
  intro rx
  rw [mem_held_singleton, hr']
  rfl

/-- The pump took one exit effect, on an entry that bears the pid. -/
structure Hit (t t' : TaskService) (pid code : Int32) (now : OffsetDateTime) (x : Ref)
    (r : Slot) (event : Published) (e : Exit) : Prop where
  slot : t.table.slot x = some r
  bears : r.pid = pid
  reported : ∃ i, t.table.slot (x.1, none) = some i ∧ Reported i.id r code now event e
  did : Did ∅ (.exit x code now) t t'

/-- The pump found no entry that bears the pid. -/
structure Miss (t t' : TaskService) (pid : Int32) (order : List (String × List String)) :
    Prop where
  table : t'.table = t.table
  files : t'.world.files = t.world.files
  inits : ∀ p ∈ order, ∀ r, t.table.slot (p.1, none) = some r → r.pid ≠ pid
  execs : ∀ p ∈ order, ∀ e ∈ p.2, ∀ r, t.table.slot (p.1, some e) = some r → r.pid ≠ pid

/-- Induction on the order in which the pump visits the containers. -/
theorem processExit_ok {a : PumpAnswers} {pid code : Int32} {order : List (String × List String)}
    {found : Option (Published × Exit)} (h : processExit a pid code order t = .ok found t') :
    (found = none ∧ Miss t t' pid order) ∨
      ∃ event e x r, found = some (event, e) ∧ Hit t t' pid code a.now x r event e := by
  induction order generalizing t with
  | nil =>
    obtain ⟨rfl, rfl⟩ := EStateM.Result.ok.inj h
    exact Or.inl ⟨rfl, rfl, rfl, fun _ hp => (nomatch hp), fun _ hp => (nomatch hp)⟩
  | cons p order ih =>
    obtain ⟨id, execs⟩ := p
    obtain ⟨found₁, u, hsec, hrest⟩ := bind_ok.mp h
    obtain ⟨c, s, hc, hs, rfl⟩ := onContainer_ok hsec
    rcases Container.exitIn_ok (raise_ok.mp hs) with
      ⟨rfl, rfl, hinit, hexecs⟩ | ⟨x, k, r, rfl, hexits⟩
    · have htable := table_store_self hc
      rcases ih hrest with ⟨rfl, hmiss⟩ | ⟨event, e, x, r, rfl, hhit⟩
      · left
        refine ⟨rfl, hmiss.table.trans htable, hmiss.files, ?_, ?_⟩
        · intro p hp r hr
          rcases List.mem_cons.mp hp with rfl | hp
          · rw [slot_of_lookup hc] at hr
            obtain rfl := Option.some.inj hr
            exact hinit
          · exact hmiss.inits p hp r (by rw [htable, hr])
        · intro p hp e he r hr
          rcases List.mem_cons.mp hp with rfl | hp
          · rw [slot_of_lookup hc] at hr
            exact hexecs e he r hr
          · exact hmiss.execs p hp e he r (by rw [htable, hr])
      · right
        have hdid := hhit.did
        refine ⟨event, e, x, r, rfl, by rw [← htable, hhit.slot], hhit.bears, ?_, ?_⟩
        · rw [← htable]
          exact hhit.reported
        · refine ⟨?_, ?_, hdid.files⟩
          · rw [← htable]
            exact hdid.admits
          · rw [hdid.table, htable]
    · right
      obtain ⟨rfl, rfl⟩ := EStateM.Result.ok.inj hrest
      refine ⟨x.1, x.2, (id, k), r, rfl, (slot_of_lookup hc k).trans hexits.slot, hexits.bears,
        ?_, ?_⟩
      · exact ⟨_, (slot_of_lookup hc none).trans rfl, hexits.reported⟩
      · exact did_exit hc hexits

/-- A miss means that no entry at all bears the pid. -/
theorem Miss.absent {a : PumpAnswers} {pid : Int32} (h : Miss t t' pid a.order)
    (horder : a.Orders t) {x : Ref} {r : Slot} (hr : t.table.slot x = some r) : r.pid ≠ pid := by
  obtain ⟨id, k⟩ := x
  obtain ⟨c, hc, hr'⟩ := lookup_of_slot hr
  have hkey : id ∈ t.containers.keys := (KeyedMap.Map.mem_keys_iff _ _).mpr ⟨c, hc⟩
  obtain ⟨p, hp, rfl⟩ := List.mem_map.mp (horder.1.mem_iff.mpr hkey)
  cases k with
  | none => exact h.inits p hp r hr
  | some e =>
    have hexec : e ∈ c.processes.keys := by
      obtain ⟨q, hq, -⟩ := Option.map_eq_some_iff.mp hr'
      exact (KeyedMap.Map.mem_keys_iff _ _).mpr ⟨q, hq⟩
    exact h.execs p hp e ((horder.2 p hp c hc).mem_iff.mpr hexec) r hr

end TaskService
end RustExtensions.RuncShim
