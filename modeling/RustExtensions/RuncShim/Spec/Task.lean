import RustExtensions.RuncShim.Spec.Container
import RustExtensions.RuncShim.Task

/-!
# Handlers as effects on the process table

Each section of each handler is one effect: a quiet one on every error return,
and on a normal return the one the request is for.
-/
namespace RustExtensions.RuncShim

open RustExtensions.Shim
open RustExtensions.Fallible
open RustExtensions.KeyedMap (Map)

namespace TaskService

variable {α : Type}

/-- The process table that a task service keeps. -/
def table (t : TaskService) : Table where
  slot x := (t.containers.lookup x.1).bind (·.slot x.2)
  openTx := {rx | rx ∈ t.world.openTx}
  nextInst := t.world.nextInst
  nextProc := t.world.nextProc
  nextSerial := t.world.nextSerial

/-- A section took an effect and wrote no file outside `paths`. -/
structure Did (paths : Set String) (e : Effect) (t t' : TaskService) : Prop where
  admits : t.table.Admits e
  table : t'.table = t.table.apply e
  files : ∀ q ∉ paths, t'.world.files.lookup q = t.world.files.lookup q

/-- No entry changed. -/
def Quiet (paths : Set String) (t t' : TaskService) : Prop :=
  ∃ insts procs, Did paths (.quiet insts procs) t t'

variable {t t' : TaskService} {paths : Set String}

theorem slot_of_lookup {id : String} {c : Container} (h : t.containers.lookup id = some c)
    (execId : Option String) : t.table.slot (id, execId) = c.slot execId := by
  simp only [table, h, Option.bind_some]

theorem lookup_of_slot {x : Ref} {r : Slot} (h : t.table.slot x = some r) :
    ∃ c, t.containers.lookup x.1 = some c ∧ c.slot x.2 = some r :=
  Option.bind_eq_some_iff.mp h

/-- The record of the entry at a name. -/
def entry (t : TaskService) (x : Ref) : Option Record :=
  (t.containers.lookup x.1).bind (·.record x.2)

theorem entry_eq (t : TaskService) (x : Ref) : t.entry x = (t.table.slot x).map (·.toRecord) := by
  cases hc : t.containers.lookup x.1 with
  | none => simp only [entry, table, hc, Option.bind_none, Option.map_none]
  | some c => simp only [entry, table, hc, Option.bind_some, Container.record_eq]

theorem entry_of_slot {x : Ref} {r : Slot} (h : t.table.slot x = some r) :
    t.entry x = some r.toRecord := by
  rw [entry_eq, h, Option.map_some]

theorem slot_of_entry {x : Ref} {r : Record} (h : t.entry x = some r) :
    ∃ s, t.table.slot x = some s ∧ s.toRecord = r := by
  rw [entry_eq] at h
  exact Option.map_eq_some_iff.mp h

/-- The names that have an entry. -/
def refs (t : TaskService) : List Ref := t.containers.keys.flatMap fun id =>
  (id, none) :: ((t.containers.lookup id).elim [] (·.processes.keys)).map fun e => (id, some e)

theorem mem_refs {x : Ref} {r : Record} (h : t.entry x = some r) : x ∈ t.refs := by
  obtain ⟨id, k⟩ := x
  obtain ⟨c, hc, hr⟩ := Option.bind_eq_some_iff.mp h
  dsimp only at hc hr
  refine List.mem_flatMap.mpr ⟨id, (KeyedMap.Map.mem_keys_iff _ _).mpr ⟨c, hc⟩, ?_⟩
  cases k with
  | none => exact List.mem_cons_self
  | some e =>
    obtain ⟨p, hp, -⟩ := Option.map_eq_some_iff.mp hr
    refine List.mem_cons_of_mem _ (List.mem_map.mpr ⟨e, ?_, rfl⟩)
    rw [hc]
    exact (KeyedMap.Map.mem_keys_iff _ _).mpr ⟨p, hp⟩

/-- What is asked of every entry can be checked on the names in the map. -/
instance (t : TaskService) (P : Ref → Record → Prop) [∀ x r, Decidable (P x r)] :
    Decidable (∀ x r, t.entry x = some r → P x r) :=
  decidable_of_iff (∀ x ∈ t.refs, ∀ r ∈ t.entry x, P x r)
    ⟨fun h x r hr => h x (mem_refs hr) r hr, fun h x _ r hr => h x r hr⟩

/-- A container is in the map if its init process has an entry. -/
theorem isSome_lookup (t : TaskService) (id : String) :
    (t.containers.lookup id).isSome = (t.entry (id, none)).isSome := by
  simp only [entry]
  cases t.containers.lookup id <;> rfl

/-! ## Sections on one container -/

/-- The state after a section on the container `id` left it as `s`. -/
def store (t : TaskService) (id : String) (s : Container × World) : TaskService :=
  { t with containers := t.containers.insert id s.1, world := s.2 }

theorem onContainer_ok {id : String} {m : EStateM TtrpcError (Container × World) α} {a : α}
    (h : onContainer id m t = .ok a t') : ∃ c s, t.containers.lookup id = some c ∧
      m (c, t.world) = .ok a s ∧ t' = t.store id s := by
  unfold onContainer at h
  split at h
  · cases h
  · next c hc =>
    obtain ⟨s, hs, rfl⟩ := zoom_ok.mp h
    exact ⟨c, s, hc, hs, rfl⟩

theorem onContainer_error {id : String} {m : EStateM TtrpcError (Container × World) α}
    {e : TtrpcError} (h : onContainer id m t = .error e t') : t' = t ∨
      ∃ c s, t.containers.lookup id = some c ∧ m (c, t.world) = .error e s ∧ t' = t.store id s := by
  unfold onContainer at h
  split at h
  · exact Or.inl (EStateM.Result.error.inj h).2.symm
  · next c hc =>
    obtain ⟨s, hs, rfl⟩ := zoom_error.mp h
    exact Or.inr ⟨c, s, hc, hs, rfl⟩

theorem raise_ok {σ : Type} {m : EStateM Error σ α} {s u : σ} {a : α} :
    raise m s = .ok a u ↔ m s = .ok a u :=
  mapError_ok

theorem raise_error {σ : Type} {m : EStateM Error σ α} {s u : σ} {e : TtrpcError}
    (h : raise m s = .error e u) : ∃ err, m s = .error err u := by
  obtain ⟨err, herr, -⟩ := mapError_error.mp h
  exact ⟨err, herr⟩

theorem slot_insert (t : TaskService) (id : String) (c : Container) (w : World) (x : Ref) :
    ({ t with containers := t.containers.insert id c, world := w } : TaskService).table.slot x =
      if x.1 = id then c.slot x.2 else t.table.slot x := by
  simp only [table, KeyedMap.Map.lookup_insert_eq]
  split <;> rfl

/-- One entry is written, the others stand. -/
theorem slot_store {id : String} {c : Container} {s : Container × World}
    {execId : Option String} {o : Option Slot} (hc : t.containers.lookup id = some c)
    (hs : s.1.slot = Function.update c.slot execId o) :
    (t.store id s).table.slot = Function.update t.table.slot (id, execId) o := by
  funext ⟨id', execId'⟩
  rw [store, slot_insert]
  by_cases hid : id' = id
  · subst hid
    rw [if_pos rfl, hs]
    by_cases he : execId' = execId
    · subst he
      rw [Function.update_self, Function.update_self]
    · rw [Function.update_of_ne he, Function.update_of_ne (by simpa using he), slot_of_lookup hc]
  · rw [if_neg hid, Function.update_of_ne (fun h => hid (congrArg Prod.fst h))]

theorem Quiet.refl (t : TaskService) : Quiet paths t t :=
  ⟨0, 0, trivial, rfl, fun _ _ => rfl⟩

theorem quiet_of_grows (hslot : t'.table.slot = t.table.slot)
    (hw : World.Grows paths t.world t'.world) : Quiet paths t t' := by
  refine ⟨t'.world.nextInst - t.world.nextInst, t'.world.nextProc - t.world.nextProc, trivial,
    Table.ext hslot ?_ ?_ ?_ hw.nextSerial, hw.files⟩
  · exact congrArg (fun l : List Channel => {rx | rx ∈ l}) hw.openTx
  · exact (Nat.add_sub_of_le hw.nextInst).symm
  · exact (Nat.add_sub_of_le hw.nextProc).symm

theorem quiet_store {id : String} {c : Container} {s : Container × World}
    (hc : t.containers.lookup id = some c) (hs : Container.Still paths (c, t.world) s) :
    Quiet paths t (t.store id s) := by
  refine quiet_of_grows ?_ hs.world
  have hslot := slot_store (o := c.slot none) hc
    (hs.slot.trans (Function.update_eq_self none c.slot).symm)
  rw [hslot, ← slot_of_lookup hc]
  exact Function.update_eq_self (id, none) t.table.slot

/-- A section whose errors leave the container as it was. -/
theorem quiet_of_error {id : String} {m : EStateM TtrpcError (Container × World) α}
    {e : TtrpcError} (h : onContainer id m t = .error e t')
    (hm : ∀ c s, t.containers.lookup id = some c → m (c, t.world) = .error e s →
      Container.Still paths (c, t.world) s) : Quiet paths t t' := by
  rcases onContainer_error h with rfl | ⟨c, s, hc, hs, rfl⟩
  · exact .refl t'
  · exact quiet_store hc (hm c s hc hs)

/-- A section that only uses its container. -/
theorem quiet_of_keeps {id : String} {m : Method Container α} {f : α → Next}
    (hm : Keeps (Container.Still paths) m) :
    (∀ n t', onContainer id (raise m >>= fun a => pure (f a)) t = .ok n t' →
      Quiet paths t t' ∧ ∃ a, n = f a) ∧
    ∀ e t', onContainer id (raise m >>= fun a => pure (f a)) t = .error e t' →
      Quiet paths t t' := by
  refine ⟨fun n t' h => ?_, fun e t' h => quiet_of_error h fun c s _ hs => ?_⟩
  · obtain ⟨c, s, hc, hs, rfl⟩ := onContainer_ok h
    obtain ⟨a, u, ha, hn⟩ := bind_ok.mp hs
    obtain ⟨rfl, rfl⟩ := EStateM.Result.ok.inj hn
    exact ⟨quiet_store hc (hm.returns _ a u (raise_ok.mp ha)), a, rfl⟩
  · rcases bind_error.mp hs with ha | ⟨a, u, -, hn⟩
    · obtain ⟨err, herr⟩ := raise_error ha
      exact hm.fails _ err s herr
    · cases hn

/-! ## Effects of the operations -/

section Effects
variable {id : String} {c : Container} {s : Container × World}

theorem openTx_eq {w w' : World} (h : w'.openTx = w.openTx) :
    ({rx | rx ∈ w'.openTx} : Set Channel) = {rx | rx ∈ w.openTx} :=
  congrArg (fun l : List Channel => {rx | rx ∈ l}) h

/-- A section that changed the record of one entry. -/
theorem table_store {k : Option String} {r : Slot} {f : Record → Record}
    (hc : t.containers.lookup id = some c) (hr : c.slot k = some r)
    (hslot : s.1.slot = Function.update c.slot k (some { r with toRecord := f r.toRecord })) :
    (t.store id s).table = { t.table.modify (id, k) f with
      openTx := {rx | rx ∈ s.2.openTx}
      nextInst := s.2.nextInst
      nextProc := s.2.nextProc
      nextSerial := s.2.nextSerial } := by
  have hr' : t.table.slot (id, k) = some r := (slot_of_lookup hc k).trans hr
  refine Table.ext ?_ rfl rfl rfl rfl
  rw [slot_store hc hslot]
  simp only [Table.modify, hr', Option.map_some]

/-- A change of the record that is all there is to the effect. -/
theorem did_modify {e : Effect} {r : Slot} {f : Record → Record}
    (hc : t.containers.lookup id = some c) (hr : c.slot none = some r)
    (hadmits : t.table.Admits e) (he : t.table.apply e = t.table.modify (id, none) f)
    (hw : World.Steady t.world s.2)
    (hslot : s.1.slot = Function.update c.slot none (some { r with toRecord := f r.toRecord })) :
    Did ∅ e t (t.store id s) := by
  refine ⟨hadmits, ?_, fun q _ => congrArg (·.lookup q) hw.files⟩
  rw [table_store hc hr hslot, he]
  exact Table.ext rfl (openTx_eq hw.openTx) hw.nextInst hw.nextProc hw.nextSerial

theorem did_spawn {execId : String} {pid : Int32} {r i : Slot}
    (hc : t.containers.lookup id = some c) (hi : c.slot none = some i)
    (hstate : i.state ≠ .stopped) (hr : c.slot (some execId) = some r)
    (hw : World.Spawned (execPidPath r.bundle r.id) pid t.world s.2)
    (hslot : s.1.slot = Function.update c.slot (some execId)
      (some { r with toRecord := r.spawned pid t.world.nextProc })) :
    Did (c.pidPaths (some execId)) (.spawn id execId pid) t (t.store id s) := by
  refine ⟨⟨⟨i, (slot_of_lookup hc none).trans hi, hstate⟩, r, (slot_of_lookup hc _).trans hr⟩, ?_,
    fun q hq => hw.grows.files q fun he => hq ⟨r, hr, he⟩⟩
  rw [table_store (f := Record.spawned pid t.world.nextProc) hc hr hslot]
  exact Table.ext rfl (openTx_eq hw.openTx) hw.nextInst hw.nextProc hw.nextSerial

theorem did_register {k : Option String} {r : Slot} {rx : Channel}
    (hc : t.containers.lookup id = some c) (hr : c.slot k = some r) (hstate : r.state ≠ .stopped)
    (hrx : rx = { inst := r.inst, serial := t.world.nextSerial })
    (hw : s.2 = { t.world with
      nextSerial := t.world.nextSerial + 1, openTx := t.world.openTx ++ [rx] })
    (hslot : s.1.slot = Function.update c.slot k
      (some { r with toRecord := r.registered rx })) :
    Did ∅ (.register (id, k) rx) t (t.store id s) := by
  obtain ⟨c', w'⟩ := s
  obtain rfl : w' = _ := hw
  refine ⟨⟨r, (slot_of_lookup hc k).trans hr, hstate, hrx⟩, ?_, fun q _ => rfl⟩
  rw [table_store (f := Record.registered rx) hc hr hslot]
  refine Table.ext rfl ?_ rfl rfl rfl
  ext ch
  change ch ∈ t.world.openTx ++ [rx] ↔ ch = rx ∨ ch ∈ t.world.openTx
  rw [List.mem_append, List.mem_singleton, or_comm]

theorem mem_held_singleton {T : Table} {x : Ref} {rx : Channel} :
    rx ∈ T.held {x} ↔ rx ∈ (T.slot x).elim [] (·.waitChanTx) := by
  constructor
  · intro hexists
    obtain ⟨_, rfl, r, hr, hrx⟩ := hexists
    rw [hr]
    exact hrx
  · intro h
    cases hr : T.slot x with
    | none =>
      rw [hr] at h
      cases h
    | some r =>
      rw [hr] at h
      exact ⟨x, rfl, r, hr, h⟩

theorem mem_held_under {rx : Channel} :
    rx ∈ t.table.held (Table.under id) ↔
      rx ∈ (t.containers.lookup id).elim [] (·.senders) := by
  constructor
  · intro hexists
    obtain ⟨⟨_, k⟩, rfl, r, hr, hrx⟩ := hexists
    obtain ⟨c, hc, hr⟩ := lookup_of_slot hr
    rw [hc]
    exact (Container.mem_senders c rx).mpr ⟨k, r, hr, hrx⟩
  · intro h
    cases hc : t.containers.lookup id with
    | none =>
      rw [hc] at h
      cases h
    | some c =>
      rw [hc] at h
      obtain ⟨k, r, hr, hrx⟩ := (Container.mem_senders c rx).mp h
      exact ⟨(id, k), rfl, r, (slot_of_lookup hc k).trans hr, hrx⟩

/-- The senders that go are those the dropped entries hold. -/
theorem openTx_dropSenders {w : World} {chans : List Channel} {T : Table} {xs : Set Ref}
    (hT : T.openTx = {rx | rx ∈ w.openTx}) (hchans : ∀ rx, rx ∈ chans ↔ rx ∈ T.held xs) :
    ({rx | rx ∈ (w.dropSenders chans).openTx} : Set Channel) = T.openTx \ T.held xs := by
  ext rx
  simp [World.dropSenders, hT, hchans]

theorem did_remove {execId : String} {r : Slot} {w : World}
    (hc : t.containers.lookup id = some c) (hr : c.slot (some execId) = some r)
    (hfile : w = t.world ∨ w = t.world.removeFile (execPidPath r.bundle r.id))
    (hw : s.2 = w.dropSenders r.waitChanTx)
    (hslot : s.1.slot = Function.update c.slot (some execId) none) :
    Did (c.pidPaths (some execId)) (.remove id execId) t (t.store id s) := by
  have hr' : t.table.slot (id, some execId) = some r := (slot_of_lookup hc _).trans hr
  have hsteady : w.openTx = t.world.openTx ∧ w.nextInst = t.world.nextInst ∧
      w.nextProc = t.world.nextProc ∧ w.nextSerial = t.world.nextSerial := by
    rcases hfile with rfl | rfl <;> exact ⟨rfl, rfl, rfl, rfl⟩
  obtain ⟨hopen, hinst, hproc, hserial⟩ := hsteady
  obtain ⟨c', w'⟩ := s
  obtain rfl : w' = _ := hw
  refine ⟨⟨r, hr'⟩, Table.ext ?_ ?_ hinst hproc hserial, fun q hq => ?_⟩
  · rw [slot_store hc hslot]
    funext y
    by_cases hy : y = (id, some execId)
    · subst hy
      rw [Function.update_self]
      exact (Table.slot_drop_of_mem _ _ _ rfl).symm
    · rw [Function.update_of_ne hy]
      exact (Table.slot_drop_of_not_mem t.table y {(id, some execId)} hy).symm
  · apply openTx_dropSenders (T := t.table) (openTx_eq hopen).symm
    intro rx
    rw [mem_held_singleton, hr']
    rfl
  · rcases hfile with rfl | rfl
    · rfl
    · exact (World.Grows.removeFile t.world _).files q fun he => hq ⟨r, hr, he⟩

theorem did_exec {execId : String} {i : Slot} (hc : t.containers.lookup id = some c)
    (hi : c.slot none = some i)
    (hw : s.2 = { t.world with nextInst := t.world.nextInst + 1 }.dropSenders
      ((c.slot (some execId)).elim [] (·.waitChanTx)))
    (hslot : s.1.slot = Function.update c.slot (some execId)
      (some { inst := t.world.nextInst, id := execId, bundle := i.bundle })) :
    Did ∅ (.exec id execId i.bundle) t (t.store id s) := by
  obtain ⟨c', w'⟩ := s
  obtain rfl : w' = _ := hw
  refine ⟨⟨i, (slot_of_lookup hc none).trans hi, rfl⟩, Table.ext ?_ ?_ rfl rfl rfl, fun q _ => rfl⟩
  · rw [slot_store hc hslot]
    funext y
    by_cases hy : y = (id, some execId)
    · subst hy
      rw [Function.update_self]
      exact (Table.slot_put_self ..).symm
    · rw [Function.update_of_ne hy]
      exact ((Table.slot_put_of_ne _ _ _ _ hy).trans
        (Table.slot_drop_of_not_mem t.table y {(id, some execId)} hy)).symm
  · apply openTx_dropSenders (T := t.table) rfl
    intro rx
    rw [mem_held_singleton, slot_of_lookup hc]

end Effects

/-! ## Creation -/

/-- The files a Create on `bundle` may write. -/
def createPaths (bundle : String) : Set String :=
  {joinPath bundle optionsFileName, joinPath bundle runtimeFileName, initPidPath bundle}

/-- The bundle was prepared: nothing else in the world that later sections use. -/
structure Prepared (bundle : String) (w w' : World) : Prop where
  openTx : w'.openTx = w.openTx
  nextSerial : w'.nextSerial = w.nextSerial
  nextInst : w'.nextInst = w.nextInst
  nextProc : w'.nextProc = w.nextProc
  files : ∀ q ∉ createPaths bundle, w'.files.lookup q = w.files.lookup q

instance {bundle : String} : Std.Refl (Prepared bundle) where
  refl _ := ⟨rfl, rfl, rfl, rfl, fun _ _ => rfl⟩

instance {bundle : String} : IsTrans World (Prepared bundle) where
  trans _ _ _ h h' := ⟨h'.openTx.trans h.openTx, h'.nextSerial.trans h.nextSerial,
    h'.nextInst.trans h.nextInst, h'.nextProc.trans h.nextProc,
    fun q hq => (h'.files q hq).trans (h.files q hq)⟩

theorem Prepared.grows {bundle : String} {w w' : World} (h : Prepared bundle w w') :
    World.Grows (createPaths bundle) w w' :=
  ⟨h.openTx, h.nextSerial, h.nextInst.ge, h.nextProc.ge, h.files⟩

private theorem keeps_modify {bundle : String} {f : World → World}
    (hf : ∀ w, Prepared bundle w (f w)) :
    Keeps (Prepared bundle) (modify f : EStateM Error World PUnit) where
  returns w _ w' h := by
    obtain ⟨-, rfl⟩ := EStateM.Result.ok.inj h
    exact hf w
  fails _ _ _ h := nomatch h

theorem keeps_mountAll (bundle rootfs : String) (left : Bool) (ms : List Mount)
    (outcomes : List (Option Error)) :
    Keeps (Prepared bundle) (mountAll left rootfs ms outcomes) := by
  induction ms generalizing outcomes with
  | nil => exact .pure ()
  | cons m ms ih =>
    have hrest : Keeps (Prepared bundle) (answered (outcomes.head?.getD none) >>= fun _ =>
        mountAll left rootfs ms outcomes.tail) :=
      .bind (keeps_answered _) fun _ => ih _
    unfold mountAll
    dsimp only
    split
    · refine .bind (keeps_modify fun w => ?_) fun _ => hrest
      exact ⟨rfl, rfl, rfl, rfl, fun _ _ => rfl⟩
    · exact hrest

theorem keeps_prepareBundle (ans : Answers) (req : CreateTaskRequest) :
    Keeps (Prepared req.bundle) (prepareBundle ans req) := by
  have hwrite (path s : String) (hpath : path ∈ createPaths req.bundle) :
      Keeps (Prepared req.bundle)
        (modify (·.writeFile path s) : EStateM Error World PUnit) := by
    refine keeps_modify fun w => ⟨rfl, rfl, rfl, rfl, fun q hq => ?_⟩
    exact (World.Grows.writeFile w path s).files q fun he => hq (he ▸ hpath)
  have hopts : Keeps (Prepared req.bundle) (requestOptions ans req) := by
    unfold requestOptions
    cases req.options with
    | some _ => exact keeps_ofExcept _
    | none => exact .pure _
  refine .bind hopts fun opts => .bind (keeps_ofExcept _) fun json => ?_
  refine .bind (keeps_answered _) fun _ => .bind (hwrite _ _ (Or.inl rfl)) fun _ => ?_
  refine .bind (keeps_answered _) fun _ => .bind (hwrite _ _ (Or.inr (Or.inl rfl))) fun _ => ?_
  have hlast : Keeps (Prepared req.bundle)
      (answered ans.createRunc >>= fun _ => pure opts : EStateM Error World Options) :=
    .bind (keeps_answered _) fun _ => .pure _
  dsimp only
  split
  · exact .bind (keeps_answered _) fun _ => .bind (keeps_mountAll ..) fun _ => hlast
  · exact hlast

/-- A created container: one entry, with the process the runtime made. -/
theorem container_create_ok {ans : Answers} {req : CreateTaskRequest} {w w' : World}
    {c : Container} (h : Container.create ans req w = .ok c w') :
    c.slot = Function.update (fun _ => none) none (some {
      inst := w.nextInst, pid := ans.pid, proc := some w.nextProc
      id := req.id, bundle := req.bundle }) ∧
    w'.openTx = w.openTx ∧ w'.nextSerial = w.nextSerial ∧ w'.nextInst = w.nextInst + 1 ∧
    w'.nextProc = w.nextProc + 1 ∧
    (∀ q ∉ createPaths req.bundle, w'.files.lookup q = w.files.lookup q) ∧
    w'.files.lookup (initPidPath req.bundle) = some (World.showPid ans.pid) := by
  obtain ⟨opts, v, hprep, hrest⟩ := bind_ok.mp h
  have hv := (keeps_prepareBundle ans req).returns w opts v hprep
  obtain ⟨init, u, hinit, hret⟩ := bind_ok.mp hrest
  obtain ⟨rfl, rfl⟩ := EStateM.Result.ok.inj hret
  unfold InitProcess.create at hinit
  dsimp only at hinit
  split at hinit
  · next _ p w₁ heq =>
    obtain ⟨rfl, rfl⟩ := EStateM.Result.ok.inj hinit
    obtain ⟨hrec, hid, hbundle, hspawn⟩ := createContainer_ok heq
    have hrec' : p.toRecord = {
        inst := w.nextInst, pid := ans.pid, proc := some w.nextProc } := by
      rw [← hv.nextInst, ← hv.nextProc]
      exact hrec
    have hid' : p.id = req.id := hid
    have hbundle' : p.lifecycle.bundle = req.bundle := hbundle
    have hlookup : w₁.files.lookup (initPidPath req.bundle) = some (World.showPid ans.pid) := by
      rw [hspawn.files]
      exact (KeyedMap.Map.lookup_insert_eq ..).trans (if_pos rfl)
    refine ⟨?_, hspawn.openTx.trans hv.openTx, hspawn.nextSerial.trans hv.nextSerial,
      hspawn.nextInst.trans (congrArg (· + 1) hv.nextInst),
      hspawn.nextProc.trans (congrArg (· + 1) hv.nextProc), fun q hq => ?_, hlookup⟩
    · funext k
      cases k with
      | none =>
        rw [Function.update_self]
        change some (ProcessTemplate.slot RuncInitLifecycle.bundle p) = _
        rw [ProcessTemplate.slot, hrec', hid', hbundle']
      | some e => rfl
    · refine (hspawn.grows.files q fun he => hq ?_).trans (hv.files q hq)
      exact Or.inr (Or.inr he)
  · cases hinit

theorem container_create_fails {ans : Answers} {req : CreateTaskRequest} {w w' : World}
    {e : Error} (h : Container.create ans req w = .error e w') :
    World.Grows (createPaths req.bundle) w w' := by
  rcases bind_error.mp h with hprep | ⟨opts, v, hprep, hrest⟩
  · exact ((keeps_prepareBundle ans req).fails w e w' hprep).grows
  · have hv := ((keeps_prepareBundle ans req).returns w opts v hprep).grows
    rcases bind_error.mp hrest with hinit | ⟨init, u, -, hret⟩
    · apply hv.trans
      unfold InitProcess.create at hinit
      dsimp only at hinit
      split at hinit
      · cases hinit
      · next e' p w₁ heq =>
        obtain ⟨-, rfl⟩ := EStateM.Result.error.inj hinit
        have hfail := createContainer_fails heq
        have hgrow : World.Grows (createPaths req.bundle) v { v with nextInst := v.nextInst + 1 } :=
          ⟨rfl, rfl, Nat.le_succ _, Nat.le_refl _, fun _ _ => rfl⟩
        refine hgrow.trans (hfail.mono ?_)
        rintro _ rfl
        exact Or.inr (Or.inr rfl)
    · cases hret

end TaskService
end RustExtensions.RuncShim
