import Mathlib.Data.Set.Basic
import Mathlib.Logic.Function.Basic
import RustExtensions.Lib.Transition
import RustExtensions.RuncShim.Processes

/-!
# The process table

What the service keeps, apart from how it keeps it: at each name at most one
process entry, and the set of wait channels that nobody has closed. A section
of a request or of the exit pump is one of the eleven effects below, most of
which concern a single entry.
-/
namespace RustExtensions.RuncShim

open RustExtensions.Shim
open RustExtensions.Transition

/-- The name of a process: a container id, with an exec id unless it is the init process. -/
abbrev Ref := String × Option String

/-- A process entry as its container shows it. -/
structure Slot extends Record where
  id : String
  bundle : String

@[ext]
structure Table where
  slot : Ref → Option Slot := fun _ => none
  openTx : Set Channel := ∅
  nextInst : Nat := 0
  nextProc : Nat := 0
  nextSerial : Nat := 0

inductive Effect where
  /-- No entry changes; names may have been used up. -/
  | quiet (insts procs : Nat)
  | create (id bundle : String) (pid : Int32)
  | exec (id execId bundle : String)
  | start (id : String)
  | spawn (id execId : String) (pid : Int32)
  | pause (id : String)
  | resume (id : String)
  | register (x : Ref) (rx : Channel)
  | exit (x : Ref) (code : Int32) (now : OffsetDateTime)
  | remove (id execId : String)
  | unregister (id : String)

namespace Record

def running (r : Record) : Record := { r with state := .running }

def spawned (pid : Int32) (proc : Nat) (r : Record) : Record :=
  { r with pid := pid, proc := some proc, state := .running }

def paused (r : Record) : Record := { r with state := .paused }

def registered (rx : Channel) (r : Record) : Record :=
  { r with waitChanTx := r.waitChanTx ++ [rx] }

end Record

namespace Table

/-- The names that belong to a container. -/
def under (id : String) : Set Ref := {x | x.1 = id}

/-- The channels registered on the entries at `xs`. -/
def held (T : Table) (xs : Set Ref) : Set Channel :=
  {rx | ∃ x ∈ xs, ∃ r, T.slot x = some r ∧ rx ∈ r.waitChanTx}

open Classical in
/-- The entries at `xs` go, and with them the senders they hold. -/
noncomputable def drop (T : Table) (xs : Set Ref) : Table := { T with
  slot := fun x => if x ∈ xs then none else T.slot x
  openTx := T.openTx \ T.held xs }

def put (T : Table) (x : Ref) (r : Slot) : Table :=
  { T with slot := Function.update T.slot x (some r) }

def modify (T : Table) (x : Ref) (f : Record → Record) : Table := { T with
  slot := Function.update T.slot x
    ((T.slot x).map fun r => { r with toRecord := f r.toRecord }) }

/-- A new entry, still without a process. -/
def fresh (T : Table) (id bundle : String) : Slot where
  inst := T.nextInst
  id := id
  bundle := bundle

/-- When the code takes an effect. -/
def Admits (T : Table) : Effect → Prop
  | .quiet _ _ => True
  | .create _ _ _ => True
  | .exec id _ bundle => ∃ i, T.slot (id, none) = some i ∧ i.bundle = bundle
  | .start id => ∃ r, T.slot (id, none) = some r ∧ r.state ≠ .stopped
  | .spawn id execId _ =>
    (∃ i, T.slot (id, none) = some i ∧ i.state ≠ .stopped) ∧ ∃ r, T.slot (id, some execId) = some r
  | .pause id => ∃ r, T.slot (id, none) = some r ∧ r.state = .running
  | .resume id => ∃ r, T.slot (id, none) = some r ∧ r.state = .paused
  | .register x rx =>
    ∃ r, T.slot x = some r ∧ r.state ≠ .stopped ∧ rx = { inst := r.inst, serial := T.nextSerial }
  | .exit x _ _ => ∃ r, T.slot x = some r
  | .remove id execId => ∃ r, T.slot (id, some execId) = some r
  | .unregister _ => True

noncomputable def apply (T : Table) : Effect → Table
  | .quiet insts procs =>
    { T with nextInst := T.nextInst + insts, nextProc := T.nextProc + procs }
  | .create id bundle pid =>
    { (T.drop (under id)).put (id, none)
        { T.fresh id bundle with pid := pid, proc := some T.nextProc } with
      nextInst := T.nextInst + 1
      nextProc := T.nextProc + 1 }
  | .exec id execId bundle =>
    { (T.drop {(id, some execId)}).put (id, some execId) (T.fresh execId bundle) with
      nextInst := T.nextInst + 1 }
  | .start id => T.modify (id, none) Record.running
  | .spawn id execId pid =>
    { T.modify (id, some execId) (Record.spawned pid T.nextProc) with
      nextProc := T.nextProc + 1 }
  | .pause id => T.modify (id, none) Record.paused
  | .resume id => T.modify (id, none) Record.running
  | .register x rx =>
    { T.modify x (Record.registered rx) with
      openTx := insert rx T.openTx
      nextSerial := T.nextSerial + 1 }
  | .exit x code now =>
    { T.modify x (ProcessTemplate.exited · code now) with openTx := T.openTx \ T.held {x} }
  | .remove id execId => T.drop {(id, some execId)}
  | .unregister id => T.drop (under id)

variable (T : Table)

section Slots
variable (x y : Ref) (r : Slot) (xs : Set Ref) (f : Record → Record)

theorem slot_drop_of_mem (h : x ∈ xs) : (T.drop xs).slot x = none := if_pos h

theorem slot_drop_of_not_mem (h : x ∉ xs) : (T.drop xs).slot x = T.slot x := if_neg h

theorem slot_drop {r : Slot} (h : (T.drop xs).slot x = some r) : x ∉ xs ∧ T.slot x = some r := by
  by_cases hx : x ∈ xs
  · rw [slot_drop_of_mem T x xs hx] at h
    cases h
  · rw [slot_drop_of_not_mem T x xs hx] at h
    exact ⟨hx, h⟩

theorem slot_put_self : (T.put x r).slot x = some r := Function.update_self ..

theorem slot_put_of_ne (h : y ≠ x) : (T.put x r).slot y = T.slot y := Function.update_of_ne h ..

theorem slot_modify_of_ne (h : y ≠ x) : (T.modify x f).slot y = T.slot y :=
  Function.update_of_ne h ..

theorem slot_modify_self {r : Slot} (h : T.slot x = some r) :
    (T.modify x f).slot x = some { r with toRecord := f r.toRecord } := by
  simp only [modify, Function.update_self, h, Option.map_some]

/-- An entry of a modified table comes from one at the same name. -/
theorem slot_modify {r' : Slot} (h : (T.modify x f).slot y = some r') :
    ∃ r, T.slot y = some r ∧
      (y ≠ x ∧ r' = r ∨ y = x ∧ r' = { r with toRecord := f r.toRecord }) := by
  by_cases hy : y = x
  · subst hy
    simp only [modify, Function.update_self, Option.map_eq_some_iff] at h
    obtain ⟨r, hr, hr'⟩ := h
    exact ⟨r, hr, Or.inr ⟨rfl, hr'.symm⟩⟩
  · rw [slot_modify_of_ne T x y f hy] at h
    exact ⟨r', h, Or.inl ⟨hy, rfl⟩⟩

end Slots

/-! ## Where an entry comes from -/

/-- How the entry at a name after an effect relates to the table before it. -/
inductive Origin (T : Table) : Effect → Ref → Slot → Prop
  | kept {e : Effect} {x : Ref} {r : Slot} (hr : T.slot x = some r) : Origin T e x r
  | created (id bundle : String) (pid : Int32) :
    Origin T (.create id bundle pid) (id, none)
      { T.fresh id bundle with pid := pid, proc := some T.nextProc }
  | added (id execId bundle : String) :
    Origin T (.exec id execId bundle) (id, some execId) (T.fresh execId bundle)
  | started {id : String} {r : Slot} (hr : T.slot (id, none) = some r) :
    Origin T (.start id) (id, none) { r with toRecord := r.running }
  | spawned {id execId : String} {pid : Int32} {r : Slot}
    (hr : T.slot (id, some execId) = some r) :
    Origin T (.spawn id execId pid) (id, some execId)
      { r with toRecord := r.spawned pid T.nextProc }
  | paused {id : String} {r : Slot} (hr : T.slot (id, none) = some r) :
    Origin T (.pause id) (id, none) { r with toRecord := r.paused }
  | resumed {id : String} {r : Slot} (hr : T.slot (id, none) = some r) :
    Origin T (.resume id) (id, none) { r with toRecord := r.running }
  | registered {x : Ref} {rx : Channel} {r : Slot} (hr : T.slot x = some r) :
    Origin T (.register x rx) x { r with toRecord := r.registered rx }
  | exited {x : Ref} {code : Int32} {now : OffsetDateTime} {r : Slot} (hr : T.slot x = some r) :
    Origin T (.exit x code now) x
      { r with toRecord := ProcessTemplate.exited r.toRecord code now }

theorem origin_put {T' : Table} {e : Effect} {x y : Ref} {r s : Slot} {xs : Set Ref}
    (hT' : T'.slot = ((T.drop xs).put x r).slot) (hnew : Origin T e x r)
    (h : T'.slot y = some s) : Origin T e y s := by
  rw [hT'] at h
  by_cases hy : y = x
  · subst hy
    rw [slot_put_self] at h
    obtain rfl := Option.some.inj h
    exact hnew
  · rw [slot_put_of_ne _ _ _ _ hy] at h
    exact .kept (slot_drop T y xs h).2

theorem origin_modify {T' : Table} {e : Effect} {x y : Ref} {s : Slot} {f : Record → Record}
    (hT' : T'.slot = (T.modify x f).slot)
    (hnew : ∀ r, T.slot x = some r → Origin T e x { r with toRecord := f r.toRecord })
    (h : T'.slot y = some s) : Origin T e y s := by
  rw [hT'] at h
  obtain ⟨r, hr, ⟨-, rfl⟩ | ⟨rfl, rfl⟩⟩ := slot_modify T x y f h
  · exact .kept hr
  · exact hnew r hr

/-- The inversion of `apply`, entry by entry. -/
theorem origin {e : Effect} {x : Ref} {r : Slot} (h : (T.apply e).slot x = some r) :
    Origin T e x r := by
  cases e with
  | quiet insts procs => exact .kept h
  | create id bundle pid => exact origin_put T rfl (.created id bundle pid) h
  | exec id execId bundle => exact origin_put T rfl (.added id execId bundle) h
  | start id => exact origin_modify T rfl (fun _ hr => .started hr) h
  | spawn id execId pid => exact origin_modify T rfl (fun _ hr => .spawned hr) h
  | pause id => exact origin_modify T rfl (fun _ hr => .paused hr) h
  | resume id => exact origin_modify T rfl (fun _ hr => .resumed hr) h
  | register x rx => exact origin_modify T rfl (fun _ hr => .registered hr) h
  | exit x code now =>
    exact origin_modify T (f := (ProcessTemplate.exited · code now)) rfl (fun _ hr => .exited hr) h
  | remove id execId => exact .kept (slot_drop T x _ h).2
  | unregister id => exact .kept (slot_drop T x _ h).2

/-- An entry is either new, and then under a name not used before, or it is the
one that was there. -/
theorem Origin.fresh_or_old {T : Table} {e : Effect} {x : Ref} {r : Slot} (h : T.Origin e x r) :
    (r.inst = T.nextInst ∧ r.state = .created ∧ r.exitedAt = none ∧
      (r.proc = none ∨ r.proc = some T.nextProc)) ∨
      ∃ s, T.slot x = some s ∧ r.inst = s.inst := by
  cases h with
  | kept hr => exact Or.inr ⟨r, hr, rfl⟩
  | created id bundle pid => exact Or.inl ⟨rfl, rfl, rfl, Or.inr rfl⟩
  | added id execId bundle => exact Or.inl ⟨rfl, rfl, rfl, Or.inl rfl⟩
  | started hr => exact Or.inr ⟨_, hr, rfl⟩
  | spawned hr => exact Or.inr ⟨_, hr, rfl⟩
  | paused hr => exact Or.inr ⟨_, hr, rfl⟩
  | resumed hr => exact Or.inr ⟨_, hr, rfl⟩
  | registered hr => exact Or.inr ⟨_, hr, rfl⟩
  | exited hr => exact Or.inr ⟨_, hr, rfl⟩

/-! ## Names -/

/-- Entries and processes have names of their own, none of which is still to come. -/
structure Distinct (T : Table) : Prop where
  inst_lt : ∀ x r, T.slot x = some r → r.inst < T.nextInst
  inst_inj : ∀ x y r r', T.slot x = some r → T.slot y = some r' → r.inst = r'.inst → x = y
  proc_lt : ∀ x r q, T.slot x = some r → r.proc = some q → q < T.nextProc
  proc_inj : ∀ x y r r' q, T.slot x = some r → T.slot y = some r' →
    r.proc = some q → r'.proc = some q → x = y

variable {T}

theorem Distinct.drop (h : T.Distinct) (xs : Set Ref) : (T.drop xs).Distinct where
  inst_lt x r hx := h.inst_lt x r (slot_drop T x xs hx).2
  inst_inj x y r r' hx hy := h.inst_inj x y r r' (slot_drop T x xs hx).2 (slot_drop T y xs hy).2
  proc_lt x r q hx := h.proc_lt x r q (slot_drop T x xs hx).2
  proc_inj x y r r' q hx hy :=
    h.proc_inj x y r r' q (slot_drop T x xs hx).2 (slot_drop T y xs hy).2

/-- A new entry, with a new process or none. -/
theorem Distinct.putFresh (h : T.Distinct) (x : Ref) {r : Slot} (procs : Nat)
    (hinst : r.inst = T.nextInst) (hproc : ∀ q, r.proc = some q → q = T.nextProc ∧ 0 < procs) :
    Distinct { T.put x r with nextInst := T.nextInst + 1, nextProc := T.nextProc + procs } := by
  have hold : ∀ y s, (T.put x r).slot y = some s → y = x ∧ s = r ∨ T.slot y = some s := by
    intro y s hy
    by_cases hyx : y = x
    · subst hyx
      rw [slot_put_self] at hy
      exact Or.inl ⟨rfl, (Option.some.inj hy).symm⟩
    · rw [slot_put_of_ne T x y r hyx] at hy
      exact Or.inr hy
  constructor
  · intro y s hy
    change s.inst < T.nextInst + 1
    rcases hold y s hy with ⟨rfl, rfl⟩ | hs
    · omega
    · have := h.inst_lt y s hs
      omega
  · intro y z s s' hy hz he
    rcases hold y s hy with ⟨rfl, rfl⟩ | hs <;> rcases hold z s' hz with ⟨rfl, rfl⟩ | hs'
    · rfl
    · have := h.inst_lt z s' hs'
      omega
    · have := h.inst_lt y s hs
      omega
    · exact h.inst_inj y z s s' hs hs' he
  · intro y s q hy hq
    change q < T.nextProc + procs
    rcases hold y s hy with ⟨rfl, rfl⟩ | hs
    · have := hproc q hq
      omega
    · have := h.proc_lt y s q hs hq
      omega
  · intro y z s s' q hy hz hq hq'
    rcases hold y s hy with ⟨rfl, rfl⟩ | hs <;> rcases hold z s' hz with ⟨rfl, rfl⟩ | hs'
    · rfl
    · have := hproc q hq
      have := h.proc_lt z s' q hs' hq'
      omega
    · have := hproc q hq'
      have := h.proc_lt y s q hs hq
      omega
    · exact h.proc_inj y z s s' q hs hs' hq hq'

/-- A change of one entry that keeps its name, and its process unless it gets a new one. -/
theorem Distinct.modify (h : T.Distinct) (x : Ref) (f : Record → Record) (procs : Nat)
    (opens : Set Channel) (serial : Nat) (hinst : ∀ r, (f r).inst = r.inst)
    (hproc : ∀ r q, (f r).proc = some q → r.proc = some q ∨ q = T.nextProc ∧ 0 < procs) :
    Distinct { T.modify x f with
      nextProc := T.nextProc + procs, openTx := opens, nextSerial := serial } := by
  have hinsts : ∀ y s', (T.modify x f).slot y = some s' →
      ∃ s, T.slot y = some s ∧ s'.inst = s.inst := by
    intro y s' hy
    obtain ⟨s, hs, ⟨-, rfl⟩ | ⟨-, rfl⟩⟩ := slot_modify T x y f hy
    · exact ⟨s', hs, rfl⟩
    · exact ⟨s, hs, hinst _⟩
  have hprocs : ∀ y s' q, (T.modify x f).slot y = some s' → s'.proc = some q →
      (∃ s, T.slot y = some s ∧ s.proc = some q) ∨ y = x ∧ q = T.nextProc ∧ 0 < procs := by
    intro y s' q hy hq
    obtain ⟨s, hs, ⟨-, rfl⟩ | ⟨rfl, rfl⟩⟩ := slot_modify T x y f hy
    · exact Or.inl ⟨s', hs, hq⟩
    · rcases hproc _ q hq with hp | hnew
      · exact Or.inl ⟨s, hs, hp⟩
      · exact Or.inr ⟨rfl, hnew⟩
  constructor
  · intro y s' hy
    obtain ⟨s, hs, hi⟩ := hinsts y s' hy
    rw [hi]
    exact h.inst_lt y s hs
  · intro y z s' t' hy hz he
    obtain ⟨s, hs, hi⟩ := hinsts y s' hy
    obtain ⟨t, ht, hi'⟩ := hinsts z t' hz
    exact h.inst_inj y z s t hs ht (by rw [← hi, ← hi', he])
  · intro y s' q hy hq
    change q < T.nextProc + procs
    rcases hprocs y s' q hy hq with ⟨s, hs, hsq⟩ | ⟨-, rfl, hpos⟩
    · have := h.proc_lt y s q hs hsq
      omega
    · omega
  · intro y z s' t' q hy hz hq hq'
    rcases hprocs y s' q hy hq with ⟨s, hs, hsq⟩ | ⟨hyx, hnew, -⟩ <;>
      rcases hprocs z t' q hz hq' with ⟨t, ht, htq⟩ | ⟨hzx, hnew', -⟩
    · exact h.proc_inj y z s t q hs ht hsq htq
    · have := h.proc_lt y s q hs hsq
      omega
    · have := h.proc_lt z t q ht htq
      omega
    · rw [hyx, hzx]

theorem Distinct.apply (h : T.Distinct) (e : Effect) : (T.apply e).Distinct := by
  cases e with
  | quiet insts procs =>
    exact {
      inst_lt := fun x r hx => (h.inst_lt x r hx).trans_le (Nat.le_add_right ..)
      inst_inj := h.inst_inj
      proc_lt := fun x r q hx hq => (h.proc_lt x r q hx hq).trans_le (Nat.le_add_right ..)
      proc_inj := h.proc_inj }
  | create id bundle pid =>
    apply (h.drop (under id)).putFresh (id, none) 1 rfl
    intro q hq
    exact ⟨(Option.some.inj hq).symm, Nat.one_pos⟩
  | exec id execId bundle =>
    exact (h.drop {(id, some execId)}).putFresh (id, some execId) 0 rfl fun q hq => nomatch hq
  | start id => exact h.modify (id, none) Record.running 0 _ _ (fun _ => rfl) fun _ _ => Or.inl
  | spawn id execId pid =>
    refine h.modify (id, some execId) (Record.spawned pid T.nextProc) 1 _ _ (fun _ => rfl) ?_
    exact fun _ q hq => Or.inr ⟨(Option.some.inj hq).symm, Nat.one_pos⟩
  | pause id => exact h.modify (id, none) Record.paused 0 _ _ (fun _ => rfl) fun _ _ => Or.inl
  | resume id => exact h.modify (id, none) Record.running 0 _ _ (fun _ => rfl) fun _ _ => Or.inl
  | register x rx =>
    exact h.modify x (Record.registered rx) 0 _ _ (fun _ => rfl) fun _ _ => Or.inl
  | exit x code now =>
    exact h.modify x (ProcessTemplate.exited · code now) 0 _ _ (fun _ => rfl) fun _ _ => Or.inl
  | remove id execId => exact h.drop _
  | unregister id => exact h.drop _

/-! ## Wait channels -/

/-- The open channels are exactly the registered ones, each on the entry that
made it, and an entry that is STOPPED has none. -/
structure Waiting (T : Table) : Prop where
  inst_eq : ∀ x r, T.slot x = some r → ∀ rx ∈ r.waitChanTx, rx.inst = r.inst
  serial_lt : ∀ x r, T.slot x = some r → ∀ rx ∈ r.waitChanTx, rx.serial < T.nextSerial
  opened : ∀ x r, T.slot x = some r → ∀ rx ∈ r.waitChanTx, rx ∈ T.openTx
  held : ∀ rx ∈ T.openTx, ∃ x r, T.slot x = some r ∧ rx ∈ r.waitChanTx
  stopped : ∀ x r, T.slot x = some r → r.state = .stopped → r.waitChanTx = []

/-- Channels of one entry are not held by another. -/
theorem not_mem_held (hd : T.Distinct) (h : T.Waiting) {x : Ref} {r : Slot} {rx : Channel}
    {xs : Set Ref} (hr : T.slot x = some r) (hrx : rx ∈ r.waitChanTx) (hx : x ∉ xs) :
    rx ∉ T.held xs := by
  intro hexists
  obtain ⟨y, hy, s, hs, hmem⟩ := hexists
  have hinst : r.inst = s.inst := (h.inst_eq x r hr rx hrx).symm.trans (h.inst_eq y s hs rx hmem)
  rw [hd.inst_inj x y r s hr hs hinst] at hx
  exact hx hy

theorem Waiting.drop (h : T.Waiting) (hd : T.Distinct) (xs : Set Ref) : (T.drop xs).Waiting where
  inst_eq x r hx := h.inst_eq x r (slot_drop T x xs hx).2
  serial_lt x r hx := h.serial_lt x r (slot_drop T x xs hx).2
  opened x r hx rx hrx := by
    obtain ⟨hnot, hr⟩ := slot_drop T x xs hx
    exact ⟨h.opened x r hr rx hrx, not_mem_held hd h hr hrx hnot⟩
  held rx hrx := by
    obtain ⟨x, r, hr, hmem⟩ := h.held rx hrx.1
    have hx : x ∉ xs := fun hx => hrx.2 ⟨x, hx, r, hr, hmem⟩
    exact ⟨x, r, (slot_drop_of_not_mem T x xs hx).trans hr, hmem⟩
  stopped x r hx := h.stopped x r (slot_drop T x xs hx).2

theorem Waiting.putFresh (h : T.Waiting) {x : Ref} {r : Slot} (insts procs : Nat)
    (hfree : T.slot x = none) (hwait : r.waitChanTx = []) :
    Waiting { T.put x r with nextInst := insts, nextProc := procs } := by
  have hold : ∀ y s, (T.put x r).slot y = some s → s.waitChanTx = [] ∨ T.slot y = some s := by
    intro y s hy
    by_cases hyx : y = x
    · subst hyx
      rw [slot_put_self] at hy
      exact Or.inl (Option.some.inj hy ▸ hwait)
    · rw [slot_put_of_ne T x y r hyx] at hy
      exact Or.inr hy
  constructor
  · intro y s hy rx hrx
    rcases hold y s hy with hw | hs
    · exact absurd (hw ▸ hrx) List.not_mem_nil
    · exact h.inst_eq y s hs rx hrx
  · intro y s hy rx hrx
    rcases hold y s hy with hw | hs
    · exact absurd (hw ▸ hrx) List.not_mem_nil
    · exact h.serial_lt y s hs rx hrx
  · intro y s hy rx hrx
    rcases hold y s hy with hw | hs
    · exact absurd (hw ▸ hrx) List.not_mem_nil
    · exact h.opened y s hs rx hrx
  · intro rx hrx
    obtain ⟨y, s, hs, hmem⟩ := h.held rx hrx
    have hy : y ≠ x := by
      intro heq
      subst heq
      rw [hfree] at hs
      cases hs
    exact ⟨y, s, (slot_put_of_ne T x y r hy).trans hs, hmem⟩
  · intro y s hy hstop
    rcases hold y s hy with hw | hs
    · exact hw
    · exact h.stopped y s hs hstop

/-- A change of one entry that leaves its waiters alone and does not stop it. -/
theorem Waiting.modify (h : T.Waiting) (x : Ref) (f : Record → Record) (procs : Nat)
    (hinst : ∀ r, (f r).inst = r.inst) (hwait : ∀ r, (f r).waitChanTx = r.waitChanTx)
    (hstate : ∀ r, (f r).state ≠ .stopped) :
    Waiting { T.modify x f with nextProc := procs } := by
  have hold : ∀ y s', (T.modify x f).slot y = some s' → ∃ s, T.slot y = some s ∧
      s'.inst = s.inst ∧ s'.waitChanTx = s.waitChanTx ∧ (s'.state = .stopped → s' = s) := by
    intro y s' hy
    obtain ⟨s, hs, ⟨-, rfl⟩ | ⟨-, rfl⟩⟩ := slot_modify T x y f hy
    · exact ⟨s', hs, rfl, rfl, fun _ => rfl⟩
    · exact ⟨s, hs, hinst _, hwait _, fun hstop => absurd hstop (hstate _)⟩
  constructor
  · intro y s' hy rx hrx
    obtain ⟨s, hs, hi, hw, -⟩ := hold y s' hy
    rw [hi]
    exact h.inst_eq y s hs rx (hw ▸ hrx)
  · intro y s' hy rx hrx
    obtain ⟨s, hs, -, hw, -⟩ := hold y s' hy
    exact h.serial_lt y s hs rx (hw ▸ hrx)
  · intro y s' hy rx hrx
    obtain ⟨s, hs, -, hw, -⟩ := hold y s' hy
    exact h.opened y s hs rx (hw ▸ hrx)
  · intro rx hrx
    obtain ⟨y, s, hs, hmem⟩ := h.held rx hrx
    by_cases hy : y = x
    · subst hy
      refine ⟨y, _, slot_modify_self T y f hs, ?_⟩
      rw [hwait]
      exact hmem
    · exact ⟨y, s, (slot_modify_of_ne T x y f hy).trans hs, hmem⟩
  · intro y s' hy hstop
    obtain ⟨s, hs, -, -, he⟩ := hold y s' hy
    obtain rfl := he hstop
    exact h.stopped y s' hs hstop

theorem Waiting.register (h : T.Waiting) {x : Ref} {rx : Channel}
    (hr : T.Admits (.register x rx)) : (T.apply (.register x rx)).Waiting := by
  obtain ⟨r₀, hr₀, hstate, hrx₀⟩ := hr
  have hold : ∀ y s', (T.modify x (Record.registered rx)).slot y = some s' →
      ∃ s, T.slot y = some s ∧ s'.inst = s.inst ∧ s'.state = s.state ∧
        (s' = s ∨ s = r₀ ∧ s'.waitChanTx = s.waitChanTx ++ [rx]) := by
    intro y s' hy
    obtain ⟨s, hs, ⟨-, rfl⟩ | ⟨rfl, rfl⟩⟩ := slot_modify T x y _ hy
    · exact ⟨s', hs, rfl, rfl, Or.inl rfl⟩
    · exact ⟨s, hs, rfl, rfl, Or.inr ⟨Option.some.inj (hs.symm.trans hr₀), rfl⟩⟩
  have hmem : ∀ y s' s ch, (s' = s ∨ s = r₀ ∧ s'.waitChanTx = s.waitChanTx ++ [rx]) →
      T.slot y = some s → ch ∈ s'.waitChanTx → ch ∈ s.waitChanTx ∨ s = r₀ ∧ ch = rx := by
    rintro y s' s ch (rfl | ⟨rfl, hw⟩) hs hch
    · exact Or.inl hch
    · rw [hw, List.mem_append, List.mem_singleton] at hch
      exact hch.imp id fun hch => ⟨rfl, hch⟩
  constructor
  · intro y s' hy ch hch
    obtain ⟨s, hs, hi, -, hcase⟩ := hold y s' hy
    rw [hi]
    rcases hmem y s' s ch hcase hs hch with hch | ⟨rfl, rfl⟩
    · exact h.inst_eq y s hs ch hch
    · rw [hrx₀]
  · intro y s' hy ch hch
    change ch.serial < T.nextSerial + 1
    obtain ⟨s, hs, -, -, hcase⟩ := hold y s' hy
    rcases hmem y s' s ch hcase hs hch with hch | ⟨-, rfl⟩
    · have := h.serial_lt y s hs ch hch
      omega
    · rw [hrx₀]
      exact Nat.lt_succ_self _
  · intro y s' hy ch hch
    obtain ⟨s, hs, -, -, hcase⟩ := hold y s' hy
    rcases hmem y s' s ch hcase hs hch with hch | ⟨-, rfl⟩
    · exact Or.inr (h.opened y s hs ch hch)
    · exact Or.inl rfl
  · intro ch hch
    rcases hch with rfl | hch
    · refine ⟨x, _, slot_modify_self T x (Record.registered ch) hr₀, ?_⟩
      exact List.mem_append_right _ (List.mem_singleton_self _)
    · obtain ⟨y, s, hs, hch⟩ := h.held ch hch
      by_cases hy : y = x
      · subst hy
        refine ⟨y, _, slot_modify_self T y (Record.registered rx) hs, ?_⟩
        exact List.mem_append_left _ hch
      · exact ⟨y, s, (slot_modify_of_ne T x y (Record.registered rx) hy).trans hs, hch⟩
  · intro y s' hy hstop
    obtain ⟨s, hs, -, hst, hcase⟩ := hold y s' hy
    rcases hcase with rfl | ⟨rfl, -⟩
    · exact h.stopped y s' hs hstop
    · exact absurd (hst.symm.trans hstop) hstate

theorem Waiting.exit (h : T.Waiting) (hd : T.Distinct) (x : Ref) (code : Int32)
    (now : OffsetDateTime) : (T.apply (.exit x code now)).Waiting := by
  have hold : ∀ y s', (T.modify x (ProcessTemplate.exited · code now)).slot y = some s' →
      y ≠ x ∧ T.slot y = some s' ∨ s'.waitChanTx = [] := by
    intro y s' hy
    obtain ⟨s, hs, ⟨hyx, rfl⟩ | ⟨-, rfl⟩⟩ := slot_modify T x y _ hy
    · exact Or.inl ⟨hyx, hs⟩
    · exact Or.inr rfl
  constructor
  · intro y s' hy rx hrx
    rcases hold y s' hy with ⟨-, hs⟩ | hw
    · exact h.inst_eq y s' hs rx hrx
    · exact absurd (hw ▸ hrx) List.not_mem_nil
  · intro y s' hy rx hrx
    rcases hold y s' hy with ⟨-, hs⟩ | hw
    · exact h.serial_lt y s' hs rx hrx
    · exact absurd (hw ▸ hrx) List.not_mem_nil
  · intro y s' hy rx hrx
    rcases hold y s' hy with ⟨hyx, hs⟩ | hw
    · exact ⟨h.opened y s' hs rx hrx, not_mem_held hd h hs hrx hyx⟩
    · exact absurd (hw ▸ hrx) List.not_mem_nil
  · intro rx hrx
    obtain ⟨y, s, hs, hmem⟩ := h.held rx hrx.1
    have hy : y ≠ x := by
      intro heq
      subst heq
      exact hrx.2 ⟨y, rfl, s, hs, hmem⟩
    exact ⟨y, s, (slot_modify_of_ne T x y (ProcessTemplate.exited · code now) hy).trans hs, hmem⟩
  · intro y s' hy hstop
    rcases hold y s' hy with ⟨-, hs⟩ | hw
    · exact h.stopped y s' hs hstop
    · exact hw

/-- No effect strands a waiter. -/
theorem Waiting.apply (h : T.Waiting) (hd : T.Distinct) {e : Effect} (he : T.Admits e) :
    (T.apply e).Waiting := by
  cases e with
  | quiet insts procs => exact ⟨h.inst_eq, h.serial_lt, h.opened, h.held, h.stopped⟩
  | create id bundle pid =>
    exact (h.drop hd (under id)).putFresh _ _ (slot_drop_of_mem T _ _ rfl) rfl
  | exec id execId bundle =>
    exact (h.drop hd {(id, some execId)}).putFresh _ _ (slot_drop_of_mem T _ _ rfl) rfl
  | start id =>
    exact h.modify (id, none) Record.running _ (fun _ => rfl) (fun _ => rfl) fun _ hs => nomatch hs
  | spawn id execId pid =>
    exact h.modify (id, some execId) (Record.spawned pid T.nextProc) _ (fun _ => rfl)
      (fun _ => rfl) fun _ hs => nomatch hs
  | pause id =>
    exact h.modify (id, none) Record.paused _ (fun _ => rfl) (fun _ => rfl) fun _ hs => nomatch hs
  | resume id =>
    exact h.modify (id, none) Record.running _ (fun _ => rfl) (fun _ => rfl) fun _ hs => nomatch hs
  | register x rx => exact h.register he
  | exit x code now => exact h.exit hd x code now
  | remove id execId => exact h.drop hd _
  | unregister id => exact h.drop hd _

/-! ## States at rest -/

/-- Only an init process is paused, and none is left PAUSING. -/
def Settled (T : Table) : Prop := ∀ x r, T.slot x = some r →
  r.state = .created ∨ r.state = .running ∨ r.state = .stopped ∨ r.state = .paused ∧ x.2 = none

theorem Settled.apply (h : T.Settled) (e : Effect) : (T.apply e).Settled := by
  intro x r hr
  cases origin T hr with
  | kept hs => exact h x r hs
  | created id bundle pid => exact Or.inl rfl
  | added id execId bundle => exact Or.inl rfl
  | started hs => exact Or.inr (Or.inl rfl)
  | spawned hs => exact Or.inr (Or.inl rfl)
  | paused hs => exact Or.inr (Or.inr (Or.inr ⟨rfl, rfl⟩))
  | resumed hs => exact Or.inr (Or.inl rfl)
  | @registered x rx s hs => exact h x s hs
  | exited hs => exact Or.inr (Or.inr (Or.inl rfl))

/-! ## Runs -/

open Classical in
/-- The abstract service: any effect that the table admits. -/
noncomputable def system : System Table Effect where
  init := {}
  step T e := if T.Admits e then some (T.apply e) else none

theorem system_step {T T' : Table} {e : Effect} :
    system.step T e = some T' ↔ T.Admits e ∧ T.apply e = T' := by
  unfold system
  dsimp only
  split
  · next h => simp [h]
  · next h => simp [h]

/-- Names are distinct and no waiter is stranded, in every table reached. -/
theorem distinct_waiting {ok : Table → Effect → Prop} (h : system.Reachable ok T) :
    T.Distinct ∧ T.Waiting := by
  refine h.invariant (P := fun T => T.Distinct ∧ T.Waiting) ?_ ?_
  · constructor <;> constructor <;> simp [system]
  · intro T e T' _ ⟨hd, hw⟩ _ hstep
    obtain ⟨he, rfl⟩ := system_step.mp hstep
    exact ⟨hd.apply e, hw.apply hd he⟩

theorem settled {ok : Table → Effect → Prop} (h : system.Reachable ok T) : T.Settled := by
  refine h.invariant (P := Settled) ?_ ?_
  · simp [Settled, system]
  · intro T e T' _ ih _ hstep
    obtain ⟨-, rfl⟩ := system_step.mp hstep
    exact ih.apply e

theorem nextInst_le (T : Table) (e : Effect) : T.nextInst ≤ (T.apply e).nextInst := by
  cases e <;> simp [apply, modify, put, drop]

theorem nextProc_le (T : Table) (e : Effect) : T.nextProc ≤ (T.apply e).nextProc := by
  cases e <;> simp [apply, modify, put, drop]

/-! ## A channel that was registered -/

/-- The entry on which `rx` was registered is found at no name but `x`. -/
structure Awaited (T : Table) (x : Ref) (rx : Channel) : Prop where
  inst_lt : rx.inst < T.nextInst
  place : ∀ y r, T.slot y = some r → r.inst = rx.inst → y = x

theorem Awaited.apply {x : Ref} {rx : Channel} (h : T.Awaited x rx) (e : Effect) :
    (T.apply e).Awaited x rx where
  inst_lt := h.inst_lt.trans_le (nextInst_le T e)
  place y r hr hinst := by
    rcases (origin T hr).fresh_or_old with ⟨hnew, -⟩ | ⟨s, hs, hsi⟩
    · have := h.inst_lt
      omega
    · exact h.place y s hs (hsi.symm.trans hinst)

theorem awaited_register (hd : T.Distinct) {x : Ref} {rx : Channel}
    (h : T.Admits (.register x rx)) : (T.apply (.register x rx)).Awaited x rx := by
  obtain ⟨r, hr, -, rfl⟩ := h
  refine ⟨hd.inst_lt x r hr, fun y s hs hinst => ?_⟩
  obtain ⟨s', hs', ⟨-, rfl⟩ | ⟨rfl, -⟩⟩ := slot_modify T x y _ hs
  · exact hd.inst_inj y x s r hs' hr hinst
  · rfl

end Table
end RustExtensions.RuncShim
