import RustExtensions.RuncShim.ExitPath

/-!
# Every exit gets to its entry

Left to itself the way of the exits comes to rest. At rest every entry whose process ended is
STOPPED, with the code of the way in which that process ended.
-/
namespace RustExtensions.RuncShim

open RustExtensions.Shim
open RustExtensions.Fallible
open RustExtensions.Transition

namespace Os

variable {os os' : Os}

/-- Where an entry is not STOPPED, the exit of its process is still to come, under its pid. -/
def Shown (os : Os) : Prop := ∀ x r q, os.shim.table.slot x = some r → r.proc = some q →
  r.state = .stopped ∨ ∃ c ∈ os.children, c.owner = .container q ∧ c.pid = r.pid

/-- A section that is not an exit shows an entry of a new process only with its child. -/
theorem Shown.acts {s : Shim} {a : Action} (h : os.Shown) (hacts : Shim.Acts os.shim a s.table)
    (hshim : os'.shim = s) (hsub : os.children ⊆ os'.children)
    (hnew : ∀ rid req ans, a = .call rid req ans →
      s.table.nextProc ≠ os.shim.table.nextProc →
        ∃ c ∈ os'.children, c.owner = .container os.shim.table.nextProc ∧ c.pid = ans.pid) :
    os'.Shown := by
  obtain ⟨e, hcause, he, htable⟩ := hacts
  intro x r q hr hq
  rw [hshim, htable] at hr
  have hold {s : Slot} (hs : os.shim.table.slot x = some s) (hpid : r.pid = s.pid)
      (hproc : r.proc = s.proc) (hstop : s.state = .stopped → r.state = .stopped) :
      r.state = .stopped ∨ ∃ c ∈ os'.children, c.owner = .container q ∧ c.pid = r.pid := by
    obtain hstopped | ⟨c, hc, howner, hpid'⟩ := h x s q hs (hproc ▸ hq)
    · exact .inl (hstop hstopped)
    · exact .inr ⟨c, hsub hc, howner, hpid'.trans hpid.symm⟩
  have hfresh : q = os.shim.table.nextProc →
      (∃ rid req ans, a = .call rid req ans ∧ r.pid = ans.pid) →
      s.table.nextProc = os.shim.table.nextProc + 1 →
        r.state = .stopped ∨ ∃ c ∈ os'.children, c.owner = .container q ∧ c.pid = r.pid := by
    rintro rfl ⟨rid, req, ans, ha, hpid⟩ hnext
    obtain ⟨c, hc, howner, hpid'⟩ := hnew rid req ans ha (by omega)
    exact .inr ⟨c, hc, howner, hpid'.trans hpid.symm⟩
  cases Table.origin _ hr with
  | kept hs => exact hold hs rfl rfl id
  | created id bundle pid =>
    cases hcause with
    | create => exact hfresh (Option.some.inj hq).symm ⟨_, _, _, rfl, rfl⟩ (by rw [htable]; rfl)
  | added id execId bundle => cases hq
  | @started id s hs =>
    obtain ⟨i, hi, hstate⟩ := he
    obtain rfl := Option.some.inj (hs.symm.trans hi)
    exact hold hs rfl rfl fun hstop => absurd hstop hstate
  | @spawned id execId pid s hs =>
    cases hcause with
    | spawn hid => exact hfresh (Option.some.inj hq).symm ⟨_, _, _, rfl, rfl⟩ (by rw [htable]; rfl)
  | @paused id s hs =>
    obtain ⟨i, hi, hstate⟩ := he
    obtain rfl := Option.some.inj (hs.symm.trans hi)
    exact hold hs rfl rfl fun hstop => nomatch hstate.symm.trans hstop
  | @resumed id s hs =>
    obtain ⟨i, hi, hstate⟩ := he
    obtain rfl := Option.some.inj (hs.symm.trans hi)
    exact hold hs rfl rfl fun hstop => nomatch hstate.symm.trans hstop
  | registered hs => exact hold hs rfl rfl id
  | exited hs => exact absurd rfl (hcause.ne_exit _ _ _)

theorem shown (h : host.Reachable Attributable os) : os.Shown := by
  refine h.invariant (P := Shown) (fun _ _ _ h => (by cases h)) ?_
  intro os a os' hr ih ha hstep
  cases step_cases hstep with
  | acted hne hs hnext =>
    obtain ⟨hacts, -⟩ := exits_of_act (Shim.step_cases hs) hne
    exact ih.acts hacts rfl (List.Subset.refl _) fun _ _ _ _ hne => absurd hnext hne
  | @spawned a s pid hne hs hnext =>
    obtain ⟨hacts, -⟩ := exits_of_act (Shim.step_cases hs) hne
    rw [ExitPath.step_act_of_ne hne, hs, Option.bind_some] at hstep
    obtain ⟨hsame, -⟩ | ⟨rid, req, ans, rfl, -, -, heq⟩ := adopt_cases hstep
    · exact absurd hsame hnext
    · have hpid : pid = ans.pid :=
        congrArg Child.pid (List.cons.inj (congrArg Os.unreaped heq)).1
      refine ih.acts hacts rfl (List.subset_cons_self ..) fun rid' req' ans' ha' _ => ?_
      obtain ⟨rfl, rfl, rfl⟩ := Action.call.inj ha'
      exact ⟨_, List.mem_cons_self .., rfl, hpid⟩
  | forked =>
    intro x r q hx hq
    obtain hstopped | ⟨c, hc, hrest⟩ := ih x r q hx hq
    · exact .inl hstopped
    · exact .inr ⟨c, List.mem_cons_of_mem _ hc, hrest⟩
  | @reaped c code hc =>
    intro x r q hx hq
    obtain hstopped | ⟨c', hc', hrest⟩ := ih x r q hx hq
    · exact .inl hstopped
    · exact .inr ⟨c', (children_reap hc code).mem_iff.mpr hc', hrest⟩
  | @delivered an e rest s he hs =>
    have hchildren : os.children.Perm (e.child :: (os.unreaped ++ rest.map (·.child))) := by
      rw [children, he]
      exact List.perm_middle
    -- the child whose event was taken is not the one of an entry that is left alone
    have hleft {x : Ref} {r : Slot} {q : Nat} (hx : os.shim.table.slot x = some r)
        (hq : r.proc = some q) (hother : e.child.owner = .container q → r.pid ≠ e.child.pid) :
        r.state = .stopped ∨ ∃ c ∈ os.unreaped ++ rest.map (·.child),
          c.owner = .container q ∧ c.pid = r.pid := by
      obtain hstopped | ⟨c, hc, howner, hpid⟩ := ih x r q hx hq
      · exact .inl hstopped
      · obtain rfl | hc := List.mem_cons.mp (hchildren.mem_iff.mp hc)
        · exact absurd hpid.symm (hother howner)
        · exact .inr ⟨c, hc, howner, hpid⟩
    intro x r q hx hq
    cases Shim.step_cases hs with
    | @exited _ pid _ y i event e' t hsub hpump hhit =>
      have hpid : i.pid = e.child.pid := hhit.bears.trans (Subject.pid.inj hsub).symm
      have howner := ha e (by rw [he]; rfl) y _ (TaskService.entry_of_slot hhit.slot) hpid
      change t.table.slot x = some r at hx
      rw [hhit.did.table] at hx
      obtain ⟨r₀, hr₀, ⟨hne, rfl⟩ | ⟨rfl, rfl⟩⟩ :=
        Table.slot_modify os.shim.table y x (ProcessTemplate.exited · e.code an.now) hx
      · refine hleft hr₀ hq fun hown => ?_
        obtain ⟨q', hq', hown'⟩ := Option.map_eq_some_iff.mp howner
        obtain rfl := Owner.container.inj (hown'.trans hown)
        have hdistinct := Shim.distinct (startsOnce hr)
        exact absurd (hdistinct.proc_inj x y _ _ _ hr₀ hhit.slot hq hq') hne
      · exact .inl rfl
    | @ignored _ _ t hpump htable hfiles habsent =>
      change t.table.slot x = some r at hx
      rw [htable] at hx
      exact hleft hx hq fun _ => habsent _ rfl x r hx

end Os

namespace ExitPath

variable {p p' : ExitPath} {a : ExitPathAction}

/-- No event finds its pid on an entry of another process, no exec is started again once it is
STOPPED, and no child is killed by a signal that `Signal` does not have. -/
def Attributable (p : ExitPath) : ExitPathAction → Prop
  | .act a => Os.Attributable p.os (.act a)
  | .deliver an => Os.Attributable p.os (.deliver an)
  | .spawner a => Known p (.spawner a)

instance (p : ExitPath) (a : ExitPathAction) : Decidable (Attributable p a) := by
  unfold Attributable
  split <;> infer_instance

theorem Attributable.known (h : p.Attributable a) : Known p a := by
  cases a with
  | spawner a => exact h
  | _ => trivial

theorem Attributable.mirrored {os : Os} {b : OsAction} (h : p.Attributable a)
    (hsame : os.Same p.os) (hb : Mirrors a b) : Os.Attributable os b := by
  cases hb with
  | act a =>
    change Shim.StartsOnce os.shim a
    rw [hsame.shim]
    exact h
  | fork a pid => trivial
  | reap a c code => trivial
  | deliver an =>
    unfold Os.Attributable
    rw [hsame.events, hsame.shim]
    exact h

/-- Everything that was reaped is notified, and the pump has taken all of it. -/
structure AtRest (p : ExitPath) : Prop where
  idle : p.reaper.handler = .idle
  pending : p.reaper.pending = false
  taken : p.taken = p.reaper.notified.length

/-- A container process has one child. -/
structure Owners (p : ExitPath) : Prop where
  lt : ∀ n < p.reaper.nextName, ∀ q, p.owner n = .container q → q < p.shim.table.nextProc
  inj : ∀ n < p.reaper.nextName, ∀ m < p.reaper.nextName, ∀ q, p.owner n = .container q →
    p.owner m = .container q → n = m

/-- What a step does to the owners. -/
inductive Owns (p p' : ExitPath) : Prop
  | kept (hname : p'.reaper.nextName = p.reaper.nextName) (howner : p'.owner = p.owner)
  | assigned {o : Owner} (hname : p'.reaper.nextName = p.reaper.nextName + 1)
    (howner : p'.owner = p.assign o)
    (hnew : ∀ q, o = .container q →
      q = p.shim.table.nextProc ∧ p'.shim.table.nextProc ≠ p.shim.table.nextProc)

theorem Step.owns (h : p.Kept) (hs : Step p a p') : Owns p p' := by
  cases hs with
  | acted hne hstep hnext => exact .kept rfl rfl
  | adopted hstep hnext hfork =>
    cases hfork with
    | forked hfree => exact .assigned rfl rfl fun q hq => ⟨(Owner.container.inj hq).symm, hnext⟩
  | @helped a spawner hstep =>
    have hnames : spawner.reaper.nextName = p.reaper.nextName ∨
        spawner.reaper.nextName = p.reaper.nextName + 1 := by
      obtain hsame | ⟨b, hb, -⟩ := hstep.reaper_spares h.spared
      · exact .inl (congrArg _ hsame)
      · cases hb.moves fun z hz => h.known z (h.sound.accounted.zombies z hz) with
        | forked hfree hunreaped hwaited hname => exact .inr hname
        | reaped c code hunreaped hwaited hname => exact .inl hname
        | still hunreaped hwaited hname => exact .inl hname
    obtain hname | hname := hnames
    · rw [helped_still hname]
      exact .kept hname rfl
    · unfold help
      rw [if_neg (hname.trans_ne (Nat.succ_ne_self _))]
      exact .assigned hname rfl fun q hq => by cases hq
  | delivered he hstep => exact .kept rfl rfl

theorem Owns.owner (h : Owns p p') {n : Nat} (hn : n < p.reaper.nextName) :
    p'.owner n = p.owner n := by
  cases h with
  | kept hname howner => rw [howner]
  | assigned hname howner hnew => rw [howner, assign, Function.update_of_ne hn.ne]

theorem Step.nextProc_mono (hs : Step p a p') :
    p.shim.table.nextProc ≤ p'.shim.table.nextProc := by
  cases hs with
  | acted hne hstep hnext => exact Os.nextProc_mono (Shim.step_cases hstep)
  | adopted hstep hnext hfork => exact Os.nextProc_mono (Shim.step_cases hstep)
  | @helped a spawner hstep =>
    unfold help
    split
    · exact Nat.le_refl _
    · exact Nat.le_refl _
  | delivered he hstep => exact Os.nextProc_mono (Shim.step_cases hstep)

theorem Owners.step (h : p.Owners) (hkept : p.Kept) (hs : Step p a p') : p'.Owners := by
  have hle := hs.nextProc_mono
  cases hs.owns hkept with
  | kept hname howner =>
    refine ⟨fun n hn q hq => ?_, fun n hn m hm q hq hq' => ?_⟩
    · rw [hname] at hn
      rw [howner] at hq
      exact (h.lt n hn q hq).trans_le hle
    · rw [hname] at hn hm
      rw [howner] at hq hq'
      exact h.inj n hn m hm q hq hq'
  | @assigned o hname howner hnew =>
    -- a name is new, and then its owner is, or it is an old one
    have hcases {n q : Nat} (hn : n < p'.reaper.nextName) (hq : p'.owner n = .container q) :
        n = p.reaper.nextName ∧ q = p.shim.table.nextProc ∧ q < p'.shim.table.nextProc ∨
          n < p.reaper.nextName ∧ p.owner n = .container q := by
      rw [howner, assign] at hq
      rw [hname] at hn
      obtain hn | rfl := Nat.lt_succ_iff_lt_or_eq.mp hn
      · rw [Function.update_of_ne hn.ne] at hq
        exact .inr ⟨hn, hq⟩
      · rw [Function.update_self] at hq
        obtain ⟨rfl, hne⟩ := hnew q hq
        exact .inl ⟨rfl, rfl, lt_of_le_of_ne hle hne.symm⟩
    refine ⟨fun n hn q hq => ?_, fun n hn m hm q hq hq' => ?_⟩
    · obtain ⟨-, -, hlt⟩ | ⟨hn, hq⟩ := hcases hn hq
      · exact hlt
      · exact (h.lt n hn q hq).trans_le hle
    · obtain ⟨rfl, hnew, -⟩ | ⟨hn, hq⟩ := hcases hn hq
      · obtain ⟨rfl, -⟩ | ⟨hm, hq'⟩ := hcases hm hq'
        · rfl
        · exact absurd hnew (h.lt m hm q hq').ne
      · obtain ⟨rfl, hnew, -⟩ | ⟨hm, hq'⟩ := hcases hm hq'
        · exact absurd hnew (h.lt n hn q hq).ne
        · exact h.inj n hn m hm q hq hq'

theorem owners (h : exitPath.Reachable Attributable p) : p.Owners := by
  refine h.invariant (P := Owners) ?_ fun p a p' hr ih _ hs => ?_
  · exact ⟨fun n hn => absurd hn (Nat.not_lt_zero n), fun n hn => absurd hn (Nat.not_lt_zero n)⟩
  · exact ih.step (kept (fun _ _ => Attributable.known) hr) (step_cases hs)

/-- The exits that were handled are those of children that ended so. -/
def Recorded (p : ExitPath) : Prop := ∀ e ∈ p.shim.exits, ∀ q, e.proc = some q →
  ∃ c t, (c, t) ∈ p.reaper.terminated ∧ p.owner c.name = .container q ∧ e.code = t.code

theorem Recorded.step (h : p.Recorded) (hkept : p.Kept) (ha : p.Attributable a) (hs : Step p a p') :
    p'.Recorded := by
  have howns := hs.owns hkept
  -- as long as no exit is handled
  have hsame (hexits : p'.shim.exits = p.shim.exits)
      (hterminated : ∀ c t, (c, t) ∈ p.reaper.terminated → (c, t) ∈ p'.reaper.terminated) :
      p'.Recorded := by
    intro e he q hq
    rw [hexits] at he
    obtain ⟨c, t, ht, howner, hcode⟩ := h e he q hq
    have hlt : c.name < p.reaper.nextName :=
      hkept.sound.named.lt _ (List.mem_append_right _ (List.mem_map.mpr ⟨(c, t), ht, rfl⟩))
    exact ⟨c, t, hterminated c t ht, (howns.owner hlt).trans howner, hcode⟩
  cases hs with
  | acted hne hstep hnext =>
    exact hsame (Os.exits_of_act (Shim.step_cases hstep) hne).2 fun _ _ => id
  | adopted hstep hnext hfork =>
    have hexits := Os.exits_of_act (Shim.step_cases hstep) fun _ _ h => by cases h
    refine hsame hexits.2 fun c t ht => ?_
    exact Reaper.terminated_step hfork ht
  | @helped a spawner hstep =>
    have hshim : (p.help spawner).shim = p.shim := by
      unfold help
      split <;> rfl
    have hspawner : (p.help spawner).reaper = spawner.reaper := by
      unfold help
      split <;> rfl
    refine hsame (congrArg _ hshim) fun c t ht => ?_
    rw [hspawner]
    obtain hsame | ⟨b, hb, -⟩ := hstep.reaper_spares hkept.spared
    · rwa [hsame]
    · exact Reaper.terminated_step hb ht
  | @delivered an e s he hstep =>
    obtain ⟨z, hz, rfl, hevents⟩ := received_next hkept he
    obtain ⟨-, hexits⟩ | ⟨ev, an', x, r, hact, hsub, hx, -, hexits⟩ :=
      (Shim.step_cases hstep).effect
    · exact hsame hexits fun _ _ => id
    · obtain ⟨rfl, rfl⟩ := Action.exit.inj hact
      obtain ⟨t, ht, -, hcode, -⟩ :=
        hkept.sound.accounted.notified z.1 z.2 (List.mem_of_getElem? hz)
      have howner : r.proc.map Owner.container = some (p.owner z.1.name) := by
        refine ha (p.event z) ?_ x _ (TaskService.entry_of_slot hx) (Subject.pid.inj hsub).symm
        rw [hevents]
        rfl
      intro e he q hq
      rw [show s.exits = _ from hexits] at he
      obtain he | he := List.mem_append.mp he
      · exact h e he q hq
      · obtain rfl := List.mem_singleton.mp he
        rw [show r.proc = some q from hq] at howner
        exact ⟨z.1, t, ht, (Option.some.inj howner).symm, hcode⟩

theorem recorded (h : exitPath.Reachable Attributable p) : p.Recorded := by
  refine h.invariant (P := Recorded) (fun _ h => (by cases h)) fun p a p' hr ih ha hs => ?_
  exact ih.step (kept (fun _ _ => Attributable.known) hr) ha (step_cases hs)

/-- Where the way of the exits is at rest, every entry whose process ended is STOPPED, with the
code of the way in which that process ended. -/
theorem exits_reach_entries (h : exitPath.Reachable Attributable p) (hrest : p.AtRest) {x : Ref}
    {r : Record} {q : Nat} {c : Process} {t : Termination} (hx : p.shim.task.entry x = some r)
    (hq : r.proc = some q) (howner : p.owner c.name = .container q)
    (ht : (c, t) ∈ p.reaper.terminated) : r.state = .stopped ∧ r.exitCode = t.code := by
  have hkept := kept (fun _ _ => Attributable.known) h
  have howners := owners h
  obtain ⟨os, hos, hsame⟩ := refines (fun _ _ => Attributable.known)
    (fun _ _ _ _ => Attributable.mirrored) h
  obtain ⟨s, hs, rfl⟩ := TaskService.slot_of_entry hx
  have hs' : os.shim.table.slot x = some s := by
    rw [hsame.shim]
    exact hs
  have hname {c : Process} {t : Termination} (ht : (c, t) ∈ p.reaper.terminated) :
      c.name < p.reaper.nextName :=
    hkept.sound.named.lt _ (List.mem_append_right _ (List.mem_map.mpr ⟨(c, t), ht, rfl⟩))
  have hzombies := hkept.awake hrest.idle hrest.pending
  -- nothing is on its way, and the child does not run any more
  have hstop : s.state = .stopped := by
    obtain hstop | ⟨c', hc', howner', -⟩ := Os.shown hos x s q hs' hq
    · exact hstop
    · have hwaited : p.reaper.waitedFor = p.reaper.notified := by
        rw [Reaper.waitedFor, hrest.idle]
        exact List.append_nil _
      have hnone : os.events = [] := by
        rw [hsame.events, ExitPath.os, hwaited, hrest.taken, List.drop_length]
        rfl
      rw [Os.children, hnone, List.map_nil, List.append_nil] at hc'
      obtain ⟨d, hd, rfl⟩ := List.mem_map.mp (hsame.unreaped.mem_iff.mp hc')
      rw [Reaper.unreaped, hzombies, List.map_nil, List.append_nil] at hd
      have hlt := hkept.sound.named.lt _ (List.mem_append_left _ (List.mem_map.mpr ⟨d, hd, rfl⟩))
      have heq := howners.inj _ hlt _ (hname ht) q howner' howner
      have hdisjoint := (List.nodup_append.mp hkept.sound.named.nodup).2.2
      exact absurd heq (hdisjoint _ (List.mem_map.mpr ⟨d, hd, rfl⟩) _
        (List.mem_map.mpr ⟨(c, t), ht, rfl⟩))
  have hlog := Shim.logged (Os.startsOnce hos)
  rw [hsame.shim] at hlog
  obtain ⟨now, hnow⟩ := Option.isSome_iff_exists.mp (hlog.stopped x s hs hstop)
  obtain ⟨e, he, -, hcode, -, hproc⟩ := hlog.recorded x s now hs hnow
  obtain ⟨d, t', ht', howner', hcode'⟩ := recorded h e he q ((hproc hstop).trans hq)
  have heq := howners.inj _ (hname ht') _ (hname ht) q howner' howner
  have hnames := (List.nodup_append.mp hkept.sound.named.nodup).2.1
  obtain ⟨-, rfl⟩ := Prod.mk.inj (List.inj_on_of_nodup_map hnames ht' ht heq)
  exact ⟨hstop, hcode.symm.trans hcode'⟩

def shownBoth : ExitPath := exitPath.after Attributable {} (endedRun ++ reapRun ++ [
  .spawner (.reaper .notify), .spawner (.reaper (.waitpid none)),
  .deliver { order := [("c", [])], now := Shim.exitTime },
  .deliver { order := [("c", [])], now := Shim.exitTime }])

theorem exits_reach_entries_both : ∃ r, shownBoth.shim.task.entry ("c", none) = some r ∧
    r.state = .stopped ∧ r.exitCode = 143 := by
  have hreach : exitPath.Reachable Attributable shownBoth := System.run_after (by decide +kernel)
  have hrest : shownBoth.AtRest :=
    ⟨by decide +kernel, by decide +kernel, by decide +kernel⟩
  let r : Record := (shownBoth.shim.task.entry ("c", none)).get (by decide +kernel)
  have hr : shownBoth.shim.task.entry ("c", none) = some r := (Option.some_get _).symm
  obtain ⟨hstop, hcode⟩ := exits_reach_entries hreach hrest (c := { name := 0, pid := 1 })
    (t := .signaled sigterm) hr (q := 0) (by decide +kernel) (by decide +kernel)
    (by decide +kernel)
  exact ⟨r, hr, hstop, hcode⟩

end ExitPath

/-! ## The pump takes what it is sent -/

namespace Container

variable {s : Container × World}

theorem exitProcess_returns {containerId : String} {k : Option String} {code : Int32}
    {now : OffsetDateTime} {r : Slot} (hk : s.1.slot k = some r) :
    Returns (exitProcess containerId k code now) s := by
  cases k with
  | none => exact ⟨_, _, rfl⟩
  | some e =>
    obtain ⟨p, hp, -⟩ := Option.map_eq_some_iff.mp hk
    unfold exitProcess onMutProcess dispatch onExec Returns
    simp only [hp]
    exact ⟨_, _, rfl⟩

theorem exitIn_returns (a : PumpAnswers) (execs : List String) (pid code : Int32)
    (s : Container × World) : Returns (exitIn a execs pid code) s := by
  have hfound {k : Option String} {r : Slot} {t : Container × World} (hr : t.1.slot k = some r) :
      Returns (exitProcess s.1.id k code a.now >>= fun x => pure (some x)) t := by
    have hreturns : Returns (exitProcess s.1.id k code a.now) t := exitProcess_returns hr
    obtain ⟨x, u, hx⟩ := hreturns
    exact returns_bind.mpr ⟨x, u, hx, returns_pure _ _⟩
  unfold exitIn
  refine returns_bind.mpr ⟨s.1, s, rfl, ?_⟩
  split
  · split
    · cases hkill : attempt (δ := Error) (Container.kill a.kill none 9 true) s with
      | error e t => exact absurd hkill attempt_error
      | ok x t => exact returns_bind.mpr ⟨x, t, hkill, hfound (k := none) rfl⟩
    · exact hfound (k := none) rfl
  · cases hfind : s.1.execWithPid execs pid with
    | none => exact returns_pure _ _
    | some e =>
      obtain ⟨p, hp, -⟩ := execWithPid_some hfind
      have hslot : s.1.slot (some e) = some (p.slot RuncExecLifecycle.bundle) := by
        simp only [slot, hp, Option.map_some]
      exact hfound hslot

end Container

namespace TaskService

variable {t : TaskService}

/-- The pump does not fail on containers that are there. -/
theorem processExit_returns (a : PumpAnswers) (pid code : Int32)
    {order : List (String × List String)}
    (horder : ∀ p ∈ order, ∃ c, t.containers.lookup p.1 = some c) :
    Returns (processExit a pid code order) t := by
  induction order generalizing t with
  | nil => exact returns_pure _ _
  | cons p order ih =>
    obtain ⟨id, execs⟩ := p
    obtain ⟨c, hc⟩ := horder _ List.mem_cons_self
    obtain ⟨found, s, hs⟩ := Container.exitIn_returns a execs pid code (c, t.world)
    have hon : onContainer id (raise (exitIn a execs pid code)) t = .ok found (t.store id s) := by
      simp only [onContainer, hc, zoom, raise_ok.mpr hs]
      rfl
    unfold processExit
    refine returns_bind.mpr ⟨found, t.store id s, hon, ?_⟩
    cases found with
    | some x => exact returns_pure _ _
    | none =>
      refine ih fun p hp => ?_
      obtain ⟨c', hc'⟩ := horder p (List.mem_cons_of_mem _ hp)
      rw [store, KeyedMap.Map.lookup_insert_eq]
      split
      · exact ⟨_, rfl⟩
      · exact ⟨c', hc'⟩

/-- One order in which the maps can be gone through. -/
def someOrder (t : TaskService) : List (String × List String) :=
  t.containers.keys.map fun id =>
    (id, ((t.containers.lookup id).map (·.processes.keys)).getD [])

theorem orders_someOrder (t : TaskService) (now : OffsetDateTime) :
    ({ order := t.someOrder, now } : PumpAnswers).Orders t := by
  constructor
  · change (t.someOrder.map (·.1)).Perm t.containers.keys
    rw [someOrder, List.map_map]
    exact .of_eq (List.map_id _)
  · intro p hp c hc
    obtain ⟨id, -, rfl⟩ := List.mem_map.mp hp
    rw [hc]
    exact .refl _

end TaskService

namespace Shim

variable {s : Shim}

/-- A pump that is not sending takes any event. -/
theorem exit_of_orders {an : PumpAnswers} (hpump : s.pump = none) (horders : an.Orders s.task)
    (e : ExitEvent) : ∃ s', s.step (.exit e an) = some s' := by
  cases hsub : e.subject with
  | exec cid execId => exact ⟨s, by simp only [step, exit, hsub, if_pos hpump]⟩
  | pid pid =>
    have hthere : ∀ p ∈ an.order, ∃ c, s.task.containers.lookup p.1 = some c := fun p hp => by
      have hkey := horders.1.mem_iff.mp (List.mem_map.mpr ⟨p, hp, rfl⟩)
      exact (KeyedMap.Map.mem_keys_iff _ _).mp hkey
    obtain ⟨found, t, ht⟩ := TaskService.processExit_returns an pid e.exitCode hthere
    simp only [step, exit, hsub, if_pos (And.intro hpump horders), ht]
    cases found with
    | none => exact ⟨_, rfl⟩
    | some x => exact ⟨_, rfl⟩

end Shim

end RustExtensions.RuncShim

namespace RustExtensions.Shim.Reaper

variable {r r' : Reaper} {build : Build} {a : ReaperAction}

/-- The handler goes on with what it has. -/
def Own : ReaperAction → Prop
  | .signal | .waitpid _ | .notify => True
  | .fork _ | .terminate _ _ | .subscribe _ | .unsubscribe _ => False

instance : (a : ReaperAction) → Decidable (Own a)
  | .signal | .waitpid _ | .notify => .isTrue trivial
  | .fork _ | .terminate _ _ | .subscribe _ | .unsubscribe _ => .isFalse id

/-- A child that is notified leaves two steps more to the pump. -/
def left (r : Reaper) : Nat := 2 * r.pending.toNat + 4 * r.zombies.length +
  match r.handler with
  | .idle => 0
  | .draining => 1
  | .notifying _ _ => 4

theorem left_lt (h : r.step build a = some r') (ha : Own a) : r'.nextName = r.nextName ∧
    r'.left + 2 * r'.notified.length < r.left + 2 * r.notified.length := by
  cases a with
  | signal =>
    obtain ⟨⟨hidle, hpending⟩, rfl⟩ :=
      (Option.ite_none_right_eq_some.mp h).imp_right Option.some.inj
    refine ⟨rfl, ?_⟩
    simp only [left, hidle, hpending, Bool.toNat_false, Bool.toNat_true]
    omega
  | waitpid found =>
    have hs := step_cases h
    cases hs with
    | drained hdraining hnone => exact ⟨rfl, by simp [left, hdraining]⟩
    | reaped hdraining hz hknown =>
      have hlength := List.length_erase_of_mem hz
      have hpos := List.length_pos_of_mem hz
      refine ⟨rfl, ?_⟩
      simp only [left, hdraining]
      omega
    | lost hdraining hz hunknown =>
      have hlength := List.length_erase_of_mem hz
      have hpos := List.length_pos_of_mem hz
      refine ⟨rfl, ?_⟩
      simp only [left, hdraining]
      omega
  | notify =>
    cases step_cases h with
    | notified hp =>
      refine ⟨rfl, ?_⟩
      simp only [left, hp, List.length_append, List.length_singleton]
      omega
  | _ => exact ha.elim

/-- A handler that is not done can go on. -/
theorem exists_step (build : Build) (hrest : ¬(r.handler = .idle ∧ r.pending = false)) :
    ∃ a r', Own a ∧ r.step build a = some r' := by
  cases hhandler : r.handler with
  | idle =>
    have hpending : r.pending = true := by
      cases hpending : r.pending with
      | true => rfl
      | false => exact absurd ⟨hhandler, hpending⟩ hrest
    exact ⟨.signal, _, trivial, if_pos ⟨hhandler, hpending⟩⟩
  | draining =>
    cases hz : r.zombies with
    | nil =>
      refine ⟨.waitpid none, ?_⟩
      simp [Own, step, waitpid, hhandler, hz]
    | cons z zs =>
      refine ⟨.waitpid (some z), ?_⟩
      simp [Own, step, waitpid, hhandler, hz]
  | notifying p exitCode =>
    refine ⟨.notify, ?_⟩
    simp [Own, step, hhandler]

end RustExtensions.Shim.Reaper

namespace RustExtensions.RuncShim.ExitPath

open RustExtensions.Shim
open RustExtensions.Transition

variable {p p' : ExitPath} {a : ExitPathAction}

/-- The loop that reaps and the pump go on with what they have. -/
def Own (_ : ExitPath) : ExitPathAction → Prop
  | .spawner (.reaper a) => Reaper.Own a
  | .deliver _ | .act .publish => True
  | _ => False

instance (p : ExitPath) : (a : ExitPathAction) → Decidable (Own p a)
  | .spawner (.reaper a) => inferInstanceAs (Decidable (Reaper.Own a))
  | .deliver _ | .act .publish => .isTrue trivial
  | .spawner (.execute _) | .spawner (.spawn _ _) | .spawner (.spawnFails _)
  | .spawner (.recv _) | .spawner (.finish _) => .isFalse id
  | .act (.call ..) | .act (.next _) | .act (.exit ..) => .isFalse id

theorem known_of_own (h : Own p a) : Known p a := by
  cases a with
  | spawner a =>
    cases a with
    | reaper b =>
      cases b with
      | terminate c t => exact h.elim
      | _ => trivial
    | _ => trivial
  | _ => trivial

def left (p : ExitPath) : Nat :=
  p.reaper.left + 2 * (p.reaper.notified.length - p.taken) + p.shim.pump.toList.length

theorem spawner_reaper {b : ReaperAction} (hb : Reaper.Own b) :
    p.spawner.step .asynchronous (.reaper b) =
      (p.reaper.step .asynchronous b).map fun r => { p.spawner with reaper := r } := by
  cases b with
  | unsubscribe id => exact hb.elim
  | _ => rfl

theorem step_reaper {b : ReaperAction} (h : p.step (.spawner (.reaper b)) = some p')
    (ha : Reaper.Own b) : ∃ r, p.reaper.step .asynchronous b = some r ∧
      p' = { p with spawner := { p.spawner with reaper := r } } := by
  obtain ⟨spawner, hspawner, rfl⟩ := Option.map_eq_some_iff.mp h
  obtain ⟨r, hr, rfl⟩ := Option.map_eq_some_iff.mp ((spawner_reaper ha).symm.trans hspawner)
  exact ⟨r, hr, helped_still (Reaper.left_lt hr ha).1⟩

theorem left_lt (hkept : p.Kept) (ha : Own p a) (h : p.step a = some p') : p'.left < p.left := by
  have htaken := hkept.taken
  cases a with
  | act a =>
    cases step_cases h with
    | acted hne hs hnext =>
      cases Shim.step_cases hs with
      | published hpump => simp [left, hpump]
      | _ => exact ha.elim
    | adopted hs hnext hfork => exact ha.elim
  | spawner a =>
    cases a with
    | reaper b =>
      obtain ⟨r, hr, rfl⟩ := step_reaper h ha
      obtain ⟨-, hlt⟩ := Reaper.left_lt hr ha
      have hlength := (Reaper.step_cases hr).length_notified
      change r.left + 2 * (r.notified.length - p.taken) + p.shim.pump.toList.length < p.left
      rw [left]
      omega
    | _ => exact ha.elim
  | deliver an =>
    cases step_cases h with
    | @delivered _ e s he hs =>
      have hlt := (List.getElem?_eq_some_iff.mp he).1
      rw [hkept.received, List.length_map] at hlt
      have hpump : p.shim.pump = none ∧ s.pump.toList.length ≤ 1 := by
        refine ⟨?_, Option.length_toList_le⟩
        cases Shim.step_cases hs with
        | exited hsub hpump hhit => exact hpump
        | ignored hpump htable hfiles habsent => exact hpump
      change p.reaper.left + 2 * (p.reaper.notified.length - (p.taken + 1)) + _ < p.left
      rw [left, hpump.1]
      simp only [Option.toList_none, List.length_nil]
      omega

theorem atRest_or_step (hkept : p.Kept) : p.AtRest ∨ ∃ a t, Own p a ∧ p.step a = some t := by
  by_cases hreaper : p.reaper.handler = .idle ∧ p.reaper.pending = false
  · by_cases htaken : p.taken = p.reaper.notified.length
    · exact .inl ⟨hreaper.1, hreaper.2, htaken⟩
    · right
      cases hpump : p.shim.pump with
      | some event =>
        refine ⟨.act .publish, { p with shim := { p.shim with
          sent := p.shim.sent ++ [event]
          pump := none } }, trivial, ?_⟩
        simp [step, Shim.step, Shim.publish, hpump, adopt]
      | none =>
        have hlt : p.taken < p.received.length := by
          rw [hkept.received, List.length_map]
          exact lt_of_le_of_ne hkept.taken htaken
        let now : OffsetDateTime := { unixTimestamp := 0, nanosecond := 0 }
        let an : PumpAnswers := { order := p.shim.task.someOrder, now }
        have horders : an.Orders p.shim.task := p.shim.task.orders_someOrder now
        obtain ⟨s, hs⟩ := Shim.exit_of_orders hpump horders p.received[p.taken]
        refine ⟨.deliver an, { p with shim := s, taken := p.taken + 1 }, trivial, ?_⟩
        simp [step, List.getElem?_eq_getElem hlt, hs]
  · obtain ⟨b, r, hb, hr⟩ := Reaper.exists_step .asynchronous hreaper
    refine .inr ⟨.spawner (.reaper b), p.help { p.spawner with reaper := r }, hb, ?_⟩
    simp only [step, spawner_reaper hb, hr, Option.map_some]

/-- Left to itself the way of the exits comes to rest: it takes four steps at most for each child
that waits to be reaped and two for each event that the pump has not taken, and seven. -/
theorem exits_come_to_rest (h : exitPath.Reachable Known p) (as : List ExitPathAction)
    (t : ExitPath)
    (hexec : exitPath.exec Own p as = some t) :
    as.length ≤ 4 * p.reaper.zombies.length + 2 * (p.received.length - p.taken) + 7 ∧
      (t.AtRest ∨ ∃ a u, Own t a ∧ t.step a = some u) := by
  have hkept {u : ExitPath} (hu : exitPath.Reachable Known u) : u.Kept := kept (fun _ _ => id) hu
  have hstep : ∀ u a v, exitPath.Reachable Known u → Own u a → u.step a = some v →
      exitPath.Reachable Known v ∧ v.left < u.left :=
    fun _ _ _ hu ha hs => ⟨hu.step (known_of_own ha) hs, left_lt (hkept hu) ha hs⟩
  obtain ⟨ht, hlength⟩ := System.exec_length left hstep h hexec
  have hreaper : p.reaper.left ≤ 4 * p.reaper.zombies.length + 6 := by
    have hpending : p.reaper.pending.toNat ≤ 1 := Bool.toNat_le _
    unfold Reaper.left
    split
    · omega
    · omega
    · omega
  have hpump : p.shim.pump.toList.length ≤ 1 := Option.length_toList_le
  have hleft : p.left = p.reaper.left + 2 * (p.received.length - p.taken) +
      p.shim.pump.toList.length := by
    rw [(hkept h).received, List.length_map]
    rfl
  exact ⟨by omega, atRest_or_step (hkept ht)⟩

theorem exits_come_to_rest_both : ∃ t, exitPath.exec Own (exitPath.after Known {} endedRun)
    (reapRun.take 4) = some t ∧ (t.AtRest ∨ ∃ a u, Own t a ∧ t.step a = some u) := by
  have hreach : exitPath.Reachable Known (exitPath.after Known {} endedRun) :=
    System.run_after (by decide +kernel)
  obtain ⟨t, ht⟩ : ∃ t, exitPath.exec Own (exitPath.after Known {} endedRun) (reapRun.take 4) =
      some t := Option.isSome_iff_exists.mp (by decide +kernel)
  exact ⟨t, ht, (exits_come_to_rest hreach _ t ht).2⟩

end RustExtensions.RuncShim.ExitPath
