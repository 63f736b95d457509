import RustExtensions.Lib.Transition
import RustExtensions.Shim.Delivery

/-!
# The reaper

The children of a shim, and the loop of `handle_signals` that waits for them. A
terminated child stays with the kernel until it is waited for; SIGCHLD is a flag
that any number of terminations set. The two builds have the same loop and
differ in the monitor they notify.
-/
namespace RustExtensions.Shim

open RustExtensions.Transition

/-- `name` tells processes apart that had the same pid one after the other. -/
structure Process where
  name : Nat
  pid : Int32
  deriving DecidableEq

/-- The signals of the kernel, the real-time ones among them. -/
abbrev SignalNumber := { n : Nat // 1 ≤ n ∧ n ≤ 64 }

/-- How a process ended, as wait(2) tells it. -/
inductive Termination where
  | exited (code : UInt8)
  | signaled (signal : SignalNumber)
  deriving DecidableEq

/-- The signals that `nix::sys::signal::Signal` has on Linux. -/
def SignalNumber.Known (s : SignalNumber) : Prop := s.1 ≤ 31

instance (s : SignalNumber) : Decidable s.Known := inferInstanceAs (Decidable (_ ≤ _))

def Termination.Known : Termination → Prop
  | .exited _ => True
  | .signaled s => s.Known

instance : (t : Termination) → Decidable t.Known
  | .exited _ => inferInstanceAs (Decidable True)
  | .signaled s => inferInstanceAs (Decidable s.Known)

/-- The status of a shell: an exit code, or 128 and the signal. -/
def Termination.code : Termination → Int32
  | .exited code => .ofNat code.toNat
  | .signaled s => 128 + .ofNat s.1

inductive WaitStatus where
  | exited (p : Process) (status : Int32)
  | signaled (p : Process) (signal : Int32)
  | stillAlive

inductive Errno where
  | echild | einval

/-- `WaitStatus::from_raw`, which is EINVAL for a signal that `Signal` does not have. -/
def WaitStatus.fromRaw (p : Process) : Termination → Except Errno WaitStatus
  | .exited code => .ok (.exited p (.ofNat code.toNat))
  | .signaled s => if s.Known then .ok (.signaled p (.ofNat s.1)) else .error .einval

/-- Where `handle_signals` stands. -/
inductive Handler where
  | idle
  | draining
  | notifying (p : Process) (exitCode : Int32)
  deriving DecidableEq

/-- `terminated` lists the children that ended and `notified` the calls of
`monitor_notify_by_pid`; nothing reads them. -/
structure Reaper where
  running : List Process := []
  zombies : List (Process × Termination) := []
  pending : Bool := false
  handler : Handler := .idle
  bus : Bus := {}
  nextName : Nat := 0
  terminated : List (Process × Termination) := []
  notified : List (Process × Int32) := []

/-- `waitpid` names the child the kernel picks, if it has one. -/
inductive ReaperAction where
  | fork (pid : Int32)
  | terminate (p : Process) (t : Termination)
  | signal
  | waitpid (found : Option (Process × Termination))
  | notify
  | subscribe (topic : Topic)
  | unsubscribe (id : Int64)

namespace Reaper

/-- No child that runs or waits to be reaped has the pid. -/
def Free (r : Reaper) (pid : Int32) : Prop :=
  (∀ p ∈ r.running, p.pid ≠ pid) ∧ ∀ z ∈ r.zombies, z.1.pid ≠ pid

instance (r : Reaper) (pid : Int32) : Decidable (r.Free pid) := inferInstanceAs (Decidable (_ ∧ _))

/-- `waitpid(-1, WNOHANG)`. -/
def waitpid (r : Reaper) : Option (Process × Termination) →
    Option (Except Errno WaitStatus × Reaper)
  | none =>
    if r.zombies = [] then
      some (if r.running = [] then .error .echild else .ok .stillAlive, r)
    else none
  | some (p, t) =>
    if (p, t) ∈ r.zombies then
      some (WaitStatus.fromRaw p t, { r with zombies := r.zombies.erase (p, t) })
    else none

/-- The body of the loop after `waitpid`. -/
def handleStatus : Except Errno WaitStatus → Handler
  | .ok (.exited p status) => .notifying p status
  | .ok (.signaled p sig) => .notifying p (128 + sig)
  | .ok .stillAlive => .idle
  | .error .echild => .idle
  | .error .einval => .draining

def step (build : Build) (r : Reaper) : ReaperAction → Option Reaper
  | .fork pid =>
    if r.Free pid then some { r with
      running := { name := r.nextName, pid } :: r.running
      nextName := r.nextName + 1 }
    else none
  | .terminate p t =>
    if p ∈ r.running then some { r with
      running := r.running.erase p
      zombies := r.zombies ++ [(p, t)]
      pending := true
      terminated := r.terminated ++ [(p, t)] }
    else none
  | .signal =>
    if r.handler = .idle ∧ r.pending then some { r with handler := .draining, pending := false }
    else none
  | .waitpid found =>
    if r.handler = .draining then
      (r.waitpid found).map fun (status, r) => { r with handler := handleStatus status }
    else none
  | .notify =>
    match r.handler with
    | .notifying p exitCode => some { r with
      bus := r.bus.notifyByPid build p.pid exitCode
      handler := .draining
      notified := r.notified ++ [(p, exitCode)] }
    | _ => none
  | .subscribe topic => (r.bus.subscribe topic).map fun s => { r with bus := s.2 }
  | .unsubscribe id => some { r with bus := r.bus.unsubscribe id }

end Reaper

def reaper (build : Build) : System Reaper ReaperAction where
  init := {}
  step := Reaper.step build

namespace Reaper

variable {r r' : Reaper} {build : Build} {p : Process} {t : Termination} {a : ReaperAction}

/-- The steps of a reaper, with what the loop makes of a child. -/
inductive Step (build : Build) (r : Reaper) : ReaperAction → Reaper → Prop
  | forked {pid : Int32} (hfree : r.Free pid) : Step build r (.fork pid) { r with
      running := { name := r.nextName, pid } :: r.running
      nextName := r.nextName + 1 }
  | terminated {p : Process} {t : Termination} (hp : p ∈ r.running) :
    Step build r (.terminate p t) { r with
      running := r.running.erase p
      zombies := r.zombies ++ [(p, t)]
      pending := true
      terminated := r.terminated ++ [(p, t)] }
  | signalled (hidle : r.handler = .idle) : Step build r .signal { r with
      handler := .draining
      pending := false }
  | drained (hdraining : r.handler = .draining) (hnone : r.zombies = []) :
    Step build r (.waitpid none) { r with handler := .idle }
  | reaped {p : Process} {t : Termination} (hdraining : r.handler = .draining)
    (hz : (p, t) ∈ r.zombies) (hknown : t.Known) : Step build r (.waitpid (some (p, t))) { r with
      zombies := r.zombies.erase (p, t)
      handler := .notifying p t.code }
  | lost {p : Process} {t : Termination} (hdraining : r.handler = .draining)
    (hz : (p, t) ∈ r.zombies) (hunknown : ¬t.Known) : Step build r (.waitpid (some (p, t))) { r with
      zombies := r.zombies.erase (p, t)
      handler := .draining }
  | notified {p : Process} {exitCode : Int32} (hp : r.handler = .notifying p exitCode) :
    Step build r .notify { r with
      bus := r.bus.notifyByPid build p.pid exitCode
      handler := .draining
      notified := r.notified ++ [(p, exitCode)] }
  | subscribed {topic : Topic} {s : Subscription × Bus} (hs : r.bus.subscribe topic = some s) :
    Step build r (.subscribe topic) { r with bus := s.2 }
  | unsubscribed {id : Int64} : Step build r (.unsubscribe id) { r with bus := r.bus.unsubscribe id }

theorem handleStatus_known (h : t.Known) :
    handleStatus (WaitStatus.fromRaw p t) = .notifying p t.code := by
  cases t with
  | exited code => rfl
  | signaled s =>
    have h : s.Known := h
    rw [WaitStatus.fromRaw, if_pos h]
    rfl

theorem handleStatus_unknown (h : ¬t.Known) :
    handleStatus (WaitStatus.fromRaw p t) = .draining := by
  cases t with
  | exited code => exact absurd trivial h
  | signaled s =>
    have h : ¬s.Known := h
    rw [WaitStatus.fromRaw, if_neg h]
    rfl

theorem step_cases (h : r.step build a = some r') : Step build r a r' := by
  cases a with
  | fork pid =>
    obtain ⟨hfree, rfl⟩ := (Option.ite_none_right_eq_some.mp h).imp_right Option.some.inj
    exact .forked hfree
  | terminate p t =>
    obtain ⟨hp, rfl⟩ := (Option.ite_none_right_eq_some.mp h).imp_right Option.some.inj
    exact .terminated hp
  | signal =>
    obtain ⟨hidle, rfl⟩ := (Option.ite_none_right_eq_some.mp h).imp_right Option.some.inj
    exact .signalled hidle.1
  | waitpid found =>
    obtain ⟨hdraining, h⟩ := Option.ite_none_right_eq_some.mp h
    obtain ⟨⟨status, r₁⟩, hwait, rfl⟩ := Option.map_eq_some_iff.mp h
    cases found with
    | none =>
      obtain ⟨hnone, hstatus⟩ := Option.ite_none_right_eq_some.mp hwait
      obtain ⟨rfl, rfl⟩ := Prod.mk.inj (Option.some.inj hstatus)
      -- ECHILD and StillAlive both end the loop
      have hidle : handleStatus (if r.running = [] then .error .echild else .ok .stillAlive) =
          .idle := by
        split
        · rfl
        · rfl
      dsimp only
      rw [hidle]
      exact .drained hdraining hnone
    | some z =>
      obtain ⟨p, t⟩ := z
      obtain ⟨hz, hstatus⟩ := Option.ite_none_right_eq_some.mp hwait
      obtain ⟨rfl, rfl⟩ := Prod.mk.inj (Option.some.inj hstatus)
      dsimp only
      by_cases hknown : t.Known
      · rw [handleStatus_known hknown]
        exact .reaped hdraining hz hknown
      · rw [handleStatus_unknown hknown]
        exact .lost hdraining hz hknown
  | notify =>
    unfold step at h
    dsimp only at h
    split at h
    · next p exitCode hp =>
      obtain rfl := Option.some.inj h
      exact .notified hp
    · cases h
  | subscribe topic =>
    obtain ⟨s, hs, rfl⟩ := Option.map_eq_some_iff.mp h
    exact .subscribed hs
  | unsubscribe id =>
    obtain rfl := Option.some.inj h
    exact .unsubscribed

/-! ## Every child that ended is somewhere -/

/-- Names are given out once. -/
structure Named (r : Reaper) : Prop where
  nodup : (r.running.map (·.name) ++ r.terminated.map (·.1.name)).Nodup
  lt : ∀ n ∈ r.running.map (·.name) ++ r.terminated.map (·.1.name), n < r.nextName

theorem Named.step (h : r.Named) (hs : Step build r a r') : r'.Named := by
  cases hs with
  | forked =>
    refine ⟨List.nodup_cons.mpr ⟨fun hmem => ?_, h.nodup⟩, fun n hn => ?_⟩
    · exact absurd (h.lt _ hmem) (Nat.lt_irrefl _)
    · rcases List.mem_cons.mp hn with rfl | hn
      · exact Nat.lt_succ_self _
      · exact (h.lt n hn).trans (Nat.lt_succ_self _)
  | @terminated p t hp =>
    have hperm : ((r.running.erase p).map (·.name) ++
        (r.terminated ++ [(p, t)]).map (·.1.name)).Perm
        (r.running.map (·.name) ++ r.terminated.map (·.1.name)) := by
      have hrunning := (List.perm_cons_erase hp).map (·.name)
      rw [List.map_append, ← List.append_assoc]
      apply List.perm_append_comm.trans
      exact (hrunning.append_right _).symm
    exact ⟨hperm.nodup_iff.mpr h.nodup, fun n hn => h.lt n (hperm.mem_iff.mp hn)⟩
  | signalled => exact ⟨h.nodup, h.lt⟩
  | drained => exact ⟨h.nodup, h.lt⟩
  | reaped => exact ⟨h.nodup, h.lt⟩
  | lost => exact ⟨h.nodup, h.lt⟩
  | notified => exact ⟨h.nodup, h.lt⟩
  | subscribed => exact ⟨h.nodup, h.lt⟩
  | unsubscribed => exact ⟨h.nodup, h.lt⟩

theorem named {ok : Reaper → ReaperAction → Prop} (h : (reaper build).Reachable ok r) :
    r.Named := by
  refine h.invariant (P := Named) ?_ fun _ _ _ _ ih _ hs => ih.step (step_cases hs)
  exact ⟨List.nodup_nil, fun _ h => (nomatch h)⟩

theorem Named.nodup_terminated (h : r.Named) : (r.terminated.map (·.1)).Nodup := by
  have hsub := (List.nodup_append.mp h.nodup).2.1
  have hmap : r.terminated.map (·.1.name) = (r.terminated.map (·.1)).map (·.name) := by
    rw [List.map_map]
    rfl
  rw [hmap] at hsub
  exact List.Nodup.of_map _ hsub

/-- A child ended in one way. -/
theorem Named.termination_unique (h : r.Named) {t' : Termination} (ht : (p, t) ∈ r.terminated)
    (ht' : (p, t') ∈ r.terminated) : t = t' := by
  have heq := List.inj_on_of_nodup_map h.nodup_terminated ht ht' rfl
  exact (Prod.mk.inj heq).2

theorem Named.running_not_terminated (h : r.Named) (hp : p ∈ r.running) :
    (p, t) ∉ r.terminated := by
  intro ht
  have hdisjoint := (List.nodup_append.mp h.nodup).2.2
  exact hdisjoint _ (List.mem_map.mpr ⟨p, hp, rfl⟩) _ (List.mem_map.mpr ⟨(p, t), ht, rfl⟩) rfl

/-- A child that ended, if its signal is known, is a zombie, in the hands of the
handler, or notified; and no two of these. -/
structure Accounted (r : Reaper) : Prop where
  zombies : ∀ z ∈ r.zombies, z ∈ r.terminated
  zombies_nodup : r.zombies.Nodup
  inHand : ∀ p c, r.handler = .notifying p c →
    (∃ t, (p, t) ∈ r.terminated ∧ t.Known ∧ c = t.code ∧ (p, t) ∉ r.zombies) ∧
      p ∉ r.notified.map (·.1)
  notified : ∀ p c, (p, c) ∈ r.notified →
    ∃ t, (p, t) ∈ r.terminated ∧ t.Known ∧ c = t.code ∧ (p, t) ∉ r.zombies
  nodup : (r.notified.map (·.1)).Nodup
  complete : ∀ p t, (p, t) ∈ r.terminated → t.Known →
    (p, t) ∈ r.zombies ∨ r.handler = .notifying p t.code ∨ (p, t.code) ∈ r.notified

/-- A zombie is neither notified nor in the hands of the handler. -/
theorem Accounted.not_notified (h : r.Accounted) (hnamed : r.Named) (hz : (p, t) ∈ r.zombies) :
    p ∉ r.notified.map (·.1) := by
  intro hmem
  obtain ⟨⟨p', c⟩, hc, rfl⟩ := List.mem_map.mp hmem
  obtain ⟨t', ht', -, -, hnot⟩ := h.notified _ _ hc
  obtain rfl := hnamed.termination_unique (h.zombies _ hz) ht'
  exact hnot hz

theorem Accounted.terminate (h : r.Accounted) (hnamed : r.Named) (hp : p ∈ r.running) :
    Accounted { r with
      running := r.running.erase p
      zombies := r.zombies ++ [(p, t)]
      pending := true
      terminated := r.terminated ++ [(p, t)] } := by
  have hnew (t') : (p, t') ∉ r.terminated := hnamed.running_not_terminated hp
  have hother {q : Process} {t' : Termination} (ht' : (q, t') ∈ r.terminated)
      (hz : (q, t') ∉ r.zombies) : (q, t') ∉ r.zombies ++ [(p, t)] := by
    intro hmem
    rcases List.mem_append.mp hmem with hmem | hmem
    · exact hz hmem
    · obtain ⟨rfl, rfl⟩ := Prod.mk.inj (List.mem_singleton.mp hmem)
      exact hnew _ ht'
  refine ⟨fun z hz => ?_, ?_, fun q c hq => ?_, fun q c hq => ?_, h.nodup, fun q t' ht' hk => ?_⟩
  · rcases List.mem_append.mp hz with hz | hz
    · exact List.mem_append_left _ (h.zombies z hz)
    · exact List.mem_append_right _ hz
  · refine List.nodup_append.mpr ⟨h.zombies_nodup, List.nodup_singleton _, ?_⟩
    rintro z hz w hw rfl
    obtain rfl := List.mem_singleton.mp hw
    exact hnew t (h.zombies _ hz)
  · obtain ⟨⟨t', ht', hk, hc, hz⟩, hq⟩ := h.inHand q c hq
    exact ⟨⟨t', List.mem_append_left _ ht', hk, hc, hother ht' hz⟩, hq⟩
  · obtain ⟨t', ht', hk, hc, hz⟩ := h.notified q c hq
    exact ⟨t', List.mem_append_left _ ht', hk, hc, hother ht' hz⟩
  · rcases List.mem_append.mp ht' with ht' | ht'
    · rcases h.complete q t' ht' hk with hz | hrest
      · exact .inl (List.mem_append_left _ hz)
      · exact .inr hrest
    · exact .inl (List.mem_append_right _ ht')

/-- What is left of the account once a zombie is taken out. -/
theorem Accounted.reap (h : r.Accounted) (hnamed : r.Named) (hdraining : r.handler = .draining)
    (hz : (p, t) ∈ r.zombies) {handler : Handler}
    (hhandler : handler = .notifying p t.code ∧ t.Known ∨ handler = .draining ∧ ¬t.Known) :
    Accounted { r with
      zombies := r.zombies.erase (p, t)
      handler := handler } := by
  have hsub {z} (hmem : z ∉ r.zombies) : z ∉ r.zombies.erase (p, t) :=
    fun h => hmem (List.mem_of_mem_erase h)
  refine ⟨fun z hz => h.zombies z (List.mem_of_mem_erase hz), h.zombies_nodup.erase _,
    fun q c hq => ?_, fun q c hq => ?_, h.nodup, fun q t' ht' hk => ?_⟩
  · have hq : handler = .notifying q c := hq
    rcases hhandler with ⟨rfl, hknown⟩ | ⟨rfl, -⟩
    · obtain ⟨rfl, rfl⟩ := Handler.notifying.inj hq
      refine ⟨⟨t, h.zombies _ hz, hknown, rfl, fun hin => ?_⟩, h.not_notified hnamed hz⟩
      exact (h.zombies_nodup.mem_erase_iff.mp hin).1 rfl
    · cases hq
  · obtain ⟨t', ht', hk, hc, hz'⟩ := h.notified q c hq
    exact ⟨t', ht', hk, hc, hsub hz'⟩
  · rcases h.complete q t' ht' hk with hz' | hq | hq
    · by_cases heq : (q, t') = (p, t)
      · obtain ⟨rfl, rfl⟩ := Prod.mk.inj heq
        rcases hhandler with ⟨rfl, -⟩ | ⟨-, hunknown⟩
        · exact .inr (.inl rfl)
        · exact absurd hk hunknown
      · exact .inl ((List.mem_erase_of_ne heq).mpr hz')
    · rw [hdraining] at hq
      cases hq
    · exact .inr (.inr hq)

theorem Accounted.notify {c : Int32} (h : r.Accounted) (hp : r.handler = .notifying p c)
    (bus : Bus) :
    Accounted { r with
      bus := bus
      handler := .draining
      notified := r.notified ++ [(p, c)] } := by
  obtain ⟨⟨t, ht, hknown, rfl, hz⟩, hnew⟩ := h.inHand p c hp
  refine ⟨h.zombies, h.zombies_nodup, fun q c hq => (nomatch hq), fun q c hq => ?_, ?_,
    fun q t' ht' hk => ?_⟩
  · rcases List.mem_append.mp hq with hq | hq
    · exact h.notified q c hq
    · obtain ⟨rfl, rfl⟩ := Prod.mk.inj (List.mem_singleton.mp hq)
      exact ⟨t, ht, hknown, rfl, hz⟩
  · rw [List.map_append]
    refine List.nodup_append.mpr ⟨h.nodup, List.nodup_singleton _, ?_⟩
    rintro q hq q' hq' rfl
    obtain rfl := List.mem_singleton.mp hq'
    exact hnew hq
  · rcases h.complete q t' ht' hk with hz' | hq | hq
    · exact .inl hz'
    · obtain ⟨rfl, hcode⟩ := Handler.notifying.inj (hq.symm.trans hp)
      rw [hcode]
      exact .inr (.inr (List.mem_append_right _ (List.mem_singleton_self _)))
    · exact .inr (.inr (List.mem_append_left _ hq))

/-- While the handler is not told of a child, the account does not change. -/
theorem Accounted.move (h : r.Accounted) (hr : ∀ p c, r.handler ≠ .notifying p c)
    (hr' : ∀ p c, r'.handler ≠ .notifying p c) (hzombies : r'.zombies = r.zombies)
    (hterminated : r'.terminated = r.terminated) (hnotified : r'.notified = r.notified) :
    r'.Accounted := by
  constructor
  · rw [hzombies, hterminated]
    exact h.zombies
  · rw [hzombies]
    exact h.zombies_nodup
  · exact fun p c hp => absurd hp (hr' p c)
  · rw [hnotified, hterminated, hzombies]
    exact h.notified
  · rw [hnotified]
    exact h.nodup
  · rw [hterminated, hzombies, hnotified]
    intro p t ht hk
    rcases h.complete p t ht hk with hz | hp | hp
    · exact .inl hz
    · exact absurd hp (hr p _)
    · exact .inr (.inr hp)

theorem Accounted.step (h : r.Accounted) (hnamed : r.Named) (hs : Step build r a r') :
    r'.Accounted := by
  cases hs with
  | forked =>
    exact ⟨h.zombies, h.zombies_nodup, h.inHand, h.notified, h.nodup, h.complete⟩
  | terminated hp => exact h.terminate hnamed hp
  | signalled hidle =>
    refine h.move (fun p c hp => ?_) (fun p c => (nomatch ·)) rfl rfl rfl
    rw [hidle] at hp
    cases hp
  | drained hdraining hnone =>
    refine h.move (fun p c hp => ?_) (fun p c => (nomatch ·)) rfl rfl rfl
    rw [hdraining] at hp
    cases hp
  | reaped hdraining hz hknown => exact h.reap hnamed hdraining hz (.inl ⟨rfl, hknown⟩)
  | lost hdraining hz hunknown => exact h.reap hnamed hdraining hz (.inr ⟨rfl, hunknown⟩)
  | notified hp => exact h.notify hp _
  | subscribed hs =>
    exact ⟨h.zombies, h.zombies_nodup, h.inHand, h.notified, h.nodup, h.complete⟩
  | unsubscribed =>
    exact ⟨h.zombies, h.zombies_nodup, h.inHand, h.notified, h.nodup, h.complete⟩

theorem accounted {ok : Reaper → ReaperAction → Prop} (h : (reaper build).Reachable ok r) :
    r.Accounted := by
  refine h.invariant (P := Accounted) ?_ fun _ _ _ hr ih _ hs => ih.step (named hr) (step_cases hs)
  exact ⟨fun _ h => (nomatch h), List.nodup_nil, fun _ _ h => (nomatch h), fun _ _ h => (nomatch h),
    List.nodup_nil, fun _ _ h => (nomatch h)⟩

/-- A zombie has a SIGCHLD pending or the loop still to come to it. -/
def Awake (r : Reaper) : Prop := r.handler = .idle → r.pending = false → r.zombies = []

theorem Awake.step (ih : r.Awake) (hs : Step build r a r') : r'.Awake := by
  cases hs with
  | forked => exact ih
  | terminated hp => exact fun _ hpending => (nomatch hpending)
  | signalled hidle => exact fun hidle => (nomatch hidle)
  | drained hdraining hnone => exact fun _ _ => hnone
  | reaped hdraining hz hknown => exact fun hidle => (nomatch hidle)
  | lost hdraining hz hunknown => exact fun hidle => (nomatch hidle)
  | notified hp => exact fun hidle => (nomatch hidle)
  | subscribed hs => exact ih
  | unsubscribed => exact ih

theorem awake {ok : Reaper → ReaperAction → Prop} (h : (reaper build).Reachable ok r) :
    r.Awake :=
  h.invariant (P := Awake) (fun _ _ => rfl) fun _ _ _ _ ih _ hs => ih.step (step_cases hs)

/-- No child is notified twice or with a code that is not its own; and when the
handler is idle and no SIGCHLD is pending, the children that ended have been
notified, except those killed by a signal that `Signal` does not have. -/
theorem exits_notified (h : (reaper build).Reachable System.Any r) :
    (r.notified.map (·.1)).Nodup ∧
    (∀ p c, (p, c) ∈ r.notified → ∃ t, (p, t) ∈ r.terminated ∧ c = t.code) ∧
    (r.handler = .idle → r.pending = false → ∀ p t, (p, t) ∈ r.terminated →
      ((∃ c, (p, c) ∈ r.notified) ↔ t.Known)) := by
  have haccounted := accounted h
  refine ⟨haccounted.nodup, fun p c hc => ?_, fun hidle hpending p t ht => ⟨?_, fun hknown => ?_⟩⟩
  · obtain ⟨t, ht, -, hcode, -⟩ := haccounted.notified p c hc
    exact ⟨t, ht, hcode⟩
  · intro hexists
    obtain ⟨c, hc⟩ := hexists
    obtain ⟨t', ht', hknown, -, -⟩ := haccounted.notified p c hc
    obtain rfl := (named h).termination_unique ht ht'
    exact hknown
  · rcases haccounted.complete p t ht hknown with hz | hp | hp
    · rw [awake h hidle hpending] at hz
      cases hz
    · rw [hidle] at hp
      cases hp
    · exact ⟨t.code, hp⟩

/-- A child that ended in the given way, and the loop that reaps it. -/
def reapRun (t : Termination) : List ReaperAction :=
  let p : Process := { name := 0, pid := 1 }
  [.fork 1, .terminate p t, .signal, .waitpid (some (p, t))]

def reapedExit : Reaper :=
  (reaper .asynchronous).after System.Any {} (reapRun (.exited 3) ++ [.notify, .waitpid none])

theorem exits_notified_exit : ∃ c, (({ name := 0, pid := 1 } : Process), c) ∈ reapedExit.notified := by
  have hreach : (reaper .asynchronous).Reachable System.Any reapedExit :=
    System.run_after (by decide +kernel)
  obtain ⟨-, -, hidle⟩ := exits_notified hreach
  refine (hidle (by decide +kernel) (by decide +kernel) _ (.exited 3) ?_).mpr trivial
  decide +kernel

def reapedSignal : Reaper :=
  (reaper .asynchronous).after System.Any {} (reapRun (.signaled ⟨34, by decide⟩) ++ [.waitpid none])

/-- `waitpid` answers EINVAL for a child killed by SIGRTMIN, and the loop goes on without it. -/
theorem realtime_exit_lost : ¬∀ (r : Reaper), (reaper .asynchronous).Reachable System.Any r →
    r.handler = .idle → r.pending = false → ∀ p t, (p, t) ∈ r.terminated →
      ∃ c, (p, c) ∈ r.notified := by
  intro h
  have hreach : (reaper .asynchronous).Reachable System.Any reapedSignal :=
    System.run_after (by decide +kernel)
  obtain ⟨c, hc⟩ := h reapedSignal hreach (by decide +kernel) (by decide +kernel)
    { name := 0, pid := 1 } (.signaled ⟨34, by decide⟩) (by decide +kernel)
  have hnone : reapedSignal.notified = [] := by decide +kernel
  rw [hnone] at hc
  cases hc

end Reaper
end RustExtensions.Shim
