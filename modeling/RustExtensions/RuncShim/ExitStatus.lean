import RustExtensions.RuncShim.Executor

/-!
# The status of a runtime command

`Awaits` says where the exit of a command's child is on its way from the kernel
to the command. The code that arrives is the child's, and the command takes it
for a raw wait(2) status.
-/
namespace RustExtensions.Shim

open RustExtensions.Transition

/-- The first event in a channel that is about the pid. -/
def Bus.first (b : Bus) (rx : Nat) (pid : Int32) : Option ExitEvent :=
  (b.received rx).find? (·.subject = .pid pid)

/-- The subscription stands, for exits of processes. -/
def Bus.Subscribed (b : Bus) (s : Subscription) : Prop :=
  b.monitor.subscribers.lookup s.id = some { topic := .pid, tx := s.rx }

namespace Reaper

variable {r r' : Reaper} {build : Build} {p : Process} {a : ReaperAction} {s : Subscription}

/-- The call on the monitor that a step makes. -/
def monitorCall (r : Reaper) : ReaperAction → Option MonitorCall
  | .notify => match r.handler with
    | .notifying p exitCode => some (.notifyByPid p.pid exitCode)
    | _ => none
  | .subscribe topic => some (.subscribe topic)
  | .unsubscribe id => some (.unsubscribe id)
  | .fork _ | .terminate _ _ | .signal | .waitpid _ => none

theorem bus_step (h : Step build r a r') :
    match r.monitorCall a with
    | some c => r.bus.Called c r'.bus
    | none => r'.bus = r.bus := by
  cases h with
  | forked => rfl
  | terminated => rfl
  | signalled => rfl
  | drained => rfl
  | reaped => rfl
  | lost => rfl
  | @notified p exitCode hp =>
    simp only [monitorCall, hp]
    exact @Bus.call_cases _ _ build (.notifyByPid p.pid exitCode) rfl
  | @subscribed topic s hs => exact .subscribed hs
  | unsubscribed => exact .unsubscribed

theorem valid_step (h : r.bus.Valid) (hs : Step build r a r') : r'.bus.Valid := by
  have hbus := bus_step hs
  split at hbus
  · exact h.called hbus
  · rwa [hbus]

/-- A subscription stands after a step that does not give it up. -/
theorem subscribed_step (hvalid : r.bus.Valid) (hs : r.bus.Subscribed s)
    (ha : a ≠ .unsubscribe s.id) (h : Step build r a r') : r'.bus.Subscribed s := by
  have hbus := bus_step h
  split at hbus
  · next c hc =>
    apply Bus.lookup_called hvalid hs hbus
    intro heq
    subst heq
    cases a with
    | unsubscribe id =>
      obtain rfl := MonitorCall.unsubscribe.inj (Option.some.inj hc)
      exact ha rfl
    | notify =>
      simp only [monitorCall] at hc
      split at hc
      · cases hc
      · cases hc
    | _ => cases hc
  · rw [hbus]
    exact hs

/-- The first event about a pid changes only where the handler notifies that pid. -/
theorem first_step (hvalid : r.bus.Valid) (hs : r.bus.Subscribed s) (h : Step build r a r')
    (pid : Int32) :
    r'.bus.first s.rx pid = r.bus.first s.rx pid ∨
      ∃ p c, a = .notify ∧ r.handler = .notifying p c ∧ p.pid = pid ∧
        r'.bus.first s.rx pid =
          (r.bus.first s.rx pid).or (some { subject := .pid pid, exitCode := c }) := by
  have hbus := bus_step h
  split at hbus
  · next c hc =>
    have hreceived := Bus.received_called hvalid hs hbus
    unfold Bus.first
    rw [hreceived, List.find?_append]
    cases h with
    | subscribed hs =>
      obtain rfl := Option.some.inj hc
      exact .inl (Option.or_none)
    | unsubscribed =>
      obtain rfl := Option.some.inj hc
      exact .inl (Option.or_none)
    | @notified p exitCode hp =>
      simp only [monitorCall, hp] at hc
      obtain rfl := Option.some.inj hc
      by_cases hpid : p.pid = pid
      · subst hpid
        refine .inr ⟨p, exitCode, rfl, hp, rfl, ?_⟩
        congr 1
        simp [MonitorCall.event, Topic.matches]
      · left
        have hnone : (MonitorCall.notifyByPid p.pid exitCode).event.toList.filter
            (Topic.pid.matches ·.subject) = [{ subject := .pid p.pid, exitCode }] := rfl
        rw [hnone, List.find?_singleton, if_neg (by simpa using hpid), Option.or_none]
    | _ => cases hc
  · left
    rw [hbus]

/-- An exit with the pid is on its way into the channel before the pid's next owner is made. -/
def Stale (r : Reaper) (rx : Nat) (pid : Int32) : Prop :=
  r.bus.first rx pid ≠ none ∨ match r.handler with
    | .notifying q _ => q.pid = pid
    | .idle | .draining => False

instance (r : Reaper) (rx : Nat) (pid : Int32) : Decidable (r.Stale rx pid) := by
  unfold Stale
  cases r.handler <;> infer_instance

/-- Children that run or wait to be reaped have pids of their own. -/
def Distinct (r : Reaper) : Prop :=
  (r.running.map (·.pid) ++ r.zombies.map (·.1.pid)).Nodup

theorem Distinct.step (ih : r.Distinct) (hs : Step build r a r') : r'.Distinct := by
  have herase (z : Process × Termination) :
      (r.running.map (·.pid) ++ (r.zombies.erase z).map (·.1.pid)).Nodup := by
    refine ih.sublist ?_
    exact (List.Sublist.refl _).append ((List.erase_sublist).map _)
  cases hs with
  | @forked pid hfree =>
    refine List.nodup_cons.mpr ⟨fun hmem => ?_, ih⟩
    rcases List.mem_append.mp hmem with hmem | hmem
    · obtain ⟨p, hp, hpid⟩ := List.mem_map.mp hmem
      exact hfree.1 p hp hpid
    · obtain ⟨z, hz, hpid⟩ := List.mem_map.mp hmem
      exact hfree.2 z hz hpid
  | @terminated p t hp =>
    have hperm : ((r.running.erase p).map (·.pid) ++ (r.zombies ++ [(p, t)]).map (·.1.pid)).Perm
        (r.running.map (·.pid) ++ r.zombies.map (·.1.pid)) := by
      have hrunning := (List.perm_cons_erase hp).map (·.pid)
      rw [List.map_append, ← List.append_assoc]
      apply List.perm_append_comm.trans
      exact (hrunning.append_right _).symm
    exact hperm.nodup_iff.mpr ih
  | signalled => exact ih
  | drained => exact ih
  | reaped => exact herase _
  | lost => exact herase _
  | notified => exact ih
  | subscribed => exact ih
  | unsubscribed => exact ih

/-- Of two children with one pid, one of them a zombie, the other is the same. -/
theorem Distinct.eq_of_zombie (h : r.Distinct) {q : Process} {t t' : Termination}
    (hz : (q, t') ∈ r.zombies) (hp : p ∈ r.running ∨ (p, t) ∈ r.zombies) (hpid : q.pid = p.pid) :
    q = p := by
  obtain ⟨-, hzombies, hdisjoint⟩ := List.nodup_append.mp h
  rcases hp with hp | hp
  · have hne := hdisjoint _ (List.mem_map.mpr ⟨p, hp, rfl⟩) _ (List.mem_map.mpr ⟨_, hz, rfl⟩)
    exact absurd hpid.symm hne
  · have heq := List.inj_on_of_nodup_map hzombies hz hp hpid
    exact (Prod.mk.inj heq).1

/-- Where the exit of `p` is on its way into a channel that was opened before `p` was made. -/
inductive Awaits (r : Reaper) (rx : Nat) (p : Process) : Prop
  | alive (hfirst : r.bus.first rx p.pid = none)
    (hp : p ∈ r.running ∨ ∃ t, Termination.Known t ∧ (p, t) ∈ r.zombies)
    (hhand : ∀ q c, r.handler = .notifying q c → q.pid ≠ p.pid)
  | inHand {c : Int32} (hfirst : r.bus.first rx p.pid = none) (hhand : r.handler = .notifying p c)
  | arrived {t : Termination} (ht : (p, t) ∈ r.terminated)
    (hfirst : r.bus.first rx p.pid = some { subject := .pid p.pid, exitCode := t.code })

theorem terminated_step {t : Termination} (h : Step build r a r') (ht : (p, t) ∈ r.terminated) :
    (p, t) ∈ r'.terminated := by
  cases h with
  | terminated => exact List.mem_append_left _ ht
  | _ => exact ht

/-- The child in the hands of the handler is the next whose exit arrives. -/
theorem Awaits.step_inHand {c : Int32} (hvalid : r.bus.Valid) (haccounted : r.Accounted)
    (hs : r.bus.Subscribed s) (hfirst : r.bus.first s.rx p.pid = none)
    (hhand : r.handler = .notifying p c) (hstep : Step build r a r') : r'.Awaits s.rx p := by
  have hfirst' := first_step hvalid hs hstep p.pid
  have hsame (ha : a ≠ .notify) : r'.bus.first s.rx p.pid = none := by
    rcases hfirst' with hsame | ⟨q, c, ha', -⟩
    · exact hsame.trans hfirst
    · exact absurd ha' ha
  cases hstep with
  | forked => exact .inHand (hsame (by simp)) hhand
  | terminated => exact .inHand (hsame (by simp)) hhand
  | signalled hidle => cases hhand.symm.trans hidle
  | drained hdraining => cases hhand.symm.trans hdraining
  | reaped hdraining => cases hhand.symm.trans hdraining
  | lost hdraining => cases hhand.symm.trans hdraining
  | @notified q c' hq =>
    obtain ⟨rfl, rfl⟩ := Handler.notifying.inj (hhand.symm.trans hq)
    obtain ⟨⟨t, ht, -, rfl, -⟩, -⟩ := haccounted.inHand p c hhand
    refine .arrived ht ?_
    have hreceived := Bus.received_called hvalid hs
      (@Bus.call_cases _ _ build (.notifyByPid p.pid t.code) rfl)
    unfold Bus.first at hfirst ⊢
    rw [hreceived, List.find?_append, hfirst]
    simp [MonitorCall.event, Topic.matches]
  | subscribed => exact .inHand (hsame (by simp)) hhand
  | unsubscribed => exact .inHand (hsame (by simp)) hhand

theorem Awaits.step_alive (hvalid : r.bus.Valid) (hdistinct : r.Distinct)
    (hs : r.bus.Subscribed s) (hknown : ∀ t, a = .terminate p t → t.Known)
    (hfirst : r.bus.first s.rx p.pid = none)
    (hp : p ∈ r.running ∨ ∃ t, Termination.Known t ∧ (p, t) ∈ r.zombies)
    (hhand : ∀ q c, r.handler = .notifying q c → q.pid ≠ p.pid)
    (hstep : Step build r a r') : r'.Awaits s.rx p := by
  have hfirst' : r'.bus.first s.rx p.pid = none := by
    rcases first_step hvalid hs hstep p.pid with hsame | ⟨q, c, -, hq, hpid, -⟩
    · exact hsame.trans hfirst
    · exact absurd hpid (hhand q c hq)
  cases hstep with
  | forked => exact .alive hfirst' (hp.imp_left (List.mem_cons_of_mem _)) hhand
  | @terminated q t' hq =>
    refine .alive hfirst' ?_ hhand
    by_cases heq : p = q
    · subst heq
      exact .inr ⟨t', hknown t' rfl, List.mem_append_right _ (List.mem_singleton_self _)⟩
    · rcases hp with hp | ⟨t, hk, hz⟩
      · exact .inl ((List.mem_erase_of_ne heq).mpr hp)
      · exact .inr ⟨t, hk, List.mem_append_left _ hz⟩
  | signalled => exact .alive hfirst' hp fun _ _ => (nomatch ·)
  | drained => exact .alive hfirst' hp fun _ _ => (nomatch ·)
  | @reaped q t' hdraining hz hk =>
    by_cases heq : q = p
    · subst heq
      exact .inHand hfirst' rfl
    · have hpid : q.pid ≠ p.pid := by
        intro hpid
        rcases hp with hp | ⟨t, -, hz'⟩
        · exact heq (hdistinct.eq_of_zombie (t := t') hz (.inl hp) hpid)
        · exact heq (hdistinct.eq_of_zombie hz (.inr hz') hpid)
      refine .alive hfirst' ?_ fun q' c hq' => ?_
      · rcases hp with hp | ⟨t, hk, hz'⟩
        · exact .inl hp
        · have hne : (p, t) ≠ (q, t') := fun he => heq (Prod.mk.inj he).1.symm
          exact .inr ⟨t, hk, (List.mem_erase_of_ne hne).mpr hz'⟩
      · obtain ⟨rfl, -⟩ := Handler.notifying.inj hq'
        exact hpid
  | @lost q t' hdraining hz hunknown =>
    refine .alive hfirst' ?_ fun _ _ => (nomatch ·)
    rcases hp with hp | ⟨t, hk, hz'⟩
    · exact .inl hp
    · have hne : (p, t) ≠ (q, t') := fun he => hunknown ((Prod.mk.inj he).2 ▸ hk)
      exact .inr ⟨t, hk, (List.mem_erase_of_ne hne).mpr hz'⟩
  | notified hq => exact .alive hfirst' hp fun _ _ => (nomatch ·)
  | subscribed => exact .alive hfirst' hp hhand
  | unsubscribed => exact .alive hfirst' hp hhand

theorem Awaits.step (hvalid : r.bus.Valid) (hdistinct : r.Distinct) (haccounted : r.Accounted)
    (hs : r.bus.Subscribed s) (hknown : ∀ t, a = .terminate p t → t.Known)
    (hstep : Step build r a r') (h : r.Awaits s.rx p) : r'.Awaits s.rx p := by
  cases h with
  | alive hfirst hp hhand => exact step_alive hvalid hdistinct hs hknown hfirst hp hhand hstep
  | inHand hfirst hhand => exact step_inHand hvalid haccounted hs hfirst hhand hstep
  | arrived ht hfirst =>
    refine .arrived (terminated_step hstep ht) ?_
    rcases first_step hvalid hs hstep p.pid with hsame | ⟨q, c, -, -, -, hor⟩
    · exact hsame.trans hfirst
    · rw [hor, hfirst]
      rfl

/-- What every step of a reaper keeps. -/
structure Sound (r : Reaper) : Prop where
  named : r.Named
  accounted : r.Accounted
  distinct : r.Distinct
  valid : r.bus.Valid

theorem Sound.step (h : r.Sound) (hs : Step build r a r') : r'.Sound where
  named := h.named.step hs
  accounted := h.accounted.step h.named hs
  distinct := h.distinct.step hs
  valid := valid_step h.valid hs

theorem sound_init : ({} : Reaper).Sound := by
  have hinit : (reaper .asynchronous).Reachable System.Any {} := System.Reachable.init
  exact ⟨named hinit, accounted hinit, List.nodup_nil, Bus.valid_init⟩

end Reaper
end RustExtensions.Shim

namespace RustExtensions.RuncShim

open RustExtensions.Shim
open RustExtensions.Transition
open RustExtensions.KeyedMap (Map)

/-- What the status says is how the child ended. -/
structure ExitStatus.Describes (status : ExitStatus) (t : Termination) : Prop where
  success : status.success ↔ t = .exited 0
  code : ∀ c, status.code = some c ↔ ∃ n, t = .exited n ∧ c = .ofNat n.toNat
  signal : ∀ n, status.signal = some n ↔ ∃ s, t = .signaled s ∧ n = .ofNat s.1

namespace ExitStatus

theorem code_exited : ∀ n : Fin 256, n ≠ 0 →
    (fromRaw (.ofNat n)).success = false ∧ (fromRaw (.ofNat n)).code ≠ some (.ofNat n) := by
  decide +kernel

theorem code_signaled : ∀ n : Fin 65, 1 ≤ n →
    (fromRaw (128 + .ofNat n)).success = false ∧ (fromRaw (128 + .ofNat n)).code = none ∧
      (fromRaw (128 + .ofNat n)).signal = some (.ofNat n) := by
  decide +kernel

theorem describes_success : (fromRaw 0).Describes (.exited 0) where
  success := by simp [fromRaw, success]
  code c := by
    have hcode : (fromRaw 0).code = some 0 := by decide +kernel
    rw [hcode]
    constructor
    · intro h
      obtain ⟨rfl⟩ := h
      exact ⟨0, rfl, rfl⟩
    · intro hexists
      obtain ⟨n, hn, rfl⟩ := hexists
      obtain rfl := Termination.exited.inj hn
      rfl
  signal n := by
    have hsignal : (fromRaw 0).signal = none := by decide +kernel
    simp [hsignal]

theorem describes_signal (s : SignalNumber) :
    (fromRaw (128 + .ofNat s.1)).Describes (.signaled s) := by
  have hlt : s.1 < 65 := Nat.lt_succ_of_le s.2.2
  obtain ⟨hsuccess, hcode, hsignal⟩ := code_signaled ⟨s.1, hlt⟩ s.2.1
  refine ⟨?_, fun c => ?_, fun n => ?_⟩
  · simp only [hsuccess]
    simp
  · simp only [hcode]
    simp
  · simp only [hsignal]
    constructor
    · intro h
      obtain ⟨rfl⟩ := h
      exact ⟨s, rfl, rfl⟩
    · intro hexists
      obtain ⟨s', hs', rfl⟩ := hexists
      obtain rfl := Termination.signaled.inj hs'
      rfl

/-- The code of the monitor, taken as a raw status, is right for a success and
for a signal, and wrong for every other exit code. -/
theorem describes_iff (t : Termination) :
    (fromRaw t.code).Describes t ↔ t = .exited 0 ∨ ∃ s, t = .signaled s := by
  cases t with
  | exited n =>
    simp only [reduceCtorEq, exists_false, or_false, Termination.code]
    constructor
    · intro h
      by_contra hne
      have hn : (⟨n.toNat, n.toNat_lt⟩ : Fin 256) ≠ 0 := by
        intro h0
        refine hne (congrArg Termination.exited (UInt8.toNat_inj.mp ?_))
        exact congrArg Fin.val h0
      exact (code_exited _ hn).2 ((h.code _).mpr ⟨n, rfl, rfl⟩)
    · intro h
      obtain rfl := Termination.exited.inj h
      exact describes_success
  | signaled s =>
    simp only [Termination.code]
    exact ⟨fun _ => .inr ⟨s, rfl⟩, fun _ => describes_signal s⟩

end ExitStatus

/-- The subscription that a command still receives from. -/
def Execution.live : Execution → Option Subscription
  | .subscribed s | .waiting s _ _ => some s
  | .exited _ _ _ | .spawnFailed | .done _ _ => none

/-- The child whose exit a command waits for. -/
def Execution.awaited : Execution → Option Process
  | .waiting _ child _ => some child
  | .subscribed _ | .exited _ _ _ | .spawnFailed | .done _ _ => none

namespace Spawner

variable {sp sp' : Spawner} {build : Build} {k : Nat} {x : Execution} {s : Subscription}
variable {child : Process} {status : ExitStatus} {r' : Reaper} {b : ReaperAction}

/-- No command gets the pid of a process whose exit its channel still holds or is
about to get, and no command's child is killed by a signal that `Signal` does not have. -/
def Orderly (sp : Spawner) : SpawnerAction → Prop
  | .reaper (.terminate p t) =>
    ∀ k x, sp.executions.lookup k = some x → x.awaited = some p → t.Known
  | .spawn k pid => ∀ x ∈ sp.executions.lookup k, ∀ s ∈ x.live, ¬sp.reaper.Stale s.rx pid
  | _ => True

instance (sp : Spawner) (a : SpawnerAction) : Decidable (Orderly sp a) := by
  unfold Orderly
  split <;> infer_instance

/-- What an execution has to do with the reaper. -/
def Good (r : Reaper) : Execution → Prop
  | .subscribed s => r.bus.Subscribed s
  | .waiting s child taken => r.bus.Subscribed s ∧ r.Awaits s.rx child ∧
    ∀ i < taken, ∃ e, (r.bus.received s.rx)[i]? = some e ∧ e.subject ≠ .pid child.pid
  | .exited s child exitCode =>
    (r.bus.monitor.subscribers.lookup s.id = none ∧ s.id.toInt < r.bus.monitor.seqId.toInt) ∧
      ∃ t, (child, t) ∈ r.terminated ∧ exitCode = t.code
  | .spawnFailed => True
  | .done child status => ∃ t, (child, t) ∈ r.terminated ∧ status = .fromRaw t.code

structure Tracked (sp : Spawner) : Prop where
  good : ∀ k x, sp.executions.lookup k = some x → Good sp.reaper x
  apart : ∀ k k' x x' s s', sp.executions.lookup k = some x → sp.executions.lookup k' = some x' →
    x.live = some s → x'.live = some s' → s.id = s'.id → k = k'

theorem received_grows {a : ReaperAction} {r : Reaper} (hvalid : r.bus.Valid)
    (hs : r.bus.Subscribed s) (hstep : Reaper.Step build r a r') :
    ∃ l, r'.bus.received s.rx = r.bus.received s.rx ++ l := by
  have hbus := Reaper.bus_step hstep
  split at hbus
  · exact ⟨_, Bus.received_called hvalid hs hbus⟩
  · rw [hbus]
    exact ⟨[], (List.append_nil _).symm⟩

/-- A step of the reaper, or a call on its monitor, that leaves the execution its subscription. -/
theorem Good.step {r : Reaper} (hsound : r.Sound) (hstep : Reaper.Step build r b r')
    (hknown : ∀ p t, x.awaited = some p → b = .terminate p t → t.Known)
    (hid : ∀ s, x.live = some s → r'.bus.Subscribed s) (h : Good r x) : Good r' x := by
  cases x with
  | subscribed s => exact hid s rfl
  | waiting s child taken =>
    obtain ⟨hs, hawaits, hpassed⟩ := h
    refine ⟨hid s rfl, ?_, fun i hi => ?_⟩
    · exact hawaits.step hsound.valid hsound.distinct hsound.accounted hs
        (fun t => hknown child t rfl) hstep
    · obtain ⟨e, he, hne⟩ := hpassed i hi
      obtain ⟨l, hl⟩ := received_grows hsound.valid hs hstep
      have hlt : i < (r.bus.received s.rx).length := (List.getElem?_eq_some_iff.mp he).1
      refine ⟨e, ?_, hne⟩
      rw [hl, List.getElem?_append_left hlt, he]
  | exited s child exitCode =>
    obtain ⟨⟨hnone, hlt⟩, t, ht, hcode⟩ := h
    refine ⟨?_, t, Reaper.terminated_step hstep ht, hcode⟩
    have hbus := Reaper.bus_step hstep
    generalize r'.bus = bus' at hbus ⊢
    split at hbus
    · cases hbus with
      | subscribed hsub =>
        obtain ⟨rfl, hseq, hsubs, -, -⟩ := Bus.subscribe_cases hsub
        refine ⟨?_, ?_⟩
        · rw [hsubs, Map.lookup_insert_eq, if_neg, hnone]
          intro he
          rw [he] at hlt
          exact Int.lt_irrefl _ hlt
        · rw [hseq]
          exact Int.lt_trans hlt (Int.lt_succ _)
      | unsubscribed =>
        refine ⟨?_, ?_⟩
        · rw [Bus.lookup_unsubscribe, hnone, ite_self]
        · rwa [Bus.seqId_unsubscribe]
      | notified he hown hall =>
        rw [Bus.monitor_sendAll]
        exact ⟨hnone, hlt⟩
    · rw [hbus]
      exact ⟨hnone, hlt⟩
  | spawnFailed => trivial
  | done child status =>
    obtain ⟨t, ht, hstatus⟩ := h
    exact ⟨t, Reaper.terminated_step hstep ht, hstatus⟩

/-- The steps of the commands, each with the step of the reaper it makes. -/
inductive Step (build : Build) (sp : Spawner) : SpawnerAction → Spawner → Prop
  | reaped {a : ReaperAction} {r' : Reaper} (hne : ∀ id, a ≠ .unsubscribe id)
    (hstep : Reaper.Step build sp.reaper a r') : Step build sp (.reaper a) { sp with reaper := r' }
  | executed {k : Nat} {s : Subscription} {r' : Reaper}
    (hs : s.id = sp.reaper.bus.monitor.seqId ∧ r'.bus.Subscribed s)
    (hstep : Reaper.Step build sp.reaper (.subscribe .pid) r') :
    Step build sp (.execute k) (({ sp with reaper := r' } : Spawner).put k (.subscribed s))
  | spawned {k : Nat} {s : Subscription} {pid : Int32} {r' : Reaper}
    (hk : sp.executions.lookup k = some (.subscribed s))
    (hchild : { name := sp.reaper.nextName, pid } ∈ r'.running)
    (hbus : r'.bus = sp.reaper.bus) (hhandler : r'.handler = sp.reaper.handler)
    (hstep : Reaper.Step build sp.reaper (.fork pid) r') :
    Step build sp (.spawn k pid) (({ sp with reaper := r' } : Spawner).put k
      (.waiting s { name := sp.reaper.nextName, pid } 0))
  | failed {k : Nat} {s : Subscription} (hk : sp.executions.lookup k = some (.subscribed s)) :
    Step build sp (.spawnFails k) ((sp.unsubscribe s).put k .spawnFailed)
  | received {k : Nat} {s : Subscription} {child : Process} {taken : Nat} {e : ExitEvent}
    (hk : sp.executions.lookup k = some (.waiting s child taken))
    (he : (sp.reaper.bus.received s.rx)[taken]? = some e) (hpid : e.subject = .pid child.pid) :
    Step build sp (.recv k) ((sp.unsubscribe s).put k (.exited s child e.exitCode))
  | passed {k : Nat} {s : Subscription} {child : Process} {taken : Nat} {e : ExitEvent}
    (hk : sp.executions.lookup k = some (.waiting s child taken))
    (he : (sp.reaper.bus.received s.rx)[taken]? = some e) (hpid : e.subject ≠ .pid child.pid) :
    Step build sp (.recv k) (sp.put k (.waiting s child (taken + 1)))
  | finished {k : Nat} {s : Subscription} {child : Process} {exitCode : Int32}
    (hk : sp.executions.lookup k = some (.exited s child exitCode)) :
    Step build sp (.finish k) ((sp.unsubscribe s).put k (.done child (.fromRaw exitCode)))

theorem step_reaper {a : ReaperAction} (hne : ∀ id, a ≠ .unsubscribe id)
    (h : (sp.reaper.step build a).map (fun r => { sp with reaper := r }) = some sp') :
    Step build sp (.reaper a) sp' := by
  obtain ⟨r', hr, rfl⟩ := Option.map_eq_some_iff.mp h
  exact .reaped hne (Reaper.step_cases hr)

theorem step_cases {a : SpawnerAction} (h : sp.step build a = some sp') : Step build sp a sp' := by
  cases a with
  | reaper a =>
    cases a with
    | unsubscribe id => cases h
    | fork pid => exact step_reaper (fun _ => (nomatch ·)) h
    | terminate p t => exact step_reaper (fun _ => (nomatch ·)) h
    | signal => exact step_reaper (fun _ => (nomatch ·)) h
    | waitpid found => exact step_reaper (fun _ => (nomatch ·)) h
    | notify => exact step_reaper (fun _ => (nomatch ·)) h
    | subscribe topic => exact step_reaper (fun _ => (nomatch ·)) h
  | execute k =>
    obtain ⟨hnew, h⟩ := Option.ite_none_right_eq_some.mp h
    obtain ⟨⟨s, bus⟩, hsub, rfl⟩ := Option.map_eq_some_iff.mp h
    refine .executed ?_ (.subscribed hsub)
    obtain ⟨rfl, -, hsubs, -, -⟩ := Bus.subscribe_cases hsub
    refine ⟨rfl, ?_⟩
    rw [Bus.Subscribed, hsubs]
    exact AList.lookup_insert _
  | spawn k pid =>
    unfold step at h
    dsimp only at h
    split at h
    · next s hk =>
      obtain ⟨r', hr, rfl⟩ := Option.map_eq_some_iff.mp h
      have hstep := Reaper.step_cases hr
      cases hstep with
      | forked hfree => exact .spawned hk List.mem_cons_self rfl rfl (.forked hfree)
    · cases h
  | spawnFails k =>
    unfold step at h
    dsimp only at h
    split at h
    · next s hk =>
      obtain rfl := Option.some.inj h
      exact .failed hk
    · cases h
  | recv k =>
    unfold step at h
    dsimp only at h
    split at h
    · next s child taken hk =>
      obtain ⟨e, he, rfl⟩ := Option.map_eq_some_iff.mp h
      unfold waitPid
      split
      · next hpid => exact .received hk he hpid
      · next hpid => exact .passed hk he hpid
    · cases h
  | finish k =>
    unfold step at h
    dsimp only at h
    split at h
    · next s child exitCode hk =>
      obtain rfl := Option.some.inj h
      exact .finished hk
    · cases h

/-- A step of a command is a step of the reaper, or the reaper does not notice it. -/
theorem Step.reaper_step {a : SpawnerAction} (h : Step build sp a sp') :
    sp'.reaper = sp.reaper ∨ ∃ b, Reaper.Step build sp.reaper b sp'.reaper := by
  cases h with
  | reaped hne hstep => exact .inr ⟨_, hstep⟩
  | executed hs hstep => exact .inr ⟨_, hstep⟩
  | spawned hk hchild hbus hhandler hstep => exact .inr ⟨_, hstep⟩
  | failed hk => exact .inr ⟨_, .unsubscribed⟩
  | received hk he hpid => exact .inr ⟨_, .unsubscribed⟩
  | passed hk he hpid => exact .inl rfl
  | finished hk => exact .inr ⟨_, .unsubscribed⟩

theorem sound {ok : Spawner → SpawnerAction → Prop} (h : (spawner build).Reachable ok sp) :
    sp.reaper.Sound := by
  refine h.invariant (P := fun sp => sp.reaper.Sound) Reaper.sound_init fun sp a sp' _ ih _ hs => ?_
  rcases (step_cases hs).reaper_step with hsame | ⟨b, hstep⟩
  · rwa [hsame]
  · exact ih.step hstep

theorem Good.subscribed {r : Reaper} (h : Good r x) (hs : x.live = some s) :
    r.bus.Subscribed s := by
  cases x with
  | subscribed s' => exact Option.some.inj hs ▸ h
  | waiting s' child taken => exact Option.some.inj hs ▸ h.1
  | _ => cases hs

/-- A step of the reaper that gives up no subscription of another command. -/
theorem Tracked.others {a : ReaperAction} (h : sp.Tracked) (hsound : sp.reaper.Sound)
    (hstep : Reaper.Step build sp.reaper a r')
    (hknown : ∀ i y p t, sp.executions.lookup i = some y → y.awaited = some p →
      a = .terminate p t → t.Known)
    (hid : ∀ i y s, i ≠ k → sp.executions.lookup i = some y → y.live = some s →
      a ≠ .unsubscribe s.id) :
    ∀ i y, i ≠ k → sp.executions.lookup i = some y → Good r' y := by
  intro i y hi hy
  refine (h.good i y hy).step hsound hstep (fun p t => hknown i y p t hy) fun s hs => ?_
  exact Reaper.subscribed_step hsound.valid ((h.good i y hy).subscribed hs) (hid i y s hi hy hs)
    hstep

/-- The execution at `k` is replaced, with a subscription of its own if it has one. -/
theorem Tracked.put (h : sp.Tracked)
    (hothers : ∀ i y, i ≠ k → sp.executions.lookup i = some y → Good r' y)
    (hid : ∀ i y s s', i ≠ k → sp.executions.lookup i = some y → y.live = some s →
      x.live = some s' → s.id ≠ s'.id)
    (hx : Good r' x) : Tracked (({ sp with reaper := r' } : Spawner).put k x) := by
  have hold {i : Nat} {y : Execution} (hi : i ≠ k)
      (hy : (({ sp with reaper := r' } : Spawner).put k x).executions.lookup i = some y) :
      sp.executions.lookup i = some y := by
    unfold Spawner.put at hy
    dsimp only at hy
    rwa [Map.lookup_insert_eq, if_neg hi] at hy
  have hnew {y : Execution}
      (hy : (({ sp with reaper := r' } : Spawner).put k x).executions.lookup k = some y) :
      y = x := by
    unfold Spawner.put at hy
    dsimp only at hy
    rw [Map.lookup_insert_eq, if_pos rfl] at hy
    exact (Option.some.inj hy).symm
  constructor
  · intro i y hy
    by_cases hi : i = k
    · subst hi
      rw [hnew hy]
      exact hx
    · exact hothers i y hi (hold hi hy)
  · intro i j y z s s' hy hz hs hs' heq
    by_cases hi : i = k <;> by_cases hj : j = k
    · exact hi.trans hj.symm
    · subst hi
      obtain rfl := hnew hy
      exact absurd heq.symm (hid j z s' s hj (hold hj hz) hs' hs)
    · subst hj
      obtain rfl := hnew hz
      exact absurd heq (hid i y s s' hi (hold hi hy) hs hs')
    · exact h.apart i j y z s s' (hold hi hy) (hold hj hz) hs hs' heq

/-- The subscription of one command is not that of another. -/
theorem Tracked.id_ne (h : sp.Tracked) {y : Execution} {s' : Subscription} {i : Nat}
    (hk : sp.executions.lookup k = some x) (hs : x.live = some s) (hi : i ≠ k)
    (hy : sp.executions.lookup i = some y) (hs' : y.live = some s') : s'.id ≠ s.id :=
  fun heq => hi (h.apart i k y x s' s hy hk hs' hs heq)

/-- A command gives up its subscription, and holds none from then on. -/
theorem Tracked.unsubscribe (build : Build) (h : sp.Tracked) (hsound : sp.reaper.Sound)
    (hid : ∀ i y s', i ≠ k → sp.executions.lookup i = some y → y.live = some s' → s'.id ≠ s.id)
    (hlive : x.live = none) (hx : Good (sp.unsubscribe s).reaper x) :
    ((sp.unsubscribe s).put k x).Tracked := by
  have hstep : Reaper.Step build sp.reaper (.unsubscribe s.id) (sp.unsubscribe s).reaper :=
    .unsubscribed
  refine h.put (h.others hsound hstep (fun _ _ _ _ _ _ => (nomatch ·)) fun i y s' hi hy hs' heq => ?_)
    (fun i y s₁ s₂ _ _ _ hs₂ => ?_) hx
  · exact hid i y s' hi hy hs' (ReaperAction.unsubscribe.inj heq).symm
  · rw [hlive] at hs₂
    cases hs₂

theorem lookup_unsubscribed (hs : sp.reaper.bus.Subscribed s) (hvalid : sp.reaper.bus.Valid) :
    (sp.reaper.bus.unsubscribe s.id).monitor.subscribers.lookup s.id = none ∧
      s.id.toInt < (sp.reaper.bus.unsubscribe s.id).monitor.seqId.toInt := by
  rw [Bus.lookup_unsubscribe, if_pos rfl, Bus.seqId_unsubscribe]
  exact ⟨rfl, hvalid.fresh.id_lt _ _ hs⟩

/-- The first event about the child is the one its `wait_pid` takes. -/
theorem first_of_passed {taken : Nat} {e : ExitEvent} {bus : Bus}
    (hpassed : ∀ i < taken, ∃ e, (bus.received s.rx)[i]? = some e ∧ e.subject ≠ .pid child.pid)
    (he : (bus.received s.rx)[taken]? = some e) (hpid : e.subject = .pid child.pid) :
    bus.first s.rx child.pid = some e := by
  obtain ⟨hlt, he⟩ := List.getElem?_eq_some_iff.mp he
  refine List.find?_eq_some_iff_getElem.mpr ⟨decide_eq_true hpid, taken, hlt, he, fun i hi => ?_⟩
  obtain ⟨e', he', hne⟩ := hpassed i hi
  obtain ⟨hlt', he'⟩ := List.getElem?_eq_some_iff.mp he'
  rw [he']
  simpa using hne

theorem Tracked.step {a : SpawnerAction} (h : sp.Tracked) (hsound : sp.reaper.Sound)
    (ha : sp.Orderly a) (hstep : Step build sp a sp') : sp'.Tracked := by
  cases hstep with
  | @reaped a r' hne hstep =>
    refine ⟨fun i y hy => ?_, h.apart⟩
    refine (h.good i y hy).step hsound hstep (fun p t hp hat => ?_) fun s hs => ?_
    · subst hat
      exact ha i y hy hp
    · exact Reaper.subscribed_step hsound.valid ((h.good i y hy).subscribed hs) (hne s.id) hstep
  | @executed k s r' hs hstep =>
    refine h.put (h.others hsound hstep (fun _ _ _ _ _ _ => (nomatch ·))
      fun _ _ _ _ _ _ => (nomatch ·)) (fun i y s₁ s₂ hi hy hs₁ hs₂ => ?_) hs.2
    obtain rfl := Option.some.inj hs₂
    intro heq
    have hlt := hsound.valid.fresh.id_lt _ _ ((h.good i y hy).subscribed hs₁)
    rw [heq, hs.1] at hlt
    exact Int.lt_irrefl _ hlt
  | @spawned k s pid r' hk hchild hbus hhandler hstep =>
    refine h.put (h.others hsound hstep (fun _ _ _ _ _ _ => (nomatch ·))
      fun _ _ _ _ _ _ => (nomatch ·)) (fun i y s₁ s₂ hi hy hs₁ hs₂ => ?_) ?_
    · exact h.id_ne hk hs₂ hi hy hs₁
    · have hfresh := ha _ hk s rfl
      unfold Reaper.Stale at hfresh
      rw [not_or, not_not] at hfresh
      have hs : r'.bus.Subscribed s := hbus ▸ (h.good k _ hk).subscribed rfl
      refine ⟨hs, .alive (hbus ▸ hfresh.1) (.inl hchild) fun q c hq => ?_,
        fun i hi => absurd hi (Nat.not_lt_zero i)⟩
      rw [hhandler] at hq
      have hstale := hfresh.2
      rw [hq] at hstale
      exact hstale
  | @failed k s hk =>
    exact h.unsubscribe build hsound (fun i y s' hi hy hs' => h.id_ne hk rfl hi hy hs') rfl trivial
  | @received k s child taken e hk he hpid =>
    obtain ⟨hs, hawaits, hpassed⟩ := h.good k _ hk
    have hfirst := first_of_passed hpassed he hpid
    refine h.unsubscribe build hsound (fun i y s' hi hy hs' => h.id_ne hk rfl hi hy hs') rfl
      ⟨lookup_unsubscribed hs hsound.valid, ?_⟩
    cases hawaits with
    | alive hnone => exact nomatch hnone.symm.trans hfirst
    | inHand hnone => exact nomatch hnone.symm.trans hfirst
    | @arrived t ht hsome =>
      obtain rfl := Option.some.inj (hsome.symm.trans hfirst)
      exact ⟨t, ht, rfl⟩
  | @passed k s child taken e hk he hpid =>
    obtain ⟨hs, hawaits, hpassed⟩ := h.good k _ hk
    refine h.put (fun i y _ hy => h.good i y hy)
      (fun i y s₁ s₂ hi hy hs₁ hs₂ => h.id_ne hk hs₂ hi hy hs₁) ⟨hs, hawaits, fun i hi => ?_⟩
    rcases Nat.lt_succ_iff_lt_or_eq.mp hi with hi | rfl
    · exact hpassed i hi
    · exact ⟨e, he, hpid⟩
  | @finished k s child exitCode hk =>
    obtain ⟨⟨hnone, -⟩, t, ht, rfl⟩ := h.good k _ hk
    refine h.unsubscribe build hsound (fun i y s' hi hy hs' heq => ?_) rfl ⟨t, ht, rfl⟩
    have hs'' := (h.good i y hy).subscribed hs'
    rw [Bus.Subscribed, heq, hnone] at hs''
    cases hs''

theorem tracked (h : (spawner build).Reachable Orderly sp) : sp.Tracked := by
  refine h.invariant (P := Tracked) ?_ fun _ _ _ hr ih ha hs => ih.step (sound hr) ha (step_cases hs)
  exact ⟨fun _ _ h => (nomatch h), fun _ _ _ _ _ _ h => (nomatch h)⟩

/-- The status that a command returns describes how its child ended if that was a
success or a signal, and for no other exit code. -/
theorem status_reported (h : (spawner build).Reachable Orderly sp)
    (hk : sp.executions.lookup k = some (.done child status)) :
    ∃ t, (child, t) ∈ sp.reaper.terminated ∧
      (status.Describes t ↔ t = .exited 0 ∨ ∃ s, t = .signaled s) := by
  obtain ⟨t, ht, rfl⟩ := (tracked h).good k _ hk
  exact ⟨t, ht, ExitStatus.describes_iff t⟩

/-- One command, from its subscription to its return. -/
def commandRun (t : Termination) : List SpawnerAction :=
  let p : Process := { name := 0, pid := 1 }
  [.execute 0, .spawn 0 1, .reaper (.terminate p t), .reaper .signal,
    .reaper (.waitpid (some (p, t))), .reaper .notify, .recv 0, .finish 0]

def killed : Spawner :=
  (spawner .asynchronous).after Orderly {} (commandRun (.signaled ⟨9, by decide⟩))

theorem status_reported_signal : ∃ t, (({ name := 0, pid := 1 } : Process), t) ∈
    killed.reaper.terminated ∧
      ((ExitStatus.fromRaw 137).Describes t ↔ t = .exited 0 ∨ ∃ s, t = .signaled s) := by
  have hreach : (spawner .asynchronous).Reachable Orderly killed :=
    System.run_after (by decide +kernel)
  exact status_reported (k := 0) hreach (by decide +kernel)

def failed : Spawner := (spawner .asynchronous).after Orderly {} (commandRun (.exited 1))

/-- A command that exits with 1 is reported as killed by the signal 1. -/
theorem exit_reported_as_signal : ¬∀ (sp : Spawner), (spawner .asynchronous).Reachable System.Any sp →
    ∀ k child status, sp.executions.lookup k = some (.done child status) →
    ∀ t, (child, t) ∈ sp.reaper.terminated → status.Describes t := by
  intro h
  have hreach : (spawner .asynchronous).Reachable Orderly failed :=
    System.run_after (by decide +kernel)
  have hdescribes := h failed hreach.any 0 { name := 0, pid := 1 } (.fromRaw 1) (by decide +kernel)
    (.exited 1) (by decide +kernel)
  have hnone : (ExitStatus.fromRaw 1).code = none := by decide +kernel
  exact nomatch hnone.symm.trans ((hdescribes.code 1).mpr ⟨1, rfl, rfl⟩)

end Spawner
end RustExtensions.RuncShim
