import RustExtensions.RuncShim.StdinCopy

/-!
# The copy of a process's output

`copy_to_fifo` takes a reader of the fifo for the shim itself before it opens
the writer, and leaves a task behind that copies the process's output into the
fifo. Containerd's readers may come and go, and with them containerd.
-/
namespace RustExtensions.RuncShim

open RustExtensions.NamedPipe
open RustExtensions.Transition

/-- How far `copy_to_fifo` has got, and then its task. -/
inductive OutputStage (α : Type) where
  | idle | holding
  | running (buf : List α) (eof : Bool)
  | ended (how : CopyEnd)

/-- `pipe` is what the process wrote and the task has not read, `writers` the ends of it that
processes of the container have, and `clients` counts containerd's readers of the fifo. Nothing
reads what was produced and what containerd received. -/
structure OutputCopy (α : Type) where
  io : IoTasks := {}
  pipe : List α := []
  writers : Nat := 1
  fifo : Fifo α := {}
  stage : OutputStage α := .idle
  clients : Nat := 0
  produced : List α := []
  received : List α := []

inductive OutputAction (α : Type) where
  | openHold | openSender | openFails
  | read (n : Nat) | readEof | write (n : Nat) | finish | fails | seeCancel
  | abort
  | produce (xs : List α) | fork | exit
  | clientOpen | clientRead (n : Nat) | clientClose

/-- The steps of the task that nothing outside it brings about, and those of a reader that stays. -/
def OutputAction.quiet {α : Type} : OutputAction α → Bool
  | .read _ | .readEof | .write _ | .finish | .clientRead _ => true
  | _ => false

namespace OutputStage

variable {α : Type}

/-- Whether the shim's own reader is open. -/
def hold : OutputStage α → Nat
  | .holding | .running .. => 1
  | .idle | .ended _ => 0

theorem hold_eq (stage : OutputStage α) : stage.hold = 0 ∨ stage.hold = 1 := by
  cases stage with
  | idle => exact .inl rfl
  | holding => exact .inr rfl
  | running buf eof => exact .inr rfl
  | ended how => exact .inl rfl

def buf : OutputStage α → List α
  | .running buf _ => buf
  | _ => []

/-- The writers that the task has open. -/
def sender : OutputStage α → Nat
  | .running .. => 1
  | _ => 0

/-- Nothing can have been written yet. -/
def Fresh : OutputStage α → Prop
  | .idle | .holding => True
  | _ => False

def Running : OutputStage α → Prop
  | .running .. => True
  | _ => False

def Ended : OutputStage α → Prop
  | .ended _ => True
  | _ => False

end OutputStage

namespace OutputCopy

variable {α : Type}

/-- The task is over: its ends of the fifo are closed, and the process's pipe has no reader. -/
def endCopy (s : OutputCopy α) (how : CopyEnd) : OutputCopy α :=
  { s with pipe := [], fifo := s.fifo.closeBoth, stage := .ended how }

/-- The opens of `copy_to_fifo` in their order; the task, which reads while it has room for more
and writes what the fifo takes; and what happens around them. A write to a fifo without a reader
is EPIPE, and so is the process's own once the task is over. -/
def step (pipeSize capacity bufSize : Nat) (s : OutputCopy α) :
    OutputAction α → Option (OutputCopy α)
  | .openHold =>
    match s.stage with
    | .idle => some { s with fifo := s.fifo.openRead, stage := .holding }
    | _ => none
  | .openSender =>
    match s.stage with
    | .holding => s.fifo.openWrite.map fun fifo => { s with fifo, stage := .running [] false }
    | _ => none
  | .openFails =>
    match s.stage with
    | .idle => some { s with pipe := [], stage := .ended .failed }
    | .holding =>
      some { s with pipe := [], fifo := s.fifo.closeRead, stage := .ended .failed }
    | _ => none
  | .read n =>
    match s.stage with
    | .running buf false =>
      if s.pipe ≠ [] ∧ 0 < n ∧ buf.length + n ≤ bufSize then
        some { s with pipe := s.pipe.drop n, stage := .running (buf ++ s.pipe.take n) false }
      else none
    | _ => none
  | .readEof =>
    match s.stage with
    | .running buf false =>
      if buf.length < bufSize ∧ s.pipe = [] ∧ s.writers = 0 then
        some { s with stage := .running buf true }
      else none
    | _ => none
  | .write n =>
    match s.stage with
    | .running buf eof =>
      if 0 < n ∧ n ≤ buf.length then
        if s.fifo.readers = 0 then some (s.endCopy .broken)
        else (s.fifo.write capacity (buf.take n)).map fun fifo =>
          { s with fifo, stage := .running (buf.drop n) eof }
      else none
    | _ => none
  | .finish =>
    match s.stage with
    | .running [] true => some (s.endCopy .atEof)
    | _ => none
  | .fails =>
    match s.stage with
    | .running _ _ => some (s.endCopy .failed)
    | _ => none
  | .seeCancel =>
    match s.stage with
    | .running _ _ => if s.io.cancelled then some (s.endCopy .cancelled) else none
    | _ => none
  | .abort => some { s with io := s.io.abort }
  | .produce xs =>
    match s.stage with
    | .ended _ => none
    | _ =>
      if 0 < s.writers ∧ s.pipe.length + xs.length ≤ pipeSize then
        some { s with pipe := s.pipe ++ xs, produced := s.produced ++ xs }
      else none
  | .fork => if 0 < s.writers then some { s with writers := s.writers + 1 } else none
  | .exit => if 0 < s.writers then some { s with writers := s.writers - 1 } else none
  | .clientOpen => some { s with fifo := s.fifo.openRead, clients := s.clients + 1 }
  | .clientRead n =>
    if 0 < s.clients then
      (s.fifo.read n).map fun (xs, fifo) => { s with fifo, received := s.received ++ xs }
    else none
  | .clientClose =>
    if 0 < s.clients then
      some { s with fifo := s.fifo.closeRead, clients := s.clients - 1 }
    else none

end OutputCopy

def outputCopy (α : Type) (pipeSize capacity bufSize : Nat) :
    System (OutputCopy α) (OutputAction α) where
  init := {}
  step := OutputCopy.step pipeSize capacity bufSize

namespace OutputCopy

variable {α : Type} {s t : OutputCopy α} {a : OutputAction α} {pipeSize capacity bufSize : Nat}

/-- What a step can do. -/
inductive Step (pipeSize capacity bufSize : Nat) (s : OutputCopy α) :
    OutputAction α → OutputCopy α → Prop
  | openHold (hstage : s.stage = .idle) : Step pipeSize capacity bufSize s .openHold
      { s with fifo := s.fifo.openRead, stage := .holding }
  | openSender (hstage : s.stage = .holding) : Step pipeSize capacity bufSize s .openSender
      { s with
        fifo := { s.fifo with writers := s.fifo.writers + 1 }, stage := .running [] false }
  | idleFails (hstage : s.stage = .idle) : Step pipeSize capacity bufSize s .openFails
      { s with pipe := [], stage := .ended .failed }
  | holdingFails (hstage : s.stage = .holding) : Step pipeSize capacity bufSize s .openFails
      { s with pipe := [], fifo := s.fifo.closeRead, stage := .ended .failed }
  | read {n : Nat} {buf : List α} (hstage : s.stage = .running buf false) (hpipe : s.pipe ≠ [])
    (hn : 0 < n) : Step pipeSize capacity bufSize s (.read n)
      { s with pipe := s.pipe.drop n, stage := .running (buf ++ s.pipe.take n) false }
  | readEof {buf : List α} (hstage : s.stage = .running buf false) (hpipe : s.pipe = [])
    (hwriters : s.writers = 0) : Step pipeSize capacity bufSize s .readEof
      { s with stage := .running buf true }
  | broken {n : Nat} {buf : List α} {eof : Bool} (hstage : s.stage = .running buf eof)
    (hreaders : s.fifo.readers = 0) :
    Step pipeSize capacity bufSize s (.write n) (s.endCopy .broken)
  | write {n : Nat} {buf : List α} {eof : Bool} (hstage : s.stage = .running buf eof)
    (hn : 0 < n ∧ n ≤ buf.length) : Step pipeSize capacity bufSize s (.write n) { s with
      fifo := { s.fifo with buffer := s.fifo.buffer ++ buf.take n },
      stage := .running (buf.drop n) eof }
  | finish (hstage : s.stage = .running [] true) :
    Step pipeSize capacity bufSize s .finish (s.endCopy .atEof)
  | fails {buf : List α} {eof : Bool} (hstage : s.stage = .running buf eof) :
    Step pipeSize capacity bufSize s .fails (s.endCopy .failed)
  | seeCancel {buf : List α} {eof : Bool} (hstage : s.stage = .running buf eof) :
    Step pipeSize capacity bufSize s .seeCancel (s.endCopy .cancelled)
  | abort : Step pipeSize capacity bufSize s .abort { s with io := s.io.abort }
  | produce {xs : List α} (hstage : ¬s.stage.Ended) (hwriters : 0 < s.writers) :
    Step pipeSize capacity bufSize s (.produce xs)
      { s with pipe := s.pipe ++ xs, produced := s.produced ++ xs }
  | fork (hwriters : 0 < s.writers) : Step pipeSize capacity bufSize s .fork
      { s with writers := s.writers + 1 }
  | exit (hwriters : 0 < s.writers) : Step pipeSize capacity bufSize s .exit
      { s with writers := s.writers - 1 }
  | clientOpen : Step pipeSize capacity bufSize s .clientOpen
      { s with fifo := s.fifo.openRead, clients := s.clients + 1 }
  | clientRead {n : Nat} {xs : List α} {fifo : Fifo α} (hclients : 0 < s.clients) (hxs : xs ≠ [])
    (hfifo : fifo = { s.fifo with buffer := fifo.buffer })
    (hbuffer : s.fifo.buffer = xs ++ fifo.buffer) :
    Step pipeSize capacity bufSize s (.clientRead n)
      { s with fifo, received := s.received ++ xs }
  | clientClose (hclients : 0 < s.clients) : Step pipeSize capacity bufSize s .clientClose
      { s with fifo := s.fifo.closeRead, clients := s.clients - 1 }

theorem step_cases (h : s.step pipeSize capacity bufSize a = some t) :
    Step pipeSize capacity bufSize s a t := by
  cases a with
  | openHold =>
    unfold step at h
    dsimp only at h
    split at h
    · next hstage =>
      obtain rfl := Option.some.inj h
      exact .openHold hstage
    · cases h
  | openSender =>
    unfold step at h
    dsimp only at h
    split at h
    · next hstage =>
      obtain ⟨fifo, hopen, rfl⟩ := Option.map_eq_some_iff.mp h
      obtain ⟨-, rfl⟩ := Fifo.openWrite_eq_some.mp hopen
      exact .openSender hstage
    · cases h
  | openFails =>
    unfold step at h
    dsimp only at h
    split at h
    · next hstage =>
      obtain rfl := Option.some.inj h
      exact .idleFails hstage
    · next hstage =>
      obtain rfl := Option.some.inj h
      exact .holdingFails hstage
    · cases h
  | read n =>
    unfold step at h
    dsimp only at h
    split at h
    · next buf hstage =>
      obtain ⟨⟨hpipe, hn, -⟩, rfl⟩ :=
        (Option.ite_none_right_eq_some.mp h).imp_right Option.some.inj
      exact .read hstage hpipe hn
    · cases h
  | readEof =>
    unfold step at h
    dsimp only at h
    split at h
    · next buf hstage =>
      obtain ⟨⟨-, hpipe, hwriters⟩, rfl⟩ :=
        (Option.ite_none_right_eq_some.mp h).imp_right Option.some.inj
      exact .readEof hstage hpipe hwriters
    · cases h
  | write n =>
    unfold step at h
    dsimp only at h
    split at h
    · next buf eof hstage =>
      obtain ⟨hn, h⟩ := Option.ite_none_right_eq_some.mp h
      split at h
      · next hreaders =>
        obtain rfl := Option.some.inj h
        exact .broken hstage hreaders
      · obtain ⟨fifo, hwrite, rfl⟩ := Option.map_eq_some_iff.mp h
        obtain ⟨-, rfl⟩ := Fifo.write_eq_some.mp hwrite
        exact .write hstage hn
    · cases h
  | finish =>
    unfold step at h
    dsimp only at h
    split at h
    · next hstage =>
      obtain rfl := Option.some.inj h
      exact .finish hstage
    · cases h
  | fails =>
    unfold step at h
    dsimp only at h
    split at h
    · next buf eof hstage =>
      obtain rfl := Option.some.inj h
      exact .fails hstage
    · cases h
  | seeCancel =>
    unfold step at h
    dsimp only at h
    split at h
    · next buf eof hstage =>
      obtain ⟨-, rfl⟩ := (Option.ite_none_right_eq_some.mp h).imp_right Option.some.inj
      exact .seeCancel hstage
    · cases h
  | abort =>
    obtain rfl := Option.some.inj h
    exact .abort
  | produce xs =>
    unfold step at h
    dsimp only at h
    split at h
    · cases h
    · next hstage =>
      obtain ⟨⟨hwriters, -⟩, rfl⟩ :=
        (Option.ite_none_right_eq_some.mp h).imp_right Option.some.inj
      refine .produce (fun hended => ?_) hwriters
      cases hs : s.stage with
      | ended how => exact hstage how hs
      | idle => rw [hs] at hended; exact hended
      | holding => rw [hs] at hended; exact hended
      | running buf eof => rw [hs] at hended; exact hended
  | fork =>
    obtain ⟨hwriters, rfl⟩ := (Option.ite_none_right_eq_some.mp h).imp_right Option.some.inj
    exact .fork hwriters
  | exit =>
    obtain ⟨hwriters, rfl⟩ := (Option.ite_none_right_eq_some.mp h).imp_right Option.some.inj
    exact .exit hwriters
  | clientOpen =>
    obtain rfl := Option.some.inj h
    exact .clientOpen
  | clientRead n =>
    obtain ⟨hclients, h⟩ := Option.ite_none_right_eq_some.mp h
    obtain ⟨⟨xs, fifo⟩, hread, rfl⟩ := Option.map_eq_some_iff.mp h
    obtain ⟨hxs, -, hfifo, hbuffer⟩ := Fifo.read_eq_some hread
    exact .clientRead hclients hxs hfifo hbuffer
  | clientClose =>
    obtain ⟨hclients, rfl⟩ := (Option.ite_none_right_eq_some.mp h).imp_right Option.some.inj
    exact .clientClose hclients

/-- The ends of the fifo are those that the shim and containerd's readers have open. -/
structure Counted (s : OutputCopy α) : Prop where
  readers : s.fifo.readers = s.clients + s.stage.hold
  writers : s.fifo.writers = s.stage.sender
  fresh : s.stage.Fresh → s.fifo.buffer = []
  eof : ∀ buf, s.stage = .running buf true → s.pipe = [] ∧ s.writers = 0
  ended : s.stage.Ended → s.pipe = []

theorem Counted.init : Counted ({} : OutputCopy α) where
  readers := rfl
  writers := rfl
  fresh _ := rfl
  eof := nofun
  ended := False.elim

theorem endCopy_counted (hs : s.Counted) {buf : List α} {eof : Bool} {how : CopyEnd}
    (hstage : s.stage = .running buf eof) : (s.endCopy how).Counted := by
  obtain ⟨hreaders, hwriters, -, -, -⟩ := hs
  rw [hstage] at hreaders hwriters
  refine ⟨?_, ?_, nofun, nofun, fun _ => rfl⟩
  · rw [endCopy, Fifo.closeBoth_readers, hreaders]
    rfl
  · rw [endCopy, Fifo.closeBoth_writers, hwriters]
    rfl

theorem Counted.step (hs : s.Counted) (h : Step pipeSize capacity bufSize s a t) : t.Counted := by
  have ⟨hreaders, hwriters, hfresh, heof, hended⟩ := hs
  cases h with
  | openHold hstage =>
    rw [hstage] at hreaders hwriters hfresh
    exact ⟨congrArg (· + 1) hreaders, hwriters, fun _ => hfresh trivial, nofun, False.elim⟩
  | openSender hstage =>
    rw [hstage] at hreaders hwriters
    exact ⟨hreaders, congrArg (· + 1) hwriters, nofun, nofun, False.elim⟩
  | idleFails hstage =>
    rw [hstage] at hreaders hwriters
    exact ⟨hreaders, hwriters, nofun, nofun, fun _ => rfl⟩
  | holdingFails hstage =>
    rw [hstage] at hreaders hwriters
    refine ⟨?_, Fifo.closeRead_writers.trans hwriters, nofun, nofun, fun _ => rfl⟩
    rw [Fifo.closeRead_readers, hreaders]
    rfl
  | read hstage _ _ =>
    rw [hstage] at hreaders hwriters
    exact ⟨hreaders, hwriters, nofun, nofun, False.elim⟩
  | readEof hstage hpipe hzero =>
    rw [hstage] at hreaders hwriters
    exact ⟨hreaders, hwriters, nofun, fun _ _ => ⟨hpipe, hzero⟩, False.elim⟩
  | broken hstage _ => exact endCopy_counted hs hstage
  | @write n buf eof hstage _ =>
    rw [hstage] at hreaders hwriters heof
    refine ⟨hreaders, hwriters, nofun, fun rest hrest => heof buf ?_, False.elim⟩
    rw [(OutputStage.running.inj hrest).2]
  | finish hstage => exact endCopy_counted hs hstage
  | fails hstage => exact endCopy_counted hs hstage
  | seeCancel hstage => exact endCopy_counted hs hstage
  | abort => exact ⟨hreaders, hwriters, hfresh, heof, hended⟩
  | produce hlive hpos =>
    exact ⟨hreaders, hwriters, hfresh, fun buf hbuf => absurd (heof buf hbuf).2 hpos.ne',
      fun h => absurd h hlive⟩
  | fork hpos =>
    exact ⟨hreaders, hwriters, hfresh, fun buf hbuf => absurd (heof buf hbuf).2 hpos.ne', hended⟩
  | exit hpos =>
    exact ⟨hreaders, hwriters, hfresh, fun buf hbuf => absurd (heof buf hbuf).2 hpos.ne', hended⟩
  | clientOpen =>
    refine ⟨?_, hwriters, hfresh, heof, hended⟩
    calc s.fifo.readers + 1 = s.clients + s.stage.hold + 1 := congrArg (· + 1) hreaders
      _ = s.clients + 1 + s.stage.hold := by omega
  | clientRead _ hxs hfifo hbuffer =>
    rw [hfifo]
    refine ⟨hreaders, hwriters, fun h => ?_, heof, hended⟩
    rw [hfresh h] at hbuffer
    exact (List.append_eq_nil_iff.mp hbuffer.symm).2
  | clientClose hclients =>
    refine ⟨?_, Fifo.closeRead_writers.trans hwriters, fun hfresh => ?_, heof, hended⟩
    · calc s.fifo.closeRead.readers = s.clients + s.stage.hold - 1 := by
            rw [Fifo.closeRead_readers, hreaders]
        _ = s.clients - 1 + s.stage.hold := by omega
    · exact Fifo.closeRead_buffer_nil (hs.fresh hfresh)

theorem counted (h : (outputCopy α pipeSize capacity bufSize).Reachable System.Any s) :
    s.Counted :=
  h.invariant .init fun _ _ _ _ hs _ hstep => hs.step (step_cases hstep)

/-! ## What arrives -/

/-- What containerd received, and what is on its way to it. -/
def flow (s : OutputCopy α) : List α :=
  s.received ++ (s.fifo.buffer ++ (s.stage.buf ++ s.pipe))

/-- Nothing is left when the task ends, and somebody reads the fifo. -/
def Delivered (s : OutputCopy α) : Prop :=
  s.stage.buf = [] ∧ s.pipe = [] ∧ (s.fifo.buffer = [] ∨ 0 < s.clients)

/-- The steps that lose nothing. -/
def Attended (s : OutputCopy α) : OutputAction α → Prop
  | .openFails => s.pipe = []
  | .finish | .fails | .seeCancel => s.Delivered
  | .clientClose => s.stage.hold = 1 ∨ 1 < s.clients ∨ s.fifo.buffer = []
  | _ => True

/-- When the shim's ends go, containerd's reader is what keeps the fifo. -/
theorem closeBoth_buffer (hs : s.Counted) (hrunning : s.stage.Running) :
    s.fifo.closeBoth.buffer = if s.clients = 0 then [] else s.fifo.buffer := by
  have hreaders := hs.readers
  have hwriters := hs.writers
  cases hstage : s.stage with
  | running buf eof =>
    simp only [hstage, OutputStage.hold, OutputStage.sender] at hreaders hwriters
    split
    · next hzero =>
      rw [hzero] at hreaders
      exact Fifo.settle_of_abandoned (f := { s.fifo with
        readers := s.fifo.readers - 1, writers := s.fifo.writers - 1 })
        ⟨by simp [hreaders], by simp [hwriters]⟩
    · next hpos => exact Fifo.closeBoth_buffer (by omega)
  | _ =>
    rw [hstage] at hrunning
    exact hrunning.elim

theorem append_ite_eq_iff {p : Prop} [Decidable p] {xs ys zs : List α} :
    xs ++ (if p then [] else ys) = xs ++ (ys ++ zs) ↔ zs = [] ∧ (ys = [] ∨ ¬p) := by
  rw [List.append_right_inj]
  split
  · next hp =>
    rw [eq_comm, List.append_eq_nil_iff]
    constructor
    · rintro ⟨hys, hzs⟩
      exact ⟨hzs, .inl hys⟩
    · rintro ⟨hzs, hys | hnot⟩
      · exact ⟨hys, hzs⟩
      · exact absurd hp hnot
  · next hp =>
    rw [List.self_eq_append_right]
    exact ⟨fun h => ⟨h, .inr hp⟩, And.left⟩

/-- What a step does to the flow: the process may add to its end until the task is over, and the
step keeps all of it unless it is one that loses what comes last. -/
structure Flows (s t : OutputCopy α) (xs : List α) (kept : Prop) : Prop where
  produced : t.produced = s.produced ++ xs
  ended : s.stage.Ended → xs = []
  flow : t.flow <+: s.flow ++ xs
  kept : t.flow = s.flow ++ xs ↔ kept

theorem Flows.same (hproduced : t.produced = s.produced) (hflow : t.flow = s.flow) :
    Flows s t [] True where
  produced := by rw [hproduced, List.append_nil]
  ended _ := rfl
  flow := by rw [hflow, List.append_nil]
  kept := iff_of_true (by rw [hflow, List.append_nil]) trivial

theorem endCopy_flows (hs : s.Counted) (hrunning : s.stage.Running) (how : CopyEnd) :
    Flows s (s.endCopy how) [] s.Delivered := by
  have hflow : (s.endCopy how).flow =
      s.received ++ if s.clients = 0 then [] else s.fifo.buffer := by
    rw [← closeBoth_buffer hs hrunning]
    simp [flow, endCopy, OutputStage.buf]
  refine ⟨(List.append_nil _).symm, fun _ => rfl, ?_, ?_⟩
  · rw [hflow, List.append_nil]
    refine (List.prefix_append_right_inj _).mpr ?_
    split
    · exact List.nil_prefix
    · exact List.prefix_append _ _
  · rw [hflow, List.append_nil, flow, append_ite_eq_iff, List.append_eq_nil_iff, Delivered,
      Nat.pos_iff_ne_zero, and_assoc]

/-- An open that fails takes the process's pipe along, and nothing was in the fifo. -/
theorem openFails_flows (hbuf : s.stage.buf = []) (hbuf' : t.stage.buf = [])
    (hbuffer : t.fifo.buffer = s.fifo.buffer) (hpipe : t.pipe = [])
    (hproduced : t.produced = s.produced) (hreceived : t.received = s.received) :
    Flows s t [] (s.pipe = []) := by
  have hbefore : s.flow = s.received ++ s.fifo.buffer ++ s.pipe := by
    rw [flow, hbuf, List.nil_append, List.append_assoc]
  have hafter : t.flow = s.received ++ s.fifo.buffer := by
    rw [flow, hbuf', hpipe, hbuffer, hreceived, List.append_nil, List.append_nil]
  refine ⟨by rw [hproduced, List.append_nil], fun _ => rfl, ?_, ?_⟩
  · rw [hafter, hbefore, List.append_nil]
    exact List.prefix_append _ _
  · rw [hafter, hbefore, List.append_nil, List.self_eq_append_right]

/-- The last reader takes what is in the fifo along. -/
theorem closeRead_buffer (hs : s.Counted) (hclients : 0 < s.clients) :
    s.fifo.closeRead.buffer =
      if s.stage.hold = 0 ∧ s.clients = 1 then [] else s.fifo.buffer := by
  have hreaders := hs.readers
  split
  · next hlast =>
    have hwriters := hs.writers
    have hsender : s.stage.sender = 0 := by
      cases hstage : s.stage with
      | running buf eof =>
        rw [hstage] at hlast
        exact absurd hlast.1 Nat.one_ne_zero
      | _ => rfl
    exact Fifo.settle_of_abandoned (f := { s.fifo with readers := s.fifo.readers - 1 })
      ⟨by simp only; omega, by simp only; omega⟩
  · next hlast => exact Fifo.closeRead_buffer (.inl (by omega))

/-- Nothing comes after what is in the fifo once the shim's own reader is gone. -/
theorem last_prefix (hs : s.Counted) (hhold : s.stage.hold = 0) :
    [] ++ (s.stage.buf ++ s.pipe) <+: s.fifo.buffer ++ (s.stage.buf ++ s.pipe) := by
  cases hstage : s.stage with
  | idle => rw [hs.fresh (by rw [hstage]; trivial)]
  | ended how =>
    rw [hs.ended (by rw [hstage]; trivial)]
    exact List.nil_prefix
  | holding =>
    rw [hstage] at hhold
    cases hhold
  | running buf eof =>
    rw [hstage] at hhold
    cases hhold

theorem flow_step (hs : s.Counted) (h : Step pipeSize capacity bufSize s a t) :
    ∃ xs, Flows s t xs (Attended s a) := by
  cases h with
  | openHold hstage =>
    exact ⟨[], .same rfl (by simp [flow, hstage, Fifo.openRead, OutputStage.buf])⟩
  | openSender hstage => exact ⟨[], .same rfl (by simp [flow, hstage, OutputStage.buf])⟩
  | idleFails hstage =>
    exact ⟨[], openFails_flows (by rw [hstage]; rfl) rfl rfl rfl rfl rfl⟩
  | holdingFails hstage =>
    have hbuffer := hs.fresh (by rw [hstage]; trivial)
    refine ⟨[], openFails_flows (by rw [hstage]; rfl) rfl ?_ rfl rfl rfl⟩
    rw [Fifo.closeRead_buffer_nil hbuffer, hbuffer]
  | @read n buf hstage _ _ =>
    refine ⟨[], .same rfl ?_⟩
    simp only [flow, hstage, OutputStage.buf, List.append_assoc, List.take_append_drop]
  | readEof hstage _ _ => exact ⟨[], .same rfl (by simp [flow, hstage, OutputStage.buf])⟩
  | broken hstage hzero =>
    have hreaders := hs.readers
    rw [hzero, hstage] at hreaders
    exact absurd hreaders.symm (Nat.succ_ne_zero _)
  | @write n buf eof hstage _ =>
    refine ⟨[], .same rfl ?_⟩
    simp only [flow, hstage, OutputStage.buf, List.append_assoc]
    rw [← List.append_assoc (buf.take n), List.take_append_drop]
  | finish hstage => exact ⟨[], endCopy_flows hs (by rw [hstage]; trivial) _⟩
  | fails hstage => exact ⟨[], endCopy_flows hs (by rw [hstage]; trivial) _⟩
  | seeCancel hstage => exact ⟨[], endCopy_flows hs (by rw [hstage]; trivial) _⟩
  | abort => exact ⟨[], .same rfl rfl⟩
  | @produce xs hlive _ =>
    refine ⟨xs, rfl, fun h => absurd h hlive, ?_, ?_⟩
    · simp [flow]
    · simp [flow, Attended]
  | fork _ => exact ⟨[], .same rfl rfl⟩
  | exit _ => exact ⟨[], .same rfl rfl⟩
  | clientOpen => exact ⟨[], .same rfl rfl⟩
  | clientRead _ _ _ hbuffer =>
    exact ⟨[], .same rfl (by simp only [flow, hbuffer, List.append_assoc])⟩
  | clientClose hclients =>
    refine ⟨[], (List.append_nil _).symm, fun _ => rfl, ?_, ?_⟩
    · simp only [flow, closeRead_buffer hs hclients, List.append_nil]
      refine (List.prefix_append_right_inj _).mpr ?_
      split
      · next hlast => exact last_prefix hs hlast.1
      · exact List.prefix_rfl
    · simp only [flow, closeRead_buffer hs hclients, List.append_nil, List.append_right_inj,
        List.append_left_inj, Attended]
      have hhold := OutputStage.hold_eq s.stage
      split
      · next hlast =>
        constructor
        · exact fun h => .inr (.inr h.symm)
        · rintro (h | h | h)
          · omega
          · omega
          · exact h.symm
      · next hlast => exact iff_of_true rfl (by omega)

/-- What is lost is lost from the end, and not before the task is over. -/
structure Intact (s : OutputCopy α) : Prop where
  flow : s.flow <+: s.produced
  live : ¬s.stage.Ended → s.flow = s.produced

/-- Where nothing is lost yet only the end of the task can lose something. -/
theorem attended_of_live (hs : s.Counted) (h : Step pipeSize capacity bufSize s a t)
    (hlive : ¬t.stage.Ended) : ¬s.stage.Ended ∧ Attended s a := by
  cases h with
  | openHold hstage => exact ⟨by rw [hstage]; exact id, trivial⟩
  | openSender hstage => exact ⟨by rw [hstage]; exact id, trivial⟩
  | idleFails hstage => exact absurd trivial hlive
  | holdingFails hstage => exact absurd trivial hlive
  | read hstage _ _ => exact ⟨by rw [hstage]; exact id, trivial⟩
  | readEof hstage _ _ => exact ⟨by rw [hstage]; exact id, trivial⟩
  | broken hstage _ => exact absurd trivial hlive
  | write hstage _ => exact ⟨by rw [hstage]; exact id, trivial⟩
  | finish hstage => exact absurd trivial hlive
  | fails hstage => exact absurd trivial hlive
  | seeCancel hstage => exact absurd trivial hlive
  | abort => exact ⟨hlive, trivial⟩
  | produce _ _ => exact ⟨hlive, trivial⟩
  | fork _ => exact ⟨hlive, trivial⟩
  | exit _ => exact ⟨hlive, trivial⟩
  | clientOpen => exact ⟨hlive, trivial⟩
  | clientRead _ _ _ _ => exact ⟨hlive, trivial⟩
  | clientClose _ =>
    refine ⟨hlive, ?_⟩
    cases hstage : s.stage with
    | idle => exact .inr (.inr (hs.fresh (by rw [hstage]; trivial)))
    | holding => exact .inl (by rw [hstage]; rfl)
    | running buf eof => exact .inl (by rw [hstage]; rfl)
    | ended how => exact absurd (by rw [hstage]; trivial) hlive

theorem Intact.step (hs : s.Intact) (hc : s.Counted) (h : Step pipeSize capacity bufSize s a t) :
    t.Intact := by
  obtain ⟨xs, hflows⟩ := flow_step hc h
  constructor
  · rw [hflows.produced]
    by_cases hended : s.stage.Ended
    · have hflow := hflows.flow
      rw [hflows.ended hended, List.append_nil] at hflow ⊢
      exact hflow.trans hs.flow
    · rw [← hs.live hended]
      exact hflows.flow
  · intro hlive
    obtain ⟨hbefore, hattended⟩ := attended_of_live hc h hlive
    rw [hflows.kept.mpr hattended, hflows.produced, hs.live hbefore]

theorem intact (h : (outputCopy α pipeSize capacity bufSize).Reachable System.Any s) : s.Intact :=
  h.invariant ⟨List.prefix_rfl, fun _ => rfl⟩
    fun _ _ _ hr hs _ hstep => hs.step (counted hr) (step_cases hstep)

theorem not_broken (h : (outputCopy α pipeSize capacity bufSize).Reachable System.Any s) :
    s.stage ≠ .ended .broken := by
  refine h.invariant (P := fun s => s.stage ≠ .ended .broken)
    (fun h : (OutputStage.idle : OutputStage α) = .ended .broken => nomatch h) ?_
  intro s a t hr hs _ hstep
  cases step_cases hstep with
  | broken hstage hzero =>
    have hreaders := (counted hr).readers
    rw [hzero, hstage] at hreaders
    exact absurd hreaders.symm (Nat.succ_ne_zero _)
  | abort => exact hs
  | produce _ _ => exact hs
  | fork _ => exact hs
  | exit _ => exact hs
  | clientOpen => exact hs
  | clientRead _ _ _ _ => exact hs
  | clientClose _ => exact hs
  | finish _ => exact fun h => CopyEnd.noConfusion (OutputStage.ended.inj h)
  | fails _ => exact fun h => CopyEnd.noConfusion (OutputStage.ended.inj h)
  | seeCancel _ => exact fun h => CopyEnd.noConfusion (OutputStage.ended.inj h)
  | _ => nofun

/-- Whether containerd reads, restarts or never comes: the copy does not fail for want of a reader,
until it is over all the output is received or on its way, and containerd sees its end only after
that. What containerd received is always the output from its beginning. -/
theorem output_in_order (h : (outputCopy α pipeSize capacity bufSize).Reachable System.Any s) :
    s.stage ≠ .ended .broken ∧
      s.received <+: s.produced ∧
      (¬s.stage.Ended →
        s.produced = s.received ++ (s.fifo.buffer ++ (s.stage.buf ++ s.pipe))) ∧
      (s.stage.Running → ¬s.fifo.AtEnd) := by
  have hs := intact h
  refine ⟨not_broken h, (List.prefix_append _ _).trans hs.flow, fun hlive => (hs.live hlive).symm,
    ?_⟩
  rintro hrunning ⟨-, hzero⟩
  have hwriters := (counted h).writers
  cases hstage : s.stage with
  | running buf eof =>
    rw [hzero, hstage] at hwriters
    cases hwriters
  | _ =>
    rw [hstage] at hrunning
    exact hrunning

/-- A reader that came and went, and the process gone. -/
def restarted : OutputCopy Nat :=
  (outputCopy Nat 8 4 2).after System.Any {} [.produce [1, 2, 3], .openHold, .openSender, .read 2,
    .write 2, .clientOpen, .clientRead 1, .clientClose, .exit]

theorem output_in_order_restarted :
    restarted.produced = restarted.received ++
      (restarted.fifo.buffer ++ (restarted.stage.buf ++ restarted.pipe)) :=
  (output_in_order (System.run_after rfl)).2.2.1 id

/-- All the output is received or on its way exactly along the runs in which the task ends with
nothing left to copy, and the fifo has a reader until it is empty. -/
theorem output_kept_iff (h : (outputCopy α pipeSize capacity bufSize).Reachable System.Any s) :
    s.flow = s.produced ↔ (outputCopy α pipeSize capacity bufSize).Reachable Attended s := by
  constructor
  · intro hflow
    induction h with
    | refl => exact System.Reachable.init
    | @tail s t hr hnext ih =>
      obtain ⟨a, -, hstep⟩ := hnext
      obtain ⟨xs, hflows⟩ := flow_step (counted hr) (step_cases hstep)
      have hbefore : s.flow = s.produced := by
        refine (intact hr).flow.eq_of_length_le ?_
        have hle := hflows.flow.length_le
        rw [hflow, hflows.produced, List.length_append, List.length_append] at hle
        omega
      refine (ih hbefore).step (hflows.kept.mp ?_) hstep
      rw [hflow, hflows.produced, hbefore]
  · intro hr
    refine hr.invariant (P := fun s => s.flow = s.produced) rfl ?_
    intro s a t hr hs hattended hstep
    obtain ⟨xs, hflows⟩ := flow_step (counted hr.any) (step_cases hstep)
    rw [hflows.kept.mpr hattended, hflows.produced, hs]

/-- The reader that went does not come back before the copy is over. -/
theorem output_kept_iff_unread :
    ∃ s : OutputCopy Nat, s.produced = [1, 2, 3] ∧ s.received = [1] ∧
      ¬(outputCopy Nat 8 4 2).Reachable Attended s := by
  let as : List (OutputAction Nat) := [.produce [1, 2, 3], .openHold, .openSender, .read 2,
    .write 2, .clientOpen, .clientRead 1, .clientClose, .exit, .read 1, .readEof, .write 1, .finish]
  refine ⟨(outputCopy Nat 8 4 2).after System.Any {} as, rfl, rfl, ?_⟩
  exact fun h => absurd ((output_kept_iff (System.run_after rfl)).mpr h) (by decide)

/-! ## A reader that stays -/

/-- What is left of a copy of a process that is gone, and of its reader. -/
def left (s : OutputCopy α) : Nat :=
  3 * s.pipe.length + 2 * s.stage.buf.length + s.fifo.buffer.length +
    match s.stage with
    | .running _ eof => if eof then 1 else 2
    | _ => 0

def Quiet (_ : OutputCopy α) (a : OutputAction α) : Prop := a.quiet = true

instance (s : OutputCopy α) (a : OutputAction α) : Decidable (Quiet s a) :=
  inferInstanceAs (Decidable (_ = _))

/-- The process is gone, and containerd reads. -/
structure Draining (all : List α) (s : OutputCopy α) : Prop where
  counted : s.Counted
  writers : s.writers = 0
  clients : 0 < s.clients
  produced : s.produced = all
  flow : s.flow = s.produced
  stage : s.stage.Running ∨ s.stage = .ended .atEof

theorem Draining.not_zero {all : List α} (hs : s.Draining all) : s.fifo.readers ≠ 0 := by
  have hreaders := hs.counted.readers
  have hclients := hs.clients
  omega

theorem quiet_left_lt (hs : s.Counted) (ha : a.quiet = true)
    (h : Step pipeSize capacity bufSize s a t) : t.left < s.left := by
  cases h with
  | @read n buf hstage hpipe hn =>
    have hpos := List.length_pos_of_ne_nil hpipe
    simp only [left, hstage, OutputStage.buf, List.length_append, List.length_take,
      List.length_drop]
    omega
  | readEof hstage _ _ => simp [left, hstage, OutputStage.buf]
  | broken hstage hzero =>
    have hreaders := hs.readers
    rw [hzero, hstage] at hreaders
    exact absurd hreaders.symm (Nat.succ_ne_zero _)
  | write hstage hn =>
    simp only [left, hstage, OutputStage.buf, List.length_append, List.length_take,
      List.length_drop]
    omega
  | finish hstage =>
    have hbuffer := closeBoth_buffer hs (by rw [hstage]; trivial)
    simp only [left, hstage, endCopy, hbuffer, OutputStage.buf]
    split
    · simp
    · simp only [List.length_nil, if_true]
      omega
  | clientRead _ hxs _ hbuffer =>
    have hlength := congrArg List.length hbuffer
    have hpos := List.length_pos_of_ne_nil hxs
    simp only [left, List.length_append] at hlength ⊢
    omega
  | _ => cases ha

theorem Draining.step {all : List α} (hs : s.Draining all) (ha : a.quiet = true)
    (h : Step pipeSize capacity bufSize s a t) : t.Draining all := by
  have hcounted := hs.counted.step h
  obtain ⟨xs, hflows⟩ := flow_step hs.counted h
  have hflow (hattended : Attended s a) : t.flow = t.produced := by
    rw [hflows.kept.mpr hattended, hflows.produced, hs.flow]
  cases h with
  | read hstage _ _ =>
    exact ⟨hcounted, hs.writers, hs.clients, hs.produced, hflow trivial, .inl trivial⟩
  | readEof hstage _ _ =>
    exact ⟨hcounted, hs.writers, hs.clients, hs.produced, hflow trivial, .inl trivial⟩
  | broken hstage hzero => exact absurd hzero hs.not_zero
  | write hstage _ =>
    exact ⟨hcounted, hs.writers, hs.clients, hs.produced, hflow trivial, .inl trivial⟩
  | finish hstage =>
    refine ⟨hcounted, hs.writers, hs.clients, hs.produced, hflow ?_, .inr rfl⟩
    exact ⟨by rw [hstage]; rfl, (hs.counted.eof _ hstage).1, .inr hs.clients⟩
  | clientRead _ _ _ _ =>
    exact ⟨hcounted, hs.writers, hs.clients, hs.produced, hflow trivial, hs.stage⟩
  | _ => cases ha

/-- There is always something to do until everything is received. -/
theorem Draining.outcome {all : List α} (hs : s.Draining all) (pipeSize : Nat)
    (hcapacity : 0 < capacity) (hsize : 0 < bufSize) :
    s.stage = .ended .atEof ∧ s.received = all ∨
      ∃ a t, Quiet s a ∧ s.step pipeSize capacity bufSize a = some t := by
  by_cases hempty : s.fifo.buffer = []
  case neg =>
    obtain ⟨xs, fifo, hread⟩ := Fifo.exists_read Nat.one_ne_zero hempty
    refine .inr ⟨.clientRead 1, { s with fifo, received := s.received ++ xs }, rfl, ?_⟩
    simp only [OutputCopy.step, hread]
    exact if_pos hs.clients
  cases hstage : s.stage with
  | running buf eof =>
    right
    match buf, eof with
    | x :: buf, eof =>
      refine ⟨.write 1, { s with
        fifo := { s.fifo with buffer := s.fifo.buffer ++ [x] }, stage := .running buf eof },
        rfl, ?_⟩
      have hreaders := hs.not_zero
      simp only [OutputCopy.step, hstage, Fifo.write, hempty]
      simp [hreaders, Nat.pos_of_ne_zero hreaders, Nat.succ_le_of_lt hcapacity]
    | [], true => exact ⟨.finish, s.endCopy .atEof, rfl, by simp only [OutputCopy.step, hstage]⟩
    | [], false =>
      by_cases hpipe : s.pipe = []
      · refine ⟨.readEof, { s with stage := .running [] true }, rfl, ?_⟩
        simp only [OutputCopy.step, hstage]
        exact if_pos ⟨hsize, hpipe, hs.writers⟩
      · refine ⟨.read 1, { s with
          pipe := s.pipe.drop 1, stage := .running ([] ++ s.pipe.take 1) false }, rfl, ?_⟩
        simp only [OutputCopy.step, hstage]
        exact if_pos ⟨hpipe, Nat.one_pos, hsize⟩
  | ended how =>
    left
    have hpipe := hs.counted.ended (by rw [hstage]; trivial)
    have hflow := hs.flow
    rw [OutputCopy.flow, hempty, hpipe, hstage, hs.produced] at hflow
    obtain hrunning | hend := hs.stage
    · rw [hstage] at hrunning
      exact hrunning.elim
    · exact ⟨hstage.symm.trans hend, by simpa [OutputStage.buf] using hflow⟩
  | idle =>
    have hnot := hs.stage
    rw [hstage] at hnot
    exact hnot.elim False.elim fun hend => by cases hend
  | holding =>
    have hnot := hs.stage
    rw [hstage] at hnot
    exact hnot.elim False.elim fun hend => by cases hend

/-- Once the process is gone, a reader that stays receives all of its output: the copy and the
reader cannot go on for ever, nor stop short of the end. -/
theorem output_drains (hr : (outputCopy α pipeSize capacity bufSize).Reachable System.Any s)
    {buf : List α} {eof : Bool} (hstage : s.stage = .running buf eof) (hwriters : s.writers = 0)
    (hclients : 0 < s.clients) (hcapacity : 0 < capacity) (hsize : 0 < bufSize)
    (as : List (OutputAction α)) (t : OutputCopy α)
    (hexec : (outputCopy α pipeSize capacity bufSize).exec Quiet s as = some t) :
    as.length ≤ 3 * s.pipe.length + 2 * buf.length + s.fifo.buffer.length + 2 ∧
      (t.stage = .ended .atEof ∧ t.received = s.produced ∨
        ∃ a u, Quiet t a ∧ t.step pipeSize capacity bufSize a = some u) := by
  have hdraining : s.Draining s.produced := by
    refine ⟨counted hr, hwriters, hclients, rfl, (intact hr).live ?_, .inl ?_⟩
    · rw [hstage]
      exact id
    · rw [hstage]
      trivial
  have hstep : ∀ u a v, u.Draining s.produced → Quiet u a →
      u.step pipeSize capacity bufSize a = some v → v.Draining s.produced ∧ v.left < u.left :=
    fun _ _ _ hu ha h => ⟨hu.step ha (step_cases h), quiet_left_lt hu.counted ha (step_cases h)⟩
  obtain ⟨ht, hlength⟩ := System.exec_length left hstep hdraining hexec
  have hleft : s.left ≤ 3 * s.pipe.length + 2 * buf.length + s.fifo.buffer.length + 2 := by
    simp only [left, hstage, OutputStage.buf]
    split
    · omega
    · omega
  exact ⟨by omega, ht.outcome pipeSize hcapacity hsize⟩

/-- As before, and the reader comes back. -/
def reopened : OutputCopy Nat :=
  (outputCopy Nat 8 4 2).after System.Any restarted [.clientOpen]

theorem output_drains_reopened :
    ∃ as t, (outputCopy Nat 8 4 2).exec Quiet reopened as = some t ∧ as.length = 5 ∧
      (t.stage = .ended .atEof ∧ t.received = reopened.produced ∨
        ∃ a u, Quiet t a ∧ t.step 8 4 2 a = some u) := by
  let as : List (OutputAction Nat) := [.clientRead 4, .read 1, .readEof, .write 1, .clientRead 4]
  have hr : (outputCopy Nat 8 4 2).Reachable System.Any reopened :=
    (System.run_after rfl).trans (System.run_after rfl)
  have hexec : (outputCopy Nat 8 4 2).exec Quiet reopened as =
      some ((outputCopy Nat 8 4 2).after Quiet reopened as) := rfl
  refine ⟨as, _, hexec, rfl, ?_⟩
  have hstage : reopened.stage = .running [] false := rfl
  exact (output_drains hr hstage rfl (by decide) (by decide) (by decide) as _ hexec).2

end OutputCopy
end RustExtensions.RuncShim
