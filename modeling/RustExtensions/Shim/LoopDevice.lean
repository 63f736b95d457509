import RustExtensions.Shim.Mount

/-!
# The loop device under a mount

The kernel's loop devices beside the descriptors of the shim. Other processes
open and close the same devices between any two calls of the shim, and use the
ones that are free. A device that clears itself is unbound by the last close.
-/
namespace RustExtensions.Shim

open RustExtensions.Transition
open RustExtensions.Calls

/-- `mine` tells the bindings that the shim has made; the kernel knows no such thing. -/
structure Binding where
  file : String
  mine : Bool
  autoclear : Bool := false
  deriving DecidableEq

/-- `others` counts the open descriptors of other processes. -/
structure LoopDevice where
  binding : Option Binding := none
  others : Nat := 0

/-- Another process closes a descriptor. -/
def LoopDevice.release (dev : LoopDevice) : LoopDevice := { dev with others := dev.others - 1 }

/-- `device` says which loop device a path names, `fds` what the shim has opened. -/
structure LoopKernel where
  device : String → Option Nat
  devices : Nat → LoopDevice := fun _ => {}
  fds : List (Nat × String) := []
  nextFd : Nat := 3

inductive Interference where
  | open (d : Nat)
  | close (d : Nat)
  | bind (d : Nat) (file : String) (autoclear : Bool)
  | clear (d : Nat)

namespace LoopKernel

def update (κ : LoopKernel) (d : Nat) (f : LoopDevice → LoopDevice) : LoopKernel :=
  { κ with devices := fun e => if e = d then f (κ.devices e) else κ.devices e }

def setBinding (κ : LoopKernel) (d : Nat) (b : Option Binding) : LoopKernel :=
  κ.update d fun dev => { dev with binding := b }

/-- The open descriptors of a device, whoever has them. -/
def opens (κ : LoopKernel) (d : Nat) : Nat :=
  (κ.devices d).others + κ.fds.countP fun f => κ.device f.2 = some d

/-- After a close: the device is unbound if it was the last one and the device clears itself. -/
def settle (κ : LoopKernel) (d : Nat) : LoopKernel :=
  if κ.opens d = 0 ∧ (κ.devices d).binding.any (·.autoclear) then κ.setBinding d none else κ

def others (κ : LoopKernel) : Interference → Option LoopKernel
  | .open d => some (κ.update d fun dev => { dev with others := dev.others + 1 })
  | .close d =>
    if 0 < (κ.devices d).others then
      some ((κ.update d .release).settle d)
    else none
  | .bind d file autoclear =>
    if 0 < (κ.devices d).others ∧ (κ.devices d).binding = none then
      some (κ.setBinding d (some { file, mine := false, autoclear }))
    else none
  | .clear d => if 0 < (κ.devices d).others then some (κ.setBinding d none) else none

def path (κ : LoopKernel) (fd : Nat) : Option String := κ.fds.lookup fd

def deviceOf (κ : LoopKernel) (fd : Nat) : Option Nat := (κ.path fd).bind κ.device

def closeFd (κ : LoopKernel) (fd : Nat) : LoopKernel :=
  let closed : LoopKernel := { κ with fds := κ.fds.eraseP fun f => f.1 = fd }
  match κ.deviceOf fd with
  | some d => closed.settle d
  | none => closed

def enotty : OsError := { code := 25, name := "ENOTTY", desc := "Inappropriate ioctl for device" }

def enxio : OsError := { code := 6, name := "ENXIO", desc := "No such device or address" }

/-- LOOP_SET_FD, which a device that is bound refuses. -/
def setFd (κ : LoopKernel) (fd back : Nat) : Except OsError Nat × LoopKernel :=
  match κ.deviceOf fd, κ.path back with
  | some d, some file =>
    if (κ.devices d).binding = none then
      (.ok 0, κ.setBinding d (some { file, mine := true }))
    else (.error .ebusy, κ)
  | _, _ => (.error enotty, κ)

/-- An ioctl on a device that is bound. -/
def onBinding (κ : LoopKernel) (fd : Nat) (f : Binding → Option Binding) :
    Except OsError Nat × LoopKernel :=
  match κ.deviceOf fd with
  | some d =>
    match (κ.devices d).binding with
    | some b => (.ok 0, κ.setBinding d (f b))
    | none => (.error enxio, κ)
  | none => (.error enotty, κ)

/-- A call may fail for reasons of its own, except a close. -/
def exec (κ : LoopKernel) (c : SysCall) (outcome : Except OsError Nat) :
    Option (Except OsError Nat × LoopKernel) :=
  match c, outcome with
  | .close fd, _ => some (.ok 0, κ.closeFd fd)
  | _, .error e => some (.error e, κ)
  | .open path _, .ok _ => some (.ok κ.nextFd, { κ with
      fds := (κ.nextFd, path) :: κ.fds
      nextFd := κ.nextFd + 1 })
  | .loopCtlGetFree _, .ok num => some (.ok num, κ)
  | .loopSetFd fd back, .ok _ => some (κ.setFd fd back)
  | .loopSetStatus64 fd info, .ok _ => some (κ.onBinding fd fun b =>
      some { b with autoclear := info.flags &&& loFlagsAutoclear ≠ 0 })
  | .loopSetDirectIo fd, .ok _ => some (κ.onBinding fd some)
  | .loopClrFd fd, .ok _ => some (κ.onBinding fd fun _ => none)
  | .unshareFs, .ok _ => some (.ok 0, κ)
  | .chdir _, .ok _ => some (.ok 0, κ)
  | .mount _, .ok _ => some (.ok 0, κ)

/-- The device is bound, and by the shim. -/
def Mine (κ : LoopKernel) (d : Nat) : Prop := (κ.devices d).binding.any (·.mine)

instance (κ : LoopKernel) (d : Nat) : Decidable (κ.Mine d) := inferInstanceAs (Decidable (_ = _))

end LoopKernel

def loopHost : Host LoopKernel SysCall (Except OsError Nat) Interference (Except OsError Nat) where
  others := LoopKernel.others
  exec := LoopKernel.exec

/-- Of a device that the shim has bound, nobody closes the last descriptor: not another process,
and not the shim unless another process has the device open. Nobody else clears it. -/
def KeptOpen : Rules LoopKernel SysCall Interference where
  others κ
    | .close d => κ.Mine d → 1 < κ.opens d
    | .clear d => ¬κ.Mine d
    | _ => True
  calls κ
    | .close fd => ∀ d ∈ κ.deviceOf fd, κ.Mine d → 1 < κ.opens d
    | _ => True

instance (κ : LoopKernel) : ∀ i, Decidable (KeptOpen.others κ i)
  | .close d => inferInstanceAs (Decidable (κ.Mine d → 1 < κ.opens d))
  | .clear d => inferInstanceAs (Decidable (¬κ.Mine d))
  | .open _ | .bind _ _ _ => .isTrue trivial

instance (κ : LoopKernel) : ∀ c, Decidable (KeptOpen.calls κ c)
  | .close fd => inferInstanceAs (Decidable (∀ d ∈ κ.deviceOf fd, κ.Mine d → 1 < κ.opens d))
  | .open _ _ | .loopCtlGetFree _ | .loopSetFd _ _ | .loopSetStatus64 _ _ | .loopSetDirectIo _
  | .loopClrFd _ | .unshareFs | .chdir _ | .mount _ => .isTrue trivial

namespace LoopKernel

variable {κ κ' : LoopKernel} {d e : Nat} {src path : String} {b : Option Binding}

/-- The device that `path` names is bound to the source. -/
def BoundTo (κ : LoopKernel) (src path : String) : Prop :=
  ∃ d ∈ κ.device path, ∃ b ∈ (κ.devices d).binding, b.file = src

instance : Decidable (κ.BoundTo src path) :=
  inferInstanceAs (Decidable (∃ d ∈ κ.device path, ∃ b ∈ (κ.devices d).binding, b.file = src))

/-- The shim has bound it. -/
def Attached (κ : LoopKernel) (src path : String) : Prop :=
  ∃ d b, κ.device path = some d ∧ (κ.devices d).binding = some b ∧ b.file = src ∧ b.mine = true

theorem Attached.boundTo (h : κ.Attached src path) : κ.BoundTo src path := by
  obtain ⟨d, b, hd, hb, hfile, -⟩ := h
  exact ⟨d, hd, b, hb, hfile⟩

/-! ## What keeps a device attached -/

@[simp] theorem device_setBinding : (κ.setBinding d b).device = κ.device := rfl

@[simp] theorem fds_setBinding : (κ.setBinding d b).fds = κ.fds := rfl

theorem binding_setBinding :
    ((κ.setBinding d b).devices e).binding = if e = d then b else (κ.devices e).binding := by
  simp only [setBinding, update]
  split <;> rfl

theorem Attached.setBinding (h : κ.Attached src path)
    (hd : ∀ b₀, (κ.devices d).binding = some b₀ → b₀.mine = true →
      ∃ b₁, b = some b₁ ∧ b₁.file = b₀.file ∧ b₁.mine = true) :
    (κ.setBinding d b).Attached src path := by
  obtain ⟨e, b₀, hpath, hbinding, rfl, hmine⟩ := h
  by_cases he : e = d
  · obtain ⟨b₁, rfl, hfile, hmine'⟩ := hd b₀ (he ▸ hbinding) hmine
    exact ⟨e, b₁, hpath, by rw [binding_setBinding, if_pos he], hfile, hmine'⟩
  · exact ⟨e, b₀, hpath, by rw [binding_setBinding, if_neg he, hbinding], rfl, hmine⟩

/-- A change of the descriptors of others alone. -/
theorem Attached.update {f : LoopDevice → LoopDevice} (h : κ.Attached src path)
    (hf : ∀ dev, (f dev).binding = dev.binding) : (κ.update d f).Attached src path := by
  obtain ⟨e, b, hpath, hbinding, hfile, hmine⟩ := h
  refine ⟨e, b, hpath, ?_, hfile, hmine⟩
  simp only [LoopKernel.update]
  split
  · rw [hf, hbinding]
  · exact hbinding

theorem mine_of_binding {b₀ : Binding} (h : (κ.devices d).binding = some b₀)
    (hmine : b₀.mine = true) : κ.Mine d := by
  rw [Mine, h]
  exact hmine

theorem Attached.settle (h : κ.Attached src path) (hd : κ.Mine d → 0 < κ.opens d) :
    (κ.settle d).Attached src path := by
  unfold LoopKernel.settle
  split
  · next hlast =>
    apply h.setBinding
    intro b₀ hb hmine
    have hpos := hd (mine_of_binding hb hmine)
    omega
  · exact h

theorem opens_update {f : LoopDevice → LoopDevice} :
    (κ.update d f).opens d =
      (f (κ.devices d)).others + κ.fds.countP fun f => κ.device f.2 = some d := by
  have hself : (κ.update d f).devices d = f (κ.devices d) := if_pos rfl
  rw [opens, hself]
  rfl

theorem mine_update {f : LoopDevice → LoopDevice} (hf : ∀ dev, (f dev).binding = dev.binding) :
    (κ.update d f).Mine d ↔ κ.Mine d := by
  simp [Mine, LoopKernel.update, hf]

theorem Attached.others {i : Interference} (h : κ.Attached src path)
    (hok : KeptOpen.others κ i) (hi : κ.others i = some κ') : κ'.Attached src path := by
  cases i with
  | «open» d =>
    obtain rfl := Option.some.inj hi
    exact h.update fun _ => rfl
  | close d =>
    obtain ⟨hothers, rfl⟩ := (Option.ite_none_right_eq_some.mp hi).imp_right Option.some.inj
    have hsame : ∀ dev : LoopDevice, dev.release.binding = dev.binding := fun _ => rfl
    apply (h.update hsame).settle
    intro hmine
    rw [mine_update hsame] at hmine
    have hkept : 1 < κ.opens d := hok hmine
    rw [opens_update]
    unfold opens at hkept
    dsimp only [LoopDevice.release]
    omega
  | bind d file autoclear =>
    obtain ⟨⟨-, hfree⟩, rfl⟩ := (Option.ite_none_right_eq_some.mp hi).imp_right Option.some.inj
    apply h.setBinding
    intro b₀ hb _
    rw [hfree] at hb
    cases hb
  | clear d =>
    obtain ⟨-, rfl⟩ := (Option.ite_none_right_eq_some.mp hi).imp_right Option.some.inj
    exact h.setBinding fun b₀ hb hmine => absurd (mine_of_binding hb hmine) hok

/-- What others never touch. -/
structure Undisturbed (κ κ' : LoopKernel) : Prop where
  device : κ'.device = κ.device
  fds : κ'.fds = κ.fds
  nextFd : κ'.nextFd = κ.nextFd

theorem undisturbed_settle (κ : LoopKernel) (d : Nat) : Undisturbed κ (κ.settle d) := by
  unfold settle
  split <;> exact ⟨rfl, rfl, rfl⟩

theorem undisturbed_others {i : Interference} (hi : κ.others i = some κ') : Undisturbed κ κ' := by
  cases i with
  | «open» d =>
    obtain rfl := Option.some.inj hi
    exact ⟨rfl, rfl, rfl⟩
  | close d =>
    obtain ⟨-, rfl⟩ := (Option.ite_none_right_eq_some.mp hi).imp_right Option.some.inj
    obtain ⟨hdevice, hfds, hnext⟩ := undisturbed_settle (κ.update d .release) d
    exact ⟨hdevice, hfds, hnext⟩
  | bind d file autoclear =>
    obtain ⟨-, rfl⟩ := (Option.ite_none_right_eq_some.mp hi).imp_right Option.some.inj
    exact ⟨rfl, rfl, rfl⟩
  | clear d =>
    obtain ⟨-, rfl⟩ := (Option.ite_none_right_eq_some.mp hi).imp_right Option.some.inj
    exact ⟨rfl, rfl, rfl⟩

theorem Attached.rely (h : κ.Attached src path) (hκ : Rely loopHost KeptOpen κ κ') :
    κ'.Attached src path := by
  induction hκ with
  | refl => exact h
  | tail _ hstep ih =>
    obtain ⟨i, hok, hi⟩ := hstep
    exact ih.others hok hi

theorem undisturbed_rely (hκ : Rely loopHost KeptOpen κ κ') : Undisturbed κ κ' := by
  induction hκ with
  | refl => exact ⟨rfl, rfl, rfl⟩
  | tail _ hstep ih =>
    obtain ⟨i, -, hi⟩ := hstep
    obtain ⟨hdevice, hfds, hnext⟩ := undisturbed_others hi
    exact ⟨hdevice.trans ih.device, hfds.trans ih.fds, hnext.trans ih.nextFd⟩

/-! ## What the shim's own calls do -/

/-- The shim has the path open. -/
structure Opened (κ : LoopKernel) (fd : Nat) (path : String) : Prop where
  path : κ.path fd = some path
  lt : fd < κ.nextFd

theorem Opened.rely {fd : Nat} (h : κ.Opened fd path) (hκ : Rely loopHost KeptOpen κ κ') :
    κ'.Opened fd path := by
  obtain ⟨-, hfds, hnext⟩ := undisturbed_rely hκ
  refine ⟨?_, hnext ▸ h.lt⟩
  rw [LoopKernel.path, hfds]
  exact h.path

theorem exec_open {write : Bool} {outcome : Except OsError Nat} {n : Nat}
    (h : κ.exec (.open path write) outcome = some (.ok n, κ')) :
    κ'.Opened n path ∧ ∀ fd src, κ.Opened fd src → fd ≠ n ∧ κ'.Opened fd src := by
  cases outcome with
  | error e => cases h
  | ok m =>
    obtain ⟨hn, rfl⟩ := Prod.mk.inj (Option.some.inj h)
    obtain rfl := Except.ok.inj hn
    refine ⟨⟨?_, Nat.lt_succ_self _⟩, fun fd src hfd => ?_⟩
    · simp [LoopKernel.path]
    · have hne : fd ≠ κ.nextFd := Nat.ne_of_lt hfd.lt
      refine ⟨hne, ?_, Nat.lt_succ_of_lt hfd.lt⟩
      have hpath := hfd.path
      simp only [LoopKernel.path] at hpath ⊢
      rw [List.lookup_cons, beq_eq_false_iff_ne.mpr hne]
      exact hpath

/-- LOOP_SET_FD attaches the device. -/
theorem exec_setFd {fd back : Nat} {outcome : Except OsError Nat} {n : Nat}
    (hfd : κ.Opened fd path) (hback : κ.Opened back src)
    (h : κ.exec (.loopSetFd fd back) outcome = some (.ok n, κ')) : κ'.Attached src path := by
  cases outcome with
  | error e => cases h
  | ok m =>
    have hset : κ.setFd fd back = (.ok n, κ') := Option.some.inj h
    unfold setFd at hset
    rw [hback.path] at hset
    split at hset
    · next d file hd hfile =>
      obtain rfl := Option.some.inj hfile
      split at hset
      · obtain ⟨-, rfl⟩ := Prod.mk.inj hset
        rw [deviceOf, hfd.path] at hd
        exact ⟨d, _, hd, by rw [binding_setBinding, if_pos rfl], rfl, rfl⟩
      · cases (Prod.mk.inj hset).1
    · cases (Prod.mk.inj hset).1

theorem countP_eraseP {q r : Nat × String → Bool} (fds : List (Nat × String)) :
    fds.countP r ≤ (fds.eraseP q).countP r + 1 := by
  by_cases h : ∃ f ∈ fds, q f = true
  · obtain ⟨f, hf, hq⟩ := h
    obtain ⟨g, fds₁, fds₂, -, -, rfl, herase⟩ := List.exists_of_eraseP hf hq
    rw [herase, List.countP_append, List.countP_cons, List.countP_append]
    split <;> omega
  · have hnone : ∀ f ∈ fds, ¬q f = true := fun f hf hq => h ⟨f, hf, hq⟩
    rw [List.eraseP_of_forall_not hnone]
    exact Nat.le_succ _

/-- A close that leaves another descriptor leaves the device attached. -/
theorem Attached.closeFd {fd : Nat} (h : κ.Attached src path)
    (hok : KeptOpen.calls κ (.close fd)) : (κ.closeFd fd).Attached src path := by
  unfold LoopKernel.closeFd
  dsimp only
  split
  · next d hd =>
    have hclosed : ({ κ with fds := κ.fds.eraseP fun f => f.1 = fd } : LoopKernel).Attached
        src path := h
    apply hclosed.settle
    intro hmine
    have hkept : 1 < κ.opens d := hok d hd hmine
    have hcount := countP_eraseP (q := fun f => f.1 = fd)
      (r := fun f => κ.device f.2 = some d) κ.fds
    unfold opens at hkept ⊢
    dsimp only at hcount ⊢
    omega
  · exact h

theorem Attached.onBinding {fd : Nat} {f : Binding → Option Binding} {r : Except OsError Nat}
    (h : κ.Attached src path) (he : κ.onBinding fd f = (r, κ'))
    (hf : ∀ b₀, ∃ b₁, f b₀ = some b₁ ∧ b₁.file = b₀.file ∧ b₁.mine = b₀.mine) :
    κ'.Attached src path := by
  unfold LoopKernel.onBinding at he
  split at he
  · next d hd =>
    split at he
    · next b hb =>
      obtain ⟨-, rfl⟩ := Prod.mk.inj he
      apply h.setBinding
      intro b₀ hb₀ hmine
      obtain ⟨b₁, hb₁, hfile, hmine₁⟩ := hf b
      obtain rfl := Option.some.inj (hb.symm.trans hb₀)
      exact ⟨b₁, hb₁, hfile, hmine₁.trans hmine⟩
    · obtain ⟨-, rfl⟩ := Prod.mk.inj he
      exact h
  · obtain ⟨-, rfl⟩ := Prod.mk.inj he
    exact h

/-- The calls on a device that is set up. -/
theorem Attached.exec_setup {fd : Nat} {c : SysCall} {outcome r : Except OsError Nat}
    (h : κ.Attached src path)
    (hc : (∃ info, c = .loopSetStatus64 fd info) ∨ c = .loopSetDirectIo fd)
    (he : κ.exec c outcome = some (r, κ')) : κ'.Attached src path := by
  cases outcome with
  | error e =>
    have hsame : κ' = κ := by
      rcases hc with ⟨info, rfl⟩ | rfl <;> exact (Prod.mk.inj (Option.some.inj he)).2.symm
    exact hsame ▸ h
  | ok n =>
    rcases hc with ⟨info, rfl⟩ | rfl
    · exact h.onBinding (Option.some.inj he) fun _ => ⟨_, rfl, rfl, rfl⟩
    · exact h.onBinding (Option.some.inj he) fun _ => ⟨_, rfl, rfl, rfl⟩

end LoopKernel
end RustExtensions.Shim
