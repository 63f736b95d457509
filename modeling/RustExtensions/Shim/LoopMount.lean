import RustExtensions.Shim.LoopDevice

/-!
# What is mounted from a loop device

`setup_loop` returns the name of a device and drops its file. The device stays
attached up to mount(2) as long as some other process keeps it open.
-/
namespace RustExtensions.Shim

open RustExtensions.Transition
open RustExtensions.Calls
open LoopKernel

/-- A mount from a device is one from a device that is attached to the source. -/
def MountsAttached (source : Option String) : SysCall → LoopKernel → Prop
  | .mount args, κ => ∀ path ∈ args.source, ∃ src ∈ source, κ.Attached src path
  | _, _ => True

variable {source : Option String} {src path : String} {κ κ' : LoopKernel} {α : Type}
  {Q : α → LoopKernel → Prop}

abbrev Attaching (source : Option String) (Q : α → LoopKernel → Prop) (p : Fallible α)
    (κ : LoopKernel) : Prop :=
  AlwaysOk loopHost KeptOpen (MountsAttached source) Q p κ

/-! ## Rules for the calls -/

theorem attaching_sys {c : SysCall} {err : OsError → Error} {Q : Nat → LoopKernel → Prop}
    (hc : ∀ κ', Rely loopHost KeptOpen κ κ' → MountsAttached source c κ')
    (hQ : ∀ κ₁ outcome n κ₂ κ₃, Rely loopHost KeptOpen κ κ₁ → κ₁.exec c outcome = some (.ok n, κ₂) →
      Rely loopHost KeptOpen κ₂ κ₃ → Q n κ₃) : Attaching source Q (sys c err) κ := by
  intro κ₁ hκ₁
  refine ⟨hc κ₁ hκ₁, fun _ outcome r κ₂ he => ?_⟩
  cases r with
  | ok n =>
    intro κ₃ hκ₃ a ha
    obtain rfl := Except.ok.inj ha
    exact hQ κ₁ outcome n κ₂ κ₃ hκ₁ he hκ₃
  | error e =>
    intro κ₃ _ a ha
    cases ha

theorem attaching_pure {a : α} (h : κ.Attached src path) :
    Attaching source (fun _ κ => κ.Attached src path) (pure a) κ := .pure fun _ hκ => h.rely hκ

theorem attaching_orPanic {a : Option α} (h : κ.Attached src path) :
    Attaching source (fun _ κ => κ.Attached src path) (orPanic a) κ := by
  cases a with
  | some a => exact attaching_pure h
  | none => trivial

/-- A file that is dropped, where the device is attached whatever else is closed. -/
theorem always_close {fd : Nat} (h : κ.Attached src path) :
    Always loopHost KeptOpen (MountsAttached source) (fun _ κ => κ.Attached src path)
      (ignored (.close fd)) κ := by
  intro κ₁ hκ₁
  refine ⟨trivial, fun hok outcome r κ₂ he => ?_⟩
  intro κ₃ hκ₃
  obtain ⟨-, rfl⟩ := Prod.mk.inj (Option.some.inj he)
  exact Attached.rely (Attached.closeFd (h.rely hκ₁) hok) hκ₃

/-- No call of the program is a mount. -/
abbrev NoMount {β : Type} (p : Syscalls β) : Prop := p.OnlyCalls fun c => ∀ args, c ≠ .mount args

theorem noMount_close {fd : Nat} : NoMount (ignored (.close fd)) :=
  onlyCalls_ignored fun _ h => (nomatch h)

theorem always_of_noMount {β : Type} {p : Syscalls β} (h : NoMount p) :
    Always loopHost KeptOpen (MountsAttached source) (fun _ _ => True) p κ := by
  apply Always.of_onlyCalls h
  intro c κ hc
  cases c with
  | mount args => exact absurd rfl (hc args)
  | _ => trivial

theorem attaching_closing {fd : Nat} {body : Fallible α}
    (h : Attaching source (fun _ κ => κ.Attached src path) body κ) :
    Attaching source (fun _ κ => κ.Attached src path) (closing fd body) κ := by
  refine Always.atExit h ?_ fun κ' => always_of_noMount noMount_close
  intro r κ' hr
  cases r with
  | ok a => exact (always_close (hr κ' .refl a rfl)).mono fun _ _ h _ _ => h
  | error e => exact (always_of_noMount noMount_close).mono fun _ _ _ _ h => (nomatch h)

theorem attaching_returning {fd : Nat} {body : Fallible Unit}
    (h : Attaching source (fun _ κ => κ.Attached src path) body κ) :
    Attaching source (fun _ κ => κ.Attached src path) (returning fd body) κ := by
  have hbody : Always loopHost KeptOpen (MountsAttached source)
      (fun r κ => ∀ u : Unit, r = .ok u → κ.Attached src path)
      (body.run.atExit (closeUnlessOk fd)) κ := by
    refine Always.atExit h ?_ fun κ' => always_of_noMount noMount_close
    intro r κ' hr
    cases r with
    | ok u => exact fun κ₁ hκ₁ _ _ => hr κ₁ hκ₁ u rfl
    | error e => exact (always_of_noMount noMount_close).mono fun _ _ _ _ h => (nomatch h)
  apply hbody.bind
  intro r κ' hr κ₁ hκ₁ a ha
  cases r with
  | ok u => exact hr κ₁ hκ₁ u rfl
  | error e => cases ha

theorem attaching_orClear {fd : Nat} {c : SysCall}
    (hc : (∃ info, c = .loopSetStatus64 fd info) ∨ c = .loopSetDirectIo fd) (h : κ.Attached src path) :
    Attaching source (fun _ κ => κ.Attached src path) (orClear fd c) κ := by
  intro κ₁ hκ₁
  refine ⟨by rcases hc with ⟨info, rfl⟩ | rfl <;> trivial, fun _ outcome r κ₂ he => ?_⟩
  have hκ₂ := Attached.exec_setup (h.rely hκ₁) hc he
  cases r with
  | ok n => exact fun κ₃ hκ₃ _ _ => hκ₂.rely hκ₃
  | error e => exact fun κ₃ _ => ⟨trivial, fun _ _ _ _ _ _ _ _ h => (nomatch h)⟩

/-! ## The device is set up -/

theorem attaching_backingFileTruncated {backingFile : String} (h : κ.Attached src path) :
    Attaching source (fun _ κ => κ.Attached src path) (backingFileTruncated backingFile) κ := by
  unfold backingFileTruncated
  split
  · exact attaching_orPanic h
  · exact attaching_pure h

theorem attaching_setupLoopDev {loopDev : String} {params : LoopParams} :
    Attaching source (fun _ κ => κ.Attached src loopDev) (setupLoopDev src loopDev params) κ := by
  unfold setupLoopDev
  refine AlwaysOk.bind (Q := fun back κ => κ.Opened back src)
    (attaching_sys (fun _ _ => trivial) fun κ₁ outcome n κ₂ κ₃ _ he hκ₃ =>
      Opened.rely (exec_open he).1 hκ₃) ?_
  intro back κ₁ hback
  apply attaching_closing
  refine AlwaysOk.bind (Q := fun fd κ => κ.Opened back src ∧ κ.Opened fd loopDev)
    (attaching_sys (fun _ _ => trivial) fun κ₂ outcome n κ₃ κ₄ hκ₂ he hκ₄ => ?_) ?_
  · obtain ⟨hopened, hothers⟩ := exec_open he
    exact ⟨Opened.rely (hothers back src (hback κ₂ hκ₂)).2 hκ₄, Opened.rely hopened hκ₄⟩
  intro fd κ₂ hfds
  apply attaching_returning
  refine AlwaysOk.bind (Q := fun _ κ => κ.Attached src loopDev)
    (attaching_sys (fun _ _ => trivial) fun κ₃ outcome n κ₄ κ₅ hκ₃ he hκ₅ => ?_) ?_
  · obtain ⟨hback, hfd⟩ := hfds κ₃ hκ₃
    exact (exec_setFd hfd hback he).rely hκ₅
  intro _ κ₃ hattached
  apply AlwaysOk.bind (attaching_backingFileTruncated (hattached κ₃ .refl))
  intro truncated κ₄ hattached
  refine AlwaysOk.bind (Q := fun _ κ => κ.Attached src loopDev)
    (attaching_orClear (.inl ⟨_, rfl⟩) (hattached κ₄ .refl)) ?_
  intro _ κ₅ hattached
  split
  · exact attaching_orClear (.inr rfl) (hattached κ₅ .refl)
  · exact attaching_pure (hattached κ₅ .refl)

theorem noMount_getFreeLoopDev : NoMount getFreeLoopDev.run := by
  refine Program.OnlyCalls.exceptBind (onlyCalls_sys fun _ h => (nomatch h)) fun fd => ?_
  exact onlyCalls_closing (onlyCalls_sys fun _ h => (nomatch h)) fun _ h => (nomatch h)

theorem attaching_setupLoopRounds {params : LoopParams} {n : Nat} :
    Attaching source (fun path κ => κ.Attached src path) (setupLoopRounds src params n) κ := by
  induction n generalizing κ with
  | zero => exact .throw
  | succ n ih =>
    unfold setupLoopRounds
    refine AlwaysOk.bind (Q := fun _ _ => True) ?_ ?_
    · exact (always_of_noMount noMount_getFreeLoopDev).mono fun _ _ _ _ _ => trivial
    intro num κ₁ _
    apply Always.bind attaching_setupLoopDev
    intro r κ₂ hr
    cases r with
    | ok file =>
      apply Always.bind (always_close (hr κ₂ .refl file rfl))
      intro _ κ₃ hattached κ₄ hκ₄ path hpath
      obtain rfl := Except.ok.inj hpath
      exact hattached κ₄ hκ₄
    | error e =>
      dsimp only
      split
      · exact ih
      · exact fun _ _ _ h => (nomatch h)

theorem attaching_setupLoop {params : LoopParams} :
    Attaching source (fun path κ => ∃ src ∈ source, κ.Attached src path)
      (setupLoop source params) κ := by
  cases source with
  | none => exact .throw
  | some src => exact Always.mono attaching_setupLoopRounds fun _ _ h a ha => ⟨src, rfl, h a ha⟩

/-! ## The options still ask for a loop device -/

theorem compact_loop {c : LowerdirCompactor} {r : Option String × List String}
    (h : c.compact = some r) (hloop : "loop" ∈ c.options) : "loop" ∈ r.2 := by
  unfold LowerdirCompactor.compact at h
  obtain ⟨c', hc', h⟩ := Option.bind_eq_some_iff.mp h
  have hoptions : c'.options = c.options := by
    unfold LowerdirCompactor.setLowerdirPrefix at hc'
    split at hc'
    · obtain rfl := Option.some.inj hc'
      rfl
    · obtain ⟨_, -, hc'⟩ := Option.bind_eq_some_iff.mp hc'
      obtain ⟨_, -, hc'⟩ := Option.bind_eq_some_iff.mp hc'
      obtain rfl := Option.some.inj hc'
      rfl
  split at h
  · obtain rfl := Option.some.inj h
    refine List.mem_map.mpr ⟨"loop", hoptions ▸ hloop, ?_⟩
    exact if_neg (by decide)
  · obtain rfl := Option.some.inj h
    exact hoptions ▸ hloop

theorem loSetup_add {o : ParsedOptions} {x : String} (h : o.loSetup = true ∨ x = "loop") :
    (o.add x).loSetup = true := by
  unfold ParsedOptions.add
  split
  · next f hf =>
    have hset : o.loSetup = true := by
      apply h.resolve_right
      intro hx
      subst hx
      cases hf
    split <;> exact hset
  · split
    · rfl
    · next hx => exact h.resolve_right hx

theorem loSetup_parseOptions {options : List String} (h : "loop" ∈ options) :
    (parseOptions options).loSetup = true := by
  have hfold : ∀ o : ParsedOptions, o.loSetup = true ∨ "loop" ∈ options →
      (options.foldl ParsedOptions.add o).loSetup = true := by
    clear h
    induction options with
    | nil => exact fun o h => h.resolve_right (List.not_mem_nil)
    | cons x options ih =>
      intro o h
      apply ih (o.add x)
      rcases h with h | h
      · exact .inl (loSetup_add (.inl h))
      · exact (List.mem_cons.mp h).imp (fun hx => loSetup_add (.inr hx.symm)) id
  exact hfold {} (.inr h)

/-! ## Up to the mount -/

theorem compactedOptions_loop {pageSize : Nat} {fsType : Option String} {options : List String}
    {r : Option String × List String} (h : compactedOptions pageSize fsType options = some r)
    (hloop : "loop" ∈ options) : "loop" ∈ r.2 := by
  unfold compactedOptions at h
  split at h
  · split at h
    · cases h
    · split at h
      · exact compact_loop h hloop
      · obtain rfl := Option.some.inj h
        exact hloop
  · obtain rfl := Option.some.inj h
    exact hloop

theorem attaching_compactOptions {pageSize : Nat} {fsType : Option String} {options : List String}
    (hloop : "loop" ∈ options) :
    Attaching source (fun r _ => "loop" ∈ r.2) (compactOptions pageSize fsType options) κ := by
  unfold compactOptions
  generalize hcompact : compactedOptions pageSize fsType options = compacted
  cases compacted with
  | some r => exact .pure fun _ _ => compactedOptions_loop hcompact hloop
  | none => trivial

theorem attaching_changeDir {chdir : Option String} :
    Attaching source (fun _ _ => True) (changeDir chdir) κ := by
  cases chdir with
  | none => exact .pure fun _ _ => trivial
  | some workdir =>
    refine AlwaysOk.bind (Q := fun _ _ => True)
      (attaching_sys (fun _ _ => trivial) fun _ _ _ _ _ _ _ _ => trivial) ?_
    intro _ κ₁ _ κ₂ _
    refine ⟨trivial, fun _ outcome r κ₃ _ => ?_⟩
    cases r with
    | ok n => exact fun _ _ _ _ => trivial
    | error e => trivial

theorem attaching_mountSource {oflags : MsFlags} :
    Attaching source (fun s κ => ∀ path ∈ s, ∃ src ∈ source, κ.Attached src path)
      (mountSource source true oflags) κ := by
  apply AlwaysOk.bind attaching_setupLoop
  intro path κ₁ hattached
  exact .pure fun κ₂ hκ₂ path' hpath' => Option.some.inj hpath' ▸ hattached κ₂ hκ₂

theorem attaching_mountData {fsType data : Option String} {target : String}
    {flags oflags : MsFlags} :
    Attaching source (fun _ _ => True)
      (mountData fsType source target flags oflags data true) κ := by
  unfold mountData
  split
  · apply AlwaysOk.bind attaching_mountSource
    intro s κ₁ hattached
    refine AlwaysOk.bind (Q := fun _ _ => True)
      (attaching_sys hattached fun _ _ _ _ _ _ _ _ => trivial) ?_
    exact fun _ _ _ => .pure fun _ _ => trivial
  · exact .pure fun _ _ => trivial

theorem attaching_changeMount {changed : Bool} {target what : String} {flags : MsFlags} :
    Attaching source (fun _ _ => True) (changeMount changed target flags what) κ := by
  unfold changeMount
  split
  · refine AlwaysOk.bind (Q := fun _ _ => True)
      (attaching_sys (fun _ _ path h => nomatch h) fun _ _ _ _ _ _ _ _ => trivial) ?_
    exact fun _ _ _ => .pure fun _ _ => trivial
  · exact .pure fun _ _ => trivial

theorem attaching_mountRootfs {pageSize : Nat} {fsType : Option String} {options : List String}
    {target : String} (hloop : "loop" ∈ options) :
    Attaching source (fun _ _ => True) (mountRootfs pageSize fsType source options target) κ := by
  unfold mountRootfs
  apply AlwaysOk.bind (attaching_compactOptions hloop)
  intro (chdir, options) κ₁ hmem
  have hsetup : (parseOptions options).loSetup = true := loSetup_parseOptions (hmem κ₁ .refl)
  dsimp only
  rw [hsetup]
  apply AlwaysOk.bind attaching_changeDir
  intro _ κ₂ _
  apply AlwaysOk.bind attaching_mountData
  intro _ κ₃ _
  exact AlwaysOk.bind attaching_changeMount fun _ _ _ => attaching_changeMount

variable {κ₀ : LoopKernel} {pageSize : Nat} {fsType : Option String} {options : List String}
  {target : String} {s : LoopKernel × Syscalls (Except Error Unit)} {args : MountArgs}

/-- As long as the device is kept open, it is bound to the source when it is mounted. -/
theorem mounts_attached (hloop : "loop" ∈ options)
    (h : (loopHost.running κ₀ (mountRootfs pageSize fsType source options target).run).Reachable
      KeptOpen.Admit s)
    (hs : s.2.standing = some (.mount args)) (hpath : path ∈ args.source) :
    ∃ src ∈ source, s.1.BoundTo src path := by
  obtain ⟨src, hsrc, hattached⟩ := (attaching_mountRootfs hloop).at_call h hs path hpath
  exact ⟨src, hsrc, hattached.boundTo⟩

/-! ## One loop device -/

def oneLoopDevice : LoopKernel where
  device path := if path = "/dev/loop0" then some 0 else none

/-- `mount -o loop /img /rootfs`. -/
def loopMount : System (LoopKernel × Syscalls (Except Error Unit))
    (Turn Interference (Except OsError Nat)) :=
  loopHost.running oneLoopDevice (mountRootfs 4096 none (some "/img") ["loop"] "/rootfs").run

/-- The calls up to the drop of the device's file. -/
def setUp : List (Turn Interference (Except OsError Nat)) := List.replicate 8 (.call (.ok 0))

def loopMountArgs : MountArgs :=
  { source := some "/dev/loop0", target := "/rootfs", fsType := none, flags := 0, data := none }

/-- Another process has opened the device before the shim closes it. -/
def watched : LoopKernel × Syscalls (Except Error Unit) :=
  loopMount.after KeptOpen.Admit loopMount.init (setUp ++ [.others (.open 0), .call (.ok 0)])

theorem mounts_attached_watched :
    watched.2.standing = some (.mount loopMountArgs) ∧ watched.1.BoundTo "/img" "/dev/loop0" := by
  have hreach : loopMount.Reachable KeptOpen.Admit watched := System.run_after (by decide +kernel)
  have hs : watched.2.standing = some (.mount loopMountArgs) := by decide +kernel
  obtain ⟨src, hsrc, hbound⟩ := mounts_attached (List.mem_singleton.mpr rfl) hreach hs rfl
  obtain rfl := Option.some.inj hsrc
  exact ⟨hs, hbound⟩

/-- Nobody else has the device open. -/
def idle : LoopKernel × Syscalls (Except Error Unit) :=
  loopMount.after System.Any loopMount.init (setUp ++ [.call (.ok 0)])

theorem idle_device_detached : ¬∀ (κ₀ : LoopKernel) (pageSize : Nat)
    (fsType source : Option String) (options : List String) (target : String)
    (s : LoopKernel × Syscalls (Except Error Unit)) (args : MountArgs) (path : String),
    "loop" ∈ options →
    (loopHost.running κ₀ (mountRootfs pageSize fsType source options target).run).Reachable
      System.Any s →
    s.2.standing = some (.mount args) → path ∈ args.source →
    ∃ src ∈ source, s.1.BoundTo src path := by
  intro h
  have hreach : loopMount.Reachable System.Any idle := System.run_after (by decide +kernel)
  have hs : idle.2.standing = some (.mount loopMountArgs) := by decide +kernel
  obtain ⟨src, hsrc, hbound⟩ := h oneLoopDevice 4096 none (some "/img") ["loop"] "/rootfs" idle
    loopMountArgs "/dev/loop0" (List.mem_singleton.mpr rfl) hreach hs rfl
  obtain rfl := Option.some.inj hsrc
  exact absurd hbound (by decide +kernel)

end RustExtensions.Shim
