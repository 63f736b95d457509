import RustExtensions.Shim.LoopSetup

/-!
# What a mount leaves behind

The asynchronous `mount_rootfs` runs on a thread that others use afterwards. Its
complete runs, with the working directory they leave to that thread.
-/
namespace RustExtensions.Shim

open RustExtensions.Calls
open RustExtensions.Calls.Program

variable {t t₁ t₂ : List Answered} {α : Type}

/-! ## Calls of the parts -/

/-- Neither a mount nor a change of the thread. -/
def SysCall.AboutLoop : SysCall → Prop
  | .mount _ | .unshareFs | .chdir _ => False
  | _ => True

theorem onlyCalls_getFreeLoopDev : getFreeLoopDev.run.OnlyCalls SysCall.AboutLoop := by
  refine OnlyCalls.exceptBind (onlyCalls_sys trivial) fun fd => ?_
  exact onlyCalls_closing (onlyCalls_sys trivial) trivial

theorem onlyCalls_setupLoopDev {backingFile loopDev : String} {params : LoopParams} :
    (setupLoopDev backingFile loopDev params).run.OnlyCalls SysCall.AboutLoop := by
  refine OnlyCalls.exceptBind (onlyCalls_sys trivial) fun back => onlyCalls_closing ?_ trivial
  refine OnlyCalls.exceptBind (onlyCalls_sys trivial) fun fd => onlyCalls_returning ?_ trivial
  refine OnlyCalls.exceptBind (onlyCalls_sys trivial) fun _ => OnlyCalls.exceptBind ?_ ?_
  · unfold backingFileTruncated
    split
    · exact onlyCalls_orPanic
    · trivial
  · intro truncated
    refine OnlyCalls.exceptBind (onlyCalls_orClear trivial trivial) fun _ => ?_
    split
    · exact onlyCalls_orClear trivial trivial
    · trivial

theorem onlyCalls_setupLoopRounds {src : String} {params : LoopParams} {n : Nat} :
    (setupLoopRounds src params n).run.OnlyCalls SysCall.AboutLoop := by
  induction n with
  | zero => trivial
  | succ n ih =>
    refine OnlyCalls.exceptBind onlyCalls_getFreeLoopDev fun num => ?_
    refine OnlyCalls.bind onlyCalls_setupLoopDev fun r => ?_
    cases r with
    | ok file => exact OnlyCalls.bind (onlyCalls_ignored trivial) fun _ => trivial
    | error er =>
      dsimp only
      split
      · exact ih
      · trivial

theorem onlyCalls_mountSource {source : Option String} {loSetup : Bool} {oflags : MsFlags} :
    (mountSource source loSetup oflags).run.OnlyCalls SysCall.AboutLoop := by
  unfold mountSource setupLoop
  split
  · refine OnlyCalls.bind ?_ fun r => ?_
    · cases source with
      | none => trivial
      | some src => exact onlyCalls_setupLoopRounds
    · cases r <;> trivial
  · trivial

/-! ## Where the set-up of a device stops -/

/-- The device is bound and its path cannot be cut. -/
def BadBind (path : String) (c : SysCall) (r : Except OsError Nat) : Prop :=
  Unsliceable path ∧ ∃ fd back n, c = .loopSetFd fd back ∧ r = .ok n

section StopsOn
variable {path loopDev : String} {params : LoopParams} {c : SysCall} {err : OsError → Error}

/-- A program that makes none of the calls and does not stop. -/
abbrev StopsOnBind (path : String) (p : Syscalls α) : Prop :=
  p.StopsOn (fun _ => True) (BadBind path)

theorem stopsOnBind_sys (hc : ∀ fd back, c ≠ .loopSetFd fd back) :
    StopsOnBind path (sys c err).run := by
  apply StopsOn.call
  · intro r h
    obtain ⟨-, fd, back, n, rfl, -⟩ := h
    exact hc fd back rfl
  · intro r
    cases r with
    | ok n => exact StopsOn.ret _
    | error er => exact StopsOn.ret _

theorem stopsOnBind_ignored {fd : Nat} : StopsOnBind path (ignored (.close fd)) := by
  apply StopsOn.call
  · intro r h
    obtain ⟨-, fd', back, n, hc, -⟩ := h
    cases hc
  · exact fun r => StopsOn.ret _

theorem stopsOnBind_getFreeLoopDev : StopsOnBind path getFreeLoopDev.run := by
  refine StopsOn.exceptBind (stopsOnBind_sys (by simp)) fun fd => ?_
  refine StopsOn.atExit (stopsOnBind_sys (by simp)) ?_
  intro a t u hu
  obtain ⟨r, t', rfl, hret⟩ := ends_call.mp hu
  obtain ⟨rfl, rfl⟩ := ends_ret.mp hret
  exact ⟨rfl, by simp [BadBind]⟩

theorem badBind_iff : (∃ q ∈ t, BadBind path q.1 q.2) ↔ Unsliceable path ∧ Bound t := by
  constructor
  · intro hexists
    obtain ⟨⟨c, r⟩, hq, hslice, fd, back, n, rfl, rfl⟩ := hexists
    exact ⟨hslice, fd, back, n, hq⟩
  · intro h
    obtain ⟨hslice, fd, back, n, hq⟩ := h
    exact ⟨_, hq, hslice, fd, back, n, rfl, rfl⟩

theorem stopsOnBind_setupLoopDev : StopsOnBind path (setupLoopDev path loopDev params).run := by
  intro t e he
  rw [badBind_iff]
  cases setupRun he with
  | noBacking er => simp [Bound]
  | noDevice back er closed hclosed => simp [Bound, (not_mem_closed hclosed).1]
  | opened back fd closed hrun hclosed =>
    have hset := (not_mem_closed hclosed).1
    cases hrun with
    | busy er => simp [Bound, Ending.map, hset]
    | sliced n hslice =>
      have hbound : Bound ((SysCall.open path !params.readonly, .ok back) ::
          (.open loopDev !params.readonly, .ok fd) :: ([(.loopSetFd fd back, .ok n)] ++ closed)) :=
        ⟨fd, back, n, by simp⟩
      exact ⟨fun _ => ⟨hslice, hbound⟩, fun _ => ⟨.panic, rfl, trivial⟩⟩
    | noStatus n info er clr hslice => simp [Ending.map, hslice]
    | noDirect n info m er clr hslice => simp [Ending.map, hslice]
    | setUp n info m direct truncated hslice => simp [Ending.map, hslice]

theorem stopsOnBind_setupLoopRounds {n : Nat} :
    StopsOnBind path (setupLoopRounds path params n).run := by
  induction n with
  | zero => exact StopsOn.ret _
  | succ n ih =>
    refine StopsOn.exceptBind stopsOnBind_getFreeLoopDev fun num => ?_
    refine StopsOn.bind stopsOnBind_setupLoopDev fun r => ?_
    cases r with
    | ok file => exact StopsOn.bind stopsOnBind_ignored fun _ => StopsOn.ret _
    | error er =>
      dsimp only
      split
      · exact ih
      · exact StopsOn.ret _

end StopsOn

/-! ## The mount once the options are compacted -/

/-- What follows the change of the directory. -/
def mountParsed (fsType source : Option String) (target : String) (o : ParsedOptions) :
    Fallible Unit := do
  let opt := String.intercalate "," o.data
  let data := if o.data ≠ [] then some opt else none
  let oflags := o.flags &&& ~~~propagationTypes
  mountData fsType source target o.flags oflags data o.loSetup
  changeMount (o.flags &&& propagationTypes ≠ 0) target msPropagation "mount propagation"
  changeMount (oflags &&& msBindRo = msBindRo) target (oflags ||| MsFlags.remount) "read-only"

section Parsed
variable {pageSize : Nat} {fsType source chdir : Option String} {options options' : List String}
  {target : String} {o : ParsedOptions} {e : Ending (Except Error Unit)}

theorem mountRootfs_of_compacted
    (h : compactedOptions pageSize fsType options = some (chdir, options')) :
    mountRootfs pageSize fsType source options target =
      (changeDir chdir >>= fun _ => mountParsed fsType source target (parseOptions options')) := by
  unfold mountRootfs compactOptions
  rw [h]
  rfl

theorem mountRootfs_of_panic (h : compactedOptions pageSize fsType options = none) :
    (mountRootfs pageSize fsType source options target).run = .panic := by
  unfold mountRootfs compactOptions
  rw [h]
  rfl

theorem stopsOnBind_mountData {flags oflags : MsFlags} {data : Option String} {loSetup : Bool} :
    StopsOnBind (source.getD "")
      (mountData fsType source target flags oflags data loSetup).run := by
  unfold mountData
  split
  · refine StopsOn.exceptBind ?_ fun s => StopsOn.exceptBind (stopsOnBind_sys (by simp)) fun _ =>
      StopsOn.ret _
    unfold mountSource setupLoop
    split
    · refine StopsOn.bind ?_ fun r => ?_
      · cases source with
        | none => exact StopsOn.ret _
        | some src => exact stopsOnBind_setupLoopRounds
      · cases r <;> exact StopsOn.ret _
    · exact StopsOn.ret _
  · exact StopsOn.ret _

theorem stopsOnBind_changeMount {path : String} {changed : Bool} {flags : MsFlags} {what : String} :
    StopsOnBind path (changeMount changed target flags what).run := by
  unfold changeMount
  split
  · exact StopsOn.exceptBind (stopsOnBind_sys (by simp)) fun _ => StopsOn.ret _
  · exact StopsOn.ret _

theorem stopsOnBind_mountParsed :
    StopsOnBind (source.getD "") (mountParsed fsType source target o).run :=
  StopsOn.exceptBind stopsOnBind_mountData fun _ =>
    StopsOn.exceptBind stopsOnBind_changeMount fun _ => stopsOnBind_changeMount

/-- The call is about a loop device, or it is a mount. -/
def SysCall.AboutMount (c : SysCall) : Prop := c.AboutLoop ∨ ∃ args, c = .mount args

theorem onlyCalls_changeMount {changed : Bool} {flags : MsFlags} {what : String} :
    (changeMount changed target flags what).run.OnlyCalls SysCall.AboutMount := by
  unfold changeMount
  split
  · exact OnlyCalls.exceptBind (onlyCalls_sys (Or.inr ⟨_, rfl⟩)) fun _ => trivial
  · trivial

theorem onlyCalls_mountData {flags oflags : MsFlags} {data : Option String} {loSetup : Bool} :
    (mountData fsType source target flags oflags data loSetup).run.OnlyCalls SysCall.AboutMount := by
  unfold mountData
  split
  · refine OnlyCalls.exceptBind (onlyCalls_mountSource.mono fun _ hc => Or.inl hc) fun s => ?_
    exact OnlyCalls.exceptBind (onlyCalls_sys (Or.inr ⟨_, rfl⟩)) fun _ => trivial
  · trivial

theorem onlyCalls_mountParsed :
    (mountParsed fsType source target o).run.OnlyCalls SysCall.AboutMount :=
  OnlyCalls.exceptBind onlyCalls_mountData fun _ =>
    OnlyCalls.exceptBind onlyCalls_changeMount fun _ => onlyCalls_changeMount

end Parsed

/-! ## What compaction does to the options -/

section Compacts
variable {pageSize : Nat} {fsType : Option String} {options : List String}

/-- The options are of an overlay, too long, and have more than one directory. -/
def Compacts (pageSize : Nat) (fsType : Option String) (options : List String) : Prop :=
  fsType.getD "" = "overlay" ∧ pageSize - 512 ≤ optionsSize options ∧
    1 < (components options).length

/-- The subtraction panics, nothing is compacted, or the compactor is asked. -/
theorem compactedOptions_cases (pageSize : Nat) (fsType : Option String) (options : List String) :
    (fsType.getD "" = "overlay" ∧ pageSize < 512 ∧
      compactedOptions pageSize fsType options = none) ∨
    (fsType.getD "" = "overlay" → 512 ≤ pageSize) ∧
      (¬Compacts pageSize fsType options ∧
        compactedOptions pageSize fsType options = some (none, options) ∨
      Compacts pageSize fsType options ∧ compactedOptions pageSize fsType options =
        (LowerdirCompactor.mk options none none).compact) := by
  unfold compactedOptions
  by_cases hoverlay : fsType.getD "" = "overlay"
  · rw [if_pos hoverlay]
    by_cases hsmall : pageSize < 512
    · exact Or.inl ⟨hoverlay, hsmall, if_pos hsmall⟩
    · refine Or.inr ⟨fun _ => by omega, ?_⟩
      rw [if_neg hsmall]
      by_cases hsize : optionsSize options ≥ pageSize - 512
      · rw [if_pos hsize]
        by_cases hlen : 1 < (components options).length
        · exact Or.inr ⟨⟨hoverlay, hsize, hlen⟩, rfl⟩
        · refine Or.inl ⟨fun h => hlen h.2.2, ?_⟩
          have h := compaction options
          generalize (LowerdirCompactor.mk options none none).compact = r at h
          cases h with
          | single _ => rfl
          | root hmany => exact absurd hmany hlen
          | parent hmany => exact absurd hmany hlen
          | ascii hmany => exact absurd hmany hlen
          | unrelated hmany => exact absurd hmany hlen
      · exact Or.inl ⟨fun h => hsize h.2.1, if_neg hsize⟩
  · exact Or.inr ⟨fun h => absurd h hoverlay, Or.inl ⟨fun h => hoverlay h.1, if_neg hoverlay⟩⟩

end Compacts

/-! ## The working directory -/

section WorkingDir
variable {D : Type} {resolve : D → String → D} {cwd : D}

/-- The working directory of the thread after the calls; `resolve` says where a path leads. -/
def workingDir (resolve : D → String → D) (cwd : D) : List Answered → D
  | [] => cwd
  | (.chdir dir, .ok _) :: t => workingDir resolve (resolve cwd dir) t
  | _ :: t => workingDir resolve cwd t

theorem workingDir_of_aboutMount (h : ∀ q ∈ t, SysCall.AboutMount q.1) :
    workingDir resolve cwd t = cwd := by
  induction t with
  | nil => rfl
  | cons q t ih =>
    have hrest := ih fun q' hq' => h q' (List.mem_cons_of_mem q hq')
    have hq := h q List.mem_cons_self
    unfold workingDir
    split
    · rfl
    · next dir n t' heq =>
      obtain ⟨rfl, -⟩ := List.cons.inj heq
      rcases hq with hq | ⟨args, hargs⟩
      · cases hq
      · cases hargs
    · next heq =>
      obtain ⟨-, rfl⟩ := List.cons.inj heq
      exact hrest

/-- The caller gets a result, and its thread is where it was. -/
structure LeavesAsWas (resolve : D → String → D) (cwd : D) (t : List Answered)
    (e : Ending (Except Error Unit)) : Prop where
  returns : ∃ r, e = .returned r
  workingDir : workingDir resolve cwd t = cwd

/-- Compaction does not panic, and where it makes a directory, `unshare` fails or the thread is in
that directory already. No source that was bound to a device has a path that cannot be cut. -/
structure Harmless (resolve : D → String → D) (cwd : D) (pageSize : Nat) (fsType : Option String)
    (source : Option String) (options : List String) (t : List Answered) : Prop where
  page : fsType.getD "" = "overlay" → 512 ≤ pageSize
  related : Compacts pageSize fsType options →
    ShareParent (components options) ∨ ShareAscii (components options)
  stays : Compacts pageSize fsType options →
    SharePath (components options) ∨ ¬ShareParent (components options) →
    (∃ er, (.unshareFs, .error er) ∈ t) ∨
      ∃ dir n, (.chdir dir, .ok n) ∈ t ∧ resolve cwd dir = cwd
  cut : ∀ src ∈ source, Unsliceable src → ¬Bound t

variable {pageSize : Nat} {fsType source : Option String} {options : List String} {target : String}
  {o : ParsedOptions} {e : Ending (Except Error Unit)}

theorem returns_mountParsed (h : (mountParsed fsType source target o).run.Ends t e) :
    (∃ r, e = .returned r) ↔ ∀ src ∈ source, Unsliceable src → ¬Bound t := by
  have hstops := stopsOnBind_mountParsed t e h
  rw [badBind_iff] at hstops
  have hreturned : (∃ r, e = .returned r) ↔ ¬∃ s, e = .stopped s ∧ True := by
    cases e <;> simp
  rw [hreturned, hstops, not_and]
  cases source with
  | none =>
    have hshort : ¬Unsliceable "" := by decide
    simp [hshort]
  | some src => simp

theorem workingDir_mountParsed (h : (mountParsed fsType source target o).run.Ends t e) :
    workingDir resolve cwd t = cwd := workingDir_of_aboutMount (onlyCalls_mountParsed.ends h)

theorem leavesAsWas_mountParsed (h : (mountParsed fsType source target o).run.Ends t e) :
    LeavesAsWas resolve cwd t e ↔ ∀ src ∈ source, Unsliceable src → ¬Bound t := by
  rw [← returns_mountParsed h]
  exact ⟨fun h' => h'.returns, fun hreturns => ⟨hreturns, workingDir_mountParsed h⟩⟩

/-- The runs of the change of the directory: it fails before it, in it, or not at all. -/
theorem ends_changeDir {dir : String} {k : Unit → Fallible Unit}
    (h : (changeDir (some dir) >>= k).run.Ends t e) :
    (∃ er, t = [(.unshareFs, .error er)] ∧ e = .returned (.error (.nix er.nix))) ∨
    (∃ n er, t = [(.unshareFs, .ok n), (.chdir dir, .error er)] ∧
      e = .stopped (.exit chdirErr)) ∨
    ∃ n m t', t = (.unshareFs, .ok n) :: (.chdir dir, .ok m) :: t' ∧ (k ()).run.Ends t' e := by
  obtain ⟨r, t₁, rfl, h₁⟩ := ends_call.mp h
  cases r with
  | error er =>
    obtain ⟨rfl, rfl⟩ := ends_ret.mp h₁
    exact Or.inl ⟨er, rfl, rfl⟩
  | ok n =>
    obtain ⟨r, t₂, rfl, h₂⟩ := ends_call.mp h₁
    cases r with
    | error er =>
      obtain ⟨rfl, rfl⟩ := ends_exit.mp h₂
      exact Or.inr (Or.inl ⟨n, er, rfl, rfl⟩)
    | ok m => exact Or.inr (Or.inr ⟨n, m, t₂, rfl, h₂⟩)

theorem leavesAsWas_changeDir {dir : String}
    (h : (changeDir (some dir) >>= fun _ => mountParsed fsType source target o).run.Ends t e) :
    LeavesAsWas resolve cwd t e ↔
      ((∃ er, (.unshareFs, .error er) ∈ t) ∨
        ∃ dir n, (.chdir dir, .ok n) ∈ t ∧ resolve cwd dir = cwd) ∧
      ∀ src ∈ source, Unsliceable src → ¬Bound t := by
  rcases ends_changeDir h with ⟨er, rfl, rfl⟩ | ⟨n, er, rfl, rfl⟩ | ⟨n, m, t', rfl, hrest⟩
  · have hbound : ¬Bound [(SysCall.unshareFs, .error er)] := by simp [Bound]
    constructor
    · exact fun _ => ⟨Or.inl ⟨er, List.mem_cons_self⟩, fun _ _ _ => hbound⟩
    · exact fun _ => ⟨⟨_, rfl⟩, rfl⟩
  · constructor
    · intro h'
      obtain ⟨r, hr⟩ := h'.returns
      cases hr
    · intro h'
      simp at h'
  · have hcalls := onlyCalls_mountParsed.ends hrest
    have hunshare : ∀ er, (SysCall.unshareFs, .error er) ∉ t' := by
      intro er hmem
      rcases hcalls _ hmem with hc | ⟨args, hargs⟩
      · cases hc
      · cases hargs
    have hchdir : ∀ d k, (SysCall.chdir d, .ok k) ∉ t' := by
      intro d k hmem
      rcases hcalls _ hmem with hc | ⟨args, hargs⟩
      · cases hc
      · cases hargs
    have hdir : workingDir resolve cwd ((.unshareFs, .ok n) :: (.chdir dir, .ok m) :: t') =
        resolve cwd dir := workingDir_mountParsed hrest
    have hbound : Bound ((.unshareFs, .ok n) :: (.chdir dir, .ok m) :: t') ↔ Bound t' := by
      simp [Bound]
    have hreturns := returns_mountParsed hrest
    rw [← hbound] at hreturns
    constructor
    · intro h'
      refine ⟨Or.inr ⟨dir, m, by simp, ?_⟩, hreturns.mp h'.returns⟩
      rw [← hdir]
      exact h'.workingDir
    · intro h'
      refine ⟨hreturns.mpr h'.2, ?_⟩
      rw [hdir]
      simpa [hunshare, hchdir] using h'.1

/-- An asynchronous mount returns, in the directory it was called in, exactly where no step of it
is harmful. -/
theorem mountRootfs_leaves_iff
    (h : (mountRootfs pageSize fsType source options target).run.Ends t e) :
    LeavesAsWas resolve cwd t e ↔
      Harmless resolve cwd pageSize fsType source options t := by
  rcases compactedOptions_cases pageSize fsType options with
    ⟨hoverlay, hsmall, hnone⟩ | ⟨hpage, ⟨hnot, hsome⟩ | ⟨hcompacts, hcompact⟩⟩
  · rw [mountRootfs_of_panic hnone] at h
    obtain ⟨rfl, rfl⟩ := ends_panic.mp h
    constructor
    · intro h'
      obtain ⟨r, hr⟩ := h'.returns
      cases hr
    · intro h'
      have hpage := h'.page hoverlay
      omega
  · rw [mountRootfs_of_compacted hsome] at h
    rw [leavesAsWas_mountParsed h]
    exact ⟨fun hcut => ⟨hpage, fun hc => absurd hc hnot, fun hc => absurd hc hnot, hcut⟩,
      fun h' => h'.cut⟩
  · have hcompaction := compaction options
    rw [← hcompact] at hcompaction
    generalize hr : compactedOptions pageSize fsType options = r at hcompaction
    cases hcompaction with
    | single hlen => exact absurd hcompacts.2.2 (by omega)
    | root _ hparent hroot =>
      rw [mountRootfs_of_compacted hr] at h
      rw [leavesAsWas_mountParsed h]
      constructor
      · intro hcut
        refine ⟨hpage, fun _ => Or.inl hparent, fun _ hchdir => ?_, hcut⟩
        rcases hchdir with hpath | hnot
        · exact absurd hpath hroot
        · exact absurd hparent hnot
      · exact fun h' => h'.cut
    | parent _ u hu hcommon =>
      rw [mountRootfs_of_compacted hr] at h
      rw [leavesAsWas_changeDir h]
      constructor
      · exact fun h' => ⟨hpage, fun _ => Or.inl ⟨u, hcommon⟩, fun _ _ => h'.1, h'.2⟩
      · exact fun h' => ⟨h'.stays hcompacts (Or.inl ⟨u, hu, hcommon⟩), h'.cut⟩
    | ascii _ hparent c hsize hcommon =>
      rw [mountRootfs_of_compacted hr] at h
      rw [leavesAsWas_changeDir h]
      constructor
      · exact fun h' => ⟨hpage, fun _ => Or.inr ⟨c, hsize, hcommon⟩, fun _ _ => h'.1, h'.2⟩
      · exact fun h' => ⟨h'.stays hcompacts (Or.inr hparent), h'.cut⟩
    | unrelated _ hparent hascii =>
      rw [mountRootfs_of_panic hr] at h
      obtain ⟨rfl, rfl⟩ := ends_panic.mp h
      constructor
      · intro h'
        obtain ⟨r, hr⟩ := h'.returns
        cases hr
      · intro h'
        rcases h'.related hcompacts with hshare | hshare
        · exact absurd hshare hparent
        · exact absurd hshare hascii

/-- Whatever the mount itself does, the directory of a successful change stays. -/
theorem moves_of_compacted (resolve : D → String → D) (cwd : D) (source : Option String)
    (target : String) {dir : String} {options' : List String}
    (h : compactedOptions pageSize fsType options = some (some dir, options'))
    (hdir : resolve cwd dir ≠ cwd) :
    ∃ t e, (mountRootfs pageSize fsType source options target).run.Ends t e ∧
      ¬LeavesAsWas resolve cwd t e := by
  obtain ⟨t, e, hrest⟩ :=
    exists_ends (mountParsed fsType source target (parseOptions options')).run
  refine ⟨(.unshareFs, .ok 0) :: (.chdir dir, .ok 0) :: t, e, ?_, ?_⟩
  · rw [mountRootfs_of_compacted h]
    exact ⟨rfl, rfl, hrest⟩
  · intro hleaves
    have hmoved : workingDir resolve (resolve cwd dir) t = cwd := hleaves.workingDir
    rw [workingDir_mountParsed hrest] at hmoved
    exact hdir hmoved

end WorkingDir

/-- `mount --bind /src /rootfs`. -/
def bindArgs : MountArgs where
  source := some "/src"
  target := "/rootfs"
  fsType := some "bind"
  flags := MsFlags.bind
  data := none

theorem bind_mount_leaves :
    LeavesAsWas (fun _ dir => dir) "/run" [(.mount bindArgs, .ok 0)] (.returned (.ok ())) := by
  have hrun : (mountRootfs 4096 (some "bind") (some "/src") ["bind"] "/rootfs").run.Ends
      [(.mount bindArgs, .ok 0)] (.returned (.ok ())) := by decide +kernel
  have hnot : ¬Compacts 4096 (some "bind") ["bind"] := fun h => absurd h.1 (by decide)
  apply (mountRootfs_leaves_iff hrun).mpr
  exact ⟨fun h => absurd h (by decide), fun h => absurd h hnot, fun h => absurd h hnot,
    by simp [Bound]⟩

/-- Two directories, and more than a page of other options. -/
def overlayOptions : List String :=
  "lowerdir=/s/1/fs:/s/2/fs" :: List.replicate 40 (String.ofList (List.replicate 100 'x'))

theorem overlay_mount_moves : ¬∀ (resolve : String → String → String) (cwd : String)
    (pageSize : Nat) (fsType source : Option String) (options : List String) (target : String)
    (t : List Answered) (e : Ending (Except Error Unit)),
    (mountRootfs pageSize fsType source options target).run.Ends t e →
    LeavesAsWas resolve cwd t e := by
  intro h
  obtain ⟨options, hdir⟩ : ∃ options,
      (compactedOptions 4096 (some "overlay") options).map Prod.fst = some (some "/s/") :=
    ⟨overlayOptions, by decide +kernel⟩
  obtain ⟨⟨_, options'⟩, hcompacted, rfl⟩ := Option.map_eq_some_iff.mp hdir
  obtain ⟨t, e, hrun, hmoved⟩ :=
    moves_of_compacted (fun _ dir => dir) "/run" none "/rootfs" hcompacted (by decide)
  exact hmoved (h _ _ _ _ _ _ _ t e hrun)

end RustExtensions.Shim
