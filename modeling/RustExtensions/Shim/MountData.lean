import RustExtensions.Shim.MountChild
import RustExtensions.Shim.MountFrame

/-!
# The data of a mount

mount(2) takes one page of data and cuts off the rest. Both builds join the
options that are no flags, and only one of them looks at the length.
-/
namespace RustExtensions.Shim

open RustExtensions.Calls
open RustExtensions.Calls.Program

/-! ## A run without errors -/

section Obliging
variable {α β : Type} {body : Fallible α} {g : α → Fallible β} {c : SysCall}
  {err : OsError → Error} {fd : Nat}

/-- No error comes out if every call is answered with zero. -/
def Obliging (p : Fallible α) : Prop :=
  ∀ er, p.run.ending (fun _ => .ok 0) ≠ .returned (.error er)

theorem Obliging.pure (a : α) : Obliging (pure a : Fallible α) := by
  intro er h
  cases h

theorem Obliging.bind (hbody : Obliging body) (hg : ∀ a, Obliging (g a)) :
    Obliging (body >>= g) := by
  intro er h
  cases hend : body.run.ending (fun _ => .ok 0) with
  | stopped s =>
    rw [show (body >>= g).run = body.run.bind (ExceptT.bindCont g) from rfl,
      ending_bind_stopped hend] at h
    cases h
  | returned r =>
    rw [show (body >>= g).run = body.run.bind (ExceptT.bindCont g) from rfl,
      ending_bind_returned hend] at h
    cases r with
    | ok a => exact hg a er h
    | error er' => exact hbody er' hend

theorem obliging_sys : Obliging (sys c err) := by
  intro er h
  cases h

theorem obliging_orPanic {a : Option α} : Obliging (orPanic a) := by
  intro er h
  cases a with
  | none => cases h
  | some a => cases h

theorem obliging_closing (hbody : Obliging body) : Obliging (closing fd body) := by
  intro er h
  have hsame : (body.run.atExit fun _ => ignored (.close fd)).ending (fun _ => .ok 0) =
      body.run.ending (fun _ => .ok 0) := ending_atExit fun _ => rfl
  exact hbody er (hsame.symm.trans h)

theorem obliging_returning {body : Fallible Unit} (hbody : Obliging body) :
    Obliging (returning fd body) := by
  intro er h
  have hsame : (body.run.atExit (closeUnlessOk fd)).ending (fun _ => .ok 0) =
      body.run.ending (fun _ => .ok 0) := by
    apply ending_atExit
    intro r
    unfold closeUnlessOk
    split <;> rfl
  cases hend : body.run.ending (fun _ => .ok 0) with
  | stopped s =>
    have hstopped := (ending_bind_stopped (hsame.trans hend)).symm.trans h
    cases hstopped
  | returned r =>
    have hreturned := (ending_bind_returned (hsame.trans hend)).symm.trans h
    cases r with
    | ok u => cases hreturned
    | error er' => exact hbody er' hend

theorem obliging_orClear : Obliging (orClear fd c) := by
  intro er h
  cases h

end Obliging

section
variable {path loopDev : String} {params : LoopParams} {source fsType data : Option String}
  {target : String} {flags oflags : MsFlags} {loSetup : Bool}

theorem obliging_setupLoopDev : Obliging (setupLoopDev path loopDev params) := by
  refine obliging_sys.bind fun back => obliging_closing ?_
  refine obliging_sys.bind fun fd => obliging_returning ?_
  refine obliging_sys.bind fun _ => Obliging.bind ?_ fun truncated => ?_
  · unfold backingFileTruncated
    split
    · exact obliging_orPanic
    · exact Obliging.pure _
  · refine obliging_orClear.bind fun _ => ?_
    split
    · exact obliging_orClear
    · exact Obliging.pure _

/-- The first device will do. -/
theorem obliging_setupLoopRounds {n : Nat} : Obliging (setupLoopRounds path params (n + 1)) := by
  refine Obliging.bind (obliging_sys.bind fun fd => obliging_closing obliging_sys) fun num => ?_
  intro er h
  cases hend : (setupLoopDev path s!"{loopDevFormat}{num}" params).run.ending (fun _ => .ok 0) with
  | stopped s =>
    have hstopped := (ending_bind_stopped hend).symm.trans h
    cases hstopped
  | returned r =>
    have hreturned := (ending_bind_returned hend).symm.trans h
    cases r with
    | ok file => cases hreturned
    | error er' => exact obliging_setupLoopDev er' hend

theorem obliging_mountSource (h : loSetup = true → source ≠ none) :
    Obliging (mountSource source loSetup oflags) := by
  unfold mountSource
  split
  · next hlo =>
    obtain ⟨src, rfl⟩ := Option.ne_none_iff_exists'.mp (h hlo)
    exact obliging_setupLoopRounds.bind fun path => Obliging.pure _
  · exact Obliging.pure _

theorem obliging_mountData (h : loSetup = true → source ≠ none) :
    Obliging (mountData fsType source target flags oflags data loSetup) := by
  unfold mountData
  split
  · exact (obliging_mountSource h).bind fun s => obliging_sys.bind fun _ => Obliging.pure _
  · exact Obliging.pure _

theorem obliging_changeMount {changed : Bool} {what : String} :
    Obliging (changeMount changed target flags what) := by
  unfold changeMount
  split
  · exact obliging_sys.bind fun _ => Obliging.pure _
  · exact Obliging.pure _

theorem obliging_mountParsed {o : ParsedOptions} (h : o.loSetup = true → source ≠ none) :
    Obliging (mountParsed fsType source target o) :=
  (obliging_mountData h).bind fun _ => obliging_changeMount.bind fun _ => obliging_changeMount

end

namespace Synchronous

variable {errnos : Errnos} {f : Forked} {chdir fsType source data : Option String}
  {target : String} {flags : MsFlags} {pageSize : Nat} {options options' : List String}
  {fork : Option Forked}

theorem ending_mountChild :
    (mountChild errnos chdir fsType source target flags data).ending (fun _ => .ok 0) =
      .stopped (.exit 0) := by
  have henter : (enterDir chdir).ending (fun _ => .ok 0) = .returned () := by
    cases chdir <;> rfl
  have hmount : ∀ (wanted : Bool) (args : MountArgs),
      (mountWhen wanted errnos args).ending (fun _ => .ok 0) = .returned () := by
    intro wanted args
    cases wanted <;> rfl
  exact (ending_bind_returned henter).trans ((ending_bind_returned (hmount _ _)).trans
    ((ending_bind_returned (hmount _ _)).trans (ending_bind_returned (hmount _ _))))

theorem ending_forked {child : Syscalls Empty} {reply : SysCall → Except OsError Nat} {s : Stop}
    (h : child.ending reply = .stopped s) : (forked child).ending reply = .returned s := by
  induction child with
  | ret a => cases a
  | panic => exact congrArg _ (Ending.stopped.inj h)
  | exit code => exact congrArg _ (Ending.stopped.inj h)
  | call c next ih => exact ih (reply c) h

theorem obliging_awaitChild :
    Obliging (awaitChild errnos f (mountChild errnos chdir fsType source target flags data)) := by
  intro er h
  have hend := (ending_bind_returned (ending_forked ending_mountChild)).symm.trans h
  obtain hresult := Ending.returned.inj hend
  rw [waitPid_fresh f.fresh] at hresult
  cases hresult

/-- The joined options are longer than a page. -/
theorem mountRootfs_long (h : compactedOptions pageSize fsType options = some (chdir, options'))
    (hlong : (String.intercalate "," (parseOptions options').data).utf8ByteSize > pageSize) :
    (mountRootfs errnos fork pageSize fsType source options target).run =
      .ret (.error (.other "mount option is too long")) := by
  unfold mountRootfs compactOptions
  rw [h]
  exact congrArg ExceptT.run (if_pos hlong)

/-- What the child gets as data. -/
theorem mountRootfs_short (h : compactedOptions pageSize fsType options = some (chdir, options'))
    (hshort : ¬(String.intercalate "," (parseOptions options').data).utf8ByteSize > pageSize) :
    mountRootfs errnos fork pageSize fsType source options target =
      match fork with
      | some f => awaitChild errnos f (mountChild errnos chdir fsType source target
          (parseOptions options').flags (if (parseOptions options').data ≠ [] then
            some (String.intercalate "," (parseOptions options').data) else none))
      | none => throw (.other "fork mount process failed") := by
  unfold mountRootfs compactOptions
  rw [h]
  exact if_neg hshort

end Synchronous

/-! ## Both builds -/

namespace Build

def mountRootfs (b : Build) (errnos : Errnos) (fork : Option Synchronous.Forked) (pageSize : Nat)
    (fsType source : Option String) (options : List String) (target : String) : Fallible Unit :=
  match b with
  | .asynchronous => Shim.mountRootfs pageSize fsType source options target
  | .synchronous => Synchronous.mountRootfs errnos fork pageSize fsType source options target

def parseOptions : Build → List String → ParsedOptions
  | .asynchronous => Shim.parseOptions
  | .synchronous => Synchronous.parseOptions

/-- The options that are no flags, joined. -/
def joined (b : Build) (options : List String) : String :=
  String.intercalate "," (b.parseOptions options).data

end Build

/-- The string and the NUL behind it take no more than a page. -/
def FitsPage (pageSize : Nat) (s : String) : Prop := s.utf8ByteSize + 1 ≤ pageSize

instance (pageSize : Nat) (s : String) : Decidable (FitsPage pageSize s) :=
  inferInstanceAs (Decidable (_ ≤ _))

section DataFits
variable (b : Build) (errnos : Errnos) (pageSize : Nat) (fsType source : Option String)
  (options : List String) (target : String)

structure DataFits : Prop where
  fits : ∀ fork t e, (b.mountRootfs errnos fork pageSize fsType source options target).run.Ends t e →
    ∀ args r, (.mount args, r) ∈ t → ∀ data ∈ args.data, FitsPage pageSize data
  refused : ∀ chdir options', compactedOptions pageSize fsType options = some (chdir, options') →
    ¬FitsPage pageSize (b.joined options') →
    ∀ fork t e, (b.mountRootfs errnos fork pageSize fsType source options target).run.Ends t e →
      (∃ er, e = .returned (.error er)) ∧ ∀ args r, (.mount args, r) ∉ t

/-- One build does not look at the length, the other forgets the NUL. -/
def Unharmed : Prop :=
  ∀ chdir options', compactedOptions pageSize fsType options = some (chdir, options') →
    match b with
    | .asynchronous => FitsPage pageSize (b.joined options') ∨
        chdir = none ∧ (b.parseOptions options').loSetup = true ∧ source = none
    | .synchronous => (b.joined options').utf8ByteSize ≠ pageSize

end DataFits

variable {errnos : Errnos} {pageSize : Nat} {fsType source chdir : Option String}
  {options options' : List String} {target : String} {o : ParsedOptions} {t : List Answered}
  {e : Ending (Except Error Unit)}

/-- The data of a mount, if it has any, is the given one. -/
def HasData (data : Option String) (c : SysCall) : Prop :=
  ∀ args, c = .mount args → ∀ d ∈ args.data, d ∈ data

theorem hasData_of_aboutLoop {data : Option String} {c : SysCall} (h : c.AboutLoop) :
    HasData data c := by
  intro args hargs
  subst hargs
  cases h

theorem hasData_none {data : Option String} {args : MountArgs} (h : args.data = none) :
    HasData data (.mount args) := by
  intro args' hargs d hd
  obtain rfl := SysCall.mount.inj hargs
  rw [h] at hd
  cases hd

theorem hasData_self {args : MountArgs} : HasData args.data (.mount args) := by
  intro args' hargs d hd
  obtain rfl := SysCall.mount.inj hargs
  exact hd

/-- The data that is made of the options. -/
def ParsedOptions.dataArg (o : ParsedOptions) : Option String :=
  if o.data ≠ [] then some (String.intercalate "," o.data) else none

theorem hasData_changeMount {data : Option String} {changed : Bool} {flags : MsFlags}
    {what : String} : (changeMount changed target flags what).run.OnlyCalls (HasData data) := by
  unfold changeMount
  split
  · exact OnlyCalls.exceptBind (onlyCalls_sys (hasData_none rfl)) fun _ => trivial
  · trivial

theorem hasData_mountParsed :
    (mountParsed fsType source target o).run.OnlyCalls (HasData o.dataArg) := by
  refine OnlyCalls.exceptBind ?_ fun _ =>
    OnlyCalls.exceptBind hasData_changeMount fun _ => hasData_changeMount
  show (mountData _ _ _ _ _ o.dataArg _).run.OnlyCalls _
  unfold mountData
  split
  · refine OnlyCalls.exceptBind (onlyCalls_mountSource.mono fun _ => hasData_of_aboutLoop)
      fun s => ?_
    exact OnlyCalls.exceptBind (onlyCalls_sys hasData_self) fun _ => trivial
  · trivial

theorem hasData_changeDir : (changeDir chdir).run.OnlyCalls (HasData o.dataArg) := by
  have hother : ∀ c : SysCall, (∀ args, c ≠ .mount args) → HasData o.dataArg c :=
    fun c hc args hargs => absurd hargs (hc args)
  cases chdir with
  | none => trivial
  | some dir =>
    refine OnlyCalls.exceptBind (onlyCalls_sys (hother _ (by simp)))
      fun _ => ⟨hother _ (by simp), ?_⟩
    intro r
    cases r with
    | ok n => trivial
    | error er => trivial

/-- Options that do not fit are some. -/
theorem data_of_not_fits (hpage : 0 < pageSize)
    (h : ¬FitsPage pageSize (String.intercalate "," o.data)) : o.data ≠ [] := by
  intro hnil
  rw [hnil] at h
  exact h hpage

/-- A loop device without a source is refused before the mount. -/
theorem mountParsed_no_source (hdata : o.data ≠ []) (hlo : o.loSetup = true) :
    (mountParsed fsType none target o).run = .ret (.error (.other "loop source is None")) := by
  have hmount : mountData fsType none target o.flags (o.flags &&& ~~~propagationTypes) o.dataArg
      o.loSetup = throw (.other "loop source is None") := by
    have hsome : o.dataArg.isSome := by
      rw [ParsedOptions.dataArg, if_pos hdata]
      rfl
    rw [mountData, if_pos (Or.inr hsome), hlo]
    rfl
  show (mountData fsType none target o.flags (o.flags &&& ~~~propagationTypes) o.dataArg
    o.loSetup >>= _).run = _
  rw [hmount]
  rfl

theorem dataFits_of_panic (b : Build) (h : compactedOptions pageSize fsType options = none) :
    DataFits b errnos pageSize fsType source options target := by
  constructor
  · intro fork t e he args r hmem
    have hpanic : (b.mountRootfs errnos fork pageSize fsType source options target).run = .panic := by
      cases b with
      | asynchronous => exact mountRootfs_of_panic h
      | synchronous =>
        show (Synchronous.mountRootfs errnos fork pageSize fsType source options target).run = _
        unfold Synchronous.mountRootfs compactOptions
        rw [h]
        rfl
    rw [hpanic] at he
    obtain ⟨rfl, -⟩ := ends_panic.mp he
    cases hmem
  · intro chdir options' hsome
    rw [h] at hsome
    cases hsome

theorem dataArg_fits (h : FitsPage pageSize (String.intercalate "," o.data)) :
    ∀ d ∈ o.dataArg, FitsPage pageSize d := by
  intro d hd
  rw [ParsedOptions.dataArg] at hd
  split at hd
  · obtain rfl := Option.some.inj hd
    exact h
  · cases hd

/-- Both sides are about what one compaction gives. -/
theorem dataFits_of_compacted {b : Build}
    (h : compactedOptions pageSize fsType options = some (chdir, options'))
    (hfits : ∀ fork t e,
      (b.mountRootfs errnos fork pageSize fsType source options target).run.Ends t e →
      ∀ args r, (.mount args, r) ∈ t → ∀ data ∈ args.data, FitsPage pageSize data)
    (hrefused : ¬FitsPage pageSize (b.joined options') → ∀ fork t e,
      (b.mountRootfs errnos fork pageSize fsType source options target).run.Ends t e →
      (∃ er, e = .returned (.error er)) ∧ ∀ args r, (.mount args, r) ∉ t) :
    DataFits b errnos pageSize fsType source options target := by
  refine ⟨hfits, ?_⟩
  intro chdir₁ options₁ h₁
  rw [h] at h₁
  obtain ⟨-, rfl⟩ := Prod.mk.inj (Option.some.inj h₁)
  exact hrefused

theorem asynchronous_dataFits_iff (hpage : 0 < pageSize) :
    DataFits .asynchronous errnos pageSize fsType source options target ↔
      Unharmed .asynchronous pageSize fsType source options := by
  constructor
  · intro h chdir options' hcompacted
    by_contra hnot
    obtain ⟨hfits, hsource⟩ := not_or.mp hnot
    have hrun : ∀ {t e}, (changeDir chdir >>= fun _ =>
        mountParsed fsType source target (parseOptions options')).run.Ends t e →
        (mountRootfs pageSize fsType source options target).run.Ends t e := by
      intro t e he
      rwa [mountRootfs_of_compacted hcompacted]
    cases chdir with
    | some dir =>
      -- the directory is not there
      have hexit := h.refused (some dir) options' hcompacted hfits none
        [(.unshareFs, .ok 0), (.chdir dir, .error einval)] (.stopped (.exit chdirErr))
        (hrun ⟨rfl, rfl, rfl, rfl⟩)
      obtain ⟨er, her⟩ := hexit.1
      cases her
    | none =>
      have hobliging : Obliging (mountParsed fsType source target (parseOptions options')) :=
        obliging_mountParsed fun hlo hnone => hsource ⟨rfl, hlo, hnone⟩
      obtain ⟨t, ht⟩ : ∃ t, (mountParsed fsType source target (parseOptions options')).run.Ends t
          ((mountParsed fsType source target (parseOptions options')).run.ending fun _ => .ok 0) :=
        ends_ending _
      obtain ⟨er, her⟩ := (h.refused none options' hcompacted hfits none t _ (hrun ht)).1
      exact hobliging er her
  · intro h
    cases hcompacted : compactedOptions pageSize fsType options with
    | none => exact dataFits_of_panic .asynchronous hcompacted
    | some r =>
      obtain ⟨chdir, options'⟩ := r
      have hrun : mountRootfs pageSize fsType source options target = (changeDir chdir >>= fun _ =>
          mountParsed fsType source target (parseOptions options')) :=
        mountRootfs_of_compacted hcompacted
      by_cases hfits : FitsPage pageSize (Build.asynchronous.joined options')
      · apply dataFits_of_compacted hcompacted
        · intro fork t e he args r hmem
          have hcalls : (mountRootfs pageSize fsType source options target).run.OnlyCalls
              (HasData (parseOptions options').dataArg) := by
            rw [hrun]
            exact OnlyCalls.exceptBind hasData_changeDir fun _ => hasData_mountParsed
          exact fun d hd => dataArg_fits hfits d (hcalls.ends he _ hmem args rfl d hd)
        · exact fun hnot => absurd hfits hnot
      · obtain ⟨rfl, hlo, rfl⟩ := (h chdir options' hcompacted).resolve_left hfits
        have hdata : (parseOptions options').data ≠ [] := data_of_not_fits hpage hfits
        have hempty : ∀ t e, (mountRootfs pageSize fsType none options target).run.Ends t e →
            t = [] ∧ e = .returned (.error (.other "loop source is None")) := by
          intro t e he
          rw [hrun] at he
          have he : (mountParsed fsType none target (parseOptions options')).run.Ends t e := he
          rw [mountParsed_no_source hdata hlo] at he
          exact ends_ret.mp he
        apply dataFits_of_compacted hcompacted
        · intro fork t e he args r hmem
          obtain ⟨rfl, -⟩ := hempty t e he
          cases hmem
        · intro _ fork t e he
          obtain ⟨rfl, rfl⟩ := hempty t e he
          exact ⟨⟨_, rfl⟩, fun _ _ => List.not_mem_nil⟩

/-- The calls of the child have the data of the parent. -/
theorem hasData_mountChild {flags : MsFlags} {data : Option String} :
    (Synchronous.mountChild errnos chdir fsType source target flags data).OnlyCalls
      (HasData data) := by
  have hwhen : ∀ (wanted : Bool) (args : MountArgs), HasData data (.mount args) →
      (Synchronous.mountWhen wanted errnos args).OnlyCalls (HasData data) := by
    intro wanted args hargs
    cases wanted with
    | false => trivial
    | true =>
      refine ⟨hargs, fun r => ?_⟩
      cases r with
      | ok n => trivial
      | error er => trivial
  refine OnlyCalls.bind ?_ fun _ => OnlyCalls.bind (hwhen _ _ hasData_self) fun _ =>
    OnlyCalls.bind (hwhen _ _ (hasData_none rfl)) fun _ =>
      OnlyCalls.bind (hwhen _ _ (hasData_none rfl)) fun _ => trivial
  cases chdir with
  | none => trivial
  | some dir =>
    refine ⟨fun args hargs => ?_, fun r => ?_⟩
    · cases hargs
    · cases r with
      | ok n => trivial
      | error er => trivial

theorem synchronous_dataFits_iff :
    DataFits .synchronous errnos pageSize fsType source options target ↔
      Unharmed .synchronous pageSize fsType source options := by
  constructor
  · intro h chdir options' hcompacted heq
    have heq : (Build.synchronous.joined options').utf8ByteSize = pageSize := heq
    have hfits : ¬FitsPage pageSize (Build.synchronous.joined options') := by
      unfold FitsPage
      omega
    have hshort : ¬(Build.synchronous.joined options').utf8ByteSize > pageSize := by omega
    let f : Synchronous.Forked := { pid := 2, before := [], fresh := by simp }
    have hobliging : Obliging (Synchronous.mountRootfs errnos (some f) pageSize fsType source options
        target) := by
      rw [Synchronous.mountRootfs_short hcompacted hshort]
      exact Synchronous.obliging_awaitChild
    obtain ⟨t, ht⟩ : ∃ t, (Synchronous.mountRootfs errnos (some f) pageSize fsType source options
        target).run.Ends t ((Synchronous.mountRootfs errnos (some f) pageSize fsType source options
        target).run.ending fun _ => .ok 0) := ends_ending _
    obtain ⟨er, her⟩ := (h.refused chdir options' hcompacted hfits (some f) t _ ht).1
    exact hobliging er her
  · intro h
    cases hcompacted : compactedOptions pageSize fsType options with
    | none => exact dataFits_of_panic .synchronous hcompacted
    | some r =>
      obtain ⟨chdir, options'⟩ := r
      have hne : (Build.synchronous.joined options').utf8ByteSize ≠ pageSize :=
        h chdir options' hcompacted
      by_cases hlong : (Build.synchronous.joined options').utf8ByteSize > pageSize
      · have hempty : ∀ fork t e, (Synchronous.mountRootfs errnos fork pageSize fsType source options
            target).run.Ends t e →
            t = [] ∧ e = .returned (.error (.other "mount option is too long")) := by
          intro fork t e he
          rw [Synchronous.mountRootfs_long hcompacted hlong] at he
          exact ends_ret.mp he
        apply dataFits_of_compacted hcompacted
        · intro fork t e he args r hmem
          obtain ⟨rfl, -⟩ := hempty fork t e he
          cases hmem
        · intro _ fork t e he
          obtain ⟨rfl, rfl⟩ := hempty fork t e he
          exact ⟨⟨_, rfl⟩, fun _ _ => List.not_mem_nil⟩
      · have hfits : FitsPage pageSize (Build.synchronous.joined options') := by
          unfold FitsPage
          omega
        apply dataFits_of_compacted hcompacted
        · intro fork t e he args r hmem
          have he : (Synchronous.mountRootfs errnos fork pageSize fsType source options
              target).run.Ends t e := he
          rw [Synchronous.mountRootfs_short hcompacted hlong] at he
          cases fork with
          | none =>
            obtain ⟨rfl, -⟩ := ends_ret.mp he
            cases hmem
          | some f =>
            obtain ⟨stop, hchild, -⟩ := Synchronous.ends_awaitChild he
            have hdata := hasData_mountChild.ends hchild _ hmem args rfl
            exact fun d hd => dataArg_fits hfits d (hdata d hd)
        · exact fun hnot => absurd hfits hnot

/-- The data of a mount fits exactly where the options do, except for what a build checks. -/
theorem dataFits_iff (b : Build) (hpage : 0 < pageSize) :
    DataFits b errnos pageSize fsType source options target ↔
      Unharmed b pageSize fsType source options := by
  cases b with
  | asynchronous => exact asynchronous_dataFits_iff hpage
  | synchronous => exact synchronous_dataFits_iff

theorem short_options_fit : DataFits .synchronous Synchronous.someErrnos 4096 none (some "/src")
    ["rbind", "mode=0755"] "/rootfs" := by
  apply (dataFits_iff .synchronous (by decide)).mpr
  intro chdir options' h
  have hcompacted : compactedOptions 4096 none ["rbind", "mode=0755"] =
      some (none, ["rbind", "mode=0755"]) := by decide +kernel
  rw [hcompacted] at h
  obtain ⟨-, rfl⟩ := Prod.mk.inj (Option.some.inj h)
  show (Build.synchronous.joined ["rbind", "mode=0755"]).utf8ByteSize ≠ 4096
  decide +kernel

/-- With the commas between them these are 4096 bytes. -/
def pageOptions : List String := List.replicate 17 (String.ofList (List.replicate 240 'x'))

theorem page_of_options_mounted :
    ¬DataFits .asynchronous Synchronous.someErrnos 4096 (some "tmpfs") (some "tmpfs") pageOptions
        "/rootfs" ∧
      ¬DataFits .synchronous Synchronous.someErrnos 4096 (some "tmpfs") (some "tmpfs") pageOptions
        "/rootfs" := by
  have hcompacted : compactedOptions 4096 (some "tmpfs") pageOptions = some (none, pageOptions) :=
    if_neg (by decide)
  constructor
  · rw [asynchronous_dataFits_iff (by decide)]
    intro h
    rcases h none pageOptions hcompacted with hfits | hsource
    · exact absurd hfits (by decide +kernel)
    · cases hsource.2.2
  · rw [synchronous_dataFits_iff]
    intro h
    have hlen : (Build.synchronous.joined pageOptions).utf8ByteSize = 4096 := by decide +kernel
    exact h none pageOptions hcompacted hlen

end RustExtensions.Shim
