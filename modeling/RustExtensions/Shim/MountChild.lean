import RustExtensions.Shim.LoopSetup
import RustExtensions.Shim.Reaper

/-!
# The child that mounts

`mount_rootfs` of the synchronous build forks, and the child ends with what came
of the mount as its exit code. The kernel keeps the low eight bits of it, the
reaper reports them, and the parent makes a result of what it hears.
-/
namespace RustExtensions.Shim

open RustExtensions.Calls
open RustExtensions.Calls.Program

/-! ## Error numbers -/

def unknownErrno : OsError := { code := 0, name := "UnknownErrno", desc := "Unknown errno" }

/-- The table behind `Errno::from_raw`. Linux has error numbers from 1 to 133. -/
structure Errnos where
  known : Int32 → Option OsError
  code_eq : ∀ n e, known n = some e → e.code = n
  range : ∀ n e, known n = some e → 1 ≤ n ∧ n ≤ 133

def Errnos.fromRaw (errnos : Errnos) (n : Int32) : OsError := (errnos.known n).getD unknownErrno

/-! ## Exit codes -/

inductive MountExitCode where
  | nixUnknownErr
  | chdirErr
  | success
  | nixOtherErr (errno : Int32)
  deriving DecidableEq

namespace MountExitCode

/-- `From<i32> for MountExitCode`. -/
def ofInt (code : Int32) : MountExitCode :=
  if code = -2 then nixUnknownErr
  else if code = -1 then chdirErr
  else if code = 0 then success
  else nixOtherErr code

/-- `From<MountExitCode> for i32`. -/
def toInt : MountExitCode → Int32
  | nixUnknownErr => -2
  | chdirErr => -1
  | success => 0
  | nixOtherErr errno => errno

/-- `From<nix::errno::Errno> for MountExitCode`. -/
def ofErrno (err : OsError) : MountExitCode :=
  if err = unknownErrno then nixUnknownErr else nixOtherErr err.code

/-- `From<MountExitCode> for nix::errno::Errno`. -/
def toErrno (errnos : Errnos) : MountExitCode → OsError
  | nixOtherErr errno => errnos.fromRaw errno
  | _ => unknownErrno

/-- `From<MountExitCode> for Result<()>`. -/
def toResult (errnos : Errnos) : MountExitCode → Except Error Unit
  | nixUnknownErr => .error (.other
      s!"mount process exit unexpectedly, exit code: {(nixUnknownErr.toErrno errnos).nix}")
  | chdirErr => .error (.other "mount process exit unexpectedly: chdir failed")
  | success => .ok ()
  | nixOtherErr errno => .error (.other
      s!"mount process exit unexpectedly, exit code: {(errnos.fromRaw errno).nix}")

end MountExitCode

/-! ## The child -/

namespace Synchronous

/-- A mount, and `_exit` with its error. -/
def mountOrExit (errnos : Errnos) (args : MountArgs) : Syscalls Unit :=
  .call (.mount args) fun
    | .ok _ => .ret ()
    | .error e => .exit (MountExitCode.ofErrno (errnos.fromRaw e.code)).toInt

def mountWhen (wanted : Bool) (errnos : Errnos) (args : MountArgs) : Syscalls Unit :=
  if wanted then mountOrExit errnos args else .ret ()

def enterDir : Option String → Syscalls Unit
  | some workdir => .call (.chdir workdir) fun
    | .ok _ => .ret ()
    | .error _ => .exit MountExitCode.chdirErr.toInt
  | none => .ret ()

def mountChild (errnos : Errnos) (chdir fsType source : Option String) (target : String)
    (flags : MsFlags) (data : Option String) : Syscalls Empty := do
  enterDir chdir
  -- mount with non-propagation first, or remount with changed data
  let oflags := flags &&& ~~~propagationTypes
  mountWhen (flags &&& MsFlags.remount = 0 ∨ data.isSome) errnos
    { source, target, fsType, flags := oflags, data }
  -- change the propagation type
  mountWhen (flags &&& propagationTypes ≠ 0) errnos
    { source := none, target, fsType := none, flags := flags &&& msPropagation, data := none }
  mountWhen (oflags &&& msBindRo = msBindRo) errnos
    { source := none, target, fsType := none, flags := oflags ||| MsFlags.remount, data := none }
  .exit MountExitCode.success.toInt

/-! ## The parent -/

/-- What the kernel tells of the end of the child. A panic aborts it. -/
def termination : Stop → Termination
  | .exit code => .exited code.toUInt32.toUInt8
  | .panic => .signaled ⟨6, by decide⟩

/-- The child runs beside the parent, which learns how it stopped. -/
def forked : Syscalls Empty → Syscalls Stop
  | .ret a => nomatch a
  | .panic => .ret .panic
  | .exit code => .ret (.exit code)
  | .call c next => .call c fun r => forked (next r)

/-- `before` is what the subscription hears before the child is reaped. No other process has
its pid then. -/
structure Forked where
  pid : Int32
  before : List ExitEvent
  fresh : ∀ e ∈ before, e.subject ≠ .pid pid

/-- The loop over what the subscription hears, which ends with the exit of the child at the latest. -/
def waitPid (pid exitCode : Int32) : List ExitEvent → Int32
  | [] => exitCode
  | e :: events => if e.subject = .pid pid then e.exitCode else waitPid pid exitCode events

def awaitChild (errnos : Errnos) (f : Forked) (child : Syscalls Empty) : Fallible Unit :=
  .mk ((forked child).bind fun stop =>
    let code := MountExitCode.ofInt (waitPid f.pid (termination stop).code f.before)
    .ret (code.toResult errnos))

/-- There is no option `loop` in this build. -/
def addOption (o : ParsedOptions) (x : String) : ParsedOptions :=
  match mountFlags.lookup x with
  | some _ => o.add x
  | none => { o with data := o.data ++ [x] }

def parseOptions (options : List String) : ParsedOptions := options.foldl addOption {}

/-- `none` is a fork that fails. -/
def mountRootfs (errnos : Errnos) (fork : Option Forked) (pageSize : Nat)
    (fsType source : Option String) (options : List String) (target : String) : Fallible Unit := do
  let (chdir, options) ← compactOptions pageSize fsType options
  let { flags, data, .. } := parseOptions options
  let opt := String.intercalate "," data
  if opt.utf8ByteSize > pageSize then throw (.other "mount option is too long")
  let data := if data ≠ [] then some opt else none
  match fork with
  | some f => awaitChild errnos f (mountChild errnos chdir fsType source target flags data)
  | none => throw (.other "fork mount process failed")

/-! ## What the parent learns -/

variable {errnos : Errnos} {chdir fsType source : Option String} {target : String}
  {flags : MsFlags} {data : Option String} {f : Forked} {child : Syscalls Empty}
  {t t₁ t₂ : List Answered} {n : Int32}

/-- What a call that fails makes of the child. -/
def failure (errnos : Errnos) : Answered → Option MountExitCode
  | (.chdir _, .error _) => some .chdirErr
  | (.mount _, .error e) => some (((errnos.known e.code).map fun err =>
      .nixOtherErr err.code).getD .nixUnknownErr)
  | _ => none

/-- What became of the child, by the first of its calls that failed. -/
def childOutcome (errnos : Errnos) (t : List Answered) : MountExitCode :=
  (t.findSome? (failure errnos)).getD .success

theorem failure_ne_success (q : Answered) : failure errnos q ≠ some .success := by
  unfold failure
  split
  · simp
  · next e => cases errnos.known e.code <;> simp
  · simp

theorem childOutcome_append (h : childOutcome errnos t₁ = .success) :
    childOutcome errnos (t₁ ++ t₂) = childOutcome errnos t₂ := by
  have hnone : t₁.findSome? (failure errnos) = none := by
    cases hfound : t₁.findSome? (failure errnos) with
    | none => rfl
    | some code =>
      rw [childOutcome, hfound] at h
      obtain rfl : code = .success := h
      obtain ⟨q, -, hq⟩ := List.exists_of_findSome?_eq_some hfound
      exact absurd hq (failure_ne_success q)
  rw [childOutcome, List.findSome?_append, hnone]
  rfl

theorem ofErrno_fromRaw : MountExitCode.ofErrno (errnos.fromRaw n) =
    ((errnos.known n).map fun err => .nixOtherErr err.code).getD .nixUnknownErr := by
  unfold Errnos.fromRaw
  cases hn : errnos.known n with
  | none => rfl
  | some err =>
    have hne : err ≠ unknownErrno := by
      intro heq
      have hcode := errnos.code_eq n err hn
      have hrange := errnos.range n err hn
      rw [← hcode, heq] at hrange
      exact absurd hrange (by decide)
    exact if_neg hne

/-- A part of the child goes on where all calls succeeded, and ends with its outcome otherwise. -/
def TellsOutcome (errnos : Errnos) {α : Type} (p : Syscalls α) : Prop :=
  ∀ t e, p.Ends t e →
    (∃ a, e = .returned a ∧ childOutcome errnos t = .success) ∨
      e = .stopped (.exit (childOutcome errnos t).toInt)

theorem TellsOutcome.bind {α β : Type} {p : Syscalls α} {k : α → Syscalls β}
    (hp : TellsOutcome errnos p) (hk : ∀ a, TellsOutcome errnos (k a)) :
    TellsOutcome errnos (p.bind k) := by
  intro t e he
  rcases ends_bind.mp he with ⟨t₁, t₂, a, rfl, hp', hk'⟩ | ⟨s, rfl, hp'⟩
  · rcases hp t₁ _ hp' with ⟨_, -, hsuccess⟩ | hstop
    · rw [childOutcome_append hsuccess]
      exact hk a t₂ e hk'
    · cases hstop
  · rcases hp t _ hp' with ⟨_, hreturned, -⟩ | hstop
    · cases hreturned
    · exact Or.inr (congrArg Ending.stopped (Ending.stopped.inj hstop))

theorem tellsOutcome_mountOrExit {args : MountArgs} :
    TellsOutcome errnos (mountOrExit errnos args) := by
  intro t e he
  obtain ⟨r, t', rfl, hrest⟩ := ends_call.mp he
  cases r with
  | ok m =>
    obtain ⟨rfl, rfl⟩ := ends_ret.mp hrest
    exact Or.inl ⟨(), rfl, rfl⟩
  | error er =>
    obtain ⟨rfl, rfl⟩ := ends_exit.mp hrest
    rw [ofErrno_fromRaw]
    exact Or.inr rfl

theorem tellsOutcome_enterDir : TellsOutcome errnos (enterDir chdir) := by
  intro t e he
  cases chdir with
  | none =>
    obtain ⟨rfl, rfl⟩ := ends_ret.mp he
    exact Or.inl ⟨(), rfl, rfl⟩
  | some workdir =>
    obtain ⟨r, t', rfl, hrest⟩ := ends_call.mp he
    cases r with
    | ok m =>
      obtain ⟨rfl, rfl⟩ := ends_ret.mp hrest
      exact Or.inl ⟨(), rfl, rfl⟩
    | error er =>
      obtain ⟨rfl, rfl⟩ := ends_exit.mp hrest
      exact Or.inr rfl

theorem tellsOutcome_mountWhen {wanted : Bool} {args : MountArgs} :
    TellsOutcome errnos (mountWhen wanted errnos args) := by
  cases wanted with
  | true => exact tellsOutcome_mountOrExit
  | false =>
    intro t e he
    obtain ⟨rfl, rfl⟩ := ends_ret.mp he
    exact Or.inl ⟨(), rfl, rfl⟩

theorem tellsOutcome_mountChild :
    TellsOutcome errnos (mountChild errnos chdir fsType source target flags data) := by
  refine TellsOutcome.bind tellsOutcome_enterDir fun _ => ?_
  refine TellsOutcome.bind tellsOutcome_mountWhen fun _ => ?_
  refine TellsOutcome.bind tellsOutcome_mountWhen fun _ => ?_
  refine TellsOutcome.bind tellsOutcome_mountWhen fun _ => ?_
  intro t e he
  obtain ⟨rfl, rfl⟩ := ends_exit.mp he
  exact Or.inr rfl

theorem ends_forked {e : Ending Stop} (h : (forked child).Ends t e) :
    ∃ s, e = .returned s ∧ child.Ends t (.stopped s) := by
  induction child generalizing t with
  | ret a => cases a
  | panic =>
    obtain ⟨rfl, rfl⟩ := ends_ret.mp h
    exact ⟨.panic, rfl, ends_panic.mpr ⟨rfl, rfl⟩⟩
  | exit code =>
    obtain ⟨rfl, rfl⟩ := ends_ret.mp h
    exact ⟨.exit code, rfl, ends_exit.mpr ⟨rfl, rfl⟩⟩
  | call c next ih =>
    obtain ⟨r, t', rfl, hrest⟩ := ends_call.mp h
    obtain ⟨s, he, hchild⟩ := ih r hrest
    exact ⟨s, he, ends_call.mpr ⟨r, t', rfl, hchild⟩⟩

theorem waitPid_fresh {pid exitCode : Int32} {events : List ExitEvent}
    (h : ∀ e ∈ events, e.subject ≠ .pid pid) : waitPid pid exitCode events = exitCode := by
  induction events with
  | nil => rfl
  | cons e events ih =>
    rw [waitPid, if_neg (h e List.mem_cons_self)]
    exact ih fun e' he' => h e' (List.mem_cons_of_mem e he')

theorem ends_awaitChild {e : Ending (Except Error Unit)}
    (h : (awaitChild errnos f child).run.Ends t e) : ∃ stop, child.Ends t (.stopped stop) ∧
      e = .returned ((MountExitCode.ofInt (termination stop).code).toResult errnos) := by
  rcases ends_bind.mp h with ⟨t₁, t₂, stop, rfl, hforked, hret⟩ | ⟨s, rfl, hforked⟩
  · obtain ⟨rfl, rfl⟩ := ends_ret.mp hret
    obtain ⟨s, hs, hchild⟩ := ends_forked hforked
    obtain rfl := Ending.returned.inj hs
    rw [waitPid_fresh f.fresh, List.append_nil]
    exact ⟨stop, hchild, rfl⟩
  · obtain ⟨s', hs, -⟩ := ends_forked hforked
    cases hs

/-- The numbers of errors survive the exit status. -/
theorem termination_errno (h : 1 ≤ n ∧ n ≤ 133) : (termination (.exit n)).code = n := by
  have hall : ∀ k : Fin 134, (termination (.exit (.ofNat k))).code = .ofNat k := by decide +kernel
  have hle := Int32.le_iff_toInt_le.mp h.2
  have hge := Int32.le_iff_toInt_le.mp h.1
  obtain ⟨k, hk⟩ := Int.eq_ofNat_of_zero_le (Int.le_trans (by decide) hge)
  have hlt : k < 134 := by
    have hmax : (133 : Int32).toInt = 133 := by decide
    omega
  have hn : n = .ofNat k := by
    rw [← Int32.ofInt_toInt n, hk]
    rfl
  rw [hn]
  exact hall ⟨k, hlt⟩

theorem fromRaw_of_gt (h : 133 < n) : errnos.fromRaw n = unknownErrno := by
  unfold Errnos.fromRaw
  cases hn : errnos.known n with
  | none => rfl
  | some err =>
    have hle := (errnos.range n err hn).2
    exact absurd h (Int32.not_lt.mpr hle)

/-- A number that is no error's says what the unknown one says. -/
theorem toResult_of_gt (h : 133 < n) : (MountExitCode.nixOtherErr n).toResult errnos =
    MountExitCode.nixUnknownErr.toResult errnos := by
  show Except.error (Error.other
    s!"mount process exit unexpectedly, exit code: {(errnos.fromRaw n).nix}") = _
  rw [fromRaw_of_gt h]
  rfl

theorem childOutcome_errno (h : childOutcome errnos t = .nixOtherErr n) : 1 ≤ n ∧ n ≤ 133 := by
  rw [childOutcome] at h
  cases hfound : t.findSome? (failure errnos) with
  | none =>
    rw [hfound] at h
    cases h
  | some code =>
    rw [hfound] at h
    obtain rfl : code = .nixOtherErr n := h
    obtain ⟨q, -, hq⟩ := List.exists_of_findSome?_eq_some hfound
    unfold failure at hq
    split at hq
    · cases hq
    · next e =>
      cases hn : errnos.known e.code with
      | none =>
        rw [hn] at hq
        cases hq
      | some err =>
        rw [hn] at hq
        obtain rfl := MountExitCode.nixOtherErr.inj (Option.some.inj hq)
        rw [errnos.code_eq _ err hn]
        exact errnos.range _ err hn
    · cases hq

/-- The parent learns the outcome unless the child could not change its directory. -/
theorem parent_learns_iff {e : Ending (Except Error Unit)}
    (h : (awaitChild errnos f
      (mountChild errnos chdir fsType source target flags data)).run.Ends t e) :
    e = .returned ((childOutcome errnos t).toResult errnos) ↔
      childOutcome errnos t ≠ .chdirErr := by
  obtain ⟨stop, hchild, rfl⟩ := ends_awaitChild h
  rcases tellsOutcome_mountChild t _ hchild with ⟨a, -⟩ | hstop
  · cases a
  obtain rfl := Ending.stopped.inj hstop
  rw [Ending.returned.injEq]
  cases houtcome : childOutcome errnos t with
  | nixUnknownErr =>
    -- 254 is no error number either, so the text is the same
    have hcode : MountExitCode.ofInt (termination (.exit (-2))).code = .nixOtherErr 254 := by decide
    exact ⟨fun _ => by simp, fun _ => (congrArg _ hcode).trans (toResult_of_gt (by decide))⟩
  | chdirErr =>
    have hcode : MountExitCode.ofInt (termination (.exit (-1))).code = .nixOtherErr 255 := by decide
    have hdiffer : (MountExitCode.nixOtherErr 255).toResult errnos ≠
        MountExitCode.chdirErr.toResult errnos := by
      rw [toResult_of_gt (by decide)]
      show (.error (.other s!"mount process exit unexpectedly, exit code: {unknownErrno.nix}") :
        Except Error Unit) ≠ .error (.other "mount process exit unexpectedly: chdir failed")
      decide
    constructor
    · exact fun hresult => absurd ((congrArg _ hcode).symm.trans hresult) hdiffer
    · exact fun hne => absurd rfl hne
  | success =>
    have hcode : MountExitCode.ofInt (termination (.exit 0)).code = .success := by decide
    exact ⟨fun _ => by simp, fun _ => congrArg _ hcode⟩
  | nixOtherErr err =>
    have hrange := childOutcome_errno houtcome
    have hcode : MountExitCode.ofInt (termination (.exit err)).code = .nixOtherErr err := by
      rw [termination_errno hrange]
      have hge := Int32.le_iff_toInt_le.mp hrange.1
      have hne : ∀ k : Int32, k.toInt < 1 → err ≠ k := by
        intro k hk heq
        subst heq
        exact absurd hge (by have hone : (1 : Int32).toInt = 1 := by decide
                             omega)
      rw [MountExitCode.ofInt, if_neg (hne _ (by decide)), if_neg (hne _ (by decide)),
        if_neg (hne _ (by decide))]
    exact ⟨fun _ => by simp, fun _ => congrArg _ hcode⟩

/-- Some of the numbers of Linux. -/
def someErrnos : Errnos where
  known n := if n = 16 then some .ebusy else if n = 22 then some einval else none
  code_eq n e h := by
    split at h
    · next hn =>
      obtain rfl := Option.some.inj h
      exact hn.symm
    · split at h
      · next hn =>
        obtain rfl := Option.some.inj h
        exact hn.symm
      · cases h
  range n e h := by
    split at h
    · next hn =>
      subst hn
      decide
    · split at h
      · next hn =>
        subst hn
        decide
      · cases h

/-- The mount is refused with EINVAL. -/
def refusedMount : List Answered :=
  [(.mount { source := some "/src", target := "/rootfs", fsType := none, flags := 0, data := none },
    .error einval)]

theorem refused_mount_learnt :
    (Ending.returned (Except.error (Error.other
      "mount process exit unexpectedly, exit code: EINVAL: Invalid argument"))) =
      Ending.returned ((childOutcome someErrnos refusedMount).toResult someErrnos) := by
  have hrun : (awaitChild someErrnos { pid := 7, before := [], fresh := by simp }
      (mountChild someErrnos none none (some "/src") "/rootfs" 0 none)).run.Ends refusedMount
      (.returned (.error (.other
        "mount process exit unexpectedly, exit code: EINVAL: Invalid argument"))) := by
    decide +kernel
  exact (parent_learns_iff hrun).mpr (by decide +kernel)

def enoent : OsError := { code := 2, name := "ENOENT", desc := "No such file or directory" }

theorem chdir_failure_lost : ¬∀ (errnos : Errnos) (f : Forked) (chdir fsType source : Option String)
    (target : String) (flags : MsFlags) (data : Option String) (t : List Answered)
    (e : Ending (Except Error Unit)),
    (awaitChild errnos f
      (mountChild errnos chdir fsType source target flags data)).run.Ends t e →
    e = .returned ((childOutcome errnos t).toResult errnos) := by
  intro h
  have hlearnt := h someErrnos { pid := 7, before := [], fresh := by simp } (some "/s/")
    (some "overlay") (some "overlay") "/rootfs" 0 none [(.chdir "/s/", .error enoent)]
    (.returned (.error (.other
      "mount process exit unexpectedly, exit code: UnknownErrno: Unknown errno")))
    (by decide +kernel)
  exact absurd hlearnt (by decide +kernel)

end Synchronous

end RustExtensions.Shim
