import RustExtensions.Lib.Runs
import RustExtensions.Shim.Compaction
import RustExtensions.Shim.Mount

/-!
# Setting up a loop device

All complete runs of `setup_loop_dev`, and what has become of the device at the
end of each. The slice of the backing file's path lies between the call that
binds the device and the ones that are undone by LOOP_CLR_FD.
-/
namespace RustExtensions.Shim

open RustExtensions.Calls
open RustExtensions.Calls.Program
open RustExtensions.Utf8

/-- A call with its answer. -/
abbrev Answered := SysCall × Except OsError Nat

variable {path truncated : String} {t : List Answered} {backingFile loopDev : String}
  {params : LoopParams} {e : Ending (Except Error Nat)}

/-! ## Runs of a few calls -/

section Constructs
variable {α β : Type} {c : SysCall} {err : OsError → Error} {f : Nat → Fallible β}
  {g : α → Fallible β} {fd : Nat} {body : Fallible α}

theorem ends_sys_bind {e : Ending (Except Error β)} : (sys c err >>= f).run.Ends t e ↔
    (∃ n t', t = (c, .ok n) :: t' ∧ (f n).run.Ends t' e) ∨
      ∃ er, t = [(c, .error er)] ∧ e = .returned (.error (err er)) := by
  constructor
  · intro h
    obtain ⟨r, t', rfl, hrest⟩ := ends_call.mp h
    cases r with
    | ok n => exact Or.inl ⟨n, t', rfl, hrest⟩
    | error er =>
      obtain ⟨rfl, rfl⟩ := ends_ret.mp hrest
      exact Or.inr ⟨er, rfl, rfl⟩
  · intro h
    rcases h with ⟨n, t', rfl, hrest⟩ | ⟨er, rfl, rfl⟩
    · exact ends_call.mpr ⟨_, t', rfl, hrest⟩
    · exact ends_call.mpr ⟨_, [], rfl, ends_ret.mpr ⟨rfl, rfl⟩⟩

theorem pure_bind_fallible (a : α) : (pure a : Fallible α) >>= g = g a := rfl

/-- A file that is a local variable is closed, if the process goes on. -/
theorem ends_closing {e : Ending (Except Error α)} (h : (closing fd body).run.Ends t e) :
    ∃ t' closed, t = t' ++ closed ∧ (∀ q ∈ closed, q.1 = .close fd) ∧ body.run.Ends t' e := by
  rcases ends_atExit.mp h with ⟨t₁, t₂, a, rfl, hbody, hdrop⟩ | ⟨t₁, t₂, rfl, hbody, hdrop⟩ |
    ⟨code, rfl, hbody⟩
  · obtain ⟨r, t', rfl, hret⟩ := ends_call.mp hdrop
    obtain ⟨rfl, rfl⟩ := ends_ret.mp hret
    exact ⟨t₁, [(.close fd, r)], rfl, by simp, hbody⟩
  · obtain ⟨r, t', rfl, hret⟩ := ends_call.mp hdrop
    obtain ⟨rfl, rfl⟩ := ends_panic.mp hret
    exact ⟨t₁, [(.close fd, r)], rfl, by simp, hbody⟩
  · exact ⟨t, [], (List.append_nil t).symm, by simp, hbody⟩

/-- So is one that is returned, where something else comes out. -/
theorem ends_closeUnlessOk {body : Fallible Unit} {e : Ending (Except Error Unit)}
    (h : (body.run.atExit (closeUnlessOk fd)).Ends t e) :
    ∃ t' closed, t = t' ++ closed ∧ (∀ q ∈ closed, q.1 = .close fd) ∧ body.run.Ends t' e := by
  rcases ends_atExit.mp h with ⟨t₁, t₂, a, rfl, hbody, hdrop⟩ | ⟨t₁, t₂, rfl, hbody, hdrop⟩ |
    ⟨code, rfl, hbody⟩
  · cases a with
    | ok u =>
      obtain ⟨rfl, rfl⟩ := ends_ret.mp hdrop
      exact ⟨t₁, [], rfl, by simp, hbody⟩
    | error err =>
      obtain ⟨r, t', rfl, hret⟩ := ends_call.mp hdrop
      obtain ⟨rfl, rfl⟩ := ends_ret.mp hret
      exact ⟨t₁, [(.close fd, r)], rfl, by simp, hbody⟩
  · obtain ⟨r, t', rfl, hret⟩ := ends_call.mp hdrop
    obtain ⟨rfl, rfl⟩ := ends_panic.mp hret
    exact ⟨t₁, [(.close fd, r)], rfl, by simp, hbody⟩
  · exact ⟨t, [], (List.append_nil t).symm, by simp, hbody⟩

theorem ends_returning {body : Fallible Unit} {e : Ending (Except Error Nat)}
    (h : (returning fd body).run.Ends t e) :
    ∃ t' closed e', t = t' ++ closed ∧ (∀ q ∈ closed, q.1 = .close fd) ∧ body.run.Ends t' e' ∧
      e = e'.map fun r => r.map fun _ => fd := by
  rcases ends_bind.mp h with ⟨t₁, t₂, a, rfl, hbody, hret⟩ | ⟨s, rfl, hbody⟩
  · obtain ⟨rfl, rfl⟩ := ends_ret.mp hret
    obtain ⟨t', closed, rfl, hclosed, hrun⟩ := ends_closeUnlessOk hbody
    exact ⟨t', closed, _, List.append_nil _, hclosed, hrun, rfl⟩
  · obtain ⟨t', closed, rfl, hclosed, hrun⟩ := ends_closeUnlessOk hbody
    exact ⟨t', closed, _, rfl, hclosed, hrun, rfl⟩

theorem ends_orClear {e : Ending (Except Error Unit)} (h : (orClear fd c).run.Ends t e) :
    (∃ n, t = [(c, .ok n)] ∧ e = .returned (.ok ())) ∨
      ∃ er r, t = [(c, .error er), (.loopClrFd fd, r)] ∧ e = .returned (.error (.nix er.nix)) := by
  obtain ⟨r, t', rfl, hrest⟩ := ends_call.mp h
  cases r with
  | ok n =>
    obtain ⟨rfl, rfl⟩ := ends_ret.mp hrest
    exact Or.inl ⟨n, rfl, rfl⟩
  | error er =>
    obtain ⟨r, t', rfl, hret⟩ := ends_call.mp hrest
    obtain ⟨rfl, rfl⟩ := ends_ret.mp hret
    exact Or.inr ⟨er, r, rfl, rfl⟩

theorem ends_orClear_bind {k : Unit → Fallible β} {e : Ending (Except Error β)}
    (h : (orClear fd c >>= k).run.Ends t e) :
    (∃ n t', t = (c, .ok n) :: t' ∧ (k ()).run.Ends t' e) ∨
      ∃ er r, t = [(c, .error er), (.loopClrFd fd, r)] ∧ e = .returned (.error (.nix er.nix)) := by
  rcases ends_bind.mp h with ⟨t₁, t₂, a, rfl, hclear, hk⟩ | ⟨s, rfl, hclear⟩
  · rcases ends_orClear hclear with ⟨n, rfl, he⟩ | ⟨er, r, rfl, he⟩
    · obtain rfl := Ending.returned.inj he
      exact Or.inl ⟨n, t₂, rfl, hk⟩
    · obtain rfl := Ending.returned.inj he
      obtain ⟨rfl, rfl⟩ := ends_ret.mp hk
      exact Or.inr ⟨er, r, rfl, rfl⟩
  · rcases ends_orClear hclear with ⟨n, rfl, he⟩ | ⟨er, r, rfl, he⟩
    · cases he
    · cases he

end Constructs

/-! ## The runs of the set-up -/

/-- The first 64 bytes of the path end inside a character. -/
def Unsliceable (path : String) : Prop :=
  64 < (encode path).length ∧ ¬IsCharBoundary (encode path) 64

instance (path : String) : Decidable (Unsliceable path) := inferInstanceAs (Decidable (_ ∧ _))

/-- A prefix of the path, of at most 64 bytes. -/
def Truncation (path truncated : String) : Prop :=
  truncated.toList <+: path.toList ∧ (encode truncated).length ≤ 64

theorem sliceTo_eq_none {n : Nat} : sliceTo path n = none ↔ ¬IsCharBoundary (encode path) n := by
  have hboundary : IsCharBoundary (encode path) n ↔
      ∃ truncated, sliceTo path n = some truncated := by
    show IsCharBoundary (bytes path.toList) n ↔ _
    rw [isCharBoundary_iff]
    simp only [sliceTo_eq_some]
    constructor
    · intro hexists
      obtain ⟨r, hr, hlen⟩ := hexists
      refine ⟨String.ofList r, ?_, ?_⟩
      · rwa [String.toList_ofList]
      · rwa [encode, String.toList_ofList]
    · intro hexists
      obtain ⟨truncated, hbegins, hlen⟩ := hexists
      exact ⟨truncated.toList, hbegins, hlen⟩
  rw [hboundary, ← Option.ne_none_iff_exists', not_not]

theorem backingFileTruncated_cases (path : String) :
    Unsliceable path ∧ backingFileTruncated path = orPanic none ∨
      ¬Unsliceable path ∧ ∃ truncated, Truncation path truncated ∧
        backingFileTruncated path = pure truncated := by
  unfold backingFileTruncated Unsliceable
  by_cases hlong : 64 < (encode path).length
  · rw [if_pos hlong]
    cases hslice : sliceTo path 64 with
    | none => exact Or.inl ⟨⟨hlong, sliceTo_eq_none.mp hslice⟩, rfl⟩
    | some truncated =>
      obtain ⟨hbegins, hlen⟩ := sliceTo_eq_some.mp hslice
      have hboundary : IsCharBoundary (encode path) 64 := by
        by_contra hinside
        rw [sliceTo_eq_none.mpr hinside] at hslice
        cases hslice
      exact Or.inr ⟨fun h => h.2 hboundary, truncated, ⟨hbegins, Nat.le_of_eq hlen⟩, rfl⟩
  · rw [if_neg hlong]
    exact Or.inr ⟨fun h => hlong h.1, path, ⟨List.prefix_rfl, by omega⟩, rfl⟩

/-- What is done to the device, up to its return. -/
def setupDevice (path : String) (params : LoopParams) (back fd : Nat) : Fallible Unit := do
  let _ ← sys (.loopSetFd fd back) fun e => .nix e.nix
  let truncated ← backingFileTruncated path
  orClear fd (.loopSetStatus64 fd {
    flags := (if params.readonly then loFlagsReadOnly else 0) |||
      (if params.autoClear then loFlagsAutoclear else 0)
    fileName := Utf8.encode truncated })
  if params.direct then orClear fd (.loopSetDirectIo fd)

inductive DeviceRun (path : String) (back fd : Nat) :
    List Answered → Ending (Except Error Unit) → Prop
  | busy (er) : DeviceRun path back fd
      [(.loopSetFd fd back, .error er)] (.returned (.error (.nix er.nix)))
  | sliced (n) (hslice : Unsliceable path) : DeviceRun path back fd
      [(.loopSetFd fd back, .ok n)] (.stopped .panic)
  | noStatus (n info er clr) (hslice : ¬Unsliceable path) : DeviceRun path back fd
      [(.loopSetFd fd back, .ok n), (.loopSetStatus64 fd info, .error er), (.loopClrFd fd, clr)]
      (.returned (.error (.nix er.nix)))
  | noDirect (n info m er clr) (hslice : ¬Unsliceable path) : DeviceRun path back fd
      [(.loopSetFd fd back, .ok n), (.loopSetStatus64 fd info, .ok m),
        (.loopSetDirectIo fd, .error er), (.loopClrFd fd, clr)]
      (.returned (.error (.nix er.nix)))
  | setUp (n) (info : LoopInfo) (m direct truncated) (hslice : ¬Unsliceable path)
      (htruncated : Truncation path truncated) (hinfo : info.fileName = encode truncated)
      (hdirect : ∀ q ∈ direct, q.1 = SysCall.loopSetDirectIo fd) : DeviceRun path back fd
      ((.loopSetFd fd back, .ok n) :: (.loopSetStatus64 fd info, .ok m) :: direct)
      (.returned (.ok ()))

theorem deviceRun {back fd : Nat} {e : Ending (Except Error Unit)}
    (h : (setupDevice path params back fd).run.Ends t e) : DeviceRun path back fd t e := by
  rcases ends_sys_bind.mp h with ⟨n, t₁, rfl, h₁⟩ | ⟨er, rfl, rfl⟩
  · rcases backingFileTruncated_cases path with
      ⟨hslice, hnone⟩ | ⟨hslice, truncated, htruncated, hsome⟩
    · rw [hnone] at h₁
      obtain ⟨rfl, rfl⟩ := ends_panic.mp h₁
      exact DeviceRun.sliced n hslice
    · rw [hsome, pure_bind_fallible] at h₁
      rcases ends_orClear_bind h₁ with ⟨m, t₂, rfl, h₂⟩ | ⟨er, clr, rfl, rfl⟩
      · split at h₂
        · rcases ends_orClear h₂ with ⟨k, rfl, rfl⟩ | ⟨er, clr, rfl, rfl⟩
          · exact DeviceRun.setUp n _ m _ truncated hslice htruncated rfl (by simp)
          · exact DeviceRun.noDirect n _ m er clr hslice
        · obtain ⟨rfl, rfl⟩ := ends_ret.mp h₂
          exact DeviceRun.setUp n _ m [] truncated hslice htruncated rfl (by simp)
      · exact DeviceRun.noStatus n _ er clr hslice
  · exact DeviceRun.busy er

inductive SetupRun (path loopDev : String) (write : Bool) :
    List Answered → Ending (Except Error Nat) → Prop
  | noBacking (er) : SetupRun path loopDev write
      [(.open path write, .error er)] (.returned (.error (openError path er)))
  | noDevice (back er closed) (hclosed : ∀ q ∈ closed, ∃ f, q.1 = SysCall.close f) :
      SetupRun path loopDev write
      ((.open path write, .ok back) :: (.open loopDev write, .error er) :: closed)
      (.returned (.error (openError loopDev er)))
  | opened (back fd closed) {t e} (hrun : DeviceRun path back fd t e)
      (hclosed : ∀ q ∈ closed, ∃ f, q.1 = SysCall.close f) :
      SetupRun path loopDev write
      ((.open path write, .ok back) :: (.open loopDev write, .ok fd) :: (t ++ closed))
      (e.map fun r => r.map fun _ => fd)

theorem setupRun (h : (setupLoopDev path loopDev params).run.Ends t e) :
    SetupRun path loopDev (!params.readonly) t e := by
  rcases ends_sys_bind.mp h with ⟨back, t₁, rfl, h₁⟩ | ⟨er, rfl, rfl⟩
  · obtain ⟨t₂, closedBack, rfl, hback, h₂⟩ := ends_closing h₁
    rcases ends_sys_bind.mp h₂ with ⟨fd, t₃, rfl, h₃⟩ | ⟨er, rfl, rfl⟩
    · obtain ⟨t₄, closedFd, e', rfl, hfd, hrun, rfl⟩ := ends_returning h₃
      rw [List.cons_append, List.append_assoc]
      apply SetupRun.opened back fd _ (deviceRun hrun)
      intro q hq
      rcases List.mem_append.mp hq with hq | hq
      · exact ⟨fd, hfd q hq⟩
      · exact ⟨back, hback q hq⟩
    · exact SetupRun.noDevice back er closedBack fun q hq => ⟨back, hback q hq⟩
  · exact SetupRun.noBacking er

/-! ## What has become of the device -/

/-- Every LOOP_SET_FD that succeeds is followed by a LOOP_CLR_FD on the same device. -/
def GivenBack (unbound : Except OsError Nat → Prop) : List Answered → Prop
  | [] => True
  | (.loopSetFd fd _, .ok _) :: t =>
    (∃ r, (.loopClrFd fd, r) ∈ t ∧ unbound r) ∧ GivenBack unbound t
  | _ :: t => GivenBack unbound t

/-- `unbound` says which answers of LOOP_CLR_FD count. -/
structure SetUpOrGivenBack (unbound : Except OsError Nat → Prop) (path : String)
    (t : List Answered) (e : Ending (Except Error Nat)) : Prop where
  returns : ∃ r, e = .returned r
  givenBack : (∀ file, e ≠ .returned (.ok file)) → GivenBack unbound t
  fileName : ∀ file, e = .returned (.ok file) → ∃ info n,
    (.loopSetStatus64 file info, .ok n) ∈ t ∧ info.fileName <+: encode path ∧
      info.fileName.length ≤ 64

/-- In this run a device was bound. -/
def Bound (t : List Answered) : Prop := ∃ fd back n, (.loopSetFd fd back, .ok n) ∈ t

variable {unbound : Except OsError Nat → Prop} {write : Bool} {closed : List Answered}

/-- The closes bind nothing and clear nothing. -/
theorem not_mem_closed (hclosed : ∀ q ∈ closed, ∃ f, q.1 = SysCall.close f) :
    (∀ f b r, (SysCall.loopSetFd f b, r) ∉ closed) ∧ ∀ f r, (SysCall.loopClrFd f, r) ∉ closed := by
  constructor
  · intro f b r hmem
    obtain ⟨g, hg⟩ := hclosed _ hmem
    cases hg
  · intro f r hmem
    obtain ⟨g, hg⟩ := hclosed _ hmem
    cases hg

theorem givenBack_of_not_bound (h : ¬Bound t) : GivenBack unbound t := by
  induction t with
  | nil => trivial
  | cons q t ih =>
    have hrest : ¬Bound t := by
      intro hexists
      obtain ⟨fd, back, n, hmem⟩ := hexists
      exact h ⟨fd, back, n, List.mem_cons_of_mem q hmem⟩
    unfold GivenBack
    split
    · next heq => cases heq
    · next fd back n t' heq =>
      obtain ⟨rfl, rfl⟩ := List.cons.inj heq
      exact absurd ⟨fd, back, n, List.mem_cons_self⟩ h
    · next heq =>
      obtain ⟨rfl, rfl⟩ := List.cons.inj heq
      exact ih hrest

/-- Where the setup fails, the device is to be given back. -/
theorem setUpOrGivenBack_error {er : Error} :
    SetUpOrGivenBack unbound path t (.returned (.error er)) ↔ GivenBack unbound t := by
  constructor
  · exact fun h => h.givenBack fun file heq => nomatch heq
  · exact fun h => ⟨⟨_, rfl⟩, fun _ => h, fun file heq => nomatch heq⟩

theorem setUpOrGivenBack_of_run (h : SetupRun path loopDev write t e) :
    SetUpOrGivenBack unbound path t e ↔
      (Unsliceable path → ¬Bound t) ∧ ∀ fd r, (.loopClrFd fd, r) ∈ t → unbound r := by
  cases h with
  | noBacking er =>
    have hbound : ¬Bound [(SysCall.open path write, .error er)] := by simp [Bound]
    rw [setUpOrGivenBack_error]
    exact iff_of_true (givenBack_of_not_bound hbound) ⟨fun _ => hbound, by simp⟩
  | noDevice back er closed hclosed =>
    obtain ⟨hset, hclr⟩ := not_mem_closed hclosed
    have hbound : ¬Bound ((SysCall.open path write, .ok back) ::
        (.open loopDev write, .error er) :: closed) := by simp [Bound, hset]
    rw [setUpOrGivenBack_error]
    exact iff_of_true (givenBack_of_not_bound hbound) ⟨fun _ => hbound, by simp [hclr]⟩
  | opened back fd closed hrun hclosed =>
    obtain ⟨hset, hclr⟩ := not_mem_closed hclosed
    have hclosedBack : GivenBack unbound closed := givenBack_of_not_bound (by simp [Bound, hset])
    cases hrun with
    | busy er =>
      have hbound : ¬Bound ((SysCall.open path write, .ok back) :: (.open loopDev write, .ok fd) ::
          ([(.loopSetFd fd back, .error er)] ++ closed)) := by simp [Bound, hset]
      refine setUpOrGivenBack_error.trans ?_
      exact iff_of_true (givenBack_of_not_bound hbound) ⟨fun _ => hbound, by simp [hclr]⟩
    | sliced n hslice =>
      constructor
      · intro h
        obtain ⟨r, hr⟩ := h.returns
        cases hr
      · intro h
        exact absurd ⟨fd, back, n, by simp⟩ (h.1 hslice)
    | noStatus n info er clr hslice =>
      refine setUpOrGivenBack_error.trans ?_
      simp only [GivenBack, List.cons_append, List.nil_append]
      constructor
      · exact fun h => ⟨fun hbad => absurd hbad hslice, by simpa [hclr] using h.1⟩
      · exact fun h => ⟨⟨clr, by simp, h.2 fd clr (by simp)⟩, hclosedBack⟩
    | noDirect n info m er clr hslice =>
      refine setUpOrGivenBack_error.trans ?_
      simp only [GivenBack, List.cons_append, List.nil_append]
      constructor
      · exact fun h => ⟨fun hbad => absurd hbad hslice, by simpa [hclr] using h.1⟩
      · exact fun h => ⟨⟨clr, by simp, h.2 fd clr (by simp)⟩, hclosedBack⟩
    | setUp n info m direct truncated hslice htruncated hinfo hdirect =>
      have hnone : ∀ f r, (SysCall.loopClrFd f, r) ∉ direct := by
        intro f r hmem
        cases hdirect _ hmem
      constructor
      · exact fun _ => ⟨fun h => absurd h hslice, by simp [hclr, hnone]⟩
      · intro _
        refine ⟨⟨_, rfl⟩, fun h => absurd rfl (h fd), ?_⟩
        intro file hfile
        obtain rfl : fd = file := by simpa [Ending.map, Except.map] using hfile
        exact ⟨info, m, by simp, hinfo ▸ bytes_prefix_bytes htruncated.1, hinfo ▸ htruncated.2⟩

/-- A device is set up or given back exactly where the path is cut between characters, or where
it was not bound, and, if the clearing is to succeed, where it does. -/
theorem setupLoopDev_iff (h : (setupLoopDev path loopDev params).run.Ends t e) :
    (SetUpOrGivenBack (fun _ => True) path t e ↔ (Unsliceable path → ¬Bound t)) ∧
      (SetUpOrGivenBack (fun r => ∃ n, r = .ok n) path t e ↔ (Unsliceable path → ¬Bound t) ∧
        ∀ fd er, (.loopClrFd fd, .error er) ∉ t) := by
  have hrun := setupRun h
  constructor
  · rw [setUpOrGivenBack_of_run hrun]
    simp only [implies_true, and_true]
  · rw [setUpOrGivenBack_of_run hrun]
    apply and_congr_right
    intro _
    constructor
    · intro hok fd er hmem
      obtain ⟨n, hn⟩ := hok fd _ hmem
      cases hn
    · intro hok fd r hmem
      cases r with
      | ok n => exact ⟨n, rfl⟩
      | error er => exact absurd hmem (hok fd er)

def einval : OsError := { code := 22, name := "EINVAL", desc := "Invalid argument" }

/-- The kernel refuses the status of the device. -/
def refusedRun : List Answered :=
  [(.open "/img" true, .ok 3), (.open "/dev/loop0" true, .ok 4), (.loopSetFd 4 3, .ok 0),
    (.loopSetStatus64 4 { flags := loFlagsAutoclear, fileName := Utf8.encode "/img" },
      .error einval),
    (.loopClrFd 4, .ok 0), (.close 4, .ok 0), (.close 3, .ok 0)]

theorem refused_device_given_back :
    SetUpOrGivenBack (fun r => ∃ n, r = .ok n) "/img" refusedRun
      (.returned (.error (.nix einval.nix))) := by
  have hrun : (setupLoopDev "/img" "/dev/loop0" { autoClear := true }).run.Ends refusedRun
      (.returned (.error (.nix einval.nix))) := by decide +kernel
  have hslice : ¬Unsliceable "/img" := by decide +kernel
  apply (setupLoopDev_iff hrun).2.mpr
  exact ⟨fun h => absurd h hslice, by simp [refusedRun]⟩

/-- 63 bytes and a character of two. -/
def longPath : String := String.ofList (List.replicate 63 'a' ++ ['é'])

theorem long_path_panics : ¬∀ (path loopDev : String) (params : LoopParams) (t : List Answered)
    (e : Ending (Except Error Nat)), (setupLoopDev path loopDev params).run.Ends t e →
    SetUpOrGivenBack (fun _ => True) path t e := by
  intro h
  have hsafe := h longPath "/dev/loop0" {}
    [(.open longPath true, .ok 3), (.open "/dev/loop0" true, .ok 4), (.loopSetFd 4 3, .ok 0),
      (.close 4, .ok 0), (.close 3, .ok 0)]
    (.stopped .panic) (by decide +kernel)
  obtain ⟨r, hr⟩ := hsafe.returns
  cases hr

end RustExtensions.Shim
