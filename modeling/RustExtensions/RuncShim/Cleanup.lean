import RustExtensions.Runc.Options
import RustExtensions.RuncShim.Creation
import RustExtensions.RuncShim.Info
import RustExtensions.RuncShim.PidFile

/-!
# The runtime after a crash

Creation leaves the options and the name of the runtime in the bundle. The
process that cleans up after a shim runs in the bundle, reads them, and builds
its own handle on the runtime from them.
-/
namespace RustExtensions.RuncShim

open RustExtensions.Shim
open RustExtensions.Fallible
open RustExtensions.KeyedMap
open RustExtensions.Paths
open RustExtensions.Runc (Env GlobalOpts)

def logJsonFile : String := "log.json"

def defaultRuncRoot : String := "/run/containerd/runc"

/-- Where the runtime keeps the state of the containers of a namespace, as it is asked for. -/
def stateRoot (opts : Oci.Options) (ns : String) : String :=
  joinPath (if opts.root = "" then defaultRuncRoot else opts.root) ns

def createRunc (env : Env) (runtime ns bundle : String) (opts : Oci.Options) :
    Except Error Runc :=
  let runtime := if runtime = "" then defaultCommand else runtime
  let gopts : GlobalOpts := {
    command := some runtime
    root := some (stateRoot opts ns)
    log := some (joinPath bundle logJsonFile)
    logFormat := .json
    systemdCgroup := opts.systemdCgroup }
  (gopts.build env).mapError fun e => .other s!"unable to create runc instance: {e.display}"

section
variable (fromJson : String → Except String JsonOptions)

/-- `bundle` gives what the files in the bundle hold. A bundle without the file has the defaults. -/
def readOptions (bundle : String → Option String) : Except Error Oci.Options :=
  match bundle optionsFileName with
  | none => .ok {}
  | some s => ((fromJson s).mapError fun e => .other s!"read options: {e}").map (·.toOptions)

def readRuntime (bundle : String → Option String) : Except Error String :=
  match bundle runtimeFileName with
  | none => .error (.ioError s!"read {runtimeFileName}" "No such file or directory (os error 2)")
  | some s => .ok s

/-- `Service::delete_shim`, up to the handle on the runtime. -/
def deleteShimRunc (env : Env) (ns : String) (bundle : String → Option String) :
    Except Error Runc := do
  let currentDir := String.ofList env.cwd.path
  let opts ← readOptions fromJson bundle
  let runtime := (readRuntime bundle).toOption.getD ""
  createRunc env runtime ns currentDir opts

end

/-- The files of a bundle. -/
def bundleFile (w : World) (bundle name : String) : Option String :=
  w.files.lookup (joinPath bundle name)

/-- The answers to a request that carries the options, written with `toJson`. -/
structure Answering (toJson : JsonOptions → String) (o : Oci.Options) (ans : Answers) : Prop where
  decode : ans.decodeOptions = .ok { binaryName := o.binaryName }
  json : ans.optionsJson = .ok (toJson (.ofOptions o))

variable {ans : Answers} {req : CreateTaskRequest} {w w' : World} {o : Oci.Options}
  {env : Env} {ns runtime bundle : String}

/-! ## What is left in the bundle -/

theorem requestOptions_ok {wireError : List UInt8 → String}
    (hopts : createOptions wireError req.options = .ok o)
    (hdecode : ans.decodeOptions = .ok { binaryName := o.binaryName }) :
    requestOptions ans req w = .ok { binaryName := o.binaryName } w := by
  rw [requestOptions]
  cases hany : req.options with
  | none =>
    rw [hany, createOptions] at hopts
    rw [← Except.ok.inj hopts]
    rfl
  | some any =>
    dsimp only
    rw [hdecode]
    rfl

theorem optionsPath_ne_runtimePath (bundle : String) :
    joinPath bundle optionsFileName ≠ joinPath bundle runtimeFileName := by
  intro h
  have hname := congrArg PidFile.baseName h
  rw [PidFile.baseName_joinPath bundle (by decide),
    PidFile.baseName_joinPath bundle (by decide)] at hname
  exact absurd hname (by decide)

/-- What comes after an answer that was no error. -/
theorem answered_bind_ok {σ α : Type} {x : Option Error} {f : Unit → EStateM Error σ α} {s t : σ}
    {a : α} (h : (answered x >>= f) s = .ok a t) : f () s = .ok a t := by
  obtain ⟨_, u, hanswer, hnext⟩ := bind_ok.mp h
  rw [answered_ok hanswer] at hnext
  exact hnext

/-- Before anything is mounted two files are written, and nothing else is done. -/
theorem setUp_eq {opts opts' : Options} {json : String}
    (hrequest : requestOptions ans req w = .ok opts w) (hjson : ans.optionsJson = .ok json)
    (h : setUp ans req w = .ok opts' w') :
    w' = (w.writeFile (joinPath req.bundle optionsFileName) json).writeFile
      (joinPath req.bundle runtimeFileName) opts.binaryName := by
  obtain ⟨_, _, hfirst, hencode⟩ := bind_ok.mp h
  obtain ⟨rfl, rfl⟩ := EStateM.Result.ok.inj (hrequest.symm.trans hfirst)
  obtain ⟨_, _, hsecond, hwriteOptions⟩ := bind_ok.mp hencode
  obtain ⟨hwritten, rfl⟩ := ofExcept_ok hsecond
  obtain rfl := Except.ok.inj (hjson.symm.trans hwritten)
  have hwriteRuntime := answered_bind_ok hwriteOptions
  have hmkdir := answered_bind_ok hwriteRuntime
  change (if req.rootfs ≠ [] then answered ans.mkdir >>= fun _ => pure opts
    else pure opts : EStateM Error World Options) _ = _ at hmkdir
  split at hmkdir
  · exact (EStateM.Result.ok.inj (answered_bind_ok (f := fun _ => pure opts) hmkdir)).2.symm
  · exact (EStateM.Result.ok.inj hmkdir).2.symm

/-- The files as creation leaves them, whatever is mounted after they were written. -/
theorem prepareBundle_files {toJson : JsonOptions → String} {opts : Options}
    {wireError : List UInt8 → String} (hopts : createOptions wireError req.options = .ok o)
    (hans : Answering toJson o ans) (hprep : prepareBundle ans req w = .ok opts w') :
    bundleFile w' req.bundle optionsFileName = some (toJson (.ofOptions o)) ∧
      bundleFile w' req.bundle runtimeFileName = some o.binaryName := by
  rw [prepareBundle_eq] at hprep
  obtain ⟨_, u, hsetUp, h⟩ := bind_ok.mp hprep
  obtain ⟨_, v, hmount, h⟩ := bind_ok.mp h
  obtain ⟨rfl, -⟩ := mountAll_returns hmount
  obtain ⟨_, x, hrunc, hret⟩ := bind_ok.mp h
  obtain rfl := answered_ok hrunc
  obtain ⟨-, rfl⟩ := EStateM.Result.ok.inj hret
  obtain rfl := setUp_eq (requestOptions_ok hopts hans.decode) hans.json hsetUp
  have hpath := optionsPath_ne_runtimePath req.bundle
  simp only [bundleFile, World.mounted, World.writeFile, Map.lookup_insert_eq]
  simp [hpath]

/-! ## The handle -/

theorem toList_joinPath (base name : String) :
    (joinPath base name).toList = join base.toList name.toList := by
  rw [joinPath, join]
  by_cases h : name.toList.head? = some '/'
  · have habsolute : IsAbsolute name.toList := h
    rw [if_pos h, if_pos habsolute]
  · have hrelative : ¬IsAbsolute name.toList := h
    rw [if_neg h, if_neg hrelative]
    split
    · exact String.toList_append
    · simp [String.toList_append]

theorem joinPath_ne_empty {base name : String} (h : base ≠ "" ∨ name ≠ "") :
    joinPath base name ≠ "" := by
  intro heq
  unfold joinPath at heq
  split at heq
  · next hname =>
    subst heq
    exact nomatch hname
  · split at heq
    · obtain ⟨rfl, rfl⟩ := String.append_eq_empty_iff.mp heq
      exact h.elim (fun h => h rfl) fun h => h rfl
    · have hslash := (String.append_eq_empty_iff.mp (String.append_eq_empty_iff.mp heq).1).2
      exact absurd hslash (by decide)

theorem stateRoot_ne_empty (o : Oci.Options) (ns : String) : stateRoot o ns ≠ "" := by
  refine joinPath_ne_empty (Or.inl ?_)
  split
  · decide
  · next h => exact h

/-- The arguments of every call, of which the state root and the log are absolute paths. -/
def globalArgs (root log : List Char) (systemdCgroup : Bool) : List String :=
  ["--root", String.ofList root, "--log", String.ofList log, "--log-format", "json"] ++
    if systemdCgroup then ["--systemd-cgroup"] else []

theorem createRunc_eq : createRunc env runtime ns bundle o =
    match Runc.binaryPath env.path env.isFile
      (if runtime = "" then defaultCommand else runtime) with
    | none => .error (.other "unable to create runc instance: Unable to locate the runc")
    | some command => .ok {
        command
        args := globalArgs (env.cwd.goto (stateRoot o ns).toList).path
          (env.cwd.goto (joinPath bundle logJsonFile).toList).path o.systemdCgroup } := by
  have hne : joinPath bundle logJsonFile ≠ "" := joinPath_ne_empty (Or.inr (by decide))
  have hroot := Runc.pathArgs_some env "--root" (stateRoot_ne_empty o ns)
  have hlog := Runc.pathArgs_some env "--log" hne
  rw [createRunc, GlobalOpts.build, GlobalOpts.output]
  simp only [Option.getD_some]
  cases Runc.binaryPath env.path env.isFile (if runtime = "" then defaultCommand else runtime) with
  | none => rfl
  | some command =>
    rw [hroot, hlog]
    simp [bind, Except.bind, pure, Except.pure, Except.mapError, globalArgs, Runc.LogFormat.display]

/-- Below the directory of the bundle, however the bundle is named. -/
theorem names_log (cwd : Directory) (bundle : String) :
    (cwd.goto (joinPath bundle logJsonFile).toList).names =
      (cwd.goto bundle.toList).names ++ [logJsonFile.toList] := by
  have hname : ∀ n ∈ [logJsonFile.toList], IsName n := by decide
  have hsegments : segments logJsonFile.toList = [logJsonFile.toList] := by decide
  rw [Directory.names_goto, Directory.names_goto, toList_joinPath, resolve_join (by decide),
    hsegments, walk_of_isName hname]

/-- The state root is the same directory from both working directories: it is absolute, or the two
agree above all that it leads up. -/
def SameRoot (cwd cwd' : Directory) (root : String) : Prop :=
  IsAbsolute root.toList ∨
    above (reach (segments root.toList)).1 cwd.names =
      above (reach (segments root.toList)).1 cwd'.names

instance (cwd cwd' : Directory) (root : String) : Decidable (SameRoot cwd cwd' root) :=
  inferInstanceAs (Decidable (_ ∨ _))

theorem path_goto_eq_iff {cwd cwd' : Directory} {root : String} :
    (cwd.goto root.toList).path = (cwd'.goto root.toList).path ↔ SameRoot cwd cwd' root := by
  rw [Directory.path_inj, Directory.names_goto, Directory.names_goto, resolve, resolve, SameRoot]
  by_cases h : IsAbsolute root.toList
  · rw [if_pos h, if_pos h]
    exact iff_of_true rfl (Or.inl h)
  · rw [if_neg h, if_neg h, or_iff_right h]
    exact walk_eq_walk_iff

theorem globalArgs_inj {root root' log : List Char} {systemdCgroup : Bool} :
    globalArgs root log systemdCgroup = globalArgs root' log systemdCgroup ↔ root = root' := by
  simp [globalArgs, String.ofList_inj]

/-- A handle that is built in the bundle is the one that was built for it elsewhere exactly if
both find the same state root. -/
theorem createRunc_in_bundle_iff {runc : Runc}
    (hcreate : createRunc env runtime ns bundle o = .ok runc) :
    createRunc { env with cwd := env.cwd.goto bundle.toList } runtime ns
        (String.ofList (env.cwd.goto bundle.toList).path) o = .ok runc ↔
      SameRoot env.cwd (env.cwd.goto bundle.toList) (stateRoot o ns) := by
  have hlog : ((env.cwd.goto bundle.toList).goto (joinPath
        (String.ofList (env.cwd.goto bundle.toList).path) logJsonFile).toList).path =
      (env.cwd.goto (joinPath bundle logJsonFile).toList).path := by
    rw [Directory.path_inj, names_log, names_log, Directory.names_goto (env.cwd.goto bundle.toList),
      String.toList_ofList, Directory.resolve_path]
  rw [createRunc_eq] at hcreate ⊢
  dsimp only at hcreate ⊢
  cases hbinary : Runc.binaryPath env.path env.isFile
    (if runtime = "" then defaultCommand else runtime) with
  | none =>
    rw [hbinary] at hcreate
    cases hcreate
  | some command =>
    rw [hbinary] at hcreate
    obtain rfl := Except.ok.inj hcreate
    dsimp only
    rw [hlog, Except.ok.injEq, Runc.mk.injEq, and_iff_right rfl, globalArgs_inj, eq_comm]
    exact path_goto_eq_iff

/-! ## Creation and cleanup -/

section
variable {toJson : JsonOptions → String} {fromJson : String → Except String JsonOptions}
  {wireError : List UInt8 → String} {w'' : World} {opts : Options}

/-- The cleanup builds its handle from the options that creation had, wherever it runs. -/
theorem cleanup_reads (ns : String) (hopts : createOptions wireError req.options = .ok o)
    (hans : Answering toJson o ans) (hprep : prepareBundle ans req w = .ok opts w')
    (hjson : fromJson (toJson (.ofOptions o)) = .ok (.ofOptions o))
    (hkept : ∀ name ∈ [optionsFileName, runtimeFileName],
      bundleFile w'' req.bundle name = bundleFile w' req.bundle name) :
    readOptions fromJson (bundleFile w'' req.bundle) = .ok o.declared ∧
      ∀ env : Env, deleteShimRunc fromJson env ns (bundleFile w'' req.bundle) =
        createRunc env o.binaryName ns (String.ofList env.cwd.path) o := by
  obtain ⟨hoptions, hruntime⟩ := prepareBundle_files hopts hans hprep
  rw [← hkept _ (by simp)] at hoptions hruntime
  have hread : readOptions fromJson (bundleFile w'' req.bundle) = .ok o.declared := by
    rw [readOptions, hoptions]
    dsimp only
    rw [hjson]
    exact congrArg Except.ok (JsonOptions.toOptions_ofOptions o)
  have hname : (readRuntime (bundleFile w'' req.bundle)).toOption.getD "" = o.binaryName := by
    rw [readRuntime, hruntime]
    rfl
  refine ⟨hread, fun env => ?_⟩
  rw [deleteShimRunc, hread, hname]
  rfl

end

/-- What is read back from the bundle has every declared field, and the handle that is built from
it addresses the state of the containers exactly if the state root is found again. -/
theorem cleanup_handle_iff (toJson : JsonOptions → String)
    (fromJson : String → Except String JsonOptions) (wireError : List UInt8 → String) (env : Env)
    (ns : String) (ans : Answers) (req : CreateTaskRequest) (w w' w'' : World) (o : Oci.Options)
    (opts : Options) (runc : Runc) (hopts : createOptions wireError req.options = .ok o)
    (hans : Answering toJson o ans) (hprep : prepareBundle ans req w = .ok opts w')
    (hcreate : createRunc env o.binaryName ns req.bundle o = .ok runc)
    (hjson : fromJson (toJson (.ofOptions o)) = .ok (.ofOptions o))
    (hkept : ∀ name ∈ [optionsFileName, runtimeFileName],
      bundleFile w'' req.bundle name = bundleFile w' req.bundle name) :
    readOptions fromJson (bundleFile w'' req.bundle) = .ok o.declared ∧
      (deleteShimRunc fromJson { env with cwd := env.cwd.goto req.bundle.toList } ns
          (bundleFile w'' req.bundle) = .ok runc ↔
        SameRoot env.cwd (env.cwd.goto req.bundle.toList) (stateRoot o ns)) := by
  obtain ⟨hread, hdelete⟩ := cleanup_reads ns hopts hans hprep hjson hkept
  rw [hdelete]
  exact ⟨hread, createRunc_in_bundle_iff hcreate⟩

/-- The working directory of a shim that was started for the pause container of a pod. -/
def pauseEnv : Env where
  cwd := { names := ["run".toList, "task".toList, "pause".toList], proper := by decide }
  path := some ["/usr/sbin", "/usr/bin"]
  isFile path := path = "/usr/bin/runc"

/-- A request of another container in the pod, with a state root. -/
def appRequest (root : List UInt8) : CreateTaskRequest where
  id := "app"
  bundle := "/run/task/app"
  options := some
    { typeUrl := "containerd.runc.v1.Options", value := 0x3a :: UInt8.ofNat root.length :: root }

def appAnswers (o : Oci.Options) : Answers where
  optionsJson := .ok (JsonOptions.ofOptions o).render

/-- A reader that knows one text. -/
def readOnly (j : JsonOptions) (s : String) : Except String JsonOptions :=
  if s = j.render then .ok j else .error "expected value at line 1 column 1"

def absoluteOptions : Oci.Options where
  root := "/r"

theorem absolute_root_found :
    ∃ w' runc, prepareBundle (appAnswers absoluteOptions) (appRequest [47, 114]) {} = .ok {} w' ∧
      createRunc pauseEnv "" "k8s.io" "/run/task/app" absoluteOptions = .ok runc ∧
      deleteShimRunc (readOnly (.ofOptions absoluteOptions))
        { pauseEnv with cwd := pauseEnv.cwd.goto "/run/task/app".toList } "k8s.io"
        (bundleFile w' "/run/task/app") = .ok runc := by
  have hdecode : createOptions (fun _ => "") (appRequest [47, 114]).options =
      .ok absoluteOptions := by
    decide +kernel
  refine ⟨_, _, rfl, rfl, ?_⟩
  exact (cleanup_handle_iff JsonOptions.render (readOnly (.ofOptions absoluteOptions))
    (fun _ => "") pauseEnv "k8s.io" (appAnswers absoluteOptions) (appRequest [47, 114]) {} _ _
    absoluteOptions {} _ hdecode ⟨rfl, rfl⟩ rfl rfl (if_pos rfl) fun _ _ => rfl).2.mpr (by decide)

def relativeOptions : Oci.Options where
  root := "state"

/-- A relative state root is looked for in the bundle, while the runtime keeps the state below the
directory of the pod. -/
theorem relative_root_missed :
    ¬∀ (toJson : JsonOptions → String) (fromJson : String → Except String JsonOptions)
      (wireError : List UInt8 → String) (env : Env) (ns : String) (ans : Answers)
      (req : CreateTaskRequest) (w w' w'' : World) (o : Oci.Options) (opts : Options) (runc : Runc),
      createOptions wireError req.options = .ok o → Answering toJson o ans →
      prepareBundle ans req w = .ok opts w' →
      createRunc env o.binaryName ns req.bundle o = .ok runc →
      fromJson (toJson (.ofOptions o)) = .ok (.ofOptions o) →
      (∀ name ∈ [optionsFileName, runtimeFileName],
        bundleFile w'' req.bundle name = bundleFile w' req.bundle name) →
      readOptions fromJson (bundleFile w'' req.bundle) = .ok o.declared ∧
        deleteShimRunc fromJson { env with cwd := env.cwd.goto req.bundle.toList } ns
          (bundleFile w'' req.bundle) = .ok runc := by
  intro h
  have hdecode : createOptions (fun _ => "") (appRequest [115, 116, 97, 116, 101]).options =
      .ok relativeOptions := by
    decide +kernel
  have hjson : readOnly (.ofOptions relativeOptions)
      (JsonOptions.ofOptions relativeOptions).render = .ok (.ofOptions relativeOptions) :=
    if_pos rfl
  have hcreate : createRunc pauseEnv "" "k8s.io" "/run/task/app" relativeOptions =
      .ok { command := "/usr/bin/runc"
            args := ["--root", "/run/task/pause/state/k8s.io",
              "--log", "/run/task/app/log.json", "--log-format", "json"] } := rfl
  have hans : Answering JsonOptions.render relativeOptions (appAnswers relativeOptions) :=
    ⟨rfl, rfl⟩
  obtain ⟨w', hprep⟩ : ∃ w', prepareBundle (appAnswers relativeOptions)
      (appRequest [115, 116, 97, 116, 101]) {} = .ok {} w' := ⟨_, rfl⟩
  have hdelete := (h _ _ _ _ _ _ _ _ _ _ _ _ _ hdecode hans hprep hcreate hjson fun _ _ => rfl).2
  rw [(cleanup_reads "k8s.io" hdecode hans hprep hjson fun _ _ => rfl).2] at hdelete
  exact absurd ((createRunc_in_bundle_iff hcreate).mp hdelete) (by decide)

end RustExtensions.RuncShim
