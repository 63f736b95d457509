import RustExtensions.RuncShim.Runc
import RustExtensions.Shim.RuntimeOptions

/-!
# Three readers of the runtime options

The options reach the shim at its start, when it is asked about itself, and with
the request to create a container, always as an `Any`. The first two look at its
type before they read it.
-/
namespace RustExtensions.RuncShim

open RustExtensions.Shim
open RustExtensions.Fallible

section
variable (wireError : List UInt8 → String)

/-- The options in an `Any`, whatever its type is. -/
def decodeOptions (any : Any) : Except Error Oci.Options :=
  match parseFromBytes Oci.Options any.value with
  | some opts => .ok opts
  | none => .error (.protobuf (wireError any.value))

/-- The options as `prepare_bundle` decodes them. -/
def createOptions (options : Option Any) : Except Error Oci.Options :=
  match options with
  | some any => decodeOptions wireError any
  | none => .ok {}

/-- The options as `runtime_info` decodes them. -/
def infoOptions (options : Option Any) : Except Error (Option Oci.Options) :=
  match options.filter fun any => anyIs Oci.Options any with
  | some any => (decodeOptions wireError any).map some
  | none => .ok none

def defaultCommand : String := "runc"

structure RuntimeInfo where
  name : String
  options : Option Any
  features : Option Any
  deriving DecidableEq

def featuresTypeUrl : String :=
  "types.containerd.io/opencontainers/runtime-spec/1/features/Features"

/-- `features` is what the named runtime says it can do, less what the shim does not support. -/
def runtimeInfo (features : String → Except String (List UInt8)) (runtimeId : String)
    (options : Option Any) : Except Error RuntimeInfo := do
  let runc ← infoOptions wireError options
  let binary := ((runc.map (·.binaryName)).filter (· ≠ "")).getD defaultCommand
  return {
    name := runtimeId
    options := options.filter fun any => anyIs Oci.Options any
    features :=
      match features binary with
      | .ok value => some { typeUrl := featuresTypeUrl, value := value }
      | .error _ => none }

/-! ## What there is to read -/

/-- The `Any` is among the extensions, and no other one carries options. -/
def Attached (any : AnyMessage) (opts : StartOpts) : Prop :=
  ∃ before after, opts.extensions = before ++ any :: after ∧
    ∀ e ∈ before ++ after, anyIs Oci.Options e.toAny = false

variable {wireError} {any : AnyMessage} {opts : StartOpts}

/-- A foreign `Any` says nothing to the info action. -/
theorem runtimeInfo_of_not {features : String → Except String (List UInt8)} {runtimeId : String}
    {any : Any} (h : anyIs Oci.Options any = false) :
    runtimeInfo wireError features runtimeId (some any) =
      runtimeInfo wireError features runtimeId none := by
  have hfilter : (some any).filter (fun any => anyIs Oci.Options any) = none := by
    rw [Option.filter_some, h]
    rfl
  rw [runtimeInfo, runtimeInfo, infoOptions, infoOptions, hfilter]
  rfl

end

end RustExtensions.RuncShim
