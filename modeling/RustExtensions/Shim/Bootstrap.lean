import RustExtensions.Lib.Utf8
import RustExtensions.Lib.Wire
import RustExtensions.Shim.Values

/-!
# The start protocol

How containerd tells the shim what to start: a message of the bootstrap protocol
on stdin, or flags, environment and the runtime options on stdin. The two kinds
of message overlap on the wire, so the shim has to tell them apart. The field
`namespace` of the source is `ns` here.
-/
namespace RustExtensions.Shim

open Wire (Field)

/-! ## Messages -/

/-- An `Any` as it is read, with the fields its type does not have. -/
structure AnyMessage extends Any where
  unknownFields : List Field := []
  deriving DecidableEq

structure Extension where
  value : Option AnyMessage := none
  unknownFields : List Field := []
  deriving DecidableEq

inductive LogLevel where
  | info | trace | debug | warn | error | fatal | panic
  deriving DecidableEq

namespace LogLevel

def value : LogLevel → Int32
  | info => 0
  | trace => -8
  | debug => -4
  | warn => 4
  | error => 8
  | fatal => 10
  | panic => 12

def values : List LogLevel := [info, trace, debug, warn, error, fatal, panic]

end LogLevel

/-- The log level is an open enumeration. -/
structure BootstrapParams where
  instanceId : String := ""
  ns : String := ""
  logLevel : Int32 := 0
  containerdVersion : String := ""
  containerdTtrpcAddress : String := ""
  containerdGrpcAddress : String := ""
  containerdBinary : String := ""
  extensions : List Extension := []
  socketDir : Option String := none
  unknownFields : List Field := []
  deriving DecidableEq

namespace AnyMessage

def merge (a : AnyMessage) (f : Field) : Option AnyMessage :=
  match f.number, f.value with
  | 1, .lengthDelimited bs => (Utf8.decode bs).map fun s => { a with typeUrl := s }
  | 2, .lengthDelimited bs => some { a with value := bs }
  | _, _ => some { a with unknownFields := a.unknownFields ++ [f] }

def parseFromBytes (bs : List UInt8) : Option AnyMessage := Wire.decodeFrom merge {} bs

end AnyMessage

/-- A second value is merged into the first. -/
def Extension.merge (e : Extension) (f : Field) : Option Extension :=
  match f.number, f.value with
  | 1, .lengthDelimited bs =>
    (Wire.decodeFrom AnyMessage.merge (e.value.getD {}) bs).map fun a => { e with value := some a }
  | _, _ => some { e with unknownFields := e.unknownFields ++ [f] }

namespace BootstrapParams

/-- Strings are checked for UTF-8. An enumeration keeps the low 32 bits, as the wire
format has it; a decoder that refuses a greater number gives no message there. -/
def merge (p : BootstrapParams) (f : Field) : Option BootstrapParams :=
  match f.number, f.value with
  | 1, .lengthDelimited bs => (Utf8.decode bs).map fun s => { p with instanceId := s }
  | 2, .lengthDelimited bs => (Utf8.decode bs).map fun s => { p with ns := s }
  | 3, .varint v => some { p with logLevel := v.toUInt32.toInt32 }
  | 4, .lengthDelimited bs => (Utf8.decode bs).map fun s => { p with containerdVersion := s }
  | 5, .lengthDelimited bs => (Utf8.decode bs).map fun s => { p with containerdTtrpcAddress := s }
  | 6, .lengthDelimited bs => (Utf8.decode bs).map fun s => { p with containerdGrpcAddress := s }
  | 7, .lengthDelimited bs => (Utf8.decode bs).map fun s => { p with containerdBinary := s }
  | 8, .lengthDelimited bs =>
    (Wire.decodeFrom Extension.merge {} bs).map fun e => { p with extensions := p.extensions ++ [e] }
  | 9, .lengthDelimited bs => (Utf8.decode bs).map fun s => { p with socketDir := some s }
  | _, _ => some { p with unknownFields := p.unknownFields ++ [f] }

def parseFromBytes (bs : List UInt8) : Option BootstrapParams := Wire.decodeFrom merge {} bs

end BootstrapParams

/-! ## Writing messages -/

def bytesField (number : Nat) (bytes : List UInt8) : Field where
  number := number
  value := .lengthDelimited bytes

def stringField (number : Nat) (s : String) : List Field :=
  if s = "" then [] else [bytesField number (Utf8.encode s)]

namespace AnyMessage

def toFields (a : AnyMessage) : List Field :=
  stringField 1 a.typeUrl ++ (if a.value = [] then [] else [bytesField 2 a.value]) ++
    a.unknownFields

def writeToBytes (a : AnyMessage) : List UInt8 := Wire.write a.toFields

end AnyMessage

namespace Extension

def toFields (e : Extension) : List Field :=
  (e.value.map fun a => bytesField 1 a.writeToBytes).toList ++ e.unknownFields

def writeToBytes (e : Extension) : List UInt8 := Wire.write e.toFields

end Extension

namespace BootstrapParams

def toFields (p : BootstrapParams) : List Field :=
  stringField 1 p.instanceId ++ stringField 2 p.ns ++
    (if p.logLevel = 0 then []
      else [{ number := 3, value := .varint p.logLevel.toInt64.toUInt64 }]) ++
    stringField 4 p.containerdVersion ++ stringField 5 p.containerdTtrpcAddress ++
    stringField 6 p.containerdGrpcAddress ++ stringField 7 p.containerdBinary ++
    (p.extensions.map fun e => bytesField 8 e.writeToBytes) ++
    (p.socketDir.map fun s => bytesField 9 (Utf8.encode s)).toList ++ p.unknownFields

def writeToBytes (p : BootstrapParams) : List UInt8 := Wire.write p.toFields

end BootstrapParams

/-! ## Telling the protocols apart -/

/-- The flags that the start action reads. -/
structure Flags where
  debug : Bool := false
  ns : String := ""
  id : String := ""
  address : String := ""
  publishBinary : String := ""

structure LegacyEnv where
  ttrpcAddress : String := ""
  grpcAddress : String := ""

inductive Protocol where
  | bootstrap | legacy
  deriving DecidableEq

namespace BootstrapParams

def identityOnly (p : BootstrapParams) : BootstrapParams where
  instanceId := p.instanceId
  ns := p.ns

/-- The `-debug` flag makes the level no less verbose than debug. -/
def withDebug (p : BootstrapParams) (debug : Bool) : BootstrapParams :=
  if debug && p.logLevel > LogLevel.debug.value then { p with logLevel := LogLevel.debug.value }
  else p

end BootstrapParams

def parseBootstrapParams (input : List UInt8) (id ns : String) :
    Except Error (Option BootstrapParams) :=
  if input = [] then .ok none
  else
    match BootstrapParams.parseFromBytes input with
    | none => .ok none
    | some params =>
      if params.instanceId = id && params.ns = ns then .ok (some params)
      else if params = params.identityOnly then .ok none
      else .error (.other (s!"bootstrap params for {params.ns}/{params.instanceId} do not match " ++
        s!"command line arguments {ns}/{id}"))

def legacyParams (input : List UInt8) (flags : Flags) (env : LegacyEnv) : BootstrapParams where
  instanceId := flags.id
  ns := flags.ns
  containerdTtrpcAddress := env.ttrpcAddress
  containerdGrpcAddress := if flags.address = "" then env.grpcAddress else flags.address
  containerdBinary := flags.publishBinary
  extensions :=
    match AnyMessage.parseFromBytes input with
    | some any => if any.typeUrl = "" then [] else [{ value := some any }]
    | none => []

def parseStartParams (input : List UInt8) (flags : Flags) (env : LegacyEnv) :
    Except Error (BootstrapParams × Protocol) := do
  let (params, protocol) : BootstrapParams × Protocol :=
    match ← parseBootstrapParams input flags.id flags.ns with
    | some params => (params, .bootstrap)
    | none => (legacyParams input flags env, .legacy)
  let params := params.withDebug flags.debug
  if params.containerdTtrpcAddress = "" then
    throw (match protocol with
      | .bootstrap => .other "bootstrap params carry no containerd TTRPC address"
      | .legacy => .other "TTRPC_ADDRESS environment variable is not set")
  return (params, protocol)

/-! ## Start options -/

structure StartOpts where
  id : String := ""
  publishBinary : String := ""
  address : String := ""
  ttrpcAddress : String := ""
  ns : String := ""
  debug : Bool := false
  logLevel : LogLevel := .info
  containerdVersion : String := ""
  socketDir : Option String := none
  extensions : List AnyMessage := []

/-- `l` is nearer to `value` than `best`, or as near and less verbose. -/
def LogLevel.Nearer (value : Int32) (l best : LogLevel) : Prop :=
  let d (l : LogLevel) := (l.value.toInt - value.toInt).natAbs
  d l < d best ∨ d l = d best ∧ l.value > best.value

instance (value : Int32) (l best : LogLevel) : Decidable (LogLevel.Nearer value l best) :=
  inferInstanceAs (Decidable (_ ∨ _))

def nearestLogLevel (value : Int32) : LogLevel :=
  LogLevel.values.foldl (fun best l => if LogLevel.Nearer value l best then l else best) .info

def StartOpts.ofParams (params : BootstrapParams) : StartOpts where
  id := params.instanceId
  publishBinary := params.containerdBinary
  address := params.containerdGrpcAddress
  ttrpcAddress := params.containerdTtrpcAddress
  ns := params.ns
  debug := (nearestLogLevel params.logLevel).value ≤ LogLevel.debug.value
  logLevel := nearestLogLevel params.logLevel
  containerdVersion := params.containerdVersion
  socketDir := params.socketDir.filter (· ≠ "")
  extensions := params.extensions.filterMap (·.value)

end RustExtensions.Shim
