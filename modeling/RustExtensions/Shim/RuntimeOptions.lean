import RustExtensions.Lib.Json
import RustExtensions.Shim.Bootstrap

/-!
# The runtime options

The message `containerd.runc.v1.Options`, how the shim tells whether an `Any`
carries one, and the mirror of it that is kept in the bundle as JSON.
-/
namespace RustExtensions.Shim

open Wire (Field)

/-- What a message type brings along: its full name, and how a field is merged into it. -/
class MessageFull (M : Type) where
  fullName : String
  new : M
  merge : M → Field → Option M

def mergeFrom {M : Type} [MessageFull M] (m : M) (bs : List UInt8) : Option M :=
  Wire.decodeFrom MessageFull.merge m bs

def parseFromBytes (M : Type) [MessageFull M] (bs : List UInt8) : Option M :=
  mergeFrom (MessageFull.new : M) bs

/-! ## Which message an `Any` carries -/

/-- `rsplit('/').next()`. -/
def lastSegment (typeUrl : String) : String :=
  String.ofList (typeUrl.toList.reverse.takeWhile (· ≠ '/')).reverse

def anyIs (M : Type) [MessageFull M] (any : Any) : Bool :=
  let name := lastSegment any.typeUrl
  name ≠ "" && name = MessageFull.fullName M

namespace Oci

/-- `containerd.runc.v1.Options`. -/
structure Options where
  noPivotRoot : Bool := false
  noNewKeyring : Bool := false
  shimCgroup : String := ""
  ioUid : UInt32 := 0
  ioGid : UInt32 := 0
  binaryName : String := ""
  root : String := ""
  systemdCgroup : Bool := false
  criuImagePath : String := ""
  criuWorkPath : String := ""
  taskApiAddress : String := ""
  taskApiVersion : UInt32 := 0
  unknownFields : List Field := []
  deriving DecidableEq

namespace Options

/-- Any number but 0 sets a flag. -/
def readBool (v : UInt64) : Bool := v ≠ 0

/-- A number beyond 32 bits is refused. -/
def readUInt32 (v : UInt64) : Option UInt32 :=
  if v.toNat < 2 ^ 32 then some v.toUInt32 else none

def merge (o : Options) (f : Field) : Option Options :=
  match f.number, f.value with
  | 1, .varint v => some { o with noPivotRoot := readBool v }
  | 2, .varint v => some { o with noNewKeyring := readBool v }
  | 3, .lengthDelimited bs => (Utf8.decode bs).map fun s => { o with shimCgroup := s }
  | 4, .varint v => (readUInt32 v).map fun n => { o with ioUid := n }
  | 5, .varint v => (readUInt32 v).map fun n => { o with ioGid := n }
  | 6, .lengthDelimited bs => (Utf8.decode bs).map fun s => { o with binaryName := s }
  | 7, .lengthDelimited bs => (Utf8.decode bs).map fun s => { o with root := s }
  | 9, .varint v => some { o with systemdCgroup := readBool v }
  | 10, .lengthDelimited bs => (Utf8.decode bs).map fun s => { o with criuImagePath := s }
  | 11, .lengthDelimited bs => (Utf8.decode bs).map fun s => { o with criuWorkPath := s }
  | 12, .lengthDelimited bs => (Utf8.decode bs).map fun s => { o with taskApiAddress := s }
  | 13, .varint v => (readUInt32 v).map fun n => { o with taskApiVersion := n }
  | _, _ => some { o with unknownFields := o.unknownFields ++ [f] }

/-- The fields that the message declares. -/
def declared (o : Options) : Options := { o with unknownFields := [] }

end Options

instance : MessageFull Options where
  fullName := "containerd.runc.v1.Options"
  new := {}
  merge := Options.merge

/-- A flag set above the low 32 bits, and a number that is too great. -/
example :
    parseFromBytes Options [0x08, 0x80, 0x80, 0x80, 0x80, 0x10] = some { noPivotRoot := true } ∧
      parseFromBytes Options [0x20, 0x80, 0x80, 0x80, 0x80, 0x10] = none := by
  decide +kernel

end Oci

/-! ## The mirror in JSON -/

structure JsonOptions where
  noPivotRoot : Bool
  noNewKeyring : Bool
  shimCgroup : String
  ioUid : UInt32
  ioGid : UInt32
  binaryName : String
  root : String
  systemdCgroup : Bool
  criuImagePath : String
  criuWorkPath : String
  taskApiAddress : String
  taskApiVersion : UInt32
  deriving DecidableEq

namespace JsonOptions

/-- `From<Options> for JsonOptions`. -/
def ofOptions (o : Oci.Options) : JsonOptions where
  noPivotRoot := o.noPivotRoot
  noNewKeyring := o.noNewKeyring
  shimCgroup := o.shimCgroup
  ioUid := o.ioUid
  ioGid := o.ioGid
  binaryName := o.binaryName
  root := o.root
  systemdCgroup := o.systemdCgroup
  criuImagePath := o.criuImagePath
  criuWorkPath := o.criuWorkPath
  taskApiAddress := o.taskApiAddress
  taskApiVersion := o.taskApiVersion

/-- `From<JsonOptions> for Options`. -/
def toOptions (j : JsonOptions) : Oci.Options where
  noPivotRoot := j.noPivotRoot
  noNewKeyring := j.noNewKeyring
  shimCgroup := j.shimCgroup
  ioUid := j.ioUid
  ioGid := j.ioGid
  binaryName := j.binaryName
  root := j.root
  systemdCgroup := j.systemdCgroup
  criuImagePath := j.criuImagePath
  criuWorkPath := j.criuWorkPath
  taskApiAddress := j.taskApiAddress
  taskApiVersion := j.taskApiVersion

/-- The text that `serde_json::to_string` makes of it. -/
def render (j : JsonOptions) : String :=
  let string (s : String) := String.ofList (Json.quote s.toList)
  s!"\x7b\"no_pivot_root\":{j.noPivotRoot},\"no_new_keyring\":{j.noNewKeyring}," ++
    s!"\"shim_cgroup\":{string j.shimCgroup},\"io_uid\":{j.ioUid},\"io_gid\":{j.ioGid}," ++
    s!"\"binary_name\":{string j.binaryName},\"root\":{string j.root}," ++
    s!"\"systemd_cgroup\":{j.systemdCgroup},\"criu_image_path\":{string j.criuImagePath}," ++
    s!"\"criu_work_path\":{string j.criuWorkPath}," ++
    s!"\"task_api_address\":{string j.taskApiAddress}," ++
    s!"\"task_api_version\":{j.taskApiVersion}\x7d"

/-- The mirror keeps every declared field. -/
theorem toOptions_ofOptions (o : Oci.Options) : (ofOptions o).toOptions = o.declared := rfl

end JsonOptions

end RustExtensions.Shim
