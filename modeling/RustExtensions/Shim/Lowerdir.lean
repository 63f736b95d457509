import RustExtensions.Lib.Utf8

/-!
# Compaction of overlay options

The lower directories of an overlay mount are cut down to what they do not have
in common, for a mount from their common parent. Slices of strings are in bytes
and panic off a character boundary; `none` is a panic.
-/
namespace RustExtensions.Shim

def overlayLowerdirPrefix : String := "lowerdir="

/-- The first `n` bytes, if they are whole characters. -/
def takeBytes : List Char → Nat → Option (List Char)
  | _, 0 => some []
  | [], _ + 1 => none
  | c :: cs, n + 1 =>
    if c.utf8Size ≤ n + 1 then (takeBytes cs (n + 1 - c.utf8Size)).map (c :: ·) else none

/-- `&s[0..n]`. -/
def sliceTo (s : String) (n : Nat) : Option String := (takeBytes s.toList n).map String.ofList

/-- `str::is_char_boundary`, on the bytes of the string. -/
def IsCharBoundary (bytes : List UInt8) (i : Nat) : Prop :=
  i = 0 ∨ i = bytes.length ∨ ∃ b ∈ bytes[i]?, ¬Utf8.IsContinuation b

instance (bytes : List UInt8) (i : Nat) : Decidable (IsCharBoundary bytes i) :=
  inferInstanceAs (Decidable (_ ∨ _ ∨ _))

/-- The loop that goes back to a boundary. -/
def boundaryBelow (bytes : List UInt8) : Nat → Nat
  | 0 => 0
  | i + 1 => if IsCharBoundary bytes (i + 1) then i + 1 else boundaryBelow bytes i

def longestCommonPrefix : List String → Option String
  | [] => some ""
  | firstDir :: dirs =>
    let first := Utf8.encode firstDir
    match (List.range first.length).find? fun i =>
      (firstDir :: dirs).any fun dir => (Utf8.encode dir)[i]? ≠ first[i]? with
    | some i => sliceTo firstDir (boundaryBelow first i)
    | none => some firstDir

/-- `s.rfind('/')`. -/
def rfindSlash (s : String) : Option Nat :=
  let bytes := Utf8.encode s
  (List.range bytes.length).reverse.find? fun i => bytes[i]? = some 0x2F

def trimFlawedDir (s : String) : Option String := sliceTo s ((rfindSlash s).getD 0 + 1)

def stripPrefix (s pre : String) : Option String :=
  if pre.toList.isPrefixOf s.toList then some (String.ofList (s.toList.drop pre.toList.length))
  else none

/-- `s.split(':')`. -/
def splitColon (s : String) : List String := (s.toList.splitOn ':').map String.ofList

structure LowerdirCompactor where
  options : List String
  lowerdirs : Option (List String) := none
  lowerdirPrefix : Option String := none

namespace LowerdirCompactor

def setLowerdirs (c : LowerdirCompactor) : LowerdirCompactor :=
  { c with lowerdirs := some ((c.options.filterMap (stripPrefix · overlayLowerdirPrefix)).flatMap
      splitColon) }

def setLowerdirPrefix (c : LowerdirCompactor) : Option LowerdirCompactor :=
  match c.lowerdirs.filter (·.length > 1) with
  | none => some { c with lowerdirPrefix := none }
  | some dirs => do
    let dir ← trimFlawedDir (← longestCommonPrefix dirs)
    return { c with lowerdirPrefix := (some dir).filter fun x => x ≠ "" && x ≠ "/" }

def compact (c : LowerdirCompactor) : Option (Option String × List String) := do
  let c ← c.setLowerdirs.setLowerdirPrefix
  match c.lowerdirPrefix with
  | some chdir =>
    let lowerdirStr := String.intercalate ":"
      ((c.lowerdirs.getD []).map fun x => (stripPrefix x chdir).getD x)
    let replace (x : String) :=
      if (stripPrefix x overlayLowerdirPrefix).isSome then overlayLowerdirPrefix ++ lowerdirStr
      else x
    return (c.lowerdirPrefix, c.options.map replace)
  | none => return (none, c.options)

end LowerdirCompactor

example : (LowerdirCompactor.mk ["workdir=/w", "lowerdir=/s/1/fs:/s/2/fs"] none none).compact =
    some (some "/s/", ["workdir=/w", "lowerdir=1/fs:2/fs"]) := by decide +kernel

end RustExtensions.Shim
