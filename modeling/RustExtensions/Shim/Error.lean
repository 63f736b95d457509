import Mathlib.Data.List.Infix

/-!
# Errors and text

`Error` and its conversion to a ttrpc status, and the three string functions
the error paths use. A foreign error is carried as the text it displays.
-/
namespace RustExtensions.Shim

inductive Error where
  | invalidArgument (msg : String)
  | protobuf (err : String)
  | ioError (context err : String)
  | nix (err : String)
  | notFoundError (msg : String)
  | failedPreconditionError (msg : String)
  | mountError (context err : String)
  | json (err : String)
  | parseInt (err : String)
  | deadlineExceeded (msg : String)
  | other (msg : String)
  | unimplemented (msg : String)
  deriving DecidableEq, Repr

def Error.display : Error → String
  | .invalidArgument s => s!"Failed to parse command line: {s}"
  | .protobuf e => s!"Protobuf error: {e}"
  | .ioError context err => s!"{context} error: {err}"
  | .nix e => s!"Nix error: {e}"
  | .notFoundError s => s!"Not Found: {s}"
  | .failedPreconditionError s => s!"Failed pre condition: {s}"
  | .mountError context err => s!"{context} error: {err}"
  | .json e => s!"Failed to convert json object: {e}"
  | .parseInt e => s!"Failed to parse integer: {e}"
  | .deadlineExceeded s => s!"Deadline exceeded: {s}"
  | .other s => s!"Other: {s}"
  | .unimplemented s => s!"Unimplemented method: {s}"

/-- The ttrpc status codes the shim answers with. -/
inductive Code where
  | invalidArgument | notFound | failedPrecondition
  deriving DecidableEq, Repr

inductive TtrpcError where
  | rpcStatus (code : Code) (msg : String)
  | others (msg : String)
  deriving DecidableEq, Repr

/-- `From<Error> for ttrpc::Error`. -/
def Error.toTtrpc (e : Error) : TtrpcError :=
  match e with
  | .invalidArgument s => .rpcStatus .invalidArgument s
  | .notFoundError s => .rpcStatus .notFound s
  | .failedPreconditionError s => .rpcStatus .failedPrecondition s
  | e => .others e.display

/-- `char::is_whitespace`: the characters with the Unicode property White_Space. -/
def isWhitespace (c : Char) : Bool :=
  let n := c.toNat
  (9 ≤ n && n ≤ 13) || n == 0x20 || n == 0x85 || n == 0xA0 || n == 0x1680 ||
    (0x2000 ≤ n && n ≤ 0x200A) || n == 0x2028 || n == 0x2029 || n == 0x202F ||
    n == 0x205F || n == 0x3000

theorem ne_of_isWhitespace {c d : Char} (hc : isWhitespace c = false) (hd : isWhitespace d = true) :
    c ≠ d := by
  rintro rfl
  rw [hc] at hd
  cases hd

def trim (s : String) : String :=
  String.ofList (((s.toList.dropWhile isWhitespace).reverse.dropWhile isWhitespace).reverse)

/-- `str::contains` on a string pattern. -/
def containsStr (s pat : String) : Bool := decide (pat.toList <:+: s.toList)

/-- The part before the first `pat`, if `pat` occurs (`str::split_once`). -/
def splitOnceFst (s pat : String) : Option String :=
  (s.toList.tails.findIdx? fun t => pat.toList.isPrefixOf t).map fun n =>
    String.ofList (s.toList.take n)

/-- `Path::join`, on paths as strings. -/
def joinPath (base name : String) : String :=
  if name.toList.head? = some '/' then name
  else if base.toList.getLast?.all (· = '/') then base ++ name
  else base ++ "/" ++ name

example : joinPath "/run/b" "init.pid" = "/run/b/init.pid" := by decide
example : joinPath "/run/b/" "init.pid" = "/run/b/init.pid" := by decide

end RustExtensions.Shim
