import RustExtensions.Lib.Utf8
import RustExtensions.RuncShim.Executor

/-!
# What a command printed

The two spawners collect the output of a child by different means: the shim
reads a string from each pipe, the library reads bytes and converts them. A
child's output is all the bytes it has written when the pipe is closed.
-/
namespace RustExtensions.RuncShim

open RustExtensions.Shim
open RustExtensions

/-- The errors of `runc` that a spawner returns. -/
inductive SpawnError where
  | processSpawnFailed (e : String)
  | invalidCommand (e : String)
  | other (e : Error)

/-- A spawned command. A stream that is no pipe of ours has no bytes for us. -/
structure SpawnedChild where
  id : UInt32
  stdout : Option (List UInt8)
  stderr : Option (List UInt8)

abbrev Executed := Except SpawnError (ExitStatus × UInt32 × String × String)

/-! ## The library -/

/-- `std::process::Output`. -/
structure Output where
  status : ExitStatus
  stdout : List UInt8
  stderr : List UInt8

def outputToString (output : List UInt8) : String :=
  match Utf8.decode output with
  | some s => s
  | none => Utf8.lossy output

def SpawnedChild.waitWithOutput (c : SpawnedChild) (waited : Except String ExitStatus) :
    Except String Output := do
  let status ← waited
  return { status, stdout := c.stdout.getD [], stderr := c.stderr.getD [] }

def DefaultExecutor.execute (spawned : Except String SpawnedChild)
    (waited : Except String ExitStatus) : Executed := do
  let child ← spawned.mapError .processSpawnFailed
  let result ← (child.waitWithOutput waited).mapError .invalidCommand
  return (result.status, child.id, outputToString result.stdout, outputToString result.stderr)

/-! ## The shim -/

/-- tokio's `read_to_string`, which appends to the target only what it could decode as a whole. -/
def readToString (bytes : List UInt8) : EStateM String String Nat := do
  match Utf8.decode bytes with
  | some s =>
    modify (· ++ s)
    return bytes.length
  | none => throw "stream did not contain valid UTF-8"

/-- An error is logged, and what the target holds by then is the answer. -/
def readStd (std : Option (List UInt8)) : String :=
  match std with
  | some std =>
    match readToString std "" with
    | .ok _ out => out
    | .error _ out => out
  | none => ""

/-- `exitCode` is what `wait_pid` answers. -/
def ShimExecutor.execute (subscribed : Except Error Unit) (spawned : Except String SpawnedChild)
    (exitCode : Int32) : Executed := do
  subscribed.mapError .other
  let child ← spawned.mapError .processSpawnFailed
  return (.fromRaw exitCode, child.id, readStd child.stdout, readStd child.stderr)

/-! ## Both -/

variable {bytes : List UInt8}

theorem outputToString_eq_lossy (bytes : List UInt8) :
    outputToString bytes = Utf8.lossy bytes := by
  unfold outputToString
  split
  · next s h =>
    rw [Utf8.decode_eq_some] at h
    rw [h, Utf8.lossy_encode]
  · rfl

example : outputToString [0xFF, 0x61, 0xE2, 0x82] = "\uFFFDa\uFFFD" := by decide +kernel

theorem readStd_of_decode {s : String} (h : Utf8.decode bytes = some s) :
    readStd (some bytes) = s := by
  simp only [readStd, readToString, h]
  show "" ++ s = s
  simp

theorem readStd_of_invalid (h : Utf8.decode bytes = none) : readStd (some bytes) = "" := by
  simp only [readStd, readToString, h]
  rfl

/-- Only of an invalid stream does the shim keep less than the lossy decoding: nothing. -/
theorem readStd_eq_lossy : readStd (some bytes) = Utf8.lossy bytes ↔ ∃ s, bytes = Utf8.encode s := by
  constructor
  · intro h
    cases hd : Utf8.decode bytes with
    | some s => exact ⟨s, Utf8.decode_eq_some.mp hd⟩
    | none =>
      rw [readStd_of_invalid hd] at h
      have hne : bytes ≠ [] := by
        intro heq
        subst heq
        have hempty := Utf8.decode_eq_some.mpr (Utf8.encode_eq_nil.mpr rfl).symm
        rw [hempty] at hd
        cases hd
      exact absurd h.symm (Utf8.lossy_ne_empty hne)
  · intro hexists
    obtain ⟨s, rfl⟩ := hexists
    rw [readStd_of_decode (Utf8.decode_encode s), Utf8.lossy_encode]

/-- A command that has been spawned with both streams piped. -/
def SpawnedChild.piped (id : UInt32) (out err : List UInt8) : SpawnedChild where
  id := id
  stdout := some out
  stderr := some err

theorem outputs_agree (id : UInt32) (out err : List UInt8) (status : ExitStatus)
    (exitCode : Int32) :
    DefaultExecutor.execute (.ok (.piped id out err)) (.ok status) =
      .ok (status, id, Utf8.lossy out, Utf8.lossy err) ∧
    (ShimExecutor.execute (.ok ()) (.ok (.piped id out err)) exitCode =
        .ok (.fromRaw exitCode, id, Utf8.lossy out, Utf8.lossy err) ↔
      (∃ s, out = Utf8.encode s) ∧ ∃ s, err = Utf8.encode s) := by
  constructor
  · rw [← outputToString_eq_lossy out, ← outputToString_eq_lossy err]
    rfl
  · rw [← readStd_eq_lossy, ← readStd_eq_lossy]
    constructor
    · intro h
      have hresult := Except.ok.inj h
      exact ⟨congrArg (·.2.2.1) hresult, congrArg (·.2.2.2) hresult⟩
    · intro hexists
      obtain ⟨hout, herr⟩ := hexists
      rw [← hout, ← herr]
      rfl

/-- One byte that is never part of UTF-8. -/
theorem stray_byte_lost : ¬∀ (id : UInt32) (out err : List UInt8) (status : ExitStatus)
    (exitCode : Int32) d s,
    DefaultExecutor.execute (.ok (.piped id out err)) (.ok status) = .ok d →
    ShimExecutor.execute (.ok ()) (.ok (.piped id out err)) exitCode = .ok s →
    s.2.2 = d.2.2 := by
  intro h
  have hstderr := congrArg Prod.snd (h 1 [] [0xFF] (.fromRaw 0) 0 _ _ rfl rfl)
  revert hstderr
  decide +kernel

end RustExtensions.RuncShim
