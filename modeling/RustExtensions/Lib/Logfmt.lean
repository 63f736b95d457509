import RustExtensions.Lib.Json

/-!
# Lines of fields

A line is a list of fields `key=value` with a space between two of them and a
newline at the end. A value is bare or a quoted string. Reading a line gives
its fields back if the keys and the bare values end where they should.
-/
namespace RustExtensions.Logfmt

inductive Value where
  | bare (text : List Char)
  | quoted (text : List Char)
deriving DecidableEq, Repr

structure Field where
  key : List Char
  value : Value
deriving DecidableEq, Repr

/-- A key that a reader can tell from what follows it. -/
def IsKey (key : List Char) : Prop :=
  key ≠ [] ∧ ∀ c ∈ key, c.isWhitespace = false ∧ c ≠ '=' ∧ c ≠ '"'

-- Through the list, and not through every character.
instance (key : List Char) : Decidable (IsKey key) :=
  @instDecidableAnd _ _ inferInstance (List.decidableBAll _ key)

/-- A value that needs no quotes. -/
def IsBare (text : List Char) : Prop := text ≠ [] ∧ ∀ c ∈ text, c.isWhitespace = false ∧ c ≠ '"'

instance (text : List Char) : Decidable (IsBare text) :=
  @instDecidableAnd _ _ inferInstance (List.decidableBAll _ text)

/-! ## Writing -/

def Value.write : Value → List Char
  | .bare text => text
  | .quoted text => Json.quote text

def Field.write (f : Field) : List Char := f.key ++ '=' :: f.value.write

def writeLine (fs : List Field) : List Char := [' '].intercalate (fs.map Field.write) ++ ['\n']

/-! ## Reading -/

/-- The key, and what follows the sign after it. -/
def readKey (l : List Char) : Option (List Char × List Char) :=
  let key := l.takeWhile (· ≠ '=')
  if IsKey key ∧ key.length < l.length then some (key, l.drop (key.length + 1)) else none

def readValue : List Char → Option (Value × List Char)
  | '"' :: l => (Json.readString l).map fun r => (.quoted r.1, r.2)
  | l =>
    let text := l.takeWhile fun c => !c.isWhitespace
    if IsBare text then some (.bare text, l.drop text.length) else none

/-- The fields up to the newline that ends the line, of at most `n`. -/
def readFields : Nat → List Char → Option (List Field)
  | 0, _ => none
  | n + 1, l => do
    let (key, l) ← readKey l
    let (value, l) ← readValue l
    match l with
    | ['\n'] => some [{ key, value }]
    | ' ' :: l => (readFields n l).map ({ key, value } :: ·)
    | _ => none

/-- A line has no more fields than characters. -/
def readLine (l : List Char) : Option (List Field) := readFields l.length l

/-! ## Reading what was written -/

/-- The value of a field ends where it is written to end. -/
def Value.WellFormed : Value → Prop
  | .bare text => IsBare text
  | .quoted _ => True

structure Field.WellFormed (f : Field) : Prop where
  key : IsKey f.key
  value : f.value.WellFormed

variable {key l : List Char} {v : Value} {f : Field} {fs : List Field} {c : Char} {n : Nat}

theorem readKey_append (h : IsKey key) : readKey (key ++ '=' :: l) = some (key, l) := by
  have hkey : (key ++ '=' :: l).takeWhile (· ≠ '=') = key := by
    rw [List.takeWhile_append_of_pos fun c hc => by simpa using (h.2 c hc).2.1]
    simp
  rw [readKey, hkey]
  simp [h]

theorem readValue_append (h : v.WellFormed) (hc : c.isWhitespace = true) :
    readValue (v.write ++ c :: l) = some (v, c :: l) := by
  cases v with
  | quoted text =>
    rw [Value.write, Json.quote, List.cons_append, List.cons_append, List.append_assoc, readValue,
      List.singleton_append, Json.readString_quote]
    rfl
  | bare text =>
    have htext : (text ++ c :: l).takeWhile (fun c => !c.isWhitespace) = text := by
      rw [List.takeWhile_append_of_pos fun c hc => by simpa using (h.2 c hc).1]
      simp [hc]
    obtain ⟨d, text, rfl⟩ := List.exists_cons_of_ne_nil h.1
    rw [Value.write, readValue]
    · rw [htext]
      simp [show IsBare (d :: text) from h]
    · intro l' hl
      exact (h.2 d List.mem_cons_self).2 (List.head_eq_of_cons_eq hl)

theorem readFields_last (h : f.WellFormed) :
    readFields (n + 1) (f.write ++ ['\n']) = some [f] := by
  rw [readFields, Field.write, List.append_assoc, List.cons_append, readKey_append h.key]
  simp only [Option.bind_eq_bind, Option.bind_some]
  rw [readValue_append h.value (by decide)]
  rfl

theorem readFields_cons (h : f.WellFormed) :
    readFields (n + 1) (f.write ++ ' ' :: l) = (readFields n l).map (f :: ·) := by
  rw [readFields, Field.write, List.append_assoc, List.cons_append, readKey_append h.key]
  simp only [Option.bind_eq_bind, Option.bind_some]
  rw [readValue_append h.value (by decide)]
  rfl

theorem writeLine_singleton (f : Field) : writeLine [f] = f.write ++ ['\n'] := by
  simp [writeLine]

theorem writeLine_cons (hne : fs ≠ []) (f : Field) :
    writeLine (f :: fs) = f.write ++ ' ' :: writeLine fs := by
  obtain ⟨g, gs, rfl⟩ := List.exists_cons_of_ne_nil hne
  simp [writeLine, List.intercalate_cons_cons]

/-- A line begins with its first field, and the others follow it. -/
theorem writeLine_cons_eq (f : Field) (fs : List Field) :
    writeLine (f :: fs) = f.write ++ fs.flatMap (fun g => ' ' :: g.write) ++ ['\n'] := by
  induction fs generalizing f with
  | nil => simp [writeLine_singleton]
  | cons g fs ih =>
    rw [writeLine_cons (List.cons_ne_nil g fs), ih g]
    simp

theorem readFields_writeLine (hne : fs ≠ []) (hfs : ∀ f ∈ fs, f.WellFormed)
    (hn : fs.length ≤ n) : readFields n (writeLine fs) = some fs := by
  induction fs generalizing n with
  | nil => exact absurd rfl hne
  | cons f fs ih =>
    obtain ⟨n, rfl⟩ : ∃ m, n = m + 1 := ⟨n - 1, by rw [List.length_cons] at hn; omega⟩
    have hf := hfs f List.mem_cons_self
    by_cases hlast : fs = []
    · subst hlast
      rw [writeLine_singleton]
      exact readFields_last hf
    · have hrest := ih hlast (fun g hg => hfs g (List.mem_cons_of_mem f hg))
        (Nat.le_of_succ_le_succ hn)
      rw [writeLine_cons hlast, readFields_cons hf, hrest]
      rfl

theorem length_le_writeLine (fs : List Field) : fs.length ≤ (writeLine fs).length := by
  induction fs with
  | nil => exact Nat.zero_le _
  | cons f fs ih =>
    by_cases hlast : fs = []
    · subst hlast
      simp [writeLine_singleton]
    · rw [writeLine_cons hlast, List.length_append, List.length_cons, List.length_cons]
      omega

/-- A line of well-formed fields is read as these fields. -/
theorem readLine_writeLine (hne : fs ≠ []) (hfs : ∀ f ∈ fs, f.WellFormed) :
    readLine (writeLine fs) = some fs :=
  readFields_writeLine hne hfs (length_le_writeLine fs)

/-- What stands before the last newline has a newline only if a field has one. -/
theorem exists_body (fs : List Field) :
    ∃ body, writeLine fs = body ++ ['\n'] ∧ ('\n' ∈ body ↔ ∃ f ∈ fs, '\n' ∈ f.write) := by
  cases fs with
  | nil => exact ⟨[], rfl, by simp⟩
  | cons f fs => exact ⟨_, writeLine_cons_eq f fs, by simp⟩

/-- A quoted value never brings a newline into its field. -/
theorem newline_mem_write :
    '\n' ∈ f.write ↔ '\n' ∈ f.key ∨ ∃ text, f.value = .bare text ∧ '\n' ∈ text := by
  rw [Field.write, List.mem_append, List.mem_cons]
  cases f.value with
  | bare text => simp [Value.write]
  | quoted text =>
    have hquote : '\n' ∉ Json.quote text := fun h => Json.not_isControl_quote _ h (by decide)
    simp [Value.write, hquote]

end RustExtensions.Logfmt
