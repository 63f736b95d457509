import RustExtensions.Lib.Logfmt
import RustExtensions.Lib.Utf8

/-!
# The log of the shim

`FifoLogger` writes a record as one line of fields: the time, the level, the
key-value pairs of the record, and its message last. Values and the message are
quoted as JSON strings. Keys are written as they are.
-/
namespace RustExtensions.Shim

namespace Log

/-- The levels of the `log` crate. -/
inductive Level where
  | error | warn | info | debug | trace
deriving DecidableEq, Repr

inductive LevelFilter where
  | off | error | warn | info | debug | trace
deriving DecidableEq, Repr

/-- `level as usize`. -/
def Level.toNat : Level → Nat
  | .error => 1
  | .warn => 2
  | .info => 3
  | .debug => 4
  | .trace => 5

def LevelFilter.toNat : LevelFilter → Nat
  | .off => 0
  | .error => 1
  | .warn => 2
  | .info => 3
  | .debug => 4
  | .trace => 5

def Level.asStr : Level → String
  | .error => "ERROR"
  | .warn => "WARN"
  | .info => "INFO"
  | .debug => "DEBUG"
  | .trace => "TRACE"

/-- What the logger reads of a record. Keys and values are given as their texts. -/
structure Record where
  level : Level
  keyValues : List (String × String)
  args : String
deriving DecidableEq, Repr

end Log

open Log

/-- `str::to_lowercase`, of a text in ASCII. -/
def toLowercase (s : String) : String := String.ofList (s.toList.map Char.toLower)

/-- The text of a time, in the format of RFC 3339 or in that of `OffsetDateTime::to_string`. -/
structure TimeText where
  text : String
  plain : ∀ c ∈ text.toList, c.isDigit = true ∨ c ∈ ['-', ':', '.', '+', 'T', 'Z', ' ']

def jsonQuote (v : String) : String := String.ofList (Json.quote v.toList)

structure SimpleWriteVistor where
  keyValues : String

namespace SimpleWriteVistor

def new : SimpleWriteVistor where
  keyValues := ""

def visitPair (w : SimpleWriteVistor) (k v : String) : SimpleWriteVistor where
  keyValues := w.keyValues ++ (" " ++ k ++ "=" ++ jsonQuote v)

def asStr (w : SimpleWriteVistor) : String := w.keyValues

/-- `record.key_values().visit(&mut writer)`: the pairs are visited in their order. -/
def visit (w : SimpleWriteVistor) (kvs : List (String × String)) : SimpleWriteVistor :=
  kvs.foldl (fun w kv => w.visitPair kv.1 kv.2) w

end SimpleWriteVistor

namespace FifoLogger

def enabled (maxLevel : LevelFilter) (level : Level) : Bool := level.toNat ≤ maxLevel.toNat

def line (now : TimeText) (record : Record) : String :=
  let writer := SimpleWriteVistor.new.visit record.keyValues
  "time=\"" ++ now.text ++ "\" level=" ++ toLowercase record.level.asStr ++ writer.asStr ++
    " msg=" ++ jsonQuote record.args ++ "\n"

/-- `FifoLogger::log`: the bytes of the single write, if the record is accepted. -/
def log (maxLevel : LevelFilter) (now : TimeText) (record : Record) : Option (List UInt8) :=
  if enabled maxLevel record.level then some (Utf8.encode (line now record)) else none

end FifoLogger

/-! ## The fields of a record -/

open Logfmt

def pairField (kv : String × String) : Field where
  key := kv.1.toList
  value := .quoted kv.2.toList

/-- The fields that a record is written as. -/
def recordFields (now : TimeText) (record : Record) : List Field :=
  { key := "time".toList, value := .quoted now.text.toList } ::
    ({ key := "level".toList, value := .bare (toLowercase record.level.asStr).toList } ::
      (record.keyValues.map pairField ++
        [{ key := "msg".toList, value := .quoted record.args.toList }]))

variable {now : TimeText} {record : Record} {kvs : List (String × String)}

theorem toList_visit (w : SimpleWriteVistor) :
    (w.visit kvs).asStr.toList =
      w.asStr.toList ++ (kvs.map pairField).flatMap fun f => ' ' :: f.write := by
  unfold SimpleWriteVistor.visit
  induction kvs generalizing w with
  | nil => simp
  | cons kv kvs ih =>
    rw [List.foldl_cons, ih]
    simp [SimpleWriteVistor.visitPair, SimpleWriteVistor.asStr, pairField, Field.write,
      Value.write, jsonQuote]

/-- A time has nothing in it that is escaped. -/
theorem TimeText.escape_eq (now : TimeText) :
    now.text.toList.flatMap Json.escape = now.text.toList := by
  refine Json.flatMap_escape fun c hc => ?_
  rcases now.plain c hc with hdigit | hsign
  · have hcode : 48 ≤ c.toNat ∧ c.toNat ≤ 57 := Char.isDigit_iff_toNat.mp hdigit
    have hlow : ∀ d : Char, d.toNat < 48 → c ≠ d := fun d hd heq => by subst heq; omega
    have hhigh : ∀ d : Char, 57 < d.toNat → c ≠ d := fun d hd heq => by subst heq; omega
    refine ⟨hlow _ (by decide), hhigh _ (by decide), ?_⟩
    rw [Json.IsControl]
    omega
  · have hall : ∀ d ∈ ['-', ':', '.', '+', 'T', 'Z', ' '],
        d ≠ '"' ∧ d ≠ '\\' ∧ ¬Json.IsControl d := List.forall_iff_forall_mem.mp (by decide)
    exact hall c hsign

/-- The line of a record is the line of its fields. -/
theorem toList_line (now : TimeText) (record : Record) :
    (FifoLogger.line now record).toList = writeLine (recordFields now record) := by
  have hnew : SimpleWriteVistor.new.asStr = "" := rfl
  rw [recordFields, writeLine_cons_eq]
  simp only [FifoLogger.line, String.toList_append, toList_visit, hnew]
  simp [Field.write, Value.write, Json.quote, jsonQuote, now.escape_eq]

/-! ## One line -/

/-- There is one newline, and nothing follows it. -/
def OneLine (bytes : List UInt8) : Prop := ∃ text, bytes = text ++ [0x0a] ∧ 0x0a ∉ text

theorem level_plain (level : Level) : IsBare (toLowercase level.asStr).toList := by
  cases level <;> simp [toLowercase, Level.asStr] <;> decide

/-- Values are quoted, so only a key can bring a newline into a line. -/
theorem newline_mem_recordFields :
    (∃ f ∈ recordFields now record, '\n' ∈ f.write) ↔
      ∃ kv ∈ record.keyValues, '\n' ∈ kv.1.toList := by
  have hlevel : '\n' ∉ (toLowercase record.level.asStr).toList := fun h =>
    absurd ((level_plain record.level).2 _ h).1 (by decide)
  simp [recordFields, newline_mem_write, pairField, hlevel]

theorem oneLine_append (text : List UInt8) : OneLine (text ++ [0x0a]) ↔ 0x0a ∉ text := by
  constructor
  · intro h
    obtain ⟨text', heq, hmem⟩ := h
    rwa [(List.append_inj' heq rfl).1]
  · exact fun h => ⟨text, rfl, h⟩

/-- A line breaks at the newlines of its keys, and nowhere else. -/
theorem oneLine_line :
    OneLine (Utf8.encode (FifoLogger.line now record)) ↔
      ∀ kv ∈ record.keyValues, '\n' ∉ kv.1.toList := by
  obtain ⟨body, hbody, hmem⟩ := exists_body (recordFields now record)
  have hnewline : String.utf8EncodeChar '\n' = [0x0a] := by decide
  have hencode : Utf8.encode (FifoLogger.line now record) = Utf8.bytes body ++ [0x0a] := by
    rw [Utf8.encode, toList_line, hbody, ← hnewline]
    simp [Utf8.bytes]
  rw [hencode, oneLine_append, Utf8.mem_bytes hnewline, hmem, newline_mem_recordFields]
  simp

/-! ## Reading a record back -/

def levels : List Level := [.error, .warn, .info, .debug, .trace]

def readLevel (text : List Char) : Option Level :=
  levels.find? fun level => (toLowercase level.asStr).toList = text

def readPair : Field → Option (String × String)
  | { key, value := .quoted text } => some (String.ofList key, String.ofList text)
  | { value := .bare _, .. } => none

/-- The time and the level come first, the message comes last. -/
def readRecord (line : String) : Option (String × Record) := do
  match ← readLine line.toList with
  | { key := timeKey, value := .quoted time } :: { key := levelKey, value := .bare level } :: fs =>
    let level ← readLevel level
    let (msgKey, args) ← fs.getLast? >>= readPair
    let keyValues ← fs.dropLast.mapM readPair
    if timeKey = "time".toList ∧ levelKey = "level".toList ∧ msgKey = "msg" then
      some (String.ofList time, { level, keyValues, args })
    else none
  | _ => none

theorem readLevel_asStr (level : Level) :
    readLevel (toLowercase level.asStr).toList = some level := by
  cases level <;> simp [readLevel, levels, toLowercase, Level.asStr]

theorem readPair_pairField (kv : String × String) : readPair (pairField kv) = some kv := by
  simp [readPair, pairField]

/-- The keys of a record are told from what follows them. -/
def KeysPlain (record : Record) : Prop := ∀ kv ∈ record.keyValues, IsKey kv.1.toList

instance (record : Record) : Decidable (KeysPlain record) :=
  inferInstanceAs (Decidable (∀ _ ∈ _, _))

theorem recordFields_wellFormed (h : KeysPlain record) :
    ∀ f ∈ recordFields now record, f.WellFormed := by
  intro f hf
  rw [recordFields, List.mem_cons, List.mem_cons, List.mem_append, List.mem_singleton,
    List.mem_map] at hf
  have htime : IsKey "time".toList := by decide
  have hlevel : IsKey "level".toList := by decide
  have hmsg : IsKey "msg".toList := by decide
  rcases hf with rfl | rfl | ⟨kv, hkv, rfl⟩ | rfl
  · exact ⟨htime, trivial⟩
  · exact ⟨hlevel, level_plain record.level⟩
  · exact ⟨h kv hkv, trivial⟩
  · exact ⟨hmsg, trivial⟩

theorem readLine_line (h : KeysPlain record) :
    readLine (FifoLogger.line now record).toList = some (recordFields now record) := by
  rw [toList_line]
  exact readLine_writeLine (List.cons_ne_nil _ _) (recordFields_wellFormed h)

theorem mapM_readPair (kvs : List (String × String)) :
    kvs.mapM (readPair ∘ pairField) = some kvs := by
  have hpure : readPair ∘ pairField = fun kv => pure (id kv) := funext readPair_pairField
  rw [hpure, List.mapM_pure, List.map_id]
  rfl

theorem readRecord_line (now : TimeText) (h : KeysPlain record) :
    readRecord (FifoLogger.line now record) = some (now.text, record) := by
  rw [readRecord, readLine_line h, recordFields]
  simp [readLevel_asStr, mapM_readPair, readPair]

/-! ## Records as bytes -/

/-- A record is written if and only if its level is enabled. -/
theorem log_eq_some_iff {maxLevel : LevelFilter} {bytes : List UInt8} :
    FifoLogger.log maxLevel now record = some bytes ↔
      FifoLogger.enabled maxLevel record.level ∧
        bytes = Utf8.encode (FifoLogger.line now record) := by
  rw [FifoLogger.log]
  split
  · next henabled => simp [henabled, eq_comm]
  · next hdisabled => simp [hdisabled]

/-- A record that is accepted is written as one line exactly if no key breaks it. -/
theorem record_one_line (maxLevel : LevelFilter) (now : TimeText) (record : Record)
    (bytes : List UInt8) (hlog : FifoLogger.log maxLevel now record = some bytes) :
    OneLine bytes ↔ ∀ kv ∈ record.keyValues, '\n' ∉ kv.1.toList := by
  rw [(log_eq_some_iff.mp hlog).2]
  exact oneLine_line

/-- A time without a fraction of a second. -/
def exampleTime : TimeText where
  text := "2024-01-01T00:00:00Z"
  plain := List.forall_iff_forall_mem.mp (by decide)

theorem record_one_line_escaped :
    OneLine (Utf8.encode (FifoLogger.line exampleTime
      { level := .info, keyValues := [("nl", "line1\nline2")], args := "kv\n" })) :=
  (record_one_line .info exampleTime
    { level := .info, keyValues := [("nl", "line1\nline2")], args := "kv\n" } _ rfl).mpr (by decide)

/-- A newline in a key starts another line. -/
theorem key_breaks_line :
    ¬∀ (maxLevel : LevelFilter) (now : TimeText) (record : Record) (bytes : List UInt8),
      FifoLogger.log maxLevel now record = some bytes → OneLine bytes := by
  intro h
  have hline := h .info exampleTime { level := .info, keyValues := [("a\nb", "v")], args := "m" }
    _ rfl
  exact absurd (oneLine_line.mp hline) (by decide)

/-- A record whose level is enabled is written, and what is written says which record it was. -/
theorem record_read_back (maxLevel : LevelFilter) (now : TimeText) (record : Record)
    (hkeys : KeysPlain record) (henabled : FifoLogger.enabled maxLevel record.level) :
    ∃ bytes, FifoLogger.log maxLevel now record = some bytes ∧
      (∃ line, Utf8.decode bytes = some line ∧
        readLine line.toList = some (recordFields now record) ∧
        readRecord line = some (now.text, record)) ∧
      ∀ (maxLevel' : LevelFilter) (record' : Record), KeysPlain record' →
        FifoLogger.log maxLevel' now record' = some bytes → record' = record := by
  have hdecode : ∀ record, Utf8.decode (Utf8.encode (FifoLogger.line now record)) =
      some (FifoLogger.line now record) := fun _ => Utf8.decode_encode _
  refine ⟨_, log_eq_some_iff.mpr ⟨henabled, rfl⟩,
    ⟨_, hdecode record, readLine_line hkeys, readRecord_line now hkeys⟩, ?_⟩
  intro maxLevel' record' hkeys' hlog'
  have hbytes := (log_eq_some_iff.mp hlog').2
  have hsame : FifoLogger.line now record' = FifoLogger.line now record := by
    rw [← Option.some_inj, ← hdecode record', ← hbytes, hdecode record]
  have hread := readRecord_line now hkeys'
  rw [hsame, readRecord_line now hkeys] at hread
  exact (Prod.mk.inj (Option.some.inj hread)).2.symm

theorem record_read_back_escaped : ∃ bytes,
    FifoLogger.log .trace exampleTime
      { level := .warn, keyValues := [("probe", "kv\" level=fatal")], args := "q\" bs\\" } =
      some bytes ∧
    ∃ line, Utf8.decode bytes = some line ∧ readRecord line = some (exampleTime.text,
      { level := .warn, keyValues := [("probe", "kv\" level=fatal")], args := "q\" bs\\" }) := by
  obtain ⟨bytes, hlog, ⟨line, hline, -, hread⟩, -⟩ := record_read_back .trace exampleTime
    { level := .warn, keyValues := [("probe", "kv\" level=fatal")], args := "q\" bs\\" }
    (by decide) (by decide)
  exact ⟨bytes, hlog, line, hline, hread⟩

end RustExtensions.Shim
