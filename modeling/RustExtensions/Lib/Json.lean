import Mathlib.Data.List.Basic

/-!
# Strings in JSON

A string is written between quotes. Quotes, backslashes and control characters
are escaped, so what is written has no control character in it and a reader
that knows the escapes gets the string back.
-/
namespace RustExtensions.Json

def hexDigit (n : Nat) : Char := if n < 10 then Char.ofNat (48 + n) else Char.ofNat (87 + n)

def hexValue (c : Char) : Option Nat :=
  if c.isDigit then some (c.toNat - 48)
  else if 'a' ≤ c ∧ c ≤ 'f' then some (c.toNat - 87)
  else if 'A' ≤ c ∧ c ≤ 'F' then some (c.toNat - 55)
  else none

def IsControl (c : Char) : Prop := c.toNat < 0x20

instance (c : Char) : Decidable (IsControl c) := inferInstanceAs (Decidable (_ < _))

def escape (c : Char) : List Char :=
  if c = '"' then ['\\', '"']
  else if c = '\\' then ['\\', '\\']
  else if c = Char.ofNat 0x08 then ['\\', 'b']
  else if c = Char.ofNat 0x0c then ['\\', 'f']
  else if c = '\n' then ['\\', 'n']
  else if c = '\r' then ['\\', 'r']
  else if c = '\t' then ['\\', 't']
  else if IsControl c then
    ['\\', 'u', '0', '0', hexDigit (c.toNat / 16), hexDigit (c.toNat % 16)]
  else [c]

def quote (s : List Char) : List Char := '"' :: s.flatMap escape ++ ['"']

/-- The escapes of one letter. -/
def unescape (c : Char) : Option Char :=
  if c = '"' ∨ c = '\\' ∨ c = '/' then some c
  else if c = 'b' then some (Char.ofNat 0x08)
  else if c = 'f' then some (Char.ofNat 0x0c)
  else if c = 'n' then some '\n'
  else if c = 'r' then some '\r'
  else if c = 't' then some '\t'
  else none

/-- The character of four hexadecimal digits. A surrogate is none. -/
def codePoint (a b c d : Char) : Option Char := do
  let n := (((← hexValue a) * 16 + (← hexValue b)) * 16 + (← hexValue c)) * 16 + (← hexValue d)
  if n.isValidChar then some (Char.ofNat n) else none

/-- Read up to the closing quote. The second part is what follows it. -/
def readString : List Char → Option (List Char × List Char)
  | [] => none
  | '"' :: rest => some ([], rest)
  | '\\' :: 'u' :: a :: b :: c :: d :: rest => do
    let x ← codePoint a b c d
    let (s, rest) ← readString rest
    some (x :: s, rest)
  | '\\' :: c :: rest => do
    let x ← unescape c
    let (s, rest) ← readString rest
    some (x :: s, rest)
  | c :: rest => do
    if IsControl c ∨ c = '\\' then none
    let (s, rest) ← readString rest
    some (c :: s, rest)

variable {c : Char} {s rest : List Char}

/-- A control character has one of thirty-two codes. -/
theorem IsControl.exists_fin (h : IsControl c) : ∃ n : Fin 32, c = Char.ofNat n :=
  ⟨⟨c.toNat, h⟩, (Char.ofNat_toNat c).symm⟩

/-- What an escape is: the character itself, one letter, or its code. -/
theorem escape_cases (c : Char) :
    (escape c = [c] ∧ c ≠ '"' ∧ c ≠ '\\' ∧ ¬IsControl c) ∨
      (∃ l, escape c = ['\\', l] ∧ l ≠ 'u' ∧ ¬IsControl l ∧ unescape l = some c) ∨
      ∃ x y, escape c = ['\\', 'u', '0', '0', x, y] ∧ ¬IsControl x ∧ ¬IsControl y ∧
        codePoint '0' '0' x y = some c := by
  unfold escape
  split_ifs with hquote hslash hb hf hn hr ht hc
  · exact .inr (.inl ⟨'"', rfl, by decide, by decide, by rw [hquote]; rfl⟩)
  · exact .inr (.inl ⟨'\\', rfl, by decide, by decide, by rw [hslash]; rfl⟩)
  · exact .inr (.inl ⟨'b', rfl, by decide, by decide, by rw [hb]; rfl⟩)
  · exact .inr (.inl ⟨'f', rfl, by decide, by decide, by rw [hf]; rfl⟩)
  · exact .inr (.inl ⟨'n', rfl, by decide, by decide, by rw [hn]; rfl⟩)
  · exact .inr (.inl ⟨'r', rfl, by decide, by decide, by rw [hr]; rfl⟩)
  · exact .inr (.inl ⟨'t', rfl, by decide, by decide, by rw [ht]; rfl⟩)
  · refine .inr (.inr ⟨_, _, rfl, ?_⟩)
    obtain ⟨n, rfl⟩ := hc.exists_fin
    clear hquote hslash hb hf hn hr ht hc
    revert n
    decide +kernel
  · exact .inl ⟨rfl, hquote, hslash, hc⟩

theorem escape_eq_self (hquote : c ≠ '"') (hslash : c ≠ '\\') (hc : ¬IsControl c) :
    escape c = [c] := by
  have hne : ∀ d, IsControl d → c ≠ d := fun d hd heq => hc (heq ▸ hd)
  rw [escape, if_neg hquote, if_neg hslash, if_neg (hne _ (by decide)), if_neg (hne _ (by decide)),
    if_neg (hne _ (by decide)), if_neg (hne _ (by decide)), if_neg (hne _ (by decide)), if_neg hc]

/-- A text with nothing to escape is written as it is. -/
theorem flatMap_escape (h : ∀ c ∈ s, c ≠ '"' ∧ c ≠ '\\' ∧ ¬IsControl c) :
    s.flatMap escape = s := by
  have hmap : ∀ c ∈ s, escape c = [c] := fun c hc =>
    escape_eq_self (h c hc).1 (h c hc).2.1 (h c hc).2.2
  rw [List.flatMap_congr hmap, List.flatMap_singleton']

theorem not_isControl_escape : ∀ d ∈ escape c, ¬IsControl d := by
  have hslash : ¬IsControl '\\' := by decide
  have hu : ¬IsControl 'u' := by decide
  have hzero : ¬IsControl '0' := by decide
  obtain ⟨h, -, -, hc⟩ | ⟨l, h, -, hl, -⟩ | ⟨x, y, h, hx, hy, -⟩ := escape_cases c
  · simpa [h] using hc
  · simpa [h, hslash] using hl
  · simpa [h, hslash, hu, hzero] using ⟨hx, hy⟩

theorem not_isControl_quote : ∀ d ∈ quote s, ¬IsControl d := by
  intro d hd
  rw [quote, List.mem_append, List.mem_cons, List.mem_flatMap, List.mem_singleton] at hd
  rcases hd with (rfl | ⟨c, -, hd⟩) | rfl
  · decide
  · exact not_isControl_escape d hd
  · decide

/-! ## Reading back -/

/-- What is read after a character belongs to the same string. -/
def consRead (c : Char) (r : Option (List Char × List Char)) : Option (List Char × List Char) :=
  r.map fun r => (c :: r.1, r.2)

theorem readString_plain (hquote : c ≠ '"') (hslash : c ≠ '\\') (hc : ¬IsControl c) :
    readString (c :: rest) = consRead c (readString rest) := by
  rw [readString]
  · rw [if_neg (not_or.mpr ⟨hc, hslash⟩), consRead]
    cases readString rest <;> rfl
  · exact hquote
  · intros
    exact hslash ‹_›
  · intros
    exact hslash ‹_›

theorem readString_letter {l : Char} (hl : l ≠ 'u') (h : unescape l = some c) :
    readString ('\\' :: l :: rest) = consRead c (readString rest) := by
  rw [readString]
  · rw [h, consRead]
    cases readString rest <;> rfl
  · intros
    exact hl ‹_›

theorem readString_code {w x y z : Char} (h : codePoint w x y z = some c) :
    readString ('\\' :: 'u' :: w :: x :: y :: z :: rest) = consRead c (readString rest) := by
  rw [readString, h, consRead]
  cases readString rest <;> rfl

/-- One escaped character is read back, whatever follows it. -/
theorem readString_escape_append :
    readString (escape c ++ rest) = consRead c (readString rest) := by
  obtain ⟨h, hquote, hslash, hc⟩ | ⟨l, h, hl, -, hread⟩ | ⟨x, y, h, -, -, hread⟩ := escape_cases c
  · rw [h]
    exact readString_plain hquote hslash hc
  · rw [h]
    exact readString_letter hl hread
  · rw [h]
    exact readString_code hread

/-- A quoted string ends at its own quote. -/
theorem readString_quote (s rest : List Char) :
    readString (s.flatMap escape ++ '"' :: rest) = some (s, rest) := by
  induction s with
  | nil => rfl
  | cons c s ih =>
    rw [List.flatMap_cons, List.append_assoc, readString_escape_append, ih]
    rfl

end RustExtensions.Json
