import Mathlib.Data.List.Basic

/-!
# UTF-8, strict and lossy

Decoding that fails on the first invalid sequence, and decoding that puts the
replacement character in the place of every maximal part of one.
-/
namespace RustExtensions.Utf8

def encode (s : String) : List UInt8 := s.toList.flatMap String.utf8EncodeChar

def decode (bs : List UInt8) : Option String := String.fromUTF8? bs.toByteArray

def replacement : Char := Char.ofNat 0xFFFD

def IsContinuation (b : UInt8) : Prop := 0x80 ≤ b ∧ b ≤ 0xBF

instance (b : UInt8) : Decidable (IsContinuation b) := inferInstanceAs (Decidable (_ ∧ _))

/-- The second byte may follow the first in a sequence of three bytes. -/
def SecondOfThree (a b : UInt8) : Prop :=
  a = 0xE0 ∧ 0xA0 ≤ b ∧ b ≤ 0xBF ∨ 0xE1 ≤ a ∧ a ≤ 0xEC ∧ IsContinuation b ∨
    a = 0xED ∧ 0x80 ≤ b ∧ b ≤ 0x9F ∨ 0xEE ≤ a ∧ a ≤ 0xEF ∧ IsContinuation b

instance (a b : UInt8) : Decidable (SecondOfThree a b) := inferInstanceAs (Decidable (_ ∨ _))

/-- The second byte may follow the first in a sequence of four bytes. -/
def SecondOfFour (a b : UInt8) : Prop :=
  a = 0xF0 ∧ 0x90 ≤ b ∧ b ≤ 0xBF ∨ 0xF1 ≤ a ∧ a ≤ 0xF3 ∧ IsContinuation b ∨
    a = 0xF4 ∧ 0x80 ≤ b ∧ b ≤ 0x8F

instance (a b : UInt8) : Decidable (SecondOfFour a b) := inferInstanceAs (Decidable (_ ∨ _))

/-- How many bytes at the head begin a sequence that does not go on. The head is no character. -/
def invalidLength : List UInt8 → Nat
  | a :: b :: c :: _ =>
    if SecondOfThree a b then 2
    else if SecondOfFour a b then if IsContinuation c then 3 else 2
    else 1
  | [a, b] => if SecondOfThree a b ∨ SecondOfFour a b then 2 else 1
  | [_] => 1
  | [] => 0

/-- With `n` no less than the number of bytes. -/
def lossyFrom : Nat → List UInt8 → List Char
  | 0, _ => []
  | _, [] => []
  | n + 1, b :: bs =>
    match (b :: bs).toByteArray.utf8DecodeChar? 0 with
    | some c => c :: lossyFrom n ((b :: bs).drop c.utf8Size)
    | none => replacement :: lossyFrom n ((b :: bs).drop (invalidLength (b :: bs)))

def lossy (bs : List UInt8) : String := String.ofList (lossyFrom bs.length bs)

variable {bs : List UInt8} {s : String}

theorem toByteArray_encode (s : String) : (encode s).toByteArray = s.toByteArray :=
  String.utf8Encode_toList

theorem decode_eq_some : decode bs = some s ↔ bs = encode s := by
  unfold decode String.fromUTF8?
  constructor
  · intro h
    split at h
    · next hvalid =>
      have hs : bs.toByteArray = s.toByteArray :=
        congrArg String.toByteArray (Option.some.inj h)
      rw [← toByteArray_encode] at hs
      have hdata := congrArg (fun b : ByteArray => b.data.toList) hs
      simpa using hdata
    · cases h
  · intro heq
    subst heq
    have hvalid : (encode s).toByteArray.IsValidUTF8 := by
      rw [toByteArray_encode]
      exact s.isValidUTF8
    rw [dif_pos hvalid]
    congr 1
    exact String.toByteArray_inj.mp (toByteArray_encode s)

@[simp] theorem decode_encode (s : String) : decode (encode s) = some s := decode_eq_some.mpr rfl

theorem lossyFrom_flatMap (cs : List Char) {n : Nat}
    (h : (cs.flatMap String.utf8EncodeChar).length ≤ n) :
    lossyFrom n (cs.flatMap String.utf8EncodeChar) = cs := by
  induction cs generalizing n with
  | nil =>
    cases n with
    | zero => rfl
    | succ n => rfl
  | cons c cs ih =>
    rw [List.flatMap_cons] at h ⊢
    have hne : String.utf8EncodeChar c ≠ [] := String.utf8EncodeChar_ne_nil
    obtain ⟨b, bs, hb⟩ := List.exists_cons_of_ne_nil hne
    have hlen := String.length_utf8EncodeChar c
    rw [List.length_append, hlen] at h
    have hpos := c.utf8Size_pos
    obtain ⟨m, rfl⟩ : ∃ m, n = m + 1 := ⟨n - 1, by omega⟩
    have hchar : (String.utf8EncodeChar c ++
        cs.flatMap String.utf8EncodeChar).toByteArray.utf8DecodeChar? 0 = some c := by
      rw [List.toByteArray_append]
      exact ByteArray.utf8DecodeChar?_utf8EncodeChar_append
    have hdrop : (String.utf8EncodeChar c ++ cs.flatMap String.utf8EncodeChar).drop c.utf8Size =
        cs.flatMap String.utf8EncodeChar := List.drop_left' hlen
    rw [hb, List.cons_append] at hchar hdrop ⊢
    rw [lossyFrom, hchar]
    dsimp only
    rw [hdrop, ih (by omega)]

/-- On valid bytes the two decodings agree. -/
theorem lossy_encode (s : String) : lossy (encode s) = s := by
  rw [lossy, encode, lossyFrom_flatMap s.toList (Nat.le_refl _), String.ofList_toList]

theorem lossy_ne_empty (h : bs ≠ []) : lossy bs ≠ "" := by
  obtain ⟨b, bs, rfl⟩ := List.exists_cons_of_ne_nil h
  intro he
  have hnil : lossyFrom (b :: bs).length (b :: bs) = [] := by
    have htoList := congrArg String.toList he
    rwa [lossy, String.toList_ofList] at htoList
  rw [List.length_cons, lossyFrom] at hnil
  split at hnil
  · cases hnil
  · cases hnil

theorem encode_eq_nil : encode s = [] ↔ s = "" := by
  constructor
  · intro h
    have hlossy := lossy_encode s
    rw [h] at hlossy
    exact hlossy.symm
  · intro heq
    subst heq
    rfl

/-! ## Prefixes in bytes -/

/-- `encode`, of a list of characters. -/
def bytes (cs : List Char) : List UInt8 := cs.flatMap String.utf8EncodeChar

@[simp] theorem bytes_nil : bytes [] = [] := rfl

theorem bytes_cons (c : Char) (cs : List Char) :
    bytes (c :: cs) = String.utf8EncodeChar c ++ bytes cs := List.flatMap_cons

theorem bytes_append (cs ds : List Char) : bytes (cs ++ ds) = bytes cs ++ bytes ds :=
  List.flatMap_append

theorem isContinuation_tail (x : UInt8) : IsContinuation (x &&& 0x3f ||| 0x80) := by
  have h : ∀ n : Fin 256, IsContinuation (UInt8.ofFin n &&& 0x3f ||| 0x80) := by decide +kernel
  exact h x.toFin

theorem isContinuation_not_first (b : UInt8) (h : IsContinuation b) : ¬b.IsUTF8FirstByte := by
  have hall : ∀ n : Fin 256, IsContinuation (UInt8.ofFin n) → ¬(UInt8.ofFin n).IsUTF8FirstByte := by
    decide +kernel
  exact hall b.toFin h

/-- All bytes of a character but the first continue it. -/
theorem isContinuation_getElem {c : Char} {i : Nat} (hi : i < (String.utf8EncodeChar c).length) :
    IsContinuation (String.utf8EncodeChar c)[i] ↔ i ≠ 0 := by
  constructor
  · intro h hzero
    exact isContinuation_not_first _ h (UInt8.isUTF8FirstByte_getElem_utf8EncodeChar.mpr hzero)
  · intro hne
    have hlen := hi
    rw [String.length_utf8EncodeChar] at hlen
    match h : c.utf8Size, c.utf8Size_pos, c.utf8Size_le_four, i, hne, hlen with
    | 1, _, _, 0, hne, _ => exact absurd rfl hne
    | 2, _, _, 1, _, _ =>
      simp only [String.utf8EncodeChar_eq_cons_cons h]
      exact isContinuation_tail _
    | 3, _, _, 1, _, _ =>
      simp only [String.utf8EncodeChar_eq_cons_cons_cons h]
      exact isContinuation_tail _
    | 3, _, _, 2, _, _ =>
      simp only [String.utf8EncodeChar_eq_cons_cons_cons h]
      exact isContinuation_tail _
    | 4, _, _, 1, _, _ =>
      simp only [String.utf8EncodeChar_eq_cons_cons_cons_cons h]
      exact isContinuation_tail _
    | 4, _, _, 2, _, _ =>
      simp only [String.utf8EncodeChar_eq_cons_cons_cons_cons h]
      exact isContinuation_tail _
    | 4, _, _, 3, _, _ =>
      simp only [String.utf8EncodeChar_eq_cons_cons_cons_cons h]
      exact isContinuation_tail _

theorem length_bytes_cons (c : Char) (cs : List Char) :
    (bytes (c :: cs)).length = c.utf8Size + (bytes cs).length := by
  rw [bytes_cons, List.length_append, String.length_utf8EncodeChar]

theorem bytes_prefix_bytes {q cs : List Char} (h : q <+: cs) : bytes q <+: bytes cs := by
  obtain ⟨r, rfl⟩ := h
  rw [bytes_append]
  exact List.prefix_append _ _

/-- No character's bytes begin those of another. -/
theorem prefix_of_bytes {q cs : List Char} (h : bytes q <+: bytes cs) : q <+: cs := by
  induction q generalizing cs with
  | nil => exact List.nil_prefix
  | cons c q ih =>
    obtain ⟨rest, hrest⟩ := h
    rw [bytes_cons, List.append_assoc] at hrest
    cases cs with
    | nil =>
      have hne : String.utf8EncodeChar c ≠ [] := String.utf8EncodeChar_ne_nil
      exact absurd (List.append_eq_nil_iff.mp hrest).1 hne
    | cons d cs =>
      rw [bytes_cons] at hrest
      have hdecode := congrArg (fun bs : List UInt8 => bs.toByteArray.utf8DecodeChar? 0) hrest
      simp only [List.toByteArray_append, ByteArray.utf8DecodeChar?_utf8EncodeChar_append] at hdecode
      obtain rfl := Option.some.inj hdecode
      rw [List.append_cancel_left_eq] at hrest
      exact List.prefix_cons_inj c |>.mpr (ih ⟨rest, hrest⟩)

/-- A byte that is a character stands for nothing else. -/
theorem mem_bytes {a : Char} {cs : List Char} {b : UInt8} (hb : String.utf8EncodeChar a = [b]) :
    b ∈ bytes cs ↔ a ∈ cs := by
  have hfirst : ¬IsContinuation b := by
    have hlen : 0 < (String.utf8EncodeChar a).length := by simp [hb]
    have hzero := (isContinuation_getElem hlen).not_left.mpr rfl
    simpa [hb] using hzero
  induction cs with
  | nil => simp
  | cons c cs ih =>
    rw [bytes_cons, List.mem_append, List.mem_cons]
    refine or_congr ?_ ih
    constructor
    · intro hmem
      obtain ⟨i, hi, rfl⟩ := List.getElem_of_mem hmem
      have hzero : i = 0 := not_not.mp fun hne => hfirst ((isContinuation_getElem hi).mpr hne)
      subst hzero
      have hbegins : bytes [a] <+: bytes [c] := by
        rw [bytes_cons, bytes_cons, hb, bytes_nil, List.append_nil, List.append_nil]
        obtain ⟨b, bs, hc⟩ := List.exists_cons_of_ne_nil (String.utf8EncodeChar_ne_nil (c := c))
        simp [hc]
      exact List.cons_prefix_cons.mp (prefix_of_bytes hbegins) |>.1
    · intro heq
      subst heq
      rw [hb]
      exact List.mem_singleton_self _

end RustExtensions.Utf8
