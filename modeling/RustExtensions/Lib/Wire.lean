import Mathlib.Algebra.Group.Nat.Defs
import Mathlib.Data.List.Basic

/-!
# The proto3 wire format

A message on the wire is a sequence of fields, each with a number and a value of
the shape its wire type gives. Groups are skipped. A message type is a way to
merge one field into a value of it.
-/
namespace RustExtensions.Wire

inductive Value where
  | varint (v : UInt64)
  | fixed64 (bytes : List UInt8)
  | lengthDelimited (bytes : List UInt8)
  | fixed32 (bytes : List UInt8)
  deriving DecidableEq

structure Field where
  number : Nat
  value : Value
  deriving DecidableEq

/-! ## Reading -/

/-- At most `k` bytes, seven bits each, the low ones first. -/
def readVarint : Nat → List UInt8 → Option (Nat × List UInt8)
  | 0, _ => none
  | _, [] => none
  | k + 1, b :: bs =>
    if b < 128 then some (b.toNat, bs)
    else (readVarint k bs).map fun (v, rest) => (b.toNat - 128 + 128 * v, rest)

def readBytes (n : Nat) (bs : List UInt8) : Option (List UInt8 × List UInt8) :=
  if n ≤ bs.length then some (bs.take n, bs.drop n) else none

/-- The number and the wire type of the next field. -/
def readTag (bs : List UInt8) : Option (Nat × Nat × List UInt8) := do
  let (tag, rest) ← readVarint 10 bs
  if 8 ≤ tag ∧ tag < 2 ^ 32 then some (tag / 8, tag % 8, rest) else none

def readValue (wireType : Nat) (bs : List UInt8) : Option (Value × List UInt8) :=
  match wireType with
  | 0 => (readVarint 10 bs).map fun (v, rest) => (.varint (UInt64.ofNat v), rest)
  | 1 => (readBytes 8 bs).map fun (v, rest) => (.fixed64 v, rest)
  | 2 => do
    let (n, rest) ← readVarint 10 bs
    (readBytes n rest).map fun (v, rest) => (.lengthDelimited v, rest)
  | 5 => (readBytes 4 bs).map fun (v, rest) => (.fixed32 v, rest)
  | _ => none

/-- With `n` no less than the number of bytes, and the groups that are open. -/
def fieldsFrom : Nat → List Nat → List UInt8 → Option (List Field)
  | _, groups, [] => if groups = [] then some [] else none
  | 0, _, _ :: _ => none
  | n + 1, groups, b :: bs => do
    let (number, wireType, rest) ← readTag (b :: bs)
    if wireType = 3 then fieldsFrom n (number :: groups) rest
    else if wireType = 4 then
      match groups with
      | [] => none
      | g :: groups => if g = number then fieldsFrom n groups rest else none
    else
      let (value, rest) ← readValue wireType rest
      let fs ← fieldsFrom n groups rest
      return if groups = [] then { number, value } :: fs else fs

def fields (bs : List UInt8) : Option (List Field) := fieldsFrom bs.length [] bs

/-! ## Writing -/

def writeVarint : Nat → Nat → List UInt8
  | 0, _ => []
  | k + 1, n =>
    if n < 128 then [UInt8.ofNat n] else UInt8.ofNat (128 + n % 128) :: writeVarint k (n / 128)

def Value.wireType : Value → Nat
  | .varint _ => 0
  | .fixed64 _ => 1
  | .lengthDelimited _ => 2
  | .fixed32 _ => 5

def Value.write : Value → List UInt8
  | .varint v => writeVarint 10 v.toNat
  | .fixed64 bytes => bytes
  | .lengthDelimited bytes => writeVarint 10 bytes.length ++ bytes
  | .fixed32 bytes => bytes

def Field.write (f : Field) : List UInt8 :=
  writeVarint 10 (f.number * 8 + f.value.wireType) ++ f.value.write

def write (fs : List Field) : List UInt8 := fs.flatMap Field.write

/-- What the format can hold. -/
def Value.Fits : Value → Prop
  | .varint _ => True
  | .fixed64 bytes => bytes.length = 8
  | .lengthDelimited bytes => bytes.length < 2 ^ 32
  | .fixed32 bytes => bytes.length = 4

structure Field.Fits (f : Field) : Prop where
  positive : 0 < f.number
  bounded : f.number < 2 ^ 29
  value : f.value.Fits

/-! ## Round trip -/

variable {k n : Nat} {bs rest : List UInt8} {f : Field} {fs : List Field} {v : Value}

theorem readVarint_small (h : n < 128) :
    readVarint (k + 1) (UInt8.ofNat n :: rest) = some (n, rest) := by
  have hb : UInt8.ofNat n < 128 := by
    rw [UInt8.lt_iff_toNat_lt, UInt8.toNat_ofNat']
    simp only [UInt8.reduceToNat]
    omega
  rw [readVarint, if_pos hb, UInt8.toNat_ofNat', Nat.mod_eq_of_lt (by omega)]

theorem readVarint_write (h : n < 128 ^ (k + 1)) :
    readVarint (k + 1) (writeVarint (k + 1) n ++ rest) = some (n, rest) := by
  induction k generalizing n with
  | zero =>
    rw [Nat.pow_one] at h
    rw [writeVarint, if_pos h, List.singleton_append]
    exact readVarint_small h
  | succ k ih =>
    rw [writeVarint]
    split
    · next hlt =>
      rw [List.singleton_append]
      exact readVarint_small hlt
    · next hge =>
      have hb : ¬UInt8.ofNat (128 + n % 128) < 128 := by
        rw [UInt8.lt_iff_toNat_lt, UInt8.toNat_ofNat']
        simp only [UInt8.reduceToNat]
        omega
      have hdiv : n / 128 < 128 ^ (k + 1) := by
        rw [Nat.div_lt_iff_lt_mul (by decide), ← Nat.pow_succ]
        exact h
      rw [List.cons_append, readVarint, if_neg hb, ih hdiv, UInt8.toNat_ofNat', Option.map_some]
      dsimp only
      have hn : (128 + n % 128) % 2 ^ 8 - 128 + 128 * (n / 128) = n := by omega
      rw [hn]

theorem readBytes_append (h : bs.length = n) : readBytes n (bs ++ rest) = some (bs, rest) := by
  have hle : n ≤ (bs ++ rest).length := by
    rw [List.length_append]
    omega
  rw [readBytes, if_pos hle, List.take_left' h, List.drop_left' h]

theorem readValue_write (h : v.Fits) :
    readValue v.wireType (v.write ++ rest) = some (v, rest) := by
  cases v with
  | varint v =>
    have hv : v.toNat < 128 ^ 10 := Nat.lt_trans v.toNat_lt (by decide)
    rw [Value.wireType, Value.write, readValue, readVarint_write hv, Option.map_some]
    dsimp only
    rw [UInt64.ofNat_toNat]
  | fixed64 bytes =>
    rw [Value.wireType, Value.write, readValue, readBytes_append h, Option.map_some]
  | lengthDelimited bytes =>
    have hlen : bytes.length < 128 ^ 10 := Nat.lt_trans h (by decide)
    rw [Value.wireType, Value.write, readValue, List.append_assoc, readVarint_write hlen]
    dsimp only [bind, Option.bind]
    rw [readBytes_append rfl, Option.map_some]
  | fixed32 bytes =>
    rw [Value.wireType, Value.write, readValue, readBytes_append h, Option.map_some]

theorem Value.wireType_lt (v : Value) : v.wireType < 8 := by
  cases v <;> simp [Value.wireType]

theorem Value.wireType_ne_group (v : Value) : v.wireType ≠ 3 ∧ v.wireType ≠ 4 := by
  cases v <;> simp [Value.wireType]

theorem readTag_write (h : f.Fits) :
    readTag (f.write ++ rest) = some (f.number, f.value.wireType, f.value.write ++ rest) := by
  have hpos := h.positive
  have hbound := h.bounded
  have hwire := f.value.wireType_lt
  have htag : f.number * 8 + f.value.wireType < 128 ^ 10 := by
    have hpow : (2 : Nat) ^ 29 * 8 < 128 ^ 10 := by decide
    omega
  have hrange : 8 ≤ f.number * 8 + f.value.wireType ∧
      f.number * 8 + f.value.wireType < 2 ^ 32 := by omega
  rw [readTag, Field.write, List.append_assoc, readVarint_write htag]
  dsimp only [bind, Option.bind]
  rw [if_pos hrange]
  have hnumber : (f.number * 8 + f.value.wireType) / 8 = f.number := by omega
  have htype : (f.number * 8 + f.value.wireType) % 8 = f.value.wireType := by omega
  rw [hnumber, htype]

theorem writeVarint_ne_nil : writeVarint (k + 1) n ≠ [] := by
  rw [writeVarint]
  split <;> simp

theorem Field.write_ne_nil (f : Field) : f.write ≠ [] := by
  rw [Field.write]
  exact List.append_ne_nil_of_left_ne_nil writeVarint_ne_nil _

theorem fieldsFrom_write (h : ∀ f ∈ fs, f.Fits) (hn : (write fs).length ≤ n) :
    fieldsFrom n [] (write fs) = some fs := by
  induction fs generalizing n with
  | nil =>
    rw [write, List.flatMap_nil, fieldsFrom, if_pos rfl]
  | cons f fs ih =>
    have hf : f.Fits := h f (List.mem_cons_self ..)
    have hwrite : write (f :: fs) = f.write ++ write fs := List.flatMap_cons ..
    obtain ⟨b, bs, hb⟩ := List.exists_cons_of_ne_nil f.write_ne_nil
    have htag : readTag (f.write ++ write fs) = _ := readTag_write hf
    rw [hwrite, List.length_append, hb, List.length_cons] at hn
    obtain ⟨m, rfl⟩ : ∃ m, n = m + 1 := ⟨n - 1, by omega⟩
    rw [hb, List.cons_append] at htag
    rw [hwrite, hb, List.cons_append, fieldsFrom, htag]
    dsimp only [bind, Option.bind]
    rw [if_neg f.value.wireType_ne_group.1, if_neg f.value.wireType_ne_group.2,
      readValue_write hf.value]
    dsimp only
    rw [ih (fun f hf => h f (List.mem_cons_of_mem _ hf)) (by omega)]
    rfl

/-- What is written is read back. -/
theorem fields_write (h : ∀ f ∈ fs, f.Fits) : fields (write fs) = some fs :=
  fieldsFrom_write h (Nat.le_refl _)

/-! ## Messages -/

section Message
variable {M N : Type} {merge : M → Field → Option M} {merge' : N → Field → Option N}

/-- What a sequence of fields adds to a message. A field may be one the message cannot take. -/
def decodeFrom (merge : M → Field → Option M) (m : M) (bs : List UInt8) : Option M := do
  let fs ← fields bs
  fs.foldlM merge m

theorem decodeFrom_write {m : M} (h : ∀ f ∈ fs, f.Fits) :
    decodeFrom merge m (write fs) = fs.foldlM merge m := by
  rw [decodeFrom, fields_write h]
  rfl

/-- Fields merged one after the other, the later ones into what the earlier have made. -/
theorem foldlM_append {gs : List Field} {m m' : M} (h : fs.foldlM merge m = some m') :
    (fs ++ gs).foldlM merge m = gs.foldlM merge m' := by
  rw [List.foldlM_append, h]
  rfl

/-- Fields that the message collects in a list. -/
theorem foldlM_collect (collect : M → List Field → M) (hnil : ∀ m, collect m [] = m)
    (hcons : ∀ m f fs, collect (collect m [f]) fs = collect m (f :: fs))
    (hmerge : ∀ f ∈ fs, ∀ m, merge m f = some (collect m [f])) (m : M) :
    fs.foldlM merge m = some (collect m fs) := by
  induction fs generalizing m with
  | nil =>
    rw [hnil]
    rfl
  | cons f fs ih =>
    rw [List.foldlM_cons, hmerge f (List.mem_cons_self ..) m]
    have hrest := ih (fun f hf => hmerge f (List.mem_cons_of_mem _ hf)) (collect m [f])
    rwa [hcons] at hrest

/-- Two types of message read from the same bytes stay related if every field keeps them so. -/
theorem decodeFrom_related {R : M → N → Prop}
    (hmerge : ∀ {m n f m' n'}, R m n → merge m f = some m' → merge' n f = some n' → R m' n')
    {m m' : M} {n n' : N} (hinit : R m n) (hm : decodeFrom merge m bs = some m')
    (hn : decodeFrom merge' n bs = some n') : R m' n' := by
  unfold decodeFrom at hm hn
  cases hfields : fields bs with
  | none =>
    rw [hfields] at hm
    cases hm
  | some fs =>
    rw [hfields] at hm hn
    dsimp only [bind, Option.bind] at hm hn
    clear hfields
    induction fs generalizing m n with
    | nil =>
      obtain rfl := Option.some.inj hm
      obtain rfl := Option.some.inj hn
      exact hinit
    | cons f fs ih =>
      simp only [List.foldlM_cons, Option.bind_eq_bind, Option.bind_eq_some_iff] at hm hn
      obtain ⟨m₁, hm₁, hm⟩ := hm
      obtain ⟨n₁, hn₁, hn⟩ := hn
      exact ih (hmerge hinit hm₁ hn₁) hn hm

end Message
end RustExtensions.Wire
