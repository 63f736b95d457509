import RustExtensions.Lib.Decimal
import RustExtensions.RuncShim.Runc

/-!
# Pid files

A pid file reads back as the pid that was written to it, and two pid files of
one bundle are the same file only for the same name.
-/
namespace RustExtensions.RuncShim

open RustExtensions.Shim
open RustExtensions.KeyedMap (Map)

namespace PidFile

/-! ## Contents -/

private theorem le_ofDigitChars (l : List Char) (init : Nat) :
    init ≤ Nat.ofDigitChars 10 l init := by
  induction l generalizing init with
  | nil => exact Nat.le_refl init
  | cons c l ih =>
    rw [Nat.ofDigitChars_cons]
    have := ih (10 * init + (c.toNat - '0'.toNat))
    omega

/-- Reading digits after `init` gives what they stand for, unless it is out of range. -/
private theorem digits_eq {sign : Int} (hs : sign = 1 ∨ sign = -1) (l : List Char)
    (hl : ∀ c ∈ l, c.isDigit) (init : Nat)
    (hmax : sign * Nat.ofDigitChars 10 l init ≤ 2147483647)
    (hmin : -2147483648 ≤ sign * Nat.ofDigitChars 10 l init) :
    parseI32.digits sign (sign * init) l = .ok (sign * Nat.ofDigitChars 10 l init) := by
  induction l generalizing init with
  | nil => rfl
  | cons c l ih =>
    rw [Nat.ofDigitChars_cons] at hmax hmin ⊢
    have hc : c.isDigit = true := hl c (List.mem_cons_self ..)
    have hle := le_ofDigitChars l (10 * init + (c.toNat - '0'.toNat))
    have hacc : sign * (init : Int) * 10 + sign * ((c.toNat - '0'.toNat : Nat) : Int) =
        sign * ((10 * init + (c.toNat - '0'.toNat) : Nat) : Int) := by
      push_cast
      rcases hs with rfl | rfl <;> omega
    simp only [parseI32.digits, hc, ↓reduceIte, hacc]
    rw [if_neg (by rcases hs with rfl | rfl <;> omega),
      if_neg (by rcases hs with rfl | rfl <;> omega)]
    exact ih (fun c hc => hl c (List.mem_cons_of_mem _ hc)) _ hmax hmin

private theorem isDigit_toDigits {n : Nat} {c : Char} (hc : c ∈ Nat.toDigits 10 n) :
    c.isDigit = true :=
  Nat.isDigit_of_mem_toDigits (by decide) (by decide) hc

private theorem digits_toDigits {sign : Int} (hs : sign = 1 ∨ sign = -1) (n : Nat)
    (hmax : sign * n ≤ 2147483647) (hmin : -2147483648 ≤ sign * n) :
    parseI32.digits sign 0 (Nat.toDigits 10 n) = .ok (sign * n) := by
  have h := digits_eq hs (Nat.toDigits 10 n) (fun c hc => isDigit_toDigits hc) 0
  rw [Nat.ofDigitChars_ten_toDigits] at h
  simpa using h hmax hmin

private theorem parseI32_of_digits {s : String} (hne : s.toList ≠ [])
    (hs : ∀ c ∈ s.toList, c.isDigit) :
    parseI32 s = (parseI32.digits 1 0 s.toList).map Int32.ofInt := by
  have hhead : ∀ c cs, s.toList = c :: cs → c ≠ '+' ∧ c ≠ '-' := by
    intro c cs hc
    have hd : c.isDigit = true := hs c (hc ▸ List.mem_cons_self ..)
    constructor <;> rintro rfl <;> exact absurd hd (by decide)
  unfold parseI32
  split
  · contradiction
  · next h => exact absurd rfl (hhead _ _ h).1
  · next h => exact absurd rfl (hhead _ _ h).2
  · next h => exact absurd rfl (hhead _ _ h).1
  · next h => exact absurd rfl (hhead _ _ h).2
  · rfl

private theorem parseI32_of_neg {s : String} {ds : List Char} (hs : s.toList = '-' :: ds)
    (hne : ds ≠ []) : parseI32 s = (parseI32.digits (-1) 0 ds).map Int32.ofInt := by
  unfold parseI32
  rw [hs]
  cases ds with
  | nil => contradiction
  | cons c cs => rfl

private theorem parseI32_toString {z : Int} (hmax : z ≤ 2147483647) (hmin : -2147483648 ≤ z) :
    parseI32 (toString z) = .ok (Int32.ofInt z) := by
  cases z with
  | ofNat n =>
    change parseI32 n.repr = _
    have hdigits : ∀ c ∈ n.repr.toList, c.isDigit := fun c hc => Decimal.isDigit_of_mem_repr hc
    have hn : (1 : Int) * n = Int.ofNat n := Int.one_mul _
    rw [parseI32_of_digits (Decimal.repr_ne_nil n) hdigits, Nat.toList_repr,
      digits_toDigits (Or.inl rfl) n (hn ▸ hmax) (hn ▸ hmin), hn]
    rfl
  | negSucc n =>
    have hlist : (toString (Int.negSucc n)).toList = '-' :: (n + 1).repr.toList :=
      String.toList_append
    have hn : (-1 : Int) * ((n + 1 : Nat) : Int) = Int.negSucc n := by omega
    rw [parseI32_of_neg hlist (Decimal.repr_ne_nil _), Nat.toList_repr,
      digits_toDigits (Or.inr rfl) (n + 1) (hn ▸ hmax) (hn ▸ hmin), hn]
    rfl

/-- A pid is read back from the text it is written as. -/
theorem parseI32_showPid (pid : Int32) : parseI32 (World.showPid pid) = .ok pid := by
  have hmax := Int32.toInt_lt pid
  have hmin := Int32.le_toInt pid
  rw [World.showPid, parseI32_toString (by omega) (by omega), Int32.ofInt_toInt]

theorem pidInFile_of_lookup {files : Map String String} {path : String} {pid : Int32}
    (h : files.lookup path = some (World.showPid pid)) : pidInFile files path = .ok pid := by
  simp only [pidInFile, h, parseI32_showPid, Except.mapError]

/-! ## Paths -/

/-- What stands after the last slash. -/
def baseName (path : String) : List Char := (path.toList.reverse.takeWhile (· ≠ '/')).reverse

private theorem baseName_append {dir : List Char} {path name : String}
    (hpath : path.toList = dir ++ name.toList) (hdir : dir.getLast?.all (· = '/'))
    (hname : '/' ∉ name.toList) : baseName path = name.toList := by
  have hstop : dir.reverse.takeWhile (· ≠ '/') = [] := by
    rw [← List.head?_reverse] at hdir
    cases hrev : dir.reverse with
    | nil => rfl
    | cons c cs =>
      rw [hrev] at hdir
      simp only [List.head?_cons, Option.all_some, decide_eq_true_eq] at hdir
      simp [hdir]
  have hall : ∀ c ∈ name.toList.reverse, decide (c ≠ '/') = true := by
    intro c hc
    rw [List.mem_reverse] at hc
    exact decide_eq_true fun he => hname (he ▸ hc)
  rw [baseName, hpath, List.reverse_append, List.takeWhile_append_of_pos hall, hstop,
    List.append_nil, List.reverse_reverse]

theorem baseName_joinPath (base : String) {name : String} (hname : '/' ∉ name.toList) :
    baseName (joinPath base name) = name.toList := by
  unfold joinPath
  split
  · next h => exact absurd (List.mem_of_mem_head? h) hname
  · split
    · next h => exact baseName_append String.toList_append h hname
    · have hjoin : (base ++ "/" ++ name).toList = (base ++ "/").toList ++ name.toList :=
        String.toList_append
      exact baseName_append hjoin (by simp [String.toList_append]) hname

/-- A pid file of an exec is an init pid file only if the exec is called `init`. -/
theorem execPidPath_eq_initPidPath {bundle bundle' execId : String} (hid : '/' ∉ execId.toList)
    (h : execPidPath bundle execId = initPidPath bundle') : execId = "init" := by
  have hfile : '/' ∉ (execId ++ ".pid").toList := by
    rw [String.toList_append, List.mem_append]
    rintro (hmem | hmem)
    · exact hid hmem
    · exact absurd hmem (by decide)
  have hname := congrArg baseName h
  unfold execPidPath initPidPath at hname
  rw [show s!"{execId}.pid" = execId ++ ".pid" from rfl, baseName_joinPath _ hfile,
    baseName_joinPath _ (by decide)] at hname
  have hinit : execId.toList ++ ".pid".toList = "init".toList ++ ".pid".toList := by
    rw [← String.toList_append, hname]
    decide
  exact String.toList_inj.mp (List.append_cancel_right hinit)

theorem joinPath_ne_initPidPath {bundle bundle' name : String} (hslash : '/' ∉ name.toList)
    (hname : name ≠ initPidFile) : joinPath bundle name ≠ initPidPath bundle' := by
  intro h
  have hbase := congrArg baseName h
  unfold initPidPath at hbase
  rw [baseName_joinPath _ hslash, baseName_joinPath _ (by decide)] at hbase
  exact hname (String.toList_inj.mp hbase)

end PidFile
end RustExtensions.RuncShim
