import Mathlib.Data.List.Basic

/-!
# Decimal numbers

A number is read from its digits if it is below a bound. The digits that a
number is written with are read back.
-/
namespace RustExtensions.Decimal

variable {n bound : Nat} {c : Char}

/-- The number that digits stand for, if it is below the bound. -/
def readDigits (bound : Nat) (ds : List Char) : Option Nat :=
  if ds ≠ [] ∧ ds.all Char.isDigit ∧ Nat.ofDigitChars 10 ds 0 < bound then
    some (Nat.ofDigitChars 10 ds 0)
  else none

/-- A plus sign may stand before the digits. -/
def read (bound : Nat) : List Char → Option Nat
  | '+' :: ds => readDigits bound ds
  | ds => readDigits bound ds

theorem repr_ne_nil (n : Nat) : n.repr.toList ≠ [] := by
  rw [Nat.toList_repr]
  exact Nat.toDigits_ne_nil

theorem isDigit_of_mem_repr (hc : c ∈ n.repr.toList) : c.isDigit = true := by
  rw [Nat.toList_repr] at hc
  exact Nat.isDigit_of_mem_toDigits (by decide) (by decide) hc

theorem readDigits_repr (h : n < bound) : readDigits bound n.repr.toList = some n := by
  have hdigits : (n.repr.toList).all Char.isDigit :=
    List.all_eq_true.mpr fun c hc => isDigit_of_mem_repr hc
  have hvalue : Nat.ofDigitChars 10 n.repr.toList 0 = n := by
    rw [Nat.toList_repr]
    exact Nat.ofDigitChars_ten_toDigits
  rw [readDigits, hvalue, if_pos ⟨repr_ne_nil n, hdigits, h⟩]

theorem read_repr (h : n < bound) : read bound n.repr.toList = some n := by
  unfold read
  split
  · next ds hplus =>
    have hdigit : ('+').isDigit = true := isDigit_of_mem_repr (n := n) (hplus ▸ List.mem_cons_self)
    exact absurd hdigit (by decide)
  · exact readDigits_repr h

end RustExtensions.Decimal
