import Mathlib.Data.Nat.Digits.Defs

/-!
# Numerals — spelling a number with its leading digit first

Programs read and print numbers with the leading digit first, and spell zero with one
digit. Both differ from the digit lists of the library, which begin with the last digit
and spell zero with none. `value_spell` says that the spelling of a number is read back
as that number.
-/

namespace Numeral

variable {b : Nat}

/-- The number that digits stand for, the leading one first. -/
def value (b : Nat) (digits : List Nat) : Nat := digits.foldl (fun v d => d + b * v) 0

/-- The digits of a number, the leading one first; at least one of them. -/
def spell (b n : Nat) : List Nat := if n = 0 then [0] else (Nat.digits b n).reverse

theorem value_reverse (b : Nat) (digits : List Nat) :
    value b digits.reverse = Nat.ofDigits b digits := by
  rw [value, List.foldl_reverse, Nat.ofDigits_eq_foldr]
  rfl

/-- A number is read back as it was spelled. -/
theorem value_spell (b n : Nat) : value b (spell b n) = n := by
  rw [spell]
  split
  · next hzero => rw [hzero, value, List.foldl_cons, List.foldl_nil, Nat.mul_zero]
  · rw [value_reverse, Nat.ofDigits_digits]

theorem spell_ne_nil (b n : Nat) : spell b n ≠ [] := by
  rw [spell]
  split
  · exact List.cons_ne_nil _ _
  · next hne => exact fun h => Nat.digits_ne_nil_iff_ne_zero.mpr hne (List.reverse_eq_nil_iff.mp h)

theorem lt_of_mem_spell (hb : 1 < b) {n d : Nat} (h : d ∈ spell b n) : d < b := by
  rw [spell] at h
  split at h
  · rw [List.mem_singleton.mp h]
    omega
  · exact Nat.digits_lt_base hb (List.mem_reverse.mp h)

end Numeral
