import Mathlib.Data.List.Basic

/-!
# Decimal numerals

Reading back the numerals that `Nat.repr` writes.

## Main definitions

* `Decimal.parse`: the number that a nonempty list of ASCII digits denotes.

## Main results

* `Decimal.parse_toDigits`: the numeral of a number denotes it.
* `Decimal.repr_inj`: different numbers have different numerals.
* `Decimal.isDigit_of_mem_repr`: a numeral has digits only.
-/

namespace Decimal

/-- The number that a nonempty list of digits denotes. -/
def parse (l : List Char) : Option ℕ :=
  if l ≠ [] ∧ l.all Char.isDigit = true then some (Nat.ofDigitChars 10 l 0) else none

/-- The numeral of a number denotes it. -/
@[simp] theorem parse_toDigits (n : ℕ) : parse (Nat.toDigits 10 n) = some n := by
  have hdigit : (Nat.toDigits 10 n).all Char.isDigit = true := List.all_eq_true.2 fun c hc =>
    Nat.isDigit_of_mem_toDigits (by decide) (Nat.le_refl 10) hc
  rw [parse, if_pos ⟨Nat.toDigits_ne_nil, hdigit⟩, Nat.ofDigitChars_ten_toDigits]

theorem isDigit_of_mem_repr {n : ℕ} {c : Char} (h : c ∈ n.repr.toList) : c.isDigit = true := by
  rw [Nat.toList_repr] at h
  exact Nat.isDigit_of_mem_toDigits (by decide) (Nat.le_refl 10) h

/-- Different numbers have different numerals. -/
theorem repr_inj {m n : ℕ} : m.repr = n.repr ↔ m = n := by
  constructor
  · intro h
    have hdigits : Nat.toDigits 10 m = Nat.toDigits 10 n := by
      rw [← Nat.toList_repr, h, Nat.toList_repr]
    exact Option.some.inj (by rw [← parse_toDigits m, hdigits, parse_toDigits n])
  · rintro rfl
    rfl

theorem repr_ne_nil (n : ℕ) : n.repr.toList ≠ [] := by
  rw [Nat.toList_repr]
  exact Nat.toDigits_ne_nil

/-- A character that is no digit is not in a numeral. -/
theorem not_mem_repr {n : ℕ} {c : Char} (hc : c.isDigit = false) : c ∉ n.repr.toList := by
  intro h
  rw [isDigit_of_mem_repr h] at hc
  cases hc

end Decimal
