import ProcessorListing.Text.Blank
import ProcessorListing.Text.Line
import Mathlib.Logic.Function.Basic

/-!
# Decimal numbers

A number is written in ASCII digits and nothing else, so its text holds no white space, no line end
and no point, and the text determines the number (`ofNat_injective`).
-/

namespace ProcessorListing.Text

theorem isDigit_of_mem_ofNat {n : Nat} {c : Char} (h : c ∈ ofNat n) : c.isDigit = true :=
  Nat.isDigit_of_mem_toDigits (by decide) (by decide) h

/-- The digits of a number determine it. -/
theorem ofNat_injective : Function.Injective ofNat := by
  intro m n h
  calc m = Nat.ofDigitChars 10 (ofNat m) 0 := Nat.ofDigitChars_ten_toDigits.symm
    _ = Nat.ofDigitChars 10 (ofNat n) 0 := by rw [h]
    _ = n := Nat.ofDigitChars_ten_toDigits

theorem toNat_of_isDigit {c : Char} (h : c.isDigit = true) : 48 ≤ c.toNat ∧ c.toNat ≤ 57 := by
  simpa [Char.isDigit, UInt32.le_iff_toNat_le] using h

theorem not_isBlank_of_isDigit {c : Char} (h : c.isDigit = true) : isBlank c = false := by
  obtain ⟨hlow, hhigh⟩ := toNat_of_isDigit h
  rw [isBlank, Bool.eq_false_iff, Ne, inSome_iff]
  rintro ⟨i, hi, hmem⟩
  rw [Interval.mem_iff] at hmem
  -- No interval of white space meets the digits.
  have hclear : ∀ i ∈ blanks, i.last < 48 ∨ 57 < i.first := by decide
  have := hclear i hi
  omega

theorem point_not_mem_ofNat (n : Nat) : '.' ∉ ofNat n := fun h =>
  absurd (isDigit_of_mem_ofNat h) (by decide)

theorem not_isBlank_of_mem_ofNat {n : Nat} {c : Char} (h : c ∈ ofNat n) : isBlank c = false :=
  not_isBlank_of_isDigit (isDigit_of_mem_ofNat h)

end ProcessorListing.Text
