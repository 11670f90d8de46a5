/-! # Numerals of a fixed least width -/

namespace BlobUpload.Numeral

/-- The digits of `n` in the given base, least width `width`, filled with zeros on the left. -/
def padded (base width n : Nat) : List Char := (Nat.toDigits base n).leftpad width '0'

theorem length_padded (base width n : Nat) :
    (padded base width n).length = max width (Nat.toDigits base n).length := by
  simp only [padded, List.leftpad, List.length_append, List.length_replicate]
  omega

/-- Reading the padded decimal digits gives the number back. -/
theorem ofDigitChars_padded (width n : Nat) :
    Nat.ofDigitChars 10 (padded 10 width n) 0 = n := by
  rw [padded, List.leftpad, Nat.ofDigitChars_append, Nat.ofDigitChars_replicate_zero]
  simp

end BlobUpload.Numeral
