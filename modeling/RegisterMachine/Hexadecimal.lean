/-!
# Hexadecimal numerals

Numbers in base sixteen with upper-case digits, filled up with zeros on the left.
-/

namespace RegisterMachine

namespace Hexadecimal

/-- The upper-case digits of `n`, the most significant first; zero has one digit. -/
def digits (n : Nat) : List Char :=
  (Nat.toDigits 16 n).map Char.toUpper

/-- The numeral of `n`, with zeros in front where it has fewer than `width` digits. -/
def padded (width n : Nat) : String :=
  String.ofList ((digits n).leftpad width '0')

theorem digits_of_lt {n : Nat} (h : n < 16) : digits n = [n.digitChar.toUpper] := by
  simp [digits, Nat.toDigits_of_lt_base h]

theorem digits_of_le {n : Nat} (h : 16 ≤ n) :
    digits n = digits (n / 16) ++ [(n % 16).digitChar.toUpper] := by
  simp [digits, Nat.toDigits_of_base_le (by decide) h]

end Hexadecimal

end RegisterMachine
