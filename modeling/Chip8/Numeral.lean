/-!
# Numerals

Numbers as text: decimal, and hexadecimal in capitals with at least a given number of digits.

* `digits_length_pos`: a numeral is never empty.
* `length_padLeft`: padding reaches the width and cuts nothing off.
-/

namespace Chip8.Numeral

/-- The character of a digit below sixteen. -/
def digit (d : Nat) : Char :=
  if d < 10 then Char.ofNat (48 + d) else Char.ofNat (55 + d)

/-- The digits of `n` in a base of at least two, the most significant first. -/
def digits (base n : Nat) : List Char :=
  if _ : base < 2 ∨ n < base then [digit n]
  else digits base (n / base) ++ [digit (n % base)]
termination_by n
decreasing_by exact Nat.div_lt_self (by omega) (by omega)

/-- Zeros in front, up to `width` characters. -/
def padLeft (width : Nat) (s : List Char) : List Char :=
  List.replicate (width - s.length) '0' ++ s

/-- Decimal, without leading zeros. -/
def decimal (n : Nat) : String :=
  String.ofList (digits 10 n)

/-- Hexadecimal with at least `width` digits. -/
def hexDigits (width n : Nat) : String :=
  String.ofList (padLeft width (digits 16 n))

/-- Hexadecimal with at least `width` digits behind `0x`. -/
def hex (width n : Nat) : String :=
  "0x" ++ hexDigits width n

theorem digits_length_pos (base n : Nat) : 0 < (digits base n).length := by
  unfold digits
  split <;> simp

theorem length_padLeft (width : Nat) (s : List Char) :
    (padLeft width s).length = max width s.length := by
  simp only [padLeft, List.length_append, List.length_replicate]
  omega

end Chip8.Numeral
