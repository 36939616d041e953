-- SUMMARY: The number nearest to a quotient of naturals, and the number that a run of digits denotes.
import Egg.Number.Basic

/-! # Rounding to the nearest number

`nearestCode` rounds a quotient of two natural numbers to the nearest number. A
quotient halfway between two numbers goes to the one with the even code, and one
that is too large goes to infinity.

The quotient is first counted in units of 2^-1074. A count that takes at most 53
bits is kept to the unit. A longer one keeps its leading 53 bits: the others are
rounded away, and their number is the exponent field of the code. -/

namespace Egg.Number

/-- The natural number nearest to `num / den`. Halfway goes to the even one. -/
def roundHalfEven (num den : Nat) : Nat :=
  let q := num / den
  let r := num % den
  if 2 * r < den then q else if den < 2 * r then q + 1 else q + q % 2

/-- The code of the number nearest to `num / den`. -/
def nearestCode (num den : Nat) : Nat :=
  let count := 2 ^ 1074 * num
  let dropped := (count / den).log2 - 52
  min (dropped * 2 ^ 52 + roundHalfEven count (den * 2 ^ dropped)) infinityCode

/-- The number nearest to a natural number. -/
def ofNat (n : Nat) : Number :=
  ofCode (nearestCode n 1)

/-- The number that a run of decimal digits denotes. -/
def ofDigits (digits : List Char) : Number :=
  ofNat (Nat.ofDigitChars 10 digits 0)

end Egg.Number
