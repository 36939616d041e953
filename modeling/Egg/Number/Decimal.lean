-- SUMMARY: The shortest decimal that reads back as a number, and the two styles in which it is written.
import Egg.Number.Nearest

/-! # Decimals

A number is written with the fewest digits that read back as it. Every finite
number is a whole multiple of 10^-1074, so its exact decimal is a natural number
of such multiples. Dropping `k` digits from the end of that natural number leaves
two neighbours, the one below and the one above. The first `k`, from the largest
downwards, with a neighbour that reads back gives the shortest decimal. At `k = 0`
nothing is dropped and the decimal is exact, so there is always one. -/

namespace Egg.Number

/-- The decimal `digits * 10 ^ exponent`. -/
structure Decimal where
  digits : Nat
  exponent : Int
deriving DecidableEq, Repr

namespace Decimal

/-! ## Finding the digits -/

/-- The magnitude of a finite number with this code, counted in multiples of
    10^-1074. -/
def exactCount (code : Nat) : Nat :=
  5 ^ 1074 * units code

/-- Whether `digits * 10 ^ (dropped - 1074)` reads back as the number with this
    code. -/
def readsBack (code dropped digits : Nat) : Bool :=
  nearestCode (digits * 10 ^ dropped) (10 ^ 1074) == code

/-- The neighbour of `count` that reads back when the last `dropped` digits are
    dropped. Of two the nearer is taken, and of two at the same distance the upper
    one. -/
def neighbour? (count : Nat) (readsBack : Nat → Nat → Bool) (dropped : Nat) : Option Nat :=
  let below := count / 10 ^ dropped
  let above := below + 1
  match readsBack dropped below, readsBack dropped above with
  | true, true =>
    if 2 * (count % 10 ^ dropped) < 10 ^ dropped then some below else some above
  | true, false => some below
  | false, true => some above
  | false, false => none

/-- The shortest decimal that drops at most this many digits of `count`. -/
def dropAtMost (count : Nat) (readsBack : Nat → Nat → Bool) : Nat → Decimal
  | 0 => ⟨count, -1074⟩
  | dropped + 1 =>
    match neighbour? count readsBack (dropped + 1) with
    | some digits => ⟨digits, (dropped + 1 : Nat) - (1074 : Int)⟩
    | none => dropAtMost count readsBack dropped

/-- A bound on the digits of a natural number, at most two above their count:
    30103 / 100000 is a little more than the logarithm of 2 to base 10. -/
def digitsBound (n : Nat) : Nat :=
  n.log2 * 30103 / 100000 + 2

/-- The shortest decimal that reads back as the positive finite number with this
    code. -/
def shortest (code : Nat) : Decimal :=
  dropAtMost (exactCount code) (readsBack code) (digitsBound (exactCount code))

/-! ## Writing the digits -/

/-- The digits as characters. -/
def digitChars (d : Decimal) : List Char :=
  Nat.toDigits 10 d.digits

/-- The power of ten of the leading digit. -/
def magnitude (d : Decimal) : Int :=
  d.exponent + d.digitChars.length - 1

/-- Positional notation. `tail` is what a whole number has after its digits. -/
def positional (tail : List Char) (d : Decimal) : List Char :=
  let digits := d.digitChars
  if 0 ≤ d.exponent then
    digits ++ List.replicate d.exponent.toNat '0' ++ tail
  else
    let places := (-d.exponent).toNat
    if places < digits.length then
      digits.take (digits.length - places) ++ '.' :: digits.drop (digits.length - places)
    else
      '0' :: '.' :: List.replicate (places - digits.length) '0' ++ digits

/-- Scientific notation: a point after the leading digit if more follow, then the
    power of ten of the leading digit. -/
def scientific (d : Decimal) : List Char :=
  let power := 'e' :: (toString d.magnitude).toList
  match d.digitChars with
  | lead :: next :: more => lead :: '.' :: next :: more ++ power
  | digits => digits ++ power

end Decimal

/-! ## Styles -/

/-- A style decides between the two notations. -/
structure Style where
  /-- What a whole number has after its digits in positional notation. -/
  wholeTail : List Char
  /-- The powers of ten of the leading digit that are written positionally. -/
  isPositional : Int → Bool

/-- The plain style never uses scientific notation, and a whole number is its
    digits alone. -/
def Style.plain : Style := ⟨[], fun _ => true⟩

/-- The exact style shows at a whole number that it is a floating-point number,
    and turns to scientific notation below 10^-4 and from 10^16 on. -/
def Style.exact : Style := ⟨['.', '0'], fun power => -4 ≤ power && power < 16⟩

/-- The digits of a number without its sign. -/
def writeCode (style : Style) (code : Nat) : List Char :=
  if code = 0 then '0' :: style.wholeTail
  else
    let d := Decimal.shortest code
    if style.isPositional d.magnitude then d.positional style.wholeTail else d.scientific

/-- The text of a number. A sign is written for every negative number, the
    negative zero included, and never for what is not a number. -/
def write (style : Style) (x : Number) : List Char :=
  if x.isNaN then ['N', 'a', 'N']
  else
    (if x.isNegative then ['-'] else []) ++
      if x.isInfinite then ['i', 'n', 'f'] else writeCode style x.code

end Egg.Number
