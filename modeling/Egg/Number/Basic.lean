-- SUMMARY: Numbers of the language: 64-bit floating point, kept as their bits.

/-! # Numbers

The only numbers of the language are binary floating-point numbers of 64 bits. A
number is kept as its bits: one sign bit, then 63 bits that are called its *code*
here. Read as a natural number, the code grows with the magnitude: it is 0 for
zero, `infinityCode` for the infinities, and larger than that for what is not a
number. -/

namespace Egg

-- Every module means the powers of the core library, whatever other powers it imports.
@[default_instance 20000]
scoped instance (priority := 20000) powNat : Pow Nat Nat := instPowNat

/-- A floating-point number, by its bits. -/
structure Number where
  bits : UInt64
deriving DecidableEq, Inhabited

namespace Number

/-- The code of the infinities. -/
def infinityCode : Nat := 2047 * 2 ^ 52

/-- The bits below the sign. -/
def code (x : Number) : Nat :=
  x.bits.toNat % 2 ^ 63

/-- Whether the sign bit is set. -/
def isNegative (x : Number) : Bool :=
  2 ^ 63 ≤ x.bits.toNat

/-- The number without sign that has this code. -/
def ofCode (code : Nat) : Number :=
  ⟨UInt64.ofNat code⟩

/-- The code of a number built from one that leaves the sign bit free. -/
theorem code_ofCode {code : Nat} (h : code < 2 ^ 63) : (ofCode code).code = code := by
  simp only [ofCode, Number.code, UInt64.toNat_ofNat']
  omega

def zero : Number := ofCode 0

def infinity : Number := ofCode infinityCode

def isNaN (x : Number) : Bool :=
  infinityCode < x.code

def isInfinite (x : Number) : Bool :=
  x.code == infinityCode

def isZero (x : Number) : Bool :=
  x.code == 0

/-- The magnitude of a finite number with this code, counted in units of 2^-1074,
    the smallest magnitude above zero. -/
def units (code : Nat) : Nat :=
  if code < 2 ^ 52 then code else (2 ^ 52 + code % 2 ^ 52) * 2 ^ (code / 2 ^ 52 - 1)

/-! ## Comparison and arithmetic -/

/-- Numeric equality: what is not a number differs from everything, and the two
    zeros are equal. -/
def equals (x y : Number) : Bool :=
  !x.isNaN && !y.isNaN && (x == y || (x.isZero && y.isZero))

def toFloat (x : Number) : Float := Float.ofBits x.bits

def ofFloat (x : Float) : Number := ⟨x.toBits⟩

def add (x y : Number) : Number := ofFloat (x.toFloat + y.toFloat)

def sub (x y : Number) : Number := ofFloat (x.toFloat - y.toFloat)

def mul (x y : Number) : Number := ofFloat (x.toFloat * y.toFloat)

def div (x y : Number) : Number := ofFloat (x.toFloat / y.toFloat)

def lessThan (x y : Number) : Bool := x.toFloat < y.toFloat

/-- Whether two numbers lie less than 2^-52 apart. -/
def isCloseTo (x y : Number) : Bool :=
  (x.toFloat - y.toFloat).abs < Float.ofBits 0x3CB0000000000000

end Number

end Egg
