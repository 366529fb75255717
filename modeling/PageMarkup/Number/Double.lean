namespace PageMarkup

/-- A binary floating-point number of 64 bits, by its bit pattern: the sign, eleven exponent bits and
    52 fraction bits. All arithmetic on it is exact arithmetic on natural numbers. -/
structure Double where
  bits : UInt64
  deriving DecidableEq, Repr, Inhabited

namespace Double

/-- The pattern of the infinities without the sign. Larger patterns are not numbers. -/
def infinityMagnitude : Nat := 2047 * Nat.pow 2 52

def isNegative (d : Double) : Bool := Nat.pow 2 63 ≤ d.bits.toNat

def magnitude (d : Double) : Nat := d.bits.toNat % Nat.pow 2 63

def ofMagnitude (negative : Bool) (magnitude : Nat) : Double :=
  ⟨UInt64.ofNat (if negative then Nat.pow 2 63 + magnitude else magnitude)⟩

def isFinite (d : Double) : Bool := d.magnitude < infinityMagnitude

def isNaN (d : Double) : Bool := infinityMagnitude < d.magnitude

/-- The number one, counted in the smallest positive number. -/
def unitsPerOne : Nat := Nat.pow 2 1074

/-- The absolute value of a pattern without sign, counted in the smallest positive number. Every
    finite value is a whole number of these. -/
def units (magnitude : Nat) : Nat :=
  let exponent := magnitude / Nat.pow 2 52
  let fraction := magnitude % Nat.pow 2 52
  if exponent = 0 then fraction else (Nat.pow 2 52 + fraction) * Nat.pow 2 (exponent - 1)

/-- The quotient rounded to the nearest whole number, a half to the even one. -/
def roundDiv (numerator denominator : Nat) : Nat :=
  let quotient := numerator / denominator
  let remainder := numerator % denominator
  if 2 * remainder < denominator then quotient
  else if denominator < 2 * remainder then quotient + 1
  else quotient + quotient % 2

/-- The pattern nearest to a quotient, a half to the even one, and infinity for what is too large.
    A significand that is rounded up to 53 bits carries into the exponent, as it should. -/
def nearest (numerator denominator : Nat) : Nat :=
  let scaled := numerator * unitsPerOne
  let shift := (scaled / denominator).log2 - 52
  min infinityMagnitude (shift * Nat.pow 2 52 + roundDiv scaled (denominator * Nat.pow 2 shift))

def ofNat (n : Nat) : Double := ofMagnitude false (nearest n 1)

def isBelowZero (d : Double) : Bool := d.isNegative && d.magnitude != 0 && !d.isNaN

def whole? (d : Double) : Option Int :=
  if d.isFinite && units d.magnitude % unitsPerOne = 0 then
    let size := units d.magnitude / unitsPerOne
    some (if d.isNegative then -(size : Int) else size)
  else none

end Double

end PageMarkup
