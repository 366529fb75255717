import PageMarkup.Number.Double

namespace PageMarkup

structure Decimal where
  coefficient : Nat
  exponent : Int
  deriving DecidableEq, Repr

namespace Decimal

def zeros (n : Nat) : List Char := List.replicate n '0'

def text (d : Decimal) : List Char :=
  let digits := Nat.toDigits 10 d.coefficient
  let places := (-d.exponent).toNat
  if places = 0 then digits ++ zeros d.exponent.toNat
  else if places < digits.length then
    digits.take (digits.length - places) ++ '.' :: digits.drop (digits.length - places)
  else '0' :: '.' :: zeros (places - digits.length) ++ digits

end Decimal

namespace Double

/-- Whether a decimal is read back as the pattern: it lies between the midpoints to the two
    neighbours, which themselves are read as the even one. -/
def roundsBack (magnitude : Nat) (d : Decimal) : Bool :=
  let scale := Nat.pow 10 (-d.exponent).toNat
  let lower := (units (magnitude - 1) + units magnitude) * scale
  let upper := (units magnitude + units (magnitude + 1)) * scale
  let value := 2 * d.coefficient * Nat.pow 10 d.exponent.toNat * unitsPerOne
  if magnitude % 2 = 0 then lower ≤ value && value ≤ upper else lower < value && value < upper

/-- Of the two multiples of a power of ten around the value, the one that is read back; if both
    are, the nearer, and of two equally near the larger. -/
def candidate? (magnitude : Nat) (exponent : Int) : Option Decimal :=
  let numerator := units magnitude * Nat.pow 10 (-exponent).toNat
  let denominator := unitsPerOne * Nat.pow 10 exponent.toNat
  let below : Decimal := ⟨numerator / denominator, exponent⟩
  let above : Decimal := ⟨numerator / denominator + 1, exponent⟩
  match roundsBack magnitude below, roundsBack magnitude above with
  | true, true => some (if 2 * (numerator % denominator) < denominator then below else above)
  | true, false => some below
  | false, true => some above
  | false, false => none

/-- The power of ten with exponent -324 is below half the smallest positive number, so some
    multiple of it is always read back. -/
def leastExponent : Int := -324

def shortestFrom (magnitude : Nat) : Nat → Decimal
  | 0 => (candidate? magnitude leastExponent).getD ⟨0, 0⟩
  | steps + 1 =>
    match candidate? magnitude (leastExponent + (steps + 1 : Nat)) with
    | some decimal => decimal
    | none => shortestFrom magnitude steps

/-- The decimal with the fewest digits that is read back, and the nearest of these. -/
def shortest (magnitude : Nat) : Decimal :=
  shortestFrom magnitude (325 + (units magnitude / unitsPerOne).log2 / 3)

def positional (d : Double) : String :=
  if d.isNaN then "NaN"
  else
    let sign := if d.isNegative then ['-'] else []
    let size :=
      if d.magnitude = 0 then ['0']
      else if d.isFinite then (shortest d.magnitude).text
      else ['i', 'n', 'f']
    String.ofList (sign ++ size)

/-- Whole numbers below a thousand million million are written as such, so that negative zero is
    `0`; all others positionally. -/
def text (d : Double) : String :=
  match d.whole? with
  | some n => if n.natAbs < Nat.pow 10 15 then toString n else d.positional
  | none => d.positional

end Double

end PageMarkup
