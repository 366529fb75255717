import PageMarkup.Json.Basic

namespace PageMarkup

namespace Double

def times (a b : Nat) : Nat := nearest (units a * units b) (unitsPerOne * unitsPerOne)

def dividedBy (a b : Nat) : Nat := nearest (units a) (units b)

def powerOfTen (exponent : Nat) : Nat := nearest (Nat.pow 10 exponent) 1

/-- Multiplies by a power of ten in as few roundings as the range allows. `none` is too large. -/
def scaleByTen? (magnitude : Nat) (exponent : Int) : Option Nat :=
  if exponent.natAbs ≤ 308 then
    if 0 ≤ exponent then
      let scaled := times magnitude (powerOfTen exponent.toNat)
      if scaled < infinityMagnitude then some scaled else none
    else some (dividedBy magnitude (powerOfTen exponent.natAbs))
  else if magnitude = 0 then some 0
  else if 0 ≤ exponent then none
  else scaleByTen? (dividedBy magnitude (powerOfTen 308)) (exponent + 308)
termination_by exponent.natAbs

end Double

namespace Json

def appendDigits (n : Nat) : List Char → Nat × List Char
  | [] => (n, [])
  | digit :: digits =>
    let longer := 10 * n + (digit.toNat - '0'.toNat)
    if longer < UInt64.size then appendDigits longer digits else (n, digit :: digits)

/-- A double close to a number, by the leading digits that fit in 64 bits and a power of ten. Up to
    fifteen digits and small exponents it is the nearest one. -/
def approximate? (numeral : Numeral) (exponent : Int) : Option Double :=
  let (whole, dropped) := appendDigits 0 numeral.whole
  let (significand, unused) := appendDigits whole numeral.fraction
  let used := numeral.fraction.length - unused.length
  let scale : Int := dropped.length - used + exponent
  (Double.scaleByTen? (Double.nearest significand 1) scale).map (Double.ofMagnitude numeral.negative)

def double? : Json → Option Double
  | .natural n => approximate? ⟨false, Nat.toDigits 10 n, []⟩ 0
  | .number numeral exponent => approximate? numeral exponent
  | _ => none

end Json

end PageMarkup
