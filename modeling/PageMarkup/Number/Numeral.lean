import PageMarkup.Number.Double

namespace PageMarkup

/-- A number as it is written: an optional minus, digits, and optionally a point and more digits.
    No fraction digits means no point. -/
structure Numeral where
  negative : Bool
  whole : List Char
  fraction : List Char
  deriving DecidableEq, Repr

namespace Numeral

def digitsValue (digits : List Char) : Nat :=
  digits.foldl (fun n digit => 10 * n + (digit.toNat - '0'.toNat)) 0

def text (n : Numeral) : List Char :=
  (if n.negative then ['-'] else []) ++ n.whole ++
    (if n.fraction.isEmpty then [] else '.' :: n.fraction)

/-- The longest numeral that a text starts with. A point that no digit follows is not part of it. -/
def read? (text : List Char) : Option Numeral :=
  let negative := text.head? == some '-'
  let unsigned := if negative then text.tail else text
  let whole := unsigned.takeWhile Char.isDigit
  let fraction := match unsigned.dropWhile Char.isDigit with
    | '.' :: after => after.takeWhile Char.isDigit
    | _ => []
  if whole.isEmpty then none else some ⟨negative, whole, fraction⟩

def value (n : Numeral) : Double :=
  .ofMagnitude n.negative
    (Double.nearest (digitsValue (n.whole ++ n.fraction)) (Nat.pow 10 n.fraction.length))

end Numeral

end PageMarkup
