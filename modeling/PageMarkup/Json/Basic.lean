import PageMarkup.Number.Numeral

namespace PageMarkup

/-- A JSON value. Plain digits are natural numbers; every other number keeps its digits. -/
inductive Json where
  | null
  | boolean (truth : Bool)
  | natural (n : Nat)
  | number (numeral : Numeral) (exponent : Int)
  | string (text : String)
  | array (elements : List Json)
  | object (members : List (String × Json))
  deriving Repr, Inhabited

namespace Json

def string? : Json → Option String
  | .string text => some text
  | _ => none

def array? : Json → Option (List Json)
  | .array elements => some elements
  | _ => none

def object? : Json → Option (List (String × Json))
  | .object members => some members
  | _ => none

/-- The member of that name; if there are several, the last. -/
def member? (name : String) : List (String × Json) → Option Json
  | [] => none
  | (key, value) :: others =>
    match member? name others with
    | some later => some later
    | none => if key = name then some value else none

def field? (json : Json) (name : String) : Option Json := json.object? >>= member? name

end Json

end PageMarkup
