import PageMarkup.Number.Shortest

namespace PageMarkup

/-- The value of an attribute. An attribute that is only named is `true`. -/
inductive AttrValue where
  | string (text : String)
  | number (value : Double)
  | boolean (truth : Bool)
  deriving DecidableEq, Repr

inductive AttrType where
  | string
  | number
  | boolean
  deriving DecidableEq, Repr

namespace AttrType

def name : AttrType → String
  | .string => "string"
  | .number => "number"
  | .boolean => "boolean"

def all : List AttrType := [.string, .number, .boolean]

def ofName? (name : String) : Option AttrType := all.find? (·.name == name)

end AttrType

namespace AttrValue

def type : AttrValue → AttrType
  | .string _ => .string
  | .number _ => .number
  | .boolean _ => .boolean

def string? : AttrValue → Option String
  | .string text => some text
  | _ => none

def number? : AttrValue → Option Double
  | .number value => some value
  | _ => none

def boolean? : AttrValue → Option Bool
  | .boolean truth => some truth
  | _ => none

def display : AttrValue → String
  | .string text => text
  | .number value => value.text
  | .boolean truth => if truth then "true" else "false"

end AttrValue

end PageMarkup
