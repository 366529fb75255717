import PageMarkup.Json.Basic

namespace PageMarkup

namespace Json

def hexDigit (n : Nat) : Char := (Nat.toDigits 16 n).headD '0'

def escaped (c : Char) : List Char :=
  if c = '"' then ['\\', '"']
  else if c = '\\' then ['\\', '\\']
  else if c = '\n' then ['\\', 'n']
  else if c = '\r' then ['\\', 'r']
  else if c = '\t' then ['\\', 't']
  else if c = '\x08' then ['\\', 'b']
  else if c = '\x0c' then ['\\', 'f']
  else if c.toNat < 32 then ['\\', 'u', '0', '0', hexDigit (c.toNat / 16), hexDigit (c.toNat % 16)]
  else [c]

def quoted (text : String) : List Char := '"' :: text.toList.flatMap escaped ++ ['"']

def lineBreak (level : Nat) : List Char := '\n' :: List.replicate (2 * level) ' '

def exponentText (exponent : Int) : List Char :=
  if exponent = 0 then [] else 'e' :: (toString exponent).toList

mutual

def pretty (level : Nat) : Json → List Char
  | .null => "null".toList
  | .boolean truth => (if truth then "true" else "false").toList
  | .natural n => Nat.toDigits 10 n
  | .number numeral exponent => numeral.text ++ exponentText exponent
  | .string text => quoted text
  | .array [] => ['[', ']']
  | .array (element :: elements) =>
    '[' :: lineBreak (level + 1) ++ pretty (level + 1) element ++
      prettyElements (level + 1) elements ++ lineBreak level ++ [']']
  | .object [] => ['{', '}']
  | .object ((key, value) :: members) =>
    '{' :: lineBreak (level + 1) ++ quoted key ++ [':', ' '] ++ pretty (level + 1) value ++
      prettyMembers (level + 1) members ++ lineBreak level ++ ['}']

def prettyElements (level : Nat) : List Json → List Char
  | [] => []
  | element :: elements =>
    ',' :: lineBreak level ++ pretty level element ++ prettyElements level elements

def prettyMembers (level : Nat) : List (String × Json) → List Char
  | [] => []
  | (key, value) :: members =>
    ',' :: lineBreak level ++ quoted key ++ [':', ' '] ++ pretty level value ++
      prettyMembers level members

end

end Json

end PageMarkup
