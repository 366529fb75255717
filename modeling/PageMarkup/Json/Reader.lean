import PageMarkup.Json.Basic

namespace PageMarkup

namespace Json

def isSpace (c : Char) : Bool := c == ' ' || c == '\t' || c == '\n' || c == '\r'

def skipSpace (text : List Char) : List Char := text.dropWhile isSpace

def hexValue? (c : Char) : Option Nat :=
  if c.isDigit then some (c.toNat - '0'.toNat)
  else if 'a' ≤ c ∧ c ≤ 'f' then some (c.toNat - 'a'.toNat + 10)
  else if 'A' ≤ c ∧ c ≤ 'F' then some (c.toNat - 'A'.toNat + 10)
  else none

def hexValues? (a b c d : Char) : Option Nat := do
  let a ← hexValue? a
  let b ← hexValue? b
  let c ← hexValue? c
  let d ← hexValue? d
  some (((a * 16 + b) * 16 + c) * 16 + d)

def unescape? (c : Char) : Option Char :=
  match c with
  | '"' => some '"'
  | '\\' => some '\\'
  | '/' => some '/'
  | 'b' => some '\x08'
  | 'f' => some '\x0c'
  | 'n' => some '\n'
  | 'r' => some '\r'
  | 't' => some '\t'
  | _ => none

/-- Reads a string behind its opening quote, up to and with its closing quote. A code unit above the
    basic plane comes as a pair of escapes; half a pair is refused. -/
def readString? : List Char → Option (List Char × List Char)
  | [] => none
  | '"' :: rest => some ([], rest)
  | '\\' :: 'u' :: a :: b :: c :: d :: rest =>
    match hexValues? a b c d with
    | none => none
    | some unit =>
      if 0xd800 ≤ unit ∧ unit < 0xdc00 then
        match rest with
        | '\\' :: 'u' :: a' :: b' :: c' :: d' :: rest' =>
          match hexValues? a' b' c' d' with
          | none => none
          | some low =>
            if 0xdc00 ≤ low ∧ low < 0xe000 then
              (readString? rest').map fun (text, rest) =>
                (Char.ofNat (0x10000 + (unit - 0xd800) * 0x400 + (low - 0xdc00)) :: text, rest)
            else none
        | _ => none
      else if 0xdc00 ≤ unit ∧ unit < 0xe000 then none
      else (readString? rest).map fun (text, rest) => (Char.ofNat unit :: text, rest)
  | '\\' :: c :: rest =>
    match unescape? c with
    | none => none
    | some meant => (readString? rest).map fun (text, rest) => (meant :: text, rest)
  | c :: rest =>
    if c = '\\' ∨ c.toNat < 32 then none
    else (readString? rest).map fun (text, rest) => (c :: text, rest)

def readExponent? (text : List Char) : Option (Int × List Char) :=
  match text with
  | [] => some (0, [])
  | e :: rest =>
    if e = 'e' ∨ e = 'E' then
      let negative := rest.head? == some '-'
      let unsigned := if negative || rest.head? == some '+' then rest.tail else rest
      let digits := unsigned.takeWhile Char.isDigit
      if digits.isEmpty then none
      else
        let size : Int := Numeral.digitsValue digits
        some (if negative then -size else size, unsigned.dropWhile Char.isDigit)
    else some (0, e :: rest)

/-- A number: a numeral whose digits before the point do not begin with a spare zero, and perhaps an
    exponent. A point without digits behind it is refused. -/
def readNumber? (text : List Char) : Option (Json × List Char) := do
  let numeral ← Numeral.read? text
  let rest := text.drop numeral.text.length
  if numeral.whole.length > 1 ∧ numeral.whole.head? = some '0' then none
  else if rest.head? = some '.' then none
  else
    let (exponent, behind) ← readExponent? rest
    if numeral.negative ∨ !numeral.fraction.isEmpty ∨ behind.length < rest.length then
      some (.number numeral exponent, behind)
    else some (.natural (Numeral.digitsValue numeral.whole), behind)

mutual

/-- Reads a value that stands at the start of the text. The fuel bounds the depth of the calls. -/
def readValue? : (fuel : Nat) → List Char → Option (Json × List Char)
  | 0, _ => none
  | fuel + 1, text =>
    match skipSpace text with
    | [] => none
    | '"' :: rest => (readString? rest).map fun (text, rest) => (.string (.ofList text), rest)
    | '[' :: rest =>
      match skipSpace rest with
      | ']' :: rest => some (.array [], rest)
      | rest => do
        let (element, rest) ← readValue? fuel rest
        let (elements, rest) ← readElements? fuel rest
        some (.array (element :: elements), rest)
    | '{' :: rest =>
      match skipSpace rest with
      | '}' :: rest => some (.object [], rest)
      | rest => do
        let (member, rest) ← readMember? fuel rest
        let (members, rest) ← readMembers? fuel rest
        some (.object (member :: members), rest)
    | 'n' :: 'u' :: 'l' :: 'l' :: rest => some (.null, rest)
    | 't' :: 'r' :: 'u' :: 'e' :: rest => some (.boolean true, rest)
    | 'f' :: 'a' :: 'l' :: 's' :: 'e' :: rest => some (.boolean false, rest)
    | rest => readNumber? rest

def readElements? : (fuel : Nat) → List Char → Option (List Json × List Char)
  | 0, _ => none
  | fuel + 1, text =>
    match skipSpace text with
    | ']' :: rest => some ([], rest)
    | ',' :: rest => do
      let (element, rest) ← readValue? fuel rest
      let (elements, rest) ← readElements? fuel rest
      some (element :: elements, rest)
    | _ => none

def readMember? : (fuel : Nat) → List Char → Option ((String × Json) × List Char)
  | 0, _ => none
  | fuel + 1, text =>
    match skipSpace text with
    | '"' :: rest => do
      let (key, rest) ← readString? rest
      match skipSpace rest with
      | ':' :: rest => do
        let (value, rest) ← readValue? fuel rest
        some ((.ofList key, value), rest)
      | _ => none
    | _ => none

def readMembers? : (fuel : Nat) → List Char → Option (List (String × Json) × List Char)
  | 0, _ => none
  | fuel + 1, text =>
    match skipSpace text with
    | '}' :: rest => some ([], rest)
    | ',' :: rest => do
      let (member, rest) ← readMember? fuel rest
      let (members, rest) ← readMembers? fuel rest
      some (member :: members, rest)
    | _ => none

end

/-- Reads a text that holds one value. Every call consumes a character or goes straight to one that
    does, so twice the length is fuel enough. -/
def read? (text : String) : Option Json := do
  let (json, rest) ← readValue? (2 * text.toList.length + 2) text.toList
  if (skipSpace rest).isEmpty then some json else none

end Json

end PageMarkup
