import PageMarkup.Parsing.Combinators

namespace PageMarkup

inductive Value where
  | text (text : String)
  | number (number : Double)
  | char (char : Char)
  | unit
  | list (values : List Value)
  | mapped (value : Value)
  | some (value : Value)
  | none
  | located (value : Value) (span : Span)
  deriving Repr

/-- A parser as data: the primitives and combinators, and references to rules by name, through which
    rules may be recursive. -/
inductive Rule (ε : Type) where
  | literal (text : String)
  | whitespace
  | alphanumeric1
  | number
  | anyChar
  | endOfInput
  | takeUntil1 (stop : Char → Bool)
  | seq (rules : List (Rule ε))
  | choice (first : Rule ε) (others : List (Rule ε))
  | map (rule : Rule ε)
  | optional (rule : Rule ε)
  | located (rule : Rule ε)
  | many (rule : Rule ε)
  | many1 (rule : Rule ε)
  | manyUntil (rule terminator : Rule ε)
  | lookahead (rule : Rule ε)
  | not (rule : Rule ε)
  | expect (rule : Rule ε) (reason : ε)
  | ref (name : String)

namespace Rule

variable {ε : Type} [OfReason ε]

mutual

def parser (named : String → Parser ε Value) : Rule ε → Parser ε Value
  | .literal text => (Parser.literal text).map .text
  | .whitespace => Parser.whitespace.map .text
  | .alphanumeric1 => Parser.alphanumeric1.map .text
  | .number => Parser.number.map .number
  | .anyChar => Parser.anyChar.map .char
  | .endOfInput => Parser.endOfInput.map fun _ => .unit
  | .takeUntil1 stop => (Parser.takeUntil1 stop).map .text
  | .seq rules => (Parser.seq (parsers named rules)).map .list
  | .choice first others => Parser.choice (parser named first) (parsers named others)
  | .map rule => (parser named rule).map .mapped
  | .optional rule => (parser named rule).optional.map fun
    | some value => .some value
    | none => .none
  | .located rule => (parser named rule).located.map fun found => .located found.value found.span
  | .many rule => Parser.map .list (parser named rule).many
  | .many1 rule => (parser named rule).many1.map .list
  | .manyUntil rule terminator =>
    Parser.map .list ((parser named rule).manyUntil (parser named terminator))
  | .lookahead rule => (parser named rule).lookahead
  | .not rule => (parser named rule).not.map fun _ => .unit
  | .expect rule reason => (parser named rule).expect reason
  | .ref name => named name

def parsers (named : String → Parser ε Value) : List (Rule ε) → List (Parser ε Value)
  | [] => []
  | rule :: rules => parser named rule :: parsers named rules

end

end Rule

abbrev Definitions (ε : Type) : Type := List (String × Rule ε)

namespace Definitions

variable {ε : Type} [OfReason ε]

/-- The parsers of the names, with references followed `depth` deep. A reference that lies deeper, or
    that has no rule, fails where it stands. -/
def named (definitions : Definitions ε) : (depth : Nat) → (name : String) → Parser ε Value
  | 0, _ => fun _ offset => Parser.fail .stuck offset
  | depth + 1, name => fun source offset =>
    match definitions.lookup name with
    | some rule => rule.parser (definitions.named depth) source offset
    | none => Parser.fail .stuck offset

/-- Deep enough for every run that ends: a run in which the same name is reached twice at the same
    offset, the first time still in progress, never ends, and there are no more offsets than these. -/
def depthFor (definitions : Definitions ε) (source : Source) : Nat :=
  definitions.length * (source.size + 2) + 1

def run (definitions : Definitions ε) (rule : Rule ε) : Parser ε Value := fun source offset =>
  rule.parser (definitions.named (definitions.depthFor source)) source offset

end Definitions

end PageMarkup
