import PageMarkup.Diagnostic.Basic
import PageMarkup.Document.Node
import PageMarkup.Parsing.Combinators

namespace PageMarkup

/-- Documents are texts and tags in any order:

    - document: (tag or text)*, up to the end
    - tag: `<` NAME attribute* `>` (tag or text)* `</` NAME `>`, with blanks after `<` and `</`,
      before `>`, and before each child and the closing tag
    - attribute: blanks, NAME, and optionally `=` and a quoted string or a number
    - text: characters other than `<` -/
abbrev DocumentParser (α : Type) : Type := Parser SyntaxFault α

namespace Grammar

def defaultMaxDepth : Nat := 128

def expecting {α : Type} (fault : SyntaxFault) (parser : DocumentParser α) : DocumentParser α :=
  parser.expect fault

def quotedString : DocumentParser String := fun source offset =>
  match source.rest offset with
  | '"' :: body =>
    let content := body.takeWhile (· ≠ '"')
    if content.length < body.length then
      Parser.accept (.ofList content) offset ('"' :: content ++ ['"'])
    else Parser.fail .unterminatedRepetition (offset + byteLength ('"' :: content))
  | _ => Parser.fail (.literal "\"") offset

def attrValue : DocumentParser AttrValue :=
  Parser.choice (quotedString.map .string) [Parser.number.map .number]

def endsValue (rest : List Char) : Bool :=
  match rest with
  | [] => true
  | c :: _ => isBlank c || c == '>'

/-- An attribute of a tag. A value that runs into other characters is bad as a whole, so that `10px`
    is one bad value and not `10` and an attribute `px`. -/
def attr (tag : String) : DocumentParser Attribute := fun source offset => do
  let key ← expecting ((SyntaxFault.ofCode .invalidAttribute).withParam "tag" tag)
    Parser.alphanumeric1.located source offset
  let noValue := (SyntaxFault.ofCode .expectedAttrValue).withParam "key" key.value.value
  let gap ← Parser.whitespace source key.offset
  match (Parser.literal "=" : DocumentParser String) source gap.offset with
  | .error _ => .ok ⟨⟨key.value, ⟨.boolean true, key.value.span⟩⟩, key.offset⟩
  | .ok equals =>
    let gap ← Parser.whitespace source equals.offset
    let value ← expecting noValue attrValue.located source gap.offset
    let rest := source.rest value.offset
    if endsValue rest then .ok ⟨⟨key.value, value.value⟩, value.offset⟩
    else
      let excess := rest.takeWhile fun c => !(isBlank c || c == '>' || c == '<')
      .error (.spanning noValue ⟨value.value.span.start, value.offset + byteLength excess⟩)

def afterBlanks {α : Type} (parser : DocumentParser α) : DocumentParser α := fun source offset => do
  let gap ← Parser.whitespace source offset
  parser source gap.offset

def attributes (tag : String) : DocumentParser (List Attribute) :=
  Parser.manyUntil (afterBlanks (attr tag))
    (afterBlanks (Parser.choice ((Parser.literal ">").map fun _ => ()) [Parser.endOfInput]))

def tagName : DocumentParser (Located String) := fun source offset => do
  let opened ← expecting (.ofCode .missingOpeningBracket) (Parser.literal "<") source offset
  afterBlanks (expecting (.ofCode .tagNameAlphanumeric) Parser.alphanumeric1.located) source
    opened.offset

def endOfOpening (tag : String) (start : Nat) : DocumentParser Unit := fun source offset => do
  let gap ← Parser.whitespace source offset
  match (Parser.literal ">" : DocumentParser String) source gap.offset with
  | .ok closed => .ok ⟨(), closed.offset⟩
  | .error failure =>
    .error ⟨(SyntaxFault.ofCode .unterminatedTag).withParam "tag" tag, failure.offset,
      ⟨start, failure.span.stop⟩⟩

def closing (name : String) : DocumentParser Unit := fun source offset => do
  let opened ← Parser.literal "</" source offset
  let named ← afterBlanks (Parser.literal name) source opened.offset
  let closed ← afterBlanks (Parser.literal ">") source named.offset
  .ok ⟨(), closed.offset⟩

/-- The failure for a closing tag that is not the expected one. It names what stands there up to the
    next bracket, so that a malformed closing tag is shown as written. -/
def mismatchedClosing (source : Source) (offset : Nat) (expected : String) :
    Failure SyntaxFault :=
  let body := (source.rest offset).drop 2
  let gap := body.takeWhile isBlank
  let inner := body.dropWhile isBlank
  let written := inner.takeWhile fun c => !(c == '>' || c == '<')
  let bracket := (inner.drop written.length).take 1
  let taken := ['<', '/'] ++ gap ++ written ++ if bracket == ['>'] then ['>'] else []
  .spanning
    (((SyntaxFault.ofCode .mismatchedNesting).withParam "expected" expected).withParam "found"
      (.ofList (dropRightWhile isBlank written)))
    ⟨offset, offset + byteLength taken⟩

/-- What follows an opening tag, up to its closing tag and with it. A child always consumes
    something, so the body never gets stuck. -/
def body (child : DocumentParser Node) (name : Located String) (source : Source) (start : Nat) :
    Except (Failure SyntaxFault) (Success (List Node)) :=
  let offset := start + byteLength ((source.rest start).takeWhile isBlank)
  match closing name.value source offset with
  | .ok closed => .ok ⟨[], closed.offset⟩
  | .error _ =>
    if "</".toList.isPrefixOf (source.rest offset) then
      .error (mismatchedClosing source offset name.value)
    else if source.size ≤ offset then
      .error ⟨(SyntaxFault.ofCode .unclosedTag).withParam "tag" name.value, offset, name.span⟩
    else
      match child source offset with
      | .error failure => .error failure
      | .ok step =>
        if offset < step.offset ∧ step.offset ≤ source.size then do
          let others ← body child name source step.offset
          .ok ⟨step.value :: others.value, others.offset⟩
        else Parser.fail .stuck offset
termination_by source.size - start

/-- A tag whose children are read by `child`; without it the tag lies too deep. -/
def tag (maxDepth : Nat) (child? : Option (DocumentParser Node)) : DocumentParser Node :=
  fun source offset => do
    let name ← tagName source offset
    match child? with
    | none =>
      .error (.spanning (((SyntaxFault.ofCode .maxDepthExceeded).withParam "tag"
        name.value.value).withParam "max" (toString maxDepth)) name.value.span)
    | some child =>
      let attributes ← attributes name.value.value source name.offset
      let opened ← endOfOpening name.value.value offset source attributes.offset
      let children ← body child name.value source opened.offset
      .ok ⟨.tag name.value attributes.value children.value ⟨offset, children.offset⟩,
        children.offset⟩

def textNode : DocumentParser Node := fun source offset =>
  if source.size ≤ offset then .error (.atPoint (SyntaxFault.ofCode .unexpectedEof) offset)
  else if (source.rest offset).head? == some '<' then
    .error (.atPoint (SyntaxFault.ofCode .expectedText) offset)
  else do
    let taken ← Parser.takeUntil1 (· == '<') source offset
    .ok ⟨.text taken.value ⟨offset, taken.offset⟩, taken.offset⟩

/-- A node under which `levels` more levels of tags may be nested. -/
def node (maxDepth : Nat) : (levels : Nat) → DocumentParser Node
  | 0 => fun source offset => Parser.choice (tag maxDepth none) [textNode] source offset
  | levels + 1 => fun source offset =>
    Parser.choice (tag maxDepth (some (node maxDepth levels))) [textNode] source offset

/-- The nodes from an offset to the end of the text. Where they stop before the end, the node that
    could not be read says why. -/
def document (maxDepth : Nat) : DocumentParser (List Node) := fun source offset => do
  let nodes ← (node maxDepth maxDepth).many source offset
  if source.size ≤ nodes.offset then .ok nodes
  else
    match node maxDepth maxDepth source nodes.offset with
    | .error failure => .error failure
    | .ok _ => Parser.fail .expectedEnd nodes.offset

end Grammar

def parseDocument (maxDepth : Nat) (source : Source) : Except Diagnostic (List Node) :=
  match Grammar.document maxDepth source 0 with
  | .ok nodes => .ok nodes.value
  | .error failure => .error (.ofFailure failure)

end PageMarkup
