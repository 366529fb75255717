import PageMarkup.Proofs.Written.Reading

namespace PageMarkup.Written

open Grammar

def runsOn (c : Char) : Bool := !(isBlank c || c == '>' || c == '<')

/-- A text where a value should be but is not, and the characters that are to blame. -/
inductive BadValue : (text blamed : List Char) → Prop
  | unclosed {content : List Char} (unquoted : '"' ∉ content) :
      BadValue ('"' :: content) ('"' :: content)
  | missing {text : List Char} (noQuote : beginsWith (· == '"') text = false)
      (noNumeral : Numeral.read? text = none) : BadValue text []
  | joined (literal : Literal) {excess rest : List Char}
      (maximal : literal.Maximal (excess ++ rest)) (goesOn : endsValue (excess ++ rest) = false)
      (run : ∀ c ∈ excess, runsOn c = true) (edge : beginsWith runsOn rest = false) :
      BadValue (literal.text ++ (excess ++ rest)) (literal.text ++ excess)

theorem BadValue.isPrefix {text blamed : List Char} (bad : BadValue text blamed) :
    blamed <+: text := by
  cases bad with
  | unclosed => exact List.prefix_refl _
  | missing => exact List.nil_prefix
  | joined literal maximal goesOn run edge =>
    rw [← List.append_assoc]
    exact List.prefix_append _ _

/-- A text where an attribute should be but is not, and how this is reported. -/
inductive BadAttr (tag : String) (start : Nat) : (text : List Char) → Failure SyntaxFault → Prop
  | key {text : List Char} (edge : beginsWith Char.isAlphanum text = false) :
      BadAttr tag start text
        (.atPoint ((SyntaxFault.ofCode .invalidAttribute).withParam "tag" tag) start)
  | value (key : Name) (before after : Blanks) {text blamed : List Char}
      (solid : beginsWith isBlank text = false) (bad : BadValue text blamed) :
      BadAttr tag start (key.chars ++ (before.chars ++ '=' :: (after.chars ++ text)))
        (.spanning ((SyntaxFault.ofCode .expectedAttrValue).withParam "key" (.ofList key.chars))
          (.around (start + byteLength (key.chars ++ (before.chars ++ '=' :: after.chars))) blamed))

/-- A tag of which the opening tag and some children are there, and the blanks behind them. -/
structure Begun where
  head : Head
  last : Blanks
  children : List Item
  gap : Blanks

def Begun.text (begun : Begun) : List Char :=
  begun.head.text ++ (begun.last.chars ++ '>' :: (texts begun.children ++ begun.gap.chars))

structure ProperChildren (levels : Nat) (last : Blanks) (children : List Item) : Prop where
  canonical : ∀ child ∈ children, child.Canonical
  visible : ∀ child ∈ children, child.Visible
  shallow : depths children ≤ levels
  spaced : Spaced last.chars children

def Begun.Proper (levels : Nat) (begun : Begun) : Prop :=
  ProperChildren levels begun.gap begun.children

/-- What stands at `offset` is a closing tag, or the beginning of one, but not the expected one. -/
inductive Stray (expected : Name) (offset : Nat) : (text : List Char) → Failure SyntaxFault → Prop
  | intro (gap : Blanks) {written bracket rest : List Char}
      (plain : ∀ c ∈ written, (c == '>' || c == '<') = false)
      (solid : beginsWith isBlank (written ++ (bracket ++ rest)) = false)
      (edge : bracket = ['>'] ∨ bracket = [] ∧ beginsWith (· != '<') rest = false)
      (other : ∀ (closing : Closing) (behind : List Char),
        '<' :: '/' :: (gap.chars ++ (written ++ (bracket ++ rest))) ≠
          closing.text expected ++ behind) :
      Stray expected offset ('<' :: '/' :: (gap.chars ++ (written ++ (bracket ++ rest))))
        (.spanning (((SyntaxFault.ofCode .mismatchedNesting).withParam "expected"
            (.ofList expected.chars)).withParam "found" (.ofList (dropRightWhile isBlank written)))
          (.around offset ('<' :: '/' :: (gap.chars ++ (written ++ bracket)))))

/-- A text that begins like a tag but is none, with `levels` levels left for it, and how this is
    reported. -/
inductive Broken (maxDepth : Nat) :
    (levels start : Nat) → (text : List Char) → Failure SyntaxFault → Prop
  | unnamed {levels start : Nat} (gap : Blanks) {text : List Char}
      (solid : beginsWith isBlank text = false) (edge : beginsWith Char.isAlphanum text = false) :
      Broken maxDepth levels start ('<' :: (gap.chars ++ text))
        (.atPoint (SyntaxFault.ofCode .tagNameAlphanumeric) (start + byteLength ('<' :: gap.chars)))
  | tooDeep {start : Nat} (head : Head) {text : List Char}
      (edge : beginsWith Char.isAlphanum text = false) :
      Broken maxDepth 0 start (head.lead ++ (head.name.chars ++ text))
        (.spanning (((SyntaxFault.ofCode .maxDepthExceeded).withParam "tag"
          (.ofList head.name.chars)).withParam "max" (toString maxDepth)) (head.nameAt start).span)
  | badAttr {levels start : Nat} (head : Head) (gap : Blanks) {text : List Char}
      {failure : Failure SyntaxFault} (ends : head.EndsBefore (gap.chars ++ text))
      (solid : beginsWith isBlank text = false) (more : text ≠ [])
      (goesOn : beginsWith (· == '>') text = false)
      (bad : BadAttr (.ofList head.name.chars) (start + byteLength (head.text ++ gap.chars)) text
        failure) :
      Broken maxDepth (levels + 1) start (head.text ++ (gap.chars ++ text)) failure
  | unterminated {levels start : Nat} (head : Head) (last : Blanks) :
      Broken maxDepth (levels + 1) start (head.text ++ last.chars)
        (.spanning ((SyntaxFault.ofCode .unterminatedTag).withParam "tag" (.ofList head.name.chars))
          (.around start (head.text ++ last.chars)))
  | unclosed {levels start : Nat} (begun : Begun) (proper : begun.Proper levels) :
      Broken maxDepth (levels + 1) start begun.text
        ⟨(SyntaxFault.ofCode .unclosedTag).withParam "tag" (.ofList begun.head.name.chars),
          start + byteLength begun.text, (begun.head.nameAt start).span⟩
  | mismatched {levels start : Nat} (begun : Begun) (proper : begun.Proper levels) {text : List Char}
      {failure : Failure SyntaxFault}
      (stray : Stray begun.head.name (start + byteLength begun.text) text failure) :
      Broken maxDepth (levels + 1) start (begun.text ++ text) failure
  | inChild {levels start : Nat} (begun : Begun) (proper : begun.Proper levels) {text : List Char}
      {failure : Failure SyntaxFault} (inside : NotClosing text)
      (broken : Broken maxDepth levels (start + byteLength begun.text) text failure) :
      Broken maxDepth (levels + 1) start (begun.text ++ text) failure

inductive BrokenDocument (maxDepth start : Nat) : (text : List Char) → Failure SyntaxFault → Prop
  | intro (items : List Item) {rest : List Char} {failure : Failure SyntaxFault}
      (canonical : ∀ item ∈ items, item.Canonical) (flush : ∀ item ∈ items, item.gap.chars = [])
      (shallow : depths items ≤ maxDepth) (spaced : Spaced [] items)
      (broken : Broken maxDepth maxDepth (start + byteLength (texts items)) rest failure) :
      BrokenDocument maxDepth start (texts items ++ rest) failure

end PageMarkup.Written
