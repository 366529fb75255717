namespace PageMarkup

/-- The stage that finds a problem: syntax errors stop the compiler, violations of the schema are
    collected while it goes on. -/
inductive Phase where
  | parser
  | transformer
  deriving DecidableEq, Repr, Inhabited

namespace Phase

def name : Phase → String
  | .parser => "parser"
  | .transformer => "transformer"

def all : List Phase := [.parser, .transformer]

def ofName? (name : String) : Option Phase := all.find? (·.name == name)

end Phase

inductive Code where
  | missingOpeningBracket
  | tagNameAlphanumeric
  | unterminatedTag
  | expectedAttrValue
  | invalidAttribute
  | mismatchedNesting
  | unclosedTag
  | expectedText
  | unexpectedEof
  | maxDepthExceeded
  | unexpectedInput
  | unknownTag
  | unexpectedAttribute
  | attributeTypeMismatch
  | missingRequiredAttribute
  | invalidAttributeValue
  | textNotAllowed
  deriving DecidableEq, Repr, Inhabited

namespace Code

def all : List Code :=
  [.missingOpeningBracket, .tagNameAlphanumeric, .unterminatedTag, .expectedAttrValue,
    .invalidAttribute, .mismatchedNesting, .unclosedTag, .expectedText, .unexpectedEof,
    .maxDepthExceeded, .unexpectedInput, .unknownTag, .unexpectedAttribute, .attributeTypeMismatch,
    .missingRequiredAttribute, .invalidAttributeValue, .textNotAllowed]

def name : Code → String
  | .missingOpeningBracket => "missing-opening-bracket"
  | .tagNameAlphanumeric => "tag-name-alphanumeric"
  | .unterminatedTag => "unterminated-tag"
  | .expectedAttrValue => "expected-attr-value"
  | .invalidAttribute => "invalid-attribute"
  | .mismatchedNesting => "mismatched-nesting"
  | .unclosedTag => "unclosed-tag"
  | .expectedText => "expected-text"
  | .unexpectedEof => "unexpected-eof"
  | .maxDepthExceeded => "max-depth-exceeded"
  | .unexpectedInput => "unexpected-input"
  | .unknownTag => "unknown-tag"
  | .unexpectedAttribute => "unexpected-attribute"
  | .attributeTypeMismatch => "attribute-type-mismatch"
  | .missingRequiredAttribute => "missing-required-attribute"
  | .invalidAttributeValue => "invalid-attribute-value"
  | .textNotAllowed => "text-not-allowed"

def ofName? (name : String) : Option Code := all.find? (·.name == name)

/-- The message, with names in braces where the parameters of a diagnostic go. -/
def template : Code → String
  | .missingOpeningBracket => "Expected '<' to start a tag"
  | .tagNameAlphanumeric => "Tag name must be alphanumeric"
  | .unterminatedTag => "Missing closing '>' for opening tag <{tag}>"
  | .expectedAttrValue => "Expected a quoted string or a number as the value of attribute \"{key}\""
  | .invalidAttribute => "Expected an alphanumeric attribute name in <{tag}>"
  | .mismatchedNesting => "Expected closing tag </{expected}>, found </{found}>"
  | .unclosedTag => "Unclosed tag <{tag}>: reached end of file"
  | .expectedText => "Expected text, but found the start of a tag"
  | .unexpectedEof => "Unexpected end of input"
  | .maxDepthExceeded => "Tag <{tag}> is nested deeper than the maximum of {max} levels"
  | .unexpectedInput => "Unexpected input: {reason}"
  | .unknownTag => "Unknown tag <{tag}>"
  | .unexpectedAttribute => "Unexpected attribute \"{key}\" on <{tag}>"
  | .attributeTypeMismatch => "Attribute \"{key}\" expects a {expected}, got a {actual}"
  | .missingRequiredAttribute => "<{tag}> is missing required attribute \"{key}\""
  | .invalidAttributeValue => "Invalid value for attribute \"{key}\": {reason}"
  | .textNotAllowed => "Text is not allowed inside {parent}"

def phase : Code → Phase
  | .unknownTag | .unexpectedAttribute | .attributeTypeMismatch | .missingRequiredAttribute
  | .invalidAttributeValue | .textNotAllowed => .transformer
  | _ => .parser

end Code

end PageMarkup
