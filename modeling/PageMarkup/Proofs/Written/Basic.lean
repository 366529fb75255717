import PageMarkup.Document.Node
import PageMarkup.Proofs.Number.Lexeme
import PageMarkup.Proofs.Text.Cuts

namespace PageMarkup.Written

structure Blanks where
  chars : List Char
  blank : ∀ c ∈ chars, isBlank c = true

structure Name where
  chars : List Char
  nonempty : chars ≠ []
  alphanumeric : ∀ c ∈ chars, c.isAlphanum = true

structure Run where
  chars : List Char
  nonempty : chars ≠ []
  plain : '<' ∉ chars

inductive Literal where
  | string (content : List Char) (unquoted : '"' ∉ content)
  | number (numeral : Numeral) (proper : numeral.Proper)

namespace Literal

def text : Literal → List Char
  | .string content _ => '"' :: (content ++ ['"'])
  | .number numeral _ => numeral.text

def value : Literal → AttrValue
  | .string content _ => .string (.ofList content)
  | .number numeral _ => .number numeral.value

end Literal

structure Assignment where
  before : Blanks
  after : Blanks
  literal : Literal

namespace Assignment

def lead (assignment : Assignment) : List Char :=
  assignment.before.chars ++ '=' :: assignment.after.chars

def text (assignment : Assignment) : List Char := assignment.lead ++ assignment.literal.text

end Assignment

/-- An attribute and the blanks before it, which keep it apart from what it follows. Without an
    assignment it is only named. -/
structure Attr where
  gap : Blanks
  apart : gap.chars ≠ []
  key : Name
  assignment? : Option Assignment

namespace Attr

def core (attr : Attr) : List Char :=
  attr.key.chars ++ match attr.assignment? with
    | some assignment => assignment.text
    | none => []

def text (attr : Attr) : List Char := attr.gap.chars ++ attr.core

def attributeAt (attr : Attr) (start : Nat) : Attribute :=
  let key : Located String := ⟨.ofList attr.key.chars, .around start attr.key.chars⟩
  match attr.assignment? with
  | some assignment =>
    ⟨key, ⟨assignment.literal.value,
      .around (start + byteLength (attr.key.chars ++ assignment.lead)) assignment.literal.text⟩⟩
  | none => ⟨key, ⟨.boolean true, key.span⟩⟩

end Attr

def attributesAt (start : Nat) : List Attr → List Attribute
  | [] => []
  | attr :: attrs =>
    attr.attributeAt (start + byteLength attr.gap.chars) ::
      attributesAt (start + byteLength attr.text) attrs

structure Head where
  gap : Blanks
  name : Name
  attrs : List Attr

namespace Head

def lead (head : Head) : List Char := '<' :: head.gap.chars

def text (head : Head) : List Char :=
  head.lead ++ (head.name.chars ++ head.attrs.flatMap Attr.text)

def nameAt (head : Head) (start : Nat) : Located String :=
  ⟨.ofList head.name.chars, .around (start + byteLength head.lead) head.name.chars⟩

def attributesAt (head : Head) (start : Nat) : List Attribute :=
  Written.attributesAt (start + byteLength (head.lead ++ head.name.chars)) head.attrs

end Head

structure Closing where
  gap : Blanks
  beforeName : Blanks
  afterName : Blanks

def Closing.text (closing : Closing) (name : Name) : List Char :=
  '<' :: '/' :: (closing.beforeName.chars ++ name.chars ++ closing.afterName.chars ++ ['>'])

/-- A node with the blanks before it and, for a tag, all blanks in it. -/
inductive Item where
  | text (gap : Blanks) (run : Run)
  | tag (gap : Blanks) (head : Head) (last : Blanks) (children : List Item) (closing : Closing)

namespace Item

def gap : Item → Blanks
  | .text gap _ => gap
  | .tag gap _ _ _ _ => gap

def isText : Item → Bool
  | .text _ _ => true
  | .tag _ _ _ _ _ => false

/-- Text inside a tag begins with something to show, for the blanks before it are not part of it. -/
def Visible : Item → Prop
  | .text _ run => beginsWith isBlank run.chars = false
  | .tag _ _ _ _ _ => True

end Item

mutual

def Item.core : Item → List Char
  | .text _ run => run.chars
  | .tag _ head last children closing =>
    head.text ++ (last.chars ++ '>' :: (texts children ++ (closing.gap.chars ++ closing.text head.name)))

def texts : List Item → List Char
  | [] => []
  | item :: items => item.gap.chars ++ (item.core ++ texts items)

end

mutual

def Item.nodeAt (start : Nat) : Item → Node
  | .text _ run => .text (.ofList run.chars) (.around start run.chars)
  | .tag gap head last children closing =>
    .tag (head.nameAt start) (head.attributesAt start)
      (nodesAt (start + byteLength (head.text ++ last.chars) + 1) children)
      (.around start (Item.tag gap head last children closing).core)

def nodesAt (start : Nat) : List Item → List Node
  | [] => []
  | item :: items =>
    item.nodeAt (start + byteLength item.gap.chars) ::
      nodesAt (start + byteLength (item.gap.chars ++ item.core)) items

end

mutual

def Item.depth : Item → Nat
  | .text _ _ => 0
  | .tag _ _ _ children _ => depths children + 1

def depths : List Item → Nat
  | [] => 0
  | item :: items => max item.depth (depths items)

end

/-- Whether a text could end here: right before the bracket of a tag, of a sibling or of the closing
    tag that the blanks `last` stand before. -/
def EndsText (last : List Char) : List Item → Prop
  | [] => last = []
  | next :: _ => next.isText = false ∧ next.gap.chars = []

/-- Neither blanks nor a text follow a text, of which they would be a part. -/
def Spaced (last : List Char) : List Item → Prop
  | [] => True
  | item :: items => (item.isText = true → EndsText last items) ∧ Spaced last items

inductive Item.Canonical : Item → Prop
  | text (gap : Blanks) (run : Run) : Canonical (.text gap run)
  | tag (gap : Blanks) (head : Head) (last : Blanks) {children : List Item} {closing : Closing}
      (canonical : ∀ child ∈ children, child.Canonical) (visible : ∀ child ∈ children, child.Visible)
      (spaced : Spaced closing.gap.chars children) :
      Canonical (.tag gap head last children closing)

/-- A whole document. Between its nodes there is nothing, since blanks there are text. -/
structure Document where
  items : List Item
  canonical : ∀ item ∈ items, item.Canonical
  flush : ∀ item ∈ items, item.gap.chars = []
  spaced : Spaced [] items

namespace Document

def text (document : Document) : List Char := texts document.items

def nodes (document : Document) : List Node := nodesAt 0 document.items

def depth (document : Document) : Nat := depths document.items

end Document

end PageMarkup.Written
