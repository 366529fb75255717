import PageMarkup.Document.AttrValue
import PageMarkup.Source

namespace PageMarkup

structure Attribute where
  key : Located String
  value : Located AttrValue
  deriving DecidableEq, Repr

inductive Node where
  | text (content : String) (span : Span)
  | tag (name : Located String) (attributes : List Attribute) (children : List Node) (span : Span)
  deriving Repr

namespace Node

def span : Node → Span
  | .text _ span => span
  | .tag _ _ _ span => span

@[induction_eliminator]
theorem inductionOn {P : Node → Prop} (text : ∀ content span, P (.text content span))
    (tag : ∀ name attributes children span, (∀ child ∈ children, P child) →
      P (.tag name attributes children span)) : ∀ node, P node
  | .text content span => text content span
  | .tag name attributes children span =>
    tag name attributes children span fun child _ => inductionOn text tag child

mutual

def decideEq : (node other : Node) → Decidable (node = other)
  | .text content span, .text content' span' =>
    decidable_of_iff (content = content' ∧ span = span') (by simp)
  | .text _ _, .tag _ _ _ _ => isFalse nofun
  | .tag _ _ _ _, .text _ _ => isFalse nofun
  | .tag name attributes children span, .tag name' attributes' children' span' =>
    have := decideEqAll children children'
    decidable_of_iff (name = name' ∧ attributes = attributes' ∧ children = children' ∧ span = span')
      (by simp)

def decideEqAll : (nodes others : List Node) → Decidable (nodes = others)
  | [], [] => isTrue rfl
  | [], _ :: _ => isFalse nofun
  | _ :: _, [] => isFalse nofun
  | node :: nodes, other :: others =>
    have := decideEq node other
    have := decideEqAll nodes others
    decidable_of_iff (node = other ∧ nodes = others) (by simp)

end

instance : DecidableEq Node := decideEq

end Node

end PageMarkup
