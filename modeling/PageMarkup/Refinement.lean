import PageMarkup.Diagnostic.Basic
import PageMarkup.Document.Node
import PageMarkup.Schema.Basic

namespace PageMarkup

inductive RefinedNode where
  | text (content : String) (span : Span)
  /-- The kind is the entry of the schema that renders the tag. -/
  | tag (kind : String) (name : Located String) (attrs : ResolvedAttrs)
    (children : List RefinedNode) (span : Span)

/-- Where a node stands, which decides whether it may be text. -/
inductive Parent where
  | root
  | known (name : String) (definition : TagDefinition)
  | unknown

namespace Parent

def rejectsText? : Parent → Option String
  | .root => some "the document root"
  | .known name definition => if definition.allowsText then none else some ("<" ++ name ++ ">")
  | .unknown => none

end Parent

namespace TagDefinition

def accepts (d : TagDefinition) (attr : Attribute) : Bool :=
  match d.attrs.get? attr.key.value with
  | some declared => attr.value.value.type == declared.type
  | none => false

def attributeProblem? (d : TagDefinition) (tag : String) (attr : Attribute) :
    Option Diagnostic :=
  let key := attr.key.value
  match d.attrs.get? key with
  | none =>
    some (((Diagnostic.ofCode .unexpectedAttribute attr.key.span).withParam "key" key).withParam
      "tag" tag)
  | some declared =>
    let actual := attr.value.value.type
    if actual = declared.type then none
    else
      some ((((Diagnostic.ofCode .attributeTypeMismatch attr.value.span).withParam "key"
        key).withParam "expected" declared.type.name).withParam "actual" actual.name)

/-- The attributes that are accepted; of several with one key, the last. -/
def resolve (d : TagDefinition) (attributes : List Attribute) : ResolvedAttrs :=
  .ofList ((attributes.filter d.accepts).map fun attr =>
    (attr.key.value, attr.value.value))

/-- Required attributes that do not occur at all, in the order of their keys. -/
def missing (d : TagDefinition) (name : Located String) (attributes : List Attribute) :
    List Diagnostic :=
  (d.attrs.entries.filter fun (key, declared) =>
    declared.required && !attributes.any (·.key.value == key)).map fun (key, _) =>
      ((Diagnostic.ofCode .missingRequiredAttribute name.span).withParam "key" key).withParam "tag"
        name.value

end TagDefinition

def valueSpan? (attributes : List Attribute) (key : String) : Option Span :=
  (attributes.reverse.find? (·.key.value == key)).map (·.value.span)

/-- What the validator has to say, each time at the value that was written last for the key. -/
def TagDefinition.rejected (d : TagDefinition) (name : Located String)
    (attributes : List Attribute) : List Diagnostic :=
  (d.complaints (d.resolve attributes)).map fun complaint =>
    ((Diagnostic.ofCode .invalidAttributeValue
      ((valueSpan? attributes complaint.key).getD name.span)).withParam "key"
      complaint.key).withParam "reason" complaint.reason

def TagDefinition.problems (d : TagDefinition) (name : Located String)
    (attributes : List Attribute) : List Diagnostic :=
  attributes.filterMap (d.attributeProblem? name.value) ++ d.missing name attributes ++
    d.rejected name attributes

structure Refined (α : Type) where
  value : α
  problems : List Diagnostic

namespace Schema

mutual

/-- A blank text is layout and never content. The children of a tag are refined even if the tag is
    unknown, so that their own problems are reported. -/
def refineNode (schema : Schema) (parent : Parent) : Node → Refined (List RefinedNode)
  | .text content span =>
    if isBlankText content then ⟨[], []⟩
    else
      match parent.rejectsText? with
      | some name => ⟨[], [(Diagnostic.ofCode .textNotAllowed span).withParam "parent" name]⟩
      | none => ⟨[.text content span], []⟩
  | .tag name attributes children span =>
    match schema.get? name.value with
    | some definition =>
      let inner := schema.refineNodes (.known name.value definition) children
      ⟨[.tag name.value name (definition.resolve attributes) inner.value span],
        definition.problems name attributes ++ inner.problems⟩
    | none =>
      let inner := schema.refineNodes .unknown children
      ⟨[.tag name.value name .empty inner.value span],
        (Diagnostic.ofCode .unknownTag name.span).withParam "tag" name.value :: inner.problems⟩

def refineNodes (schema : Schema) (parent : Parent) : List Node → Refined (List RefinedNode)
  | [] => ⟨[], []⟩
  | node :: nodes =>
    let first := schema.refineNode parent node
    let others := schema.refineNodes parent nodes
    ⟨first.value ++ others.value, first.problems ++ others.problems⟩

end

def refine (schema : Schema) (nodes : List Node) : Refined (List RefinedNode) :=
  schema.refineNodes .root nodes

end Schema

end PageMarkup
