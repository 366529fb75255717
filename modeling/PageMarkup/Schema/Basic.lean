import PageMarkup.Document.AttrValue
import PageMarkup.KeyMap
import PageMarkup.Text.Blank

namespace PageMarkup

abbrev ResolvedAttrs : Type := KeyMap AttrValue

namespace ResolvedAttrs

def string? (attrs : ResolvedAttrs) (key : String) : Option String :=
  attrs.get? key >>= AttrValue.string?

def number? (attrs : ResolvedAttrs) (key : String) : Option Double :=
  attrs.get? key >>= AttrValue.number?

def boolean? (attrs : ResolvedAttrs) (key : String) : Option Bool :=
  attrs.get? key >>= AttrValue.boolean?

end ResolvedAttrs

structure Complaint where
  key : String
  reason : String
  deriving DecidableEq, Repr

structure AttrDefinition where
  type : AttrType
  required : Bool
  deriving DecidableEq, Repr

structure TagDefinition where
  attrs : KeyMap AttrDefinition
  validate : Option (ResolvedAttrs → List Complaint)
  render : ResolvedAttrs → String → String
  allowsText : Bool

namespace TagDefinition

def ofRender (render : ResolvedAttrs → String → String) : TagDefinition :=
  ⟨.empty, none, render, false⟩

def withAttr (d : TagDefinition) (key : String) (type : AttrType) : TagDefinition :=
  { d with attrs := d.attrs.insert key ⟨type, false⟩ }

def withRequiredAttr (d : TagDefinition) (key : String) (type : AttrType) : TagDefinition :=
  { d with attrs := d.attrs.insert key ⟨type, true⟩ }

def withValidator (d : TagDefinition) (validate : ResolvedAttrs → List Complaint) :
    TagDefinition :=
  { d with validate := some validate }

def withText (d : TagDefinition) : TagDefinition := { d with allowsText := true }

def complaints (d : TagDefinition) (attrs : ResolvedAttrs) : List Complaint :=
  match d.validate with
  | some validate => validate attrs
  | none => []

def describe (name : String) (d : TagDefinition) : String :=
  let attrs := d.attrs.entries.map fun (key, attr) =>
    key ++ ": " ++ attr.type.name ++ if attr.required then " (required)" else ""
  "<" ++ name ++ "> [" ++ (if d.allowsText then "text" else "no text") ++ "] \x7b" ++
    ", ".intercalate attrs ++ "\x7d"

end TagDefinition

structure Schema where
  tags : KeyMap TagDefinition

inductive SchemaError where
  | invalidTagName (name : String)
  | invalidAttributeName (tag key : String)
  deriving DecidableEq, Repr

namespace SchemaError

def message : SchemaError → String
  | .invalidTagName name => "tag name \"" ++ name ++ "\" must be non-empty and ASCII alphanumeric"
  | .invalidAttributeName tag key =>
    "attribute \"" ++ key ++ "\" on <" ++ tag ++ "> must be non-empty and ASCII alphanumeric"

end SchemaError

namespace Schema

def empty : Schema := ⟨.empty⟩

def get? (schema : Schema) (name : String) : Option TagDefinition := schema.tags.get? name

def contains (schema : Schema) (name : String) : Bool := schema.tags.contains name

/-- Adds or replaces a tag and yields its previous definition. Names that no document can contain
    are refused, that of the tag first and then the least one of its attributes. -/
def register (schema : Schema) (name : String) (definition : TagDefinition) :
    Except SchemaError (Option TagDefinition × Schema) :=
  if !isName name then .error (.invalidTagName name)
  else
    match definition.attrs.keys.find? (!isName ·) with
    | some key => .error (.invalidAttributeName name key)
    | none => .ok (schema.get? name, ⟨schema.tags.insert name definition⟩)

def describe (schema : Schema) : String :=
  .join (schema.tags.entries.map fun (name, definition) => definition.describe name ++ "\n")

end Schema

end PageMarkup
