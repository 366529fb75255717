import PageMarkup.Refinement

namespace PageMarkup

def Parent.allowsText : Parent → Bool
  | .root => false
  | .known _ definition => definition.allowsText
  | .unknown => true

theorem Parent.rejectsText?_eq_none (parent : Parent) :
    parent.rejectsText? = none ↔ parent.allowsText = true := by
  cases parent with
  | root => exact ⟨nofun, nofun⟩
  | known name definition =>
    cases allows : definition.allowsText <;> simp [rejectsText?, allowsText, allows]
  | unknown => exact ⟨fun _ => rfl, fun _ => rfl⟩

namespace TagDefinition

variable (definition : TagDefinition)

def Typed (attr : Attribute) : Prop :=
  ∃ declared, definition.attrs.get? attr.key.value = some declared ∧
    attr.value.value.type = declared.type

theorem accepts_iff (attr : Attribute) :
    definition.accepts attr = true ↔ definition.Typed attr := by
  unfold accepts Typed
  cases definition.attrs.get? attr.key.value with
  | none => simp
  | some declared => simp

theorem attributeProblem?_eq_some (tag : String) (attr : Attribute) (d : Diagnostic) :
    definition.attributeProblem? tag attr = some d ↔
      definition.attrs.get? attr.key.value = none ∧
          d = ((Diagnostic.ofCode .unexpectedAttribute attr.key.span).withParam "key"
            attr.key.value).withParam "tag" tag ∨
        ∃ declared, definition.attrs.get? attr.key.value = some declared ∧
          attr.value.value.type ≠ declared.type ∧
          d = (((Diagnostic.ofCode .attributeTypeMismatch attr.value.span).withParam "key"
            attr.key.value).withParam "expected" declared.type.name).withParam "actual"
            attr.value.value.type.name := by
  simp only [attributeProblem?]
  cases definition.attrs.get? attr.key.value with
  | none => simp [eq_comm]
  | some declared =>
    by_cases same : attr.value.value.type = declared.type
    · simp [same]
    · simpa [same] using eq_comm

theorem attributeProblem?_eq_none (tag : String) (attr : Attribute) :
    definition.attributeProblem? tag attr = none ↔ definition.Typed attr := by
  simp only [attributeProblem?, Typed]
  cases definition.attrs.get? attr.key.value with
  | none => simp
  | some declared => simp

end TagDefinition

namespace Schema

variable (schema : Schema) (parent : Parent)

def inside (name : String) : Parent :=
  match schema.get? name with
  | some definition => .known name definition
  | none => .unknown

def resolved (name : String) (attributes : List Attribute) : ResolvedAttrs :=
  match schema.get? name with
  | some definition => definition.resolve attributes
  | none => .empty

def tagProblems (name : Located String) (attributes : List Attribute) : List Diagnostic :=
  match schema.get? name.value with
  | some definition => definition.problems name attributes
  | none => [(Diagnostic.ofCode .unknownTag name.span).withParam "tag" name.value]

theorem refineNode_tag (name : Located String) (attributes : List Attribute) (children : List Node)
    (span : Span) :
    schema.refineNode parent (.tag name attributes children span) =
      ⟨[.tag name.value name (schema.resolved name.value attributes)
          (schema.refineNodes (schema.inside name.value) children).value span],
        schema.tagProblems name attributes ++
          (schema.refineNodes (schema.inside name.value) children).problems⟩ := by
  unfold refineNode inside resolved tagProblems
  cases schema.get? name.value <;> rfl

theorem refineNodes_value (nodes : List Node) :
    (schema.refineNodes parent nodes).value =
      nodes.flatMap fun node => (schema.refineNode parent node).value := by
  induction nodes with
  | nil => rfl
  | cons node nodes ih => rw [refineNodes, ih, List.flatMap_cons]

theorem refineNodes_problems (nodes : List Node) :
    (schema.refineNodes parent nodes).problems =
      nodes.flatMap fun node => (schema.refineNode parent node).problems := by
  induction nodes with
  | nil => rfl
  | cons node nodes ih => rw [refineNodes, ih, List.flatMap_cons]

end Schema

end PageMarkup
