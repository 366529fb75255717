import PageMarkup.Proofs.Html.Denotation
import PageMarkup.Proofs.Text.Cuts

namespace PageMarkup

/-- The span of the same text with `bytes` more before it, and so on for all that has spans. -/
def Span.shift (bytes : Nat) (span : Span) : Span := ⟨bytes + span.start, bytes + span.stop⟩

def Located.shift {α : Type} (bytes : Nat) (located : Located α) : Located α :=
  ⟨located.value, located.span.shift bytes⟩

def Attribute.shift (bytes : Nat) (attr : Attribute) : Attribute :=
  ⟨attr.key.shift bytes, attr.value.shift bytes⟩

mutual

def Node.shift (bytes : Nat) : Node → Node
  | .text content span => .text content (span.shift bytes)
  | .tag name attributes children span =>
    .tag (name.shift bytes) (attributes.map (Attribute.shift bytes)) (shiftNodes bytes children)
      (span.shift bytes)

def shiftNodes (bytes : Nat) : List Node → List Node
  | [] => []
  | node :: nodes => node.shift bytes :: shiftNodes bytes nodes

end

def Diagnostic.shift (bytes : Nat) (diagnostic : Diagnostic) : Diagnostic :=
  { diagnostic with span := diagnostic.span.shift bytes }

def Failure.shift {ε : Type} (bytes : Nat) (failure : Failure ε) : Failure ε :=
  ⟨failure.reason, bytes + failure.offset, failure.span.shift bytes⟩

variable {bytes start offset : Nat}

@[simp] theorem shiftNodes_eq_map (bytes : Nat) (nodes : List Node) :
    shiftNodes bytes nodes = nodes.map (Node.shift bytes) := by
  induction nodes with
  | nil => rfl
  | cons node nodes ih => rw [shiftNodes, ih, List.map_cons]

theorem Span.shift_around (text : List Char) :
    (Span.around start text).shift bytes = .around (bytes + start) text := by
  simp [Span.shift, Span.around, Nat.add_assoc]

theorem Attribute.entries_shift (attributes : List Attribute) :
    (attributes.map (Attribute.shift bytes)).map entry = attributes.map entry := by
  rw [List.map_map]
  rfl

theorem Failure.shift_atPoint {ε : Type} (reason : ε) :
    (Failure.atPoint reason offset).shift bytes = .atPoint reason (bytes + offset) := rfl

theorem Failure.shift_spanning {ε : Type} (reason : ε) (span : Span) :
    (Failure.spanning reason span).shift bytes = .spanning reason (span.shift bytes) := rfl

theorem Diagnostic.ofFailure_shift (failure : Failure SyntaxFault) :
    ofFailure (failure.shift bytes) = (ofFailure failure).shift bytes := by
  obtain ⟨reason, offset, span⟩ := failure
  cases reason <;> rfl

namespace TagDefinition

variable (definition : TagDefinition) (name : Located String) (attributes : List Attribute)

theorem resolve_shift :
    definition.resolve (attributes.map (Attribute.shift bytes)) = definition.resolve attributes := by
  rw [resolve_eq_lastTyped, resolve_eq_lastTyped, Attribute.entries_shift]

theorem attributeProblem?_shift (tag : String) (attr : Attribute) :
    definition.attributeProblem? tag (attr.shift bytes) =
      (definition.attributeProblem? tag attr).map (Diagnostic.shift bytes) := by
  simp only [attributeProblem?, Attribute.shift, Located.shift]
  cases definition.attrs.get? attr.key.value with
  | none => rfl
  | some declared =>
    by_cases same : attr.value.value.type = declared.type
    · simp [same]
    · simp only [same, if_false]
      rfl

theorem missing_shift :
    definition.missing (name.shift bytes) (attributes.map (Attribute.shift bytes)) =
      (definition.missing name attributes).map (Diagnostic.shift bytes) := by
  simp only [missing, List.map_map, List.any_map]
  rfl

theorem valueSpan?_shift (key : String) :
    valueSpan? (attributes.map (Attribute.shift bytes)) key =
      (valueSpan? attributes key).map (Span.shift bytes) := by
  rw [valueSpan?, valueSpan?, ← List.map_reverse, List.find?_map, Option.map_map, Option.map_map]
  rfl

theorem rejected_shift :
    definition.rejected (name.shift bytes) (attributes.map (Attribute.shift bytes)) =
      (definition.rejected name attributes).map (Diagnostic.shift bytes) := by
  rw [rejected, rejected, resolve_shift, List.map_map]
  refine List.map_congr_left fun complaint _ => ?_
  have position : ((valueSpan? attributes complaint.key).map (Span.shift bytes)).getD
      (name.shift bytes).span = ((valueSpan? attributes complaint.key).getD name.span).shift bytes :=
    Option.getD_map _ _ _
  rw [valueSpan?_shift, position]
  rfl

theorem problems_shift :
    definition.problems (name.shift bytes) (attributes.map (Attribute.shift bytes)) =
      (definition.problems name attributes).map (Diagnostic.shift bytes) := by
  have each : attributes.filterMap (definition.attributeProblem? name.value ∘ Attribute.shift bytes) =
      (attributes.filterMap (definition.attributeProblem? name.value)).map (Diagnostic.shift bytes) := by
    rw [List.map_filterMap]
    exact List.filterMap_congr fun attr _ => definition.attributeProblem?_shift name.value attr
  rw [problems, problems, List.map_append, List.map_append, ← each, ← missing_shift, ← rejected_shift,
    List.filterMap_map]
  rfl

end TagDefinition

namespace Schema

variable (schema : Schema) (parent : Parent)

theorem tagProblems_shift (name : Located String) (attributes : List Attribute) :
    schema.tagProblems (name.shift bytes) (attributes.map (Attribute.shift bytes)) =
      (schema.tagProblems name attributes).map (Diagnostic.shift bytes) := by
  unfold tagProblems
  simp only [Located.shift]
  cases schema.get? name.value with
  | some definition => exact definition.problems_shift name attributes
  | none => rfl

theorem problems_refineNodes_shift {nodes : List Node}
    (each : ∀ node ∈ nodes, (schema.refineNode parent (node.shift bytes)).problems =
      (schema.refineNode parent node).problems.map (Diagnostic.shift bytes)) :
    (schema.refineNodes parent (nodes.map (Node.shift bytes))).problems =
      (schema.refineNodes parent nodes).problems.map (Diagnostic.shift bytes) := by
  rw [refineNodes_problems, refineNodes_problems, List.map_flatMap, List.flatMap_map]
  exact List.flatMap_congr fun node member => each node member

theorem problems_refineNode_shift (node : Node) :
    (schema.refineNode parent (node.shift bytes)).problems =
      (schema.refineNode parent node).problems.map (Diagnostic.shift bytes) := by
  induction node generalizing parent with
  | text content span =>
    rw [Node.shift, refineNode, refineNode]
    split
    · rfl
    · cases parent.rejectsText? <;> rfl
  | tag name attributes children span ih =>
    rw [Node.shift, shiftNodes_eq_map, refineNode_tag, refineNode_tag, tagProblems_shift]
    simp only [List.map_append]
    congr 1
    exact schema.problems_refineNodes_shift _ fun child member => ih child member _

theorem alike_shift (node : Node) : schema.Alike node (node.shift bytes) := by
  induction node with
  | text content span => exact .text content _ _
  | tag name attributes children span ih =>
    rw [Node.shift, shiftNodes_eq_map]
    have inner : List.Forall₂ schema.Alike children (children.map (Node.shift bytes)) :=
      List.forall₂_map_right_iff.mpr (List.forall₂_same.mpr ih)
    exact .tag rfl (Attribute.entries_shift attributes).symm inner

theorem generate_refine_shift (nodes : List Node) :
    schema.generate (schema.refine (nodes.map (Node.shift bytes))).value =
      schema.generate (schema.refine nodes).value := by
  have alike : List.Forall₂ schema.Alike nodes (nodes.map (Node.shift bytes)) :=
    List.forall₂_map_right_iff.mpr (List.forall₂_same.mpr fun node _ => schema.alike_shift node)
  exact (Alike.generate_refine_eq schema alike).symm

theorem problems_refine_shift (nodes : List Node) :
    (schema.refine (nodes.map (Node.shift bytes))).problems =
      (schema.refine nodes).problems.map (Diagnostic.shift bytes) :=
  schema.problems_refineNodes_shift .root fun node _ => schema.problems_refineNode_shift .root node

end Schema

end PageMarkup
