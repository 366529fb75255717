import PageMarkup.Html
import PageMarkup.Proofs.Refinement.Tree
import PageMarkup.Schema.Builtin

namespace PageMarkup

/-- The attributes of a tag in another order. Those of one key stay in the order in which they were. -/
structure Reordered (attributes others : List Attribute) : Prop where
  perm : attributes.Perm others
  occurrences (key : String) : attributes.filter (·.key.value == key) =
    others.filter (·.key.value == key)

inductive Node.Reordered : Node → Node → Prop
  | text (content : String) (span : Span) : Reordered (.text content span) (.text content span)
  | tag {name : Located String} {attributes attributes' : List Attribute}
      {children children' : List Node} {span : Span}
      (reordered : PageMarkup.Reordered attributes attributes')
      (inside : List.Forall₂ Reordered children children') :
      Reordered (.tag name attributes children span) (.tag name attributes' children' span)

theorem find?_reverse_eq_filter (attributes : List Attribute) (key : String) (p : Attribute → Bool) :
    (attributes.reverse.find? fun attr => attr.key.value == key && p attr) =
      (attributes.filter (·.key.value == key)).reverse.find? p := by
  rw [← List.filter_reverse, List.find?_filter]
  simp only [Bool.decide_and, Bool.decide_eq_true]

namespace Reordered

variable {attributes others : List Attribute} (reordered : Reordered attributes others)

include reordered

theorem find?_reverse (key : String) (p : Attribute → Bool) :
    (attributes.reverse.find? fun attr => attr.key.value == key && p attr) =
      others.reverse.find? fun attr => attr.key.value == key && p attr := by
  rw [find?_reverse_eq_filter, find?_reverse_eq_filter, reordered.occurrences]

theorem valueSpan?_eq (key : String) : valueSpan? attributes key = valueSpan? others key := by
  have found := reordered.find?_reverse key fun _ => true
  simp only [Bool.and_true] at found
  rw [valueSpan?, valueSpan?, found]

variable (definition : TagDefinition) (name : Located String)

theorem resolve_eq : definition.resolve attributes = definition.resolve others := by
  refine KeyMap.ext_get? fun key => ?_
  rw [TagDefinition.get?_resolve, TagDefinition.get?_resolve, reordered.find?_reverse]

theorem missing_eq : definition.missing name attributes = definition.missing name others := by
  have occurs (key : String) : attributes.any (·.key.value == key) =
      others.any (·.key.value == key) := reordered.perm.any_eq
  simp only [TagDefinition.missing, occurs]

theorem rejected_eq : definition.rejected name attributes = definition.rejected name others := by
  simp only [TagDefinition.rejected, reordered.resolve_eq definition, reordered.valueSpan?_eq]

theorem problems_perm :
    (definition.problems name attributes).Perm (definition.problems name others) := by
  have unfit := reordered.perm.filterMap (definition.attributeProblem? name.value)
  rw [TagDefinition.problems, TagDefinition.problems, reordered.missing_eq, reordered.rejected_eq]
  exact (unfit.append_right _).append_right _

theorem resolved_eq (schema : Schema) (name : String) :
    schema.resolved name attributes = schema.resolved name others := by
  unfold Schema.resolved
  cases schema.get? name with
  | none => rfl
  | some definition => exact reordered.resolve_eq definition

theorem tagProblems_perm (schema : Schema) :
    (schema.tagProblems name attributes).Perm (schema.tagProblems name others) := by
  unfold Schema.tagProblems
  cases schema.get? name.value with
  | none => exact .refl _
  | some definition => exact reordered.problems_perm definition name

end Reordered

namespace Schema

variable (schema : Schema)

def RefinedAlike (one other : Refined (List RefinedNode)) : Prop :=
  one.value = other.value ∧ one.problems.Perm other.problems

theorem refineNodes_reordered {parent : Parent} {nodes others : List Node}
    (reordered : List.Forall₂ Node.Reordered nodes others)
    (each : ∀ node ∈ nodes, ∀ other, node.Reordered other →
      RefinedAlike (schema.refineNode parent node) (schema.refineNode parent other)) :
    RefinedAlike (schema.refineNodes parent nodes) (schema.refineNodes parent others) := by
  induction reordered with
  | nil => exact ⟨rfl, .refl _⟩
  | @cons node other nodes others first _ ih =>
    obtain ⟨value, problems⟩ := each node List.mem_cons_self other first
    obtain ⟨values, problems'⟩ := ih fun node member => each node (List.mem_cons_of_mem _ member)
    rw [refineNodes, refineNodes]
    exact ⟨by rw [value, values], problems.append problems'⟩

theorem refineNode_reordered (parent : Parent) (node other : Node)
    (reordered : node.Reordered other) :
    RefinedAlike (schema.refineNode parent node) (schema.refineNode parent other) := by
  induction node generalizing parent other with
  | text content span =>
    cases reordered
    exact ⟨rfl, .refl _⟩
  | tag name attributes children span ih =>
    cases reordered with
    | tag attributes inside =>
      obtain ⟨values, problems⟩ := schema.refineNodes_reordered inside
        fun child member other => ih child member (schema.inside name.value) other
      rw [refineNode_tag, refineNode_tag]
      exact ⟨by rw [attributes.resolved_eq, values],
        (attributes.tagProblems_perm name schema).append problems⟩

/-- The order of attributes matters only among those of one key. Documents that differ in nothing else
    have the same refined tree and the same HTML, and the same problems up to their order. -/
theorem refine_reordered {nodes others : List Node}
    (reordered : List.Forall₂ Node.Reordered nodes others) :
    (schema.refine nodes).value = (schema.refine others).value ∧
      schema.generate (schema.refine nodes).value = schema.generate (schema.refine others).value ∧
      (schema.refine nodes).problems.Perm (schema.refine others).problems := by
  have each : ∀ node ∈ nodes, ∀ other, node.Reordered other →
      RefinedAlike (schema.refineNode .root node) (schema.refineNode .root other) :=
    fun node _ other => schema.refineNode_reordered .root node other
  obtain ⟨value, problems⟩ := schema.refineNodes_reordered reordered each
  exact ⟨value, congrArg schema.generate value, problems⟩

theorem refine_reordered_box :
    let written (key : String) (value : AttrValue) (start stop : Nat) : Attribute :=
      ⟨⟨key, ⟨start, start + key.length⟩⟩, ⟨value, ⟨start + key.length + 1, stop⟩⟩⟩
    let mistyped := written "width" (.string "x") 5 14
    let unexpected := written "b" (.string "y") 15 20
    let width := written "width" (.number ⟨0x4014000000000000⟩) 21 28
    let box (attributes : List Attribute) : Node := .tag ⟨"box", ⟨1, 4⟩⟩ attributes [] ⟨0, 35⟩
    let nodes := [box [mistyped, unexpected, width]]
    let others := [box [unexpected, mistyped, width]]
    List.Forall₂ Node.Reordered nodes others ∧
      builtin.generate (builtin.refine nodes).value =
        builtin.generate (builtin.refine others).value ∧
      (builtin.refine nodes).problems.Perm (builtin.refine others).problems ∧
      (builtin.refine nodes).problems.map (·.code) =
        [.attributeTypeMismatch, .unexpectedAttribute] ∧
      (builtin.refine others).problems.map (·.code) =
        [.unexpectedAttribute, .attributeTypeMismatch] := by
  intro written mistyped unexpected width box nodes others
  have swapped : Reordered [mistyped, unexpected, width] [unexpected, mistyped, width] := by
    refine ⟨.swap _ _ _, fun key => ?_⟩
    by_cases same : mistyped.key.value = key
    · subst same
      decide
    · have skipped : (mistyped.key.value == key) = false := beq_false_of_ne same
      simp only [List.filter_cons, skipped, Bool.false_eq_true, if_false]
  have reordered : List.Forall₂ Node.Reordered nodes others := .cons (.tag swapped .nil) .nil
  obtain ⟨_, html, problems⟩ := builtin.refine_reordered reordered
  exact ⟨reordered, html, problems, by decide +kernel, by decide +kernel⟩

end Schema

end PageMarkup
