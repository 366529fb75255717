import Mathlib.Data.List.Find
import PageMarkup.Html
import PageMarkup.Proofs.Refinement.Tree

namespace PageMarkup

def Attribute.entry (attr : Attribute) : String × AttrValue := (attr.key.value, attr.value.value)

def TagDefinition.lastTyped (definition : TagDefinition) (entries : List (String × AttrValue)) :
    ResolvedAttrs :=
  definition.attrs.filterMap fun key declared =>
    (entries.reverse.find? fun entry => entry.1 == key && entry.2.type == declared.type).map (·.2)

theorem TagDefinition.resolve_eq_lastTyped (definition : TagDefinition)
    (attributes : List Attribute) :
    definition.resolve attributes = definition.lastTyped (attributes.map Attribute.entry) := by
  refine KeyMap.ext_get? fun key => ?_
  rw [get?_resolve, lastTyped, KeyMap.get?_filterMap, ← List.map_reverse]
  simp only [List.find?_map, Option.map_map]
  cases declares : definition.attrs.get? key with
  | none =>
    have none : (attributes.reverse.find? fun attr =>
        attr.key.value == key && definition.accepts attr) = none := by
      refine List.find?_eq_none.mpr fun attr _ accepted => ?_
      obtain ⟨same, accepted⟩ := Bool.and_eq_true_iff.mp accepted
      rw [accepts, beq_iff_eq.mp same, declares] at accepted
      cases accepted
    rw [none]
    rfl
  | some declared =>
    have same (attr : Attribute) : (attr.key.value == key && definition.accepts attr) =
        (attr.key.value == key && attr.value.value.type == declared.type) := by
      by_cases named : attr.key.value = key
      · rw [accepts, named, declares]
      · rw [beq_false_of_ne named, Bool.false_and, Bool.false_and]
    simp only [same]
    rfl

namespace Schema

variable (schema : Schema)

mutual

def denoteNode (parent : Parent) : Node → String
  | .text content _ => if isBlankText content || !parent.allowsText then "" else content
  | .tag name attributes children _ =>
    match schema.get? name.value with
    | some definition =>
      definition.render (definition.lastTyped (attributes.map Attribute.entry))
        (denote (.known name.value definition) children)
    | none => ""

def denote (parent : Parent) : List Node → String
  | [] => ""
  | node :: nodes => denoteNode parent node ++ denote parent nodes

end

theorem denote_infix (parent : Parent) {node : Node} {nodes : List Node} (member : node ∈ nodes) :
    (schema.denoteNode parent node).toList <:+: (schema.denote parent nodes).toList := by
  induction member with
  | head nodes =>
    rw [denote, String.toList_append]
    exact (List.prefix_append _ _).isInfix
  | tail first _ ih =>
    rw [denote, String.toList_append]
    exact ih.trans (List.suffix_append _ _).isInfix

theorem generate_append (left right : List RefinedNode) :
    schema.generate (left ++ right) = schema.generate left ++ schema.generate right := by
  induction left with
  | nil => simp [generate]
  | cons node left ih => rw [List.cons_append, generate, ih, generate, String.append_assoc]

theorem generate_singleton (node : RefinedNode) :
    schema.generate [node] = schema.generateNode node := by
  simp [generate]

theorem generate_refineNodes {parent : Parent} {nodes : List Node}
    (each : ∀ node ∈ nodes,
      schema.generate (schema.refineNode parent node).value = schema.denoteNode parent node) :
    schema.generate (schema.refineNodes parent nodes).value = schema.denote parent nodes := by
  induction nodes with
  | nil => rfl
  | cons node nodes ih =>
    rw [refineNodes, generate_append, denote, each node List.mem_cons_self,
      ih fun other member => each other (List.mem_cons_of_mem _ member)]

/-- Refinement decides on a node as generation does, and neither remembers anything of the nodes
    before it. -/
theorem generate_refineNode (parent : Parent) (node : Node) :
    schema.generate (schema.refineNode parent node).value = schema.denoteNode parent node := by
  induction node generalizing parent with
  | text content span =>
    rw [refineNode_text_value, denoteNode, Parent.keeps]
    cases isBlankText content <;> cases parent.allowsText <;> simp [generate, generateNode]
  | tag name attributes children span ih =>
    rw [refineNode_tag, generate_singleton, generateNode, denoteNode]
    cases known : schema.get? name.value with
    | none => rfl -- refinement goes on inside an unknown tag, but generation does not
    | some definition =>
      have inner := schema.generate_refineNodes fun child member =>
        ih child member (schema.inside name.value)
      rw [inner]
      simp only [inside, resolved, known, definition.resolve_eq_lastTyped]

/-- Nodes that differ only in where they were written and in unknown tags and all that is in these. -/
inductive Alike : Node → Node → Prop
  | text (content : String) (span span' : Span) : Alike (.text content span) (.text content span')
  | tag {name name' : Located String} {attributes attributes' : List Attribute}
      {children children' : List Node} {span span' : Span} (named : name.value = name'.value)
      (assigned : attributes.map Attribute.entry = attributes'.map Attribute.entry)
      (inner : List.Forall₂ Alike children children') :
      Alike (.tag name attributes children span) (.tag name' attributes' children' span')
  | unknown {name name' : Located String} {attributes attributes' : List Attribute}
      {children children' : List Node} {span span' : Span} (unknown : schema.get? name.value = none)
      (unknown' : schema.get? name'.value = none) :
      Alike (.tag name attributes children span) (.tag name' attributes' children' span')

theorem denote_congr {parent : Parent} {nodes others : List Node}
    (alike : List.Forall₂ schema.Alike nodes others)
    (each : ∀ node ∈ nodes, ∀ other, schema.Alike node other →
      schema.denoteNode parent node = schema.denoteNode parent other) :
    schema.denote parent nodes = schema.denote parent others := by
  induction alike with
  | nil => rfl
  | cons first _ ih =>
    rw [denote, denote, each _ List.mem_cons_self _ first,
      ih fun node member => each node (List.mem_cons_of_mem _ member)]

theorem Alike.denoteNode_eq {node other : Node} (alike : schema.Alike node other) (parent : Parent) :
    schema.denoteNode parent node = schema.denoteNode parent other := by
  induction node generalizing other parent with
  | text content span =>
    cases alike
    rfl
  | tag name attributes children span ih =>
    cases alike with
    | @tag _ name' _ _ _ _ _ _ named assigned inner =>
      rw [denoteNode, denoteNode, named, assigned]
      cases schema.get? name'.value with
      | none => rfl
      | some definition =>
        have inner := schema.denote_congr inner fun child member other alike =>
          ih child member alike (.known name'.value definition)
        simp only [inner]
    | unknown unknown unknown' => rw [denoteNode, denoteNode, unknown, unknown']

theorem generate_refine_eq_denote (nodes : List Node) :
    schema.generate (schema.refine nodes).value = schema.denote .root nodes :=
  schema.generate_refineNodes fun node _ => schema.generate_refineNode .root node

theorem Alike.generate_refine_eq {nodes others : List Node}
    (alike : List.Forall₂ schema.Alike nodes others) :
    schema.generate (schema.refine nodes).value = schema.generate (schema.refine others).value := by
  rw [generate_refine_eq_denote, generate_refine_eq_denote]
  exact schema.denote_congr alike fun node _ other alike => alike.denoteNode_eq schema .root

/-- Refining a document and making HTML of the result gives what one pass over the document gives. What
    unknown tags are and hold makes no difference to it. -/
theorem generate_refine :
    (∀ nodes, schema.generate (schema.refine nodes).value = schema.denote .root nodes) ∧
    ∀ nodes others, List.Forall₂ schema.Alike nodes others →
      schema.generate (schema.refine nodes).value = schema.generate (schema.refine others).value :=
  ⟨schema.generate_refine_eq_denote, fun _ _ alike => Alike.generate_refine_eq schema alike⟩

theorem generate_refine_unknown_tag :
    let called (name : String) : Located String := ⟨name, ⟨0, 1⟩⟩
    let text : Node := .tag (called "text") [] [.text "ü" ⟨1, 3⟩] ⟨0, 4⟩
    let moved : Node := .tag (called "text") [] [.text "ü" ⟨2, 4⟩] ⟨1, 5⟩
    let nodes := [.tag (called "box") [] [.tag (called "b") [] [] ⟨2, 3⟩, text] ⟨0, 9⟩]
    let others := [.tag (called "box") []
      [.tag (called "b") [⟨called "x", ⟨.boolean true, ⟨0, 1⟩⟩⟩] [text] ⟨2, 6⟩, moved] ⟨0, 9⟩]
    List.Forall₂ builtin.Alike nodes others ∧
      builtin.generate (builtin.refine nodes).value = builtin.generate (builtin.refine others).value ∧
      builtin.generate (builtin.refine nodes).value = "<div><p>ü</p></div>" := by
  intro called text moved nodes others
  have alike : List.Forall₂ builtin.Alike nodes others :=
    .cons (.tag rfl rfl (.cons (.unknown (by decide +kernel) (by decide +kernel))
      (.cons (.tag rfl rfl (.cons (.text "ü" _ _) .nil)) .nil))) .nil
  exact ⟨alike, (generate_refine builtin).2 _ _ alike, by decide +kernel⟩

end Schema

end PageMarkup
