import Mathlib.Data.List.Forall2
import Mathlib.Data.List.Induction
import PageMarkup.Proofs.KeyMap
import PageMarkup.Proofs.Refinement.Basic

namespace PageMarkup

namespace TagDefinition

variable (definition : TagDefinition) (attributes : List Attribute)

def LastTyped (key : String) (value : AttrValue) : Prop :=
  ∃ before attr after, attributes = before ++ attr :: after ∧ attr.key.value = key ∧
    definition.Typed attr ∧ attr.value.value = value ∧
    ∀ later ∈ after, later.key.value = key → ¬ definition.Typed later

structure Resolves (attrs : ResolvedAttrs) : Prop where
  present (key : String) : key ∈ attrs.keys ↔
    ∃ attr ∈ attributes, attr.key.value = key ∧ definition.Typed attr
  last (key : String) (value : AttrValue) :
    attrs.get? key = some value ↔ definition.LastTyped attributes key value

theorem resolve_append_singleton (attr : Attribute) :
    definition.resolve (attributes ++ [attr]) =
      if definition.accepts attr then
        (definition.resolve attributes).insert attr.key.value attr.value.value
      else definition.resolve attributes := by
  unfold resolve
  cases accepted : definition.accepts attr with
  | true => simp [List.filter_append, accepted, KeyMap.ofList_append_singleton]
  | false => simp [List.filter_append, accepted]

theorem get?_resolve (key : String) : (definition.resolve attributes).get? key =
    (attributes.reverse.find? fun attr => attr.key.value == key && definition.accepts attr).map
      (·.value.value) := by
  induction attributes using List.reverseRecOn with
  | nil => rfl
  | append_singleton attributes attr ih =>
    rw [resolve_append_singleton, List.reverse_concat, List.find?_cons]
    cases accepted : definition.accepts attr with
    | true =>
      by_cases same : key = attr.key.value
      · simp [same]
      · have different : (attr.key.value == key) = false := beq_false_of_ne (Ne.symm same)
        simp [KeyMap.get?_insert, same, different, ih]
    | false => simp [ih]

theorem get?_resolve_eq_some (key : String) (value : AttrValue) :
    (definition.resolve attributes).get? key = some value ↔
      definition.LastTyped attributes key value := by
  have skipped (attr : Attribute) :
      (!(attr.key.value == key && definition.accepts attr)) = true ↔
        (attr.key.value = key → ¬ definition.Typed attr) := by
    rw [← accepts_iff]
    simp [imp_iff_not_or]
  simp only [get?_resolve, Option.map_eq_some_iff, List.find?_eq_some_iff_append, Bool.and_eq_true,
    beq_iff_eq, accepts_iff, skipped]
  constructor
  · rintro ⟨attr, ⟨⟨same, typed⟩, after, before, split, later⟩, rfl⟩
    refine ⟨before.reverse, attr, after.reverse, ?_, same, typed, rfl, fun other member => ?_⟩
    · rw [← List.reverse_reverse attributes, split]
      simp
    · exact later other (List.mem_reverse.mp member)
  · rintro ⟨before, attr, after, rfl, same, typed, rfl, later⟩
    refine ⟨attr, ⟨⟨same, typed⟩, after.reverse, before.reverse, by simp, fun other member => ?_⟩,
      rfl⟩
    exact later other (List.mem_reverse.mp member)

theorem mem_keys_resolve (key : String) : key ∈ (definition.resolve attributes).keys ↔
    ∃ attr ∈ attributes, attr.key.value = key ∧ definition.Typed attr := by
  rw [KeyMap.mem_keys_iff, ← Option.isSome_iff_exists, get?_resolve, Option.isSome_map,
    List.find?_isSome]
  simp [accepts_iff]

theorem resolves_iff (attrs : ResolvedAttrs) :
    definition.Resolves attributes attrs ↔ attrs = definition.resolve attributes := by
  constructor
  · intro resolves
    refine KeyMap.ext_get? fun key => Option.ext fun value => ?_
    rw [resolves.last, get?_resolve_eq_some]
  · rintro rfl
    exact ⟨definition.mem_keys_resolve attributes, definition.get?_resolve_eq_some attributes⟩

end TagDefinition

def Parent.keeps (parent : Parent) : Node → Bool
  | .text content _ => !isBlankText content && parent.allowsText
  | .tag .. => true

/-- A node and what it is refined to, if it stays. -/
inductive Schema.RefinesTo (schema : Schema) : Node → RefinedNode → Prop
  | text (content : String) (span : Span) :
      RefinesTo schema (.text content span) (.text content span)
  | knownTag {name : Located String} {attributes : List Attribute} {attrs : ResolvedAttrs}
      {children : List Node} {refined : List RefinedNode} {span : Span}
      {definition : TagDefinition} (known : schema.get? name.value = some definition)
      (resolves : definition.Resolves attributes attrs)
      (inside : List.Forall₂ (RefinesTo schema)
        (children.filter (Parent.known name.value definition).keeps) refined) :
      RefinesTo schema (.tag name attributes children span)
        (.tag name.value name attrs refined span)
  | unknownTag {name : Located String} {attributes : List Attribute} {children : List Node}
      {refined : List RefinedNode} {span : Span} (unknown : schema.get? name.value = none)
      (inside : List.Forall₂ (RefinesTo schema) (children.filter Parent.unknown.keeps) refined) :
      RefinesTo schema (.tag name attributes children span)
        (.tag name.value name .empty refined span)

inductive RefinedNode.Shown : RefinedNode → Prop
  | text {content : String} {span : Span} (shown : isBlankText content = false) :
      Shown (.text content span)
  | tag {kind : String} {name : Located String} {attrs : ResolvedAttrs}
      {children : List RefinedNode} {span : Span} (inside : ∀ child ∈ children, Shown child) :
      Shown (.tag kind name attrs children span)

namespace Schema

variable (schema : Schema) (parent : Parent)

theorem refineNode_text_value (content : String) (span : Span) :
    (schema.refineNode parent (.text content span)).value =
      if parent.keeps (.text content span) then [.text content span] else [] := by
  rw [refineNode]
  cases shown : isBlankText content with
  | true => simp [Parent.keeps, shown]
  | false =>
    cases rejects : parent.rejectsText? with
    | none => simp [Parent.keeps, shown, parent.rejectsText?_eq_none.mp rejects]
    | some name =>
      have refused : ¬ parent.allowsText = true := fun allows => by
        rw [parent.rejectsText?_eq_none.mpr allows] at rejects
        cases rejects
      simp [Parent.keeps, refused]

theorem refineNode_dropped {node : Node} (dropped : ¬ parent.keeps node = true) :
    (schema.refineNode parent node).value = [] := by
  cases node with
  | text content span => rw [refineNode_text_value, if_neg dropped]
  | tag => exact absurd rfl dropped

theorem refineNode_kept {node : Node} (kept : parent.keeps node = true) :
    ∃ refined, (schema.refineNode parent node).value = [refined] := by
  cases node with
  | text content span => exact ⟨_, by rw [refineNode_text_value, if_pos kept]⟩
  | tag => exact ⟨_, by rw [refineNode_tag]⟩

theorem refinesTo_tag_iff (name : Located String) (attributes : List Attribute)
    (children : List Node) (span : Span) (refined : RefinedNode) :
    schema.RefinesTo (.tag name attributes children span) refined ↔
      ∃ inner, List.Forall₂ schema.RefinesTo
          (children.filter (schema.inside name.value).keeps) inner ∧
        refined = .tag name.value name (schema.resolved name.value attributes) inner span := by
  unfold inside resolved
  constructor
  · intro refines
    cases refines with
    | knownTag known resolves inside =>
      rw [known]
      exact ⟨_, inside, by rw [(TagDefinition.resolves_iff _ _ _).mp resolves]⟩
    | unknownTag unknown inside =>
      rw [unknown]
      exact ⟨_, inside, rfl⟩
  · rintro ⟨inner, inside, rfl⟩
    cases known : schema.get? name.value with
    | some definition =>
      rw [known] at inside
      exact .knownTag known ((TagDefinition.resolves_iff _ _ _).mpr rfl) inside
    | none =>
      rw [known] at inside
      exact .unknownTag known inside

theorem refinesTo_refineNodes {nodes : List Node}
    (each : ∀ node ∈ nodes, parent.keeps node = true → ∀ refined,
      schema.RefinesTo node refined ↔ (schema.refineNode parent node).value = [refined])
    (refined : List RefinedNode) :
    List.Forall₂ schema.RefinesTo (nodes.filter parent.keeps) refined ↔
      refined = (schema.refineNodes parent nodes).value := by
  induction nodes generalizing refined with
  | nil => exact List.forall₂_nil_left_iff
  | cons node nodes ih =>
    have others := ih fun other member => each other (List.mem_cons_of_mem _ member)
    rw [refineNodes]
    by_cases kept : parent.keeps node = true
    · rw [List.filter_cons_of_pos kept, List.forall₂_cons_left_iff]
      simp only [each node List.mem_cons_self kept, others]
      constructor
      · rintro ⟨first, rest, same, rfl, rfl⟩
        rw [same]
        rfl
      · rintro rfl
        obtain ⟨first, same⟩ := schema.refineNode_kept parent kept
        exact ⟨first, _, same, rfl, by rw [same]; rfl⟩
    · rw [List.filter_cons_of_neg kept, others, schema.refineNode_dropped parent kept]
      rfl

theorem refinesTo_refineNode (node : Node) (kept : parent.keeps node = true)
    (refined : RefinedNode) :
    schema.RefinesTo node refined ↔ (schema.refineNode parent node).value = [refined] := by
  induction node generalizing parent refined with
  | text content span =>
    rw [refineNode_text_value, if_pos kept]
    constructor
    · intro refines
      cases refines
      rfl
    · intro same
      cases same
      exact .text content span
  | tag name attributes children span ih =>
    have inner := schema.refinesTo_refineNodes (schema.inside name.value)
      fun child member kept refined => ih child member _ kept refined
    rw [refinesTo_tag_iff, refineNode_tag]
    simp only [inner, exists_eq_left, List.cons.injEq, and_true, eq_comm]

theorem shown_of_mem_refineNode (node : Node) {refined : RefinedNode}
    (member : refined ∈ (schema.refineNode parent node).value) : refined.Shown := by
  induction node generalizing parent refined with
  | text content span =>
    rw [refineNode_text_value] at member
    split at member
    · rename_i kept
      rw [List.mem_singleton.mp member]
      have shown : isBlankText content = false ∧ parent.allowsText = true := by
        simpa [Parent.keeps] using kept
      exact .text shown.1
    · cases member
  | tag name attributes children span ih =>
    rw [refineNode_tag] at member
    rw [List.mem_singleton.mp member]
    refine .tag fun child listed => ?_
    rw [refineNodes_value] at listed
    obtain ⟨node, inside, listed⟩ := List.mem_flatMap.mp listed
    exact ih node inside _ listed

/-- The refined tree has the tags of the document and the texts that may stand where they do, each
    with what it is refined to, and nothing else. -/
theorem refine_tree (nodes : List Node) :
    (∀ refined, List.Forall₂ schema.RefinesTo (nodes.filter Parent.root.keeps) refined ↔
      refined = (schema.refine nodes).value) ∧
    (∀ content span, RefinedNode.text content span ∉ (schema.refine nodes).value) ∧
    ∀ refined ∈ (schema.refine nodes).value, refined.Shown := by
  refine ⟨fun refined => ?_, fun content span member => ?_, fun refined member => ?_⟩
  · exact schema.refinesTo_refineNodes .root
      (fun node _ kept refined => schema.refinesTo_refineNode .root node kept refined) refined
  · rw [refine, refineNodes_value] at member
    obtain ⟨node, _, member⟩ := List.mem_flatMap.mp member
    cases node with
    | text => simp [refineNode_text_value, Parent.keeps, Parent.allowsText] at member
    | tag => simp [refineNode_tag] at member
  · rw [refine, refineNodes_value] at member
    obtain ⟨node, _, member⟩ := List.mem_flatMap.mp member
    exact schema.shown_of_mem_refineNode .root node member

end Schema

end PageMarkup
