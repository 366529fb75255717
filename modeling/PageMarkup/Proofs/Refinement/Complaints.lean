import PageMarkup.Proofs.Refinement.Tree
import PageMarkup.Schema.Builtin

namespace PageMarkup

section LastWritten

variable {attributes before after : List Attribute} {attr : Attribute} {key : String}

theorem valueSpan?_of_split (split : attributes = before ++ attr :: after)
    (same : attr.key.value = key) (unrepeated : ∀ later ∈ after, later.key.value ≠ key) :
    valueSpan? attributes key = some attr.value.span := by
  have behind : after.reverse.find? (·.key.value == key) = none := by
    apply List.find?_eq_none.mpr
    intro later member
    have other := unrepeated later (List.mem_reverse.mp member)
    simpa using other
  subst split
  simp [valueSpan?, List.find?_append, behind, same]

theorem exists_last_of_key (written : ∃ attr ∈ attributes, attr.key.value = key) :
    ∃ before last after, attributes = before ++ last :: after ∧ last.key.value = key ∧
      ∀ later ∈ after, later.key.value ≠ key := by
  induction attributes with
  | nil =>
    obtain ⟨attr, member, _⟩ := written
    cases member
  | cons first attributes ih =>
    by_cases again : ∃ attr ∈ attributes, attr.key.value = key
    · obtain ⟨before, last, after, split, same, unrepeated⟩ := ih again
      exact ⟨first :: before, last, after, by rw [split]; rfl, same, unrepeated⟩
    · have unrepeated : ∀ later ∈ attributes, later.key.value ≠ key :=
        fun later member same => again ⟨later, member, same⟩
      obtain ⟨attr, member, same⟩ := written
      rcases List.mem_cons.mp member with rfl | member
      · exact ⟨[], attr, attributes, rfl, same, unrepeated⟩
      · exact absurd same (unrepeated attr member)

end LastWritten

namespace TagDefinition

/-- What a complaint points at when the key that it is about has a value among the resolved ones. It
    is the attribute that gave this value, unless the key is written again behind it. What is
    written there has another type than the declared one, so it was not what the validator saw. -/
inductive Blames (definition : TagDefinition) (attributes : List Attribute) (key : String)
    (value : AttrValue) : Span → Prop
  | resolved {before after : List Attribute} {won : Attribute}
      (split : attributes = before ++ won :: after) (same : won.key.value = key)
      (typed : definition.Typed won) (resolved : won.value.value = value)
      (unrepeated : ∀ later ∈ after, later.key.value ≠ key) :
      Blames definition attributes key value won.value.span
  | mistyped {before between after : List Attribute} {won last : Attribute}
      (split : attributes = before ++ won :: (between ++ last :: after))
      (same : won.key.value = key) (typed : definition.Typed won)
      (resolved : won.value.value = value) (again : last.key.value = key)
      (mistyped : ∀ later ∈ between ++ last :: after, later.key.value = key →
        ¬ definition.Typed later)
      (unrepeated : ∀ later ∈ after, later.key.value ≠ key) :
      Blames definition attributes key value last.value.span

variable {definition : TagDefinition} {attributes : List Attribute} {key : String}
  {value : AttrValue}

theorem blames_valueSpan? (last : definition.LastTyped attributes key value) :
    ∃ span, valueSpan? attributes key = some span ∧
      definition.Blames attributes key value span := by
  obtain ⟨before, won, after, split, same, typed, resolved, mistyped⟩ := last
  by_cases again : ∃ later ∈ after, later.key.value = key
  · obtain ⟨between, last, rest, splitAfter, sameLast, unrepeated⟩ := exists_last_of_key again
    rw [splitAfter] at split mistyped
    have splitLast : attributes = (before ++ won :: between) ++ last :: rest := by
      rw [split, List.append_assoc, List.cons_append]
    exact ⟨last.value.span, valueSpan?_of_split splitLast sameLast unrepeated,
      .mistyped split same typed resolved sameLast mistyped unrepeated⟩
  · have unrepeated : ∀ later ∈ after, later.key.value ≠ key :=
      fun later member same => again ⟨later, member, same⟩
    exact ⟨won.value.span, valueSpan?_of_split split same unrepeated,
      .resolved split same typed resolved unrepeated⟩

theorem code_attributeProblem? {tag : String} {attr : Attribute} {d : Diagnostic}
    (problem : definition.attributeProblem? tag attr = some d) :
    d.code = .unexpectedAttribute ∨ d.code = .attributeTypeMismatch := by
  rcases (attributeProblem?_eq_some definition tag attr d).mp problem with
    ⟨_, rfl⟩ | ⟨_, _, _, rfl⟩
  · left; rfl
  · right; rfl

theorem filter_problems (definition : TagDefinition) (name : Located String)
    (attributes : List Attribute) :
    (definition.problems name attributes).filter (·.code == .invalidAttributeValue) =
      definition.rejected name attributes := by
  have ofAttrs : (attributes.filterMap (definition.attributeProblem? name.value)).filter
      (·.code == .invalidAttributeValue) = [] := by
    apply List.filter_eq_nil_iff.mpr
    intro d member
    obtain ⟨attr, _, problem⟩ := List.mem_filterMap.mp member
    rcases code_attributeProblem? problem with code | code <;> rw [code] <;> decide
  have ofMissing : (definition.missing name attributes).filter
      (·.code == .invalidAttributeValue) = [] := by
    apply List.filter_eq_nil_iff.mpr
    intro d member
    obtain ⟨entry, _, rfl⟩ := List.mem_map.mp member
    have code : Code.missingRequiredAttribute ≠ .invalidAttributeValue := by decide
    exact fun same => code (beq_iff_eq.mp same)
  have ofRejected : (definition.rejected name attributes).filter
      (·.code == .invalidAttributeValue) = definition.rejected name attributes := by
    apply List.filter_eq_self.mpr
    intro d member
    obtain ⟨complaint, _, rfl⟩ := List.mem_map.mp member
    rfl
  rw [problems, List.filter_append, List.filter_append, ofAttrs, ofMissing, ofRejected]
  rfl

end TagDefinition

def Complaint.diagnosticAt (complaint : Complaint) (span : Span) : Diagnostic :=
  ((Diagnostic.ofCode .invalidAttributeValue span).withParam "key" complaint.key).withParam "reason"
    complaint.reason

namespace Schema

/-- Each complaint about a key that was resolved is reported among the problems of its tag, in the
    order of the complaints. It is located at the value that the validator saw, or else at a later
    one of the same key, which is not of the declared type. -/
theorem complaint_blames (schema : Schema) (parent : Parent) (name : Located String)
    (attributes : List Attribute) (children : List Node) (span : Span)
    {definition : TagDefinition} (known : schema.get? name.value = some definition)
    {position : Nat} {complaint : Complaint} {value : AttrValue}
    (complains : (definition.complaints (definition.resolve attributes))[position]? =
      some complaint)
    (present : (definition.resolve attributes).get? complaint.key = some value) :
    (schema.refineNode parent (.tag name attributes children span)).problems =
      definition.problems name attributes ++
        (schema.refineNodes (.known name.value definition) children).problems ∧
    ∃ blamed,
      ((definition.problems name attributes).filter (·.code == .invalidAttributeValue))[position]? =
        some (complaint.diagnosticAt blamed) ∧
      definition.Blames attributes complaint.key value blamed := by
  have last := (definition.get?_resolve_eq_some attributes complaint.key value).mp present
  obtain ⟨blamed, found, blames⟩ := TagDefinition.blames_valueSpan? last
  constructor
  · rw [refineNode, known]
  · refine ⟨blamed, ?_, blames⟩
    rw [TagDefinition.filter_problems, TagDefinition.rejected, List.getElem?_map, complains,
      Option.map_some, found]
    rfl

theorem complaint_blames_width :
    let written (value : AttrValue) (start stop : Nat) : Attribute :=
      ⟨⟨"width", ⟨start, start + 5⟩⟩, ⟨value, ⟨start + 6, stop⟩⟩⟩
    let minusOne : AttrValue := .number ⟨0xbff0000000000000⟩
    let attributes := [written (.string "x") 5 14, written minusOne 15 23]
    let complaint : Complaint := ⟨"width", "must not be negative"⟩
    builtin.get? "box" = some Builtin.box ∧
      (Builtin.box.complaints (Builtin.box.resolve attributes))[0]? = some complaint ∧
      (Builtin.box.resolve attributes).get? "width" = some minusOne ∧
      ∃ blamed, ((Builtin.box.problems ⟨"box", ⟨1, 4⟩⟩ attributes).filter
          (·.code == .invalidAttributeValue))[0]? = some (complaint.diagnosticAt blamed) ∧
        Builtin.box.Blames attributes "width" minusOne blamed := by
  intro written minusOne attributes complaint
  have known : builtin.get? "box" = some Builtin.box := rfl
  have complains : (Builtin.box.complaints (Builtin.box.resolve attributes))[0]? =
      some complaint := by decide +kernel
  have present : (Builtin.box.resolve attributes).get? complaint.key = some minusOne := by
    decide +kernel
  have blames := complaint_blames builtin .root ⟨"box", ⟨1, 4⟩⟩ attributes [] ⟨0, 30⟩ known
    complains present
  exact ⟨known, complains, present, blames.2⟩

/-- A value of another type behind the one that the validator saw takes the blame for it. -/
theorem exists_complaint_elsewhere :
    let nine : AttrValue := .number ⟨0x4022000000000000⟩
    let won : Attribute := ⟨⟨"level", ⟨9, 14⟩⟩, ⟨nine, ⟨15, 16⟩⟩⟩
    let last : Attribute := ⟨⟨"level", ⟨17, 22⟩⟩, ⟨.string "a", ⟨23, 26⟩⟩⟩
    let complaint : Complaint := ⟨"level", "must be a whole number from 1 to 6"⟩
    builtin.get? "heading" = some Builtin.heading ∧
      Builtin.heading.Typed won ∧ ¬ Builtin.heading.Typed last ∧
      (Builtin.heading.resolve [won, last]).get? "level" = some nine ∧
      (builtin.refineNode .root (.tag ⟨"heading", ⟨1, 8⟩⟩ [won, last] [] ⟨0, 37⟩)).problems.filter
        (·.code == .invalidAttributeValue) = [complaint.diagnosticAt last.value.span] ∧
      last.value.span ≠ won.value.span := by
  intro nine won last complaint
  have complains : Builtin.heading.complaints (Builtin.heading.resolve [won, last]) =
      [complaint] := by decide +kernel
  have typed : Builtin.heading.Typed won := (TagDefinition.accepts_iff _ _).mp (by decide)
  have mistyped : ¬ Builtin.heading.Typed last := by
    rw [← TagDefinition.accepts_iff]
    decide
  have own : (builtin.refineNode .root
      (.tag ⟨"heading", ⟨1, 8⟩⟩ [won, last] [] ⟨0, 37⟩)).problems =
        Builtin.heading.problems ⟨"heading", ⟨1, 8⟩⟩ [won, last] := List.append_nil _
  refine ⟨rfl, typed, mistyped, by decide +kernel, ?_, by decide⟩
  rw [own, TagDefinition.filter_problems, TagDefinition.rejected, complains]
  rfl

end Schema

end PageMarkup
