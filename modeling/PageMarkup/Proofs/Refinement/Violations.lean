import PageMarkup.Proofs.Refinement.Basic
import PageMarkup.Proofs.Refinement.Reports

namespace PageMarkup

/-- What can be wrong with a node. Attributes and complaints are counted from zero. -/
inductive Finding where
  | text
  | unknownTag
  | attr (position : Nat)
  | missing (key : String)
  | complaint (position : Nat)

def Finding.Before : Finding → Finding → Prop
  | .attr position, .attr next => position < next
  | .attr _, .missing _ | .attr _, .complaint _ | .missing _, .complaint _ => True
  | .missing key, .missing next => key < next
  | .complaint position, .complaint next => position < next
  | _, _ => False

inductive TagDefinition.Violates (definition : TagDefinition) (name : Located String)
    (attributes : List Attribute) : Finding → Diagnostic → Prop
  | unexpected {position : Nat} {attr : Attribute} (listed : attributes[position]? = some attr)
      (undeclared : definition.attrs.get? attr.key.value = none) :
      Violates definition name attributes (.attr position)
        (((Diagnostic.ofCode .unexpectedAttribute attr.key.span).withParam "key"
          attr.key.value).withParam "tag" name.value)
  | mistyped {position : Nat} {attr : Attribute} {declared : AttrDefinition}
      (listed : attributes[position]? = some attr)
      (declares : definition.attrs.get? attr.key.value = some declared)
      (other : attr.value.value.type ≠ declared.type) :
      Violates definition name attributes (.attr position)
        ((((Diagnostic.ofCode .attributeTypeMismatch attr.value.span).withParam "key"
          attr.key.value).withParam "expected" declared.type.name).withParam "actual"
          attr.value.value.type.name)
  | missing {key : String} {declared : AttrDefinition}
      (declares : definition.attrs.get? key = some declared) (required : declared.required = true)
      (absent : ∀ attr ∈ attributes, attr.key.value ≠ key) :
      Violates definition name attributes (.missing key)
        (((Diagnostic.ofCode .missingRequiredAttribute name.span).withParam "key" key).withParam
          "tag" name.value)
  | complaint {position : Nat} {validate : ResolvedAttrs → List Complaint} {complaint : Complaint}
      (validator : definition.validate = some validate)
      (complains : (validate (definition.resolve attributes))[position]? = some complaint) :
      Violates definition name attributes (.complaint position)
        (((Diagnostic.ofCode .invalidAttributeValue
          ((valueSpan? attributes complaint.key).getD name.span)).withParam "key"
          complaint.key).withParam "reason" complaint.reason)

namespace Schema

inductive Violates (schema : Schema) : Parent → Node → Finding → Diagnostic → Prop
  | textAtRoot {content : String} {span : Span} (shown : isBlankText content = false) :
      Violates schema .root (.text content span) .text
        ((Diagnostic.ofCode .textNotAllowed span).withParam "parent" "the document root")
  | textInTag {content tag : String} {span : Span} {definition : TagDefinition}
      (shown : isBlankText content = false) (refused : definition.allowsText = false) :
      Violates schema (.known tag definition) (.text content span) .text
        ((Diagnostic.ofCode .textNotAllowed span).withParam "parent" ("<" ++ tag ++ ">"))
  | unknownTag {parent : Parent} {name : Located String} {attributes : List Attribute}
      {children : List Node} {span : Span} (unknown : schema.get? name.value = none) :
      Violates schema parent (.tag name attributes children span) .unknownTag
        ((Diagnostic.ofCode .unknownTag name.span).withParam "tag" name.value)
  | knownTag {parent : Parent} {name : Located String} {attributes : List Attribute}
      {children : List Node} {span : Span} {definition : TagDefinition} {finding : Finding}
      {d : Diagnostic} (known : schema.get? name.value = some definition)
      (violates : definition.Violates name attributes finding d) :
      Violates schema parent (.tag name attributes children span) finding d

/-- The nodes of a tree by the positions among siblings on the way to them, and what they stand
    in. -/
inductive Within (schema : Schema) : Parent → Node → (path : List Nat) → Parent → Node → Prop
  | self (parent : Parent) (node : Node) : Within schema parent node [] parent node
  | child {parent inner : Parent} {name : Located String} {attributes : List Attribute}
      {children : List Node} {span : Span} {position : Nat} {path : List Nat} {child node : Node}
      (listed : children[position]? = some child)
      (deeper : Within schema (schema.inside name.value) child path inner node) :
      Within schema parent (.tag name attributes children span) (position :: path) inner node

end Schema

structure Site where
  path : List Nat
  finding : Finding

/-- Nodes in pre-order, and at one node attributes before missing ones before complaints. -/
def Site.Before (site next : Site) : Prop :=
  site.path < next.path ∨ site.path = next.path ∧ site.finding.Before next.finding

namespace Schema

def FoundIn (schema : Schema) (parent : Parent) (node : Node) (site : Site) (d : Diagnostic) :
    Prop :=
  ∃ inner child, schema.Within parent node site.path inner child ∧
    schema.Violates inner child site.finding d

def Found (schema : Schema) (parent : Parent) (nodes : List Node) (site : Site) (d : Diagnostic) :
    Prop :=
  ∃ position path node, site.path = position :: path ∧ nodes[position]? = some node ∧
    schema.FoundIn parent node ⟨path, site.finding⟩ d

end Schema

namespace TagDefinition

variable (definition : TagDefinition) (name : Located String) (attributes : List Attribute)

theorem reports_attributes : Reports (fun position next : Nat => position < next)
    (fun position d => definition.Violates name attributes (.attr position) d)
    (attributes.filterMap (definition.attributeProblem? name.value)) := by
  refine (Reports.filterMap _ attributes).congr fun position d => ?_
  simp only [attributeProblem?_eq_some]
  constructor
  · intro violates
    cases violates with
    | unexpected listed undeclared => exact ⟨_, listed, .inl ⟨undeclared, rfl⟩⟩
    | mistyped listed declares other => exact ⟨_, listed, .inr ⟨_, declares, other, rfl⟩⟩
  · rintro ⟨attr, listed, ⟨undeclared, rfl⟩ | ⟨declared, declares, other, rfl⟩⟩
    · exact .unexpected listed undeclared
    · exact .mistyped listed declares other

theorem reports_missing : Reports (fun key next : String => key < next)
    (fun key d => definition.Violates name attributes (.missing key) d)
    (definition.missing name attributes) := by
  let report (key : String) : Diagnostic :=
    ((Diagnostic.ofCode .missingRequiredAttribute name.span).withParam "key" key).withParam "tag"
      name.value
  let lacks (entry : String × AttrDefinition) : Bool :=
    entry.2.required && !attributes.any (·.key.value == entry.1)
  refine ⟨(definition.attrs.entries.filter lacks).map fun entry => (entry.1, report entry.1),
    ?_, ?_, fun key d => ?_⟩
  · rw [List.map_map]
    rfl
  · exact List.pairwise_map.mpr (definition.attrs.sorted.filter _)
  · constructor
    · intro member
      obtain ⟨⟨key, declared⟩, kept, same⟩ := List.mem_map.mp member
      cases same
      obtain ⟨listed, lacking⟩ := List.mem_filter.mp kept
      have lacking : declared.required = true ∧ ∀ attr ∈ attributes, attr.key.value ≠ key := by
        simpa [lacks] using lacking
      exact .missing ((KeyMap.get?_eq_some_iff _).mpr listed) lacking.1 lacking.2
    · intro violates
      cases violates with
      | @missing key declared declares required absent =>
        have lacking : lacks (key, declared) = true := by simpa [lacks, required] using absent
        have listed := (KeyMap.get?_eq_some_iff _).mp declares
        exact List.mem_map.mpr ⟨_, List.mem_filter.mpr ⟨listed, lacking⟩, rfl⟩

theorem reports_rejected : Reports (fun position next : Nat => position < next)
    (fun position d => definition.Violates name attributes (.complaint position) d)
    (definition.rejected name attributes) := by
  rw [rejected, ← List.filterMap_eq_map]
  refine (Reports.filterMap _ _).congr fun position d => ?_
  constructor
  · intro violates
    cases violates with
    | complaint validator complains =>
      refine ⟨_, ?_, rfl⟩
      rw [complaints, validator]
      exact complains
  · rintro ⟨complaint, complains, same⟩
    cases same
    cases validator : definition.validate with
    | none =>
      rw [complaints, validator] at complains
      cases complains
    | some validate =>
      rw [complaints, validator] at complains
      exact .complaint validator complains

theorem reports_problems : Reports Finding.Before (definition.Violates name attributes)
    (definition.problems name attributes) := by
  have attrs : Reports Finding.Before _ _ :=
    (definition.reports_attributes name attributes).map Finding.attr id
  have missing : Reports Finding.Before _ _ :=
    (definition.reports_missing name attributes).map Finding.missing id
  have rejected : Reports Finding.Before _ _ :=
    (definition.reports_rejected name attributes).map Finding.complaint id
  refine ((attrs.append missing ?_).append rejected ?_).congr fun finding d => ?_
  · rintro _ _ _ _ ⟨position, rfl, _⟩ ⟨key, rfl, _⟩
    exact True.intro
  · rintro _ _ _ _ (⟨position, rfl, _⟩ | ⟨key, rfl, _⟩) ⟨complaint, rfl, _⟩
    · exact True.intro
    · exact True.intro
  · constructor
    · intro violates
      cases finding with
      | text => cases violates
      | unknownTag => cases violates
      | attr position => exact .inl (.inl ⟨position, rfl, violates⟩)
      | missing key => exact .inl (.inr ⟨key, rfl, violates⟩)
      | complaint position => exact .inr ⟨position, rfl, violates⟩
    · rintro ((⟨_, rfl, violates⟩ | ⟨_, rfl, violates⟩) | ⟨_, rfl, violates⟩) <;> exact violates

end TagDefinition

namespace Schema

variable (schema : Schema) (parent : Parent)

theorem reports_tagProblems (name : Located String) (attributes : List Attribute)
    (children : List Node) (span : Span) :
    Reports Finding.Before (schema.Violates parent (.tag name attributes children span))
      (schema.tagProblems name attributes) := by
  unfold tagProblems
  cases known : schema.get? name.value with
  | some definition =>
    refine (definition.reports_problems name attributes).congr fun finding d =>
      ⟨fun violates => ?_, .knownTag known⟩
    cases violates with
    | unknownTag unknown => rw [known] at unknown; cases unknown
    | knownTag known' violates =>
      rw [known] at known'
      cases known'
      exact violates
  | none =>
    refine .singleton .unknownTag fun finding d => ?_
    constructor
    · intro violates
      cases violates with
      | unknownTag => exact ⟨rfl, rfl⟩
      | knownTag known' => rw [known] at known'; cases known'
    · rintro ⟨rfl, rfl⟩
      exact .unknownTag known

theorem reports_text (content : String) (span : Span) :
    Reports Finding.Before (schema.Violates parent (.text content span))
      (schema.refineNode parent (.text content span)).problems := by
  rw [refineNode]
  cases shown : isBlankText content with
  | true =>
    refine .nil fun finding d violates => ?_
    cases violates with
    | textAtRoot visible => rw [shown] at visible; cases visible
    | textInTag visible => rw [shown] at visible; cases visible
  | false =>
    have none : parent.allowsText = true → ∀ finding d,
        ¬ schema.Violates parent (.text content span) finding d := by
      intro allows finding d violates
      cases violates with
      | textAtRoot => cases allows
      | textInTag _ refused =>
        rw [Parent.allowsText, refused] at allows
        cases allows
    cases parent with
    | root =>
      refine .singleton .text fun finding d => ⟨?_, ?_⟩
      · intro violates
        cases violates
        exact ⟨rfl, rfl⟩
      · rintro ⟨rfl, rfl⟩
        exact .textAtRoot shown
    | known tag definition =>
      cases allows : definition.allowsText with
      | true =>
        simp only [Parent.rejectsText?, allows]
        exact .nil (none allows)
      | false =>
        simp only [Parent.rejectsText?, allows]
        refine .singleton .text fun finding d => ⟨?_, ?_⟩
        · intro violates
          cases violates
          exact ⟨rfl, rfl⟩
        · rintro ⟨rfl, rfl⟩
          exact .textInTag shown allows
    | unknown => exact .nil (none rfl)

def siteIn (site : Nat × Site) : Site := ⟨site.1 :: site.2.path, site.2.finding⟩

theorem siteIn_before {site next : Nat × Site}
    (before : Prod.Lex (fun i j : Nat => i < j) Site.Before site next) :
    (siteIn site).Before (siteIn next) := by
  cases before with
  | left site next before => exact .inl (List.Lex.rel before)
  | right position before =>
    rcases before with before | ⟨same, before⟩
    · exact .inl (List.Lex.cons before)
    · exact .inr ⟨congrArg (position :: ·) same, before⟩

theorem reports_refineNodes {nodes : List Node}
    (each : ∀ node ∈ nodes, Reports Site.Before (schema.FoundIn parent node)
      (schema.refineNode parent node).problems) :
    Reports Site.Before (schema.Found parent nodes) (schema.refineNodes parent nodes).problems := by
  rw [refineNodes_problems]
  refine ((Reports.flatMap each).map siteIn siteIn_before).congr fun site d => ⟨?_, ?_⟩
  · rintro ⟨position, path, node, same, listed, found⟩
    obtain ⟨_, finding⟩ := site
    cases same
    exact ⟨(position, ⟨path, finding⟩), rfl, node, listed, found⟩
  · rintro ⟨⟨position, path, finding⟩, rfl, node, listed, found⟩
    exact ⟨position, path, node, rfl, listed, found⟩

theorem reports_refineNode (node : Node) :
    Reports Site.Before (schema.FoundIn parent node) (schema.refineNode parent node).problems := by
  induction node generalizing parent with
  | text content span =>
    have own : Reports Site.Before _ _ :=
      (schema.reports_text parent content span).map (Site.mk []) fun before => .inr ⟨rfl, before⟩
    refine own.congr fun site d => ⟨?_, ?_⟩
    · rintro ⟨inner, child, within, violates⟩
      obtain ⟨path, finding⟩ := site
      cases within
      exact ⟨finding, rfl, violates⟩
    · rintro ⟨finding, rfl, violates⟩
      exact ⟨parent, _, .self _ _, violates⟩
  | tag name attributes children span ih =>
    have own : Reports Site.Before _ _ :=
      (schema.reports_tagProblems parent name attributes children span).map (Site.mk [])
        fun before => .inr ⟨rfl, before⟩
    have inner := schema.reports_refineNodes (schema.inside name.value) fun child member =>
      ih child member _
    rw [refineNode_tag]
    refine (own.append inner ?_).congr fun site d => ⟨?_, ?_⟩
    · rintro ⟨_, finding⟩ ⟨_, next⟩ _ _ ⟨_, same, _⟩ ⟨position, path, node, rfl, _, _⟩
      cases same
      exact .inl List.Lex.nil
    · rintro ⟨parent', child, within, violates⟩
      obtain ⟨path, finding⟩ := site
      cases within with
      | self => exact .inl ⟨finding, rfl, violates⟩
      | @child _ _ _ _ _ _ position path child node listed deeper =>
        exact .inr ⟨position, path, child, rfl, listed, _, _, deeper, violates⟩
    · rintro (⟨finding, rfl, violates⟩ | ⟨position, path, child, same, listed, found⟩)
      · exact ⟨parent, _, .self _ _, violates⟩
      · obtain ⟨parent', node, deeper, violates⟩ := found
        refine ⟨parent', node, ?_, violates⟩
        rw [same]
        exact .child listed deeper

theorem reports_refine (nodes : List Node) :
    Reports Site.Before (schema.Found .root nodes) (schema.refine nodes).problems :=
  schema.reports_refineNodes .root fun node _ => schema.reports_refineNode .root node

end Schema

theorem Finding.not_before_self (finding : Finding) : ¬ finding.Before finding := by
  cases finding with
  | attr position => exact Nat.lt_irrefl position
  | missing key => exact String.lt_irrefl key
  | complaint position => exact Nat.lt_irrefl position
  | _ => exact id

theorem Site.not_before_self (site : Site) : ¬ site.Before site := by
  rintro (before | ⟨_, before⟩)
  · exact List.lt_irrefl site.path before
  · exact site.finding.not_before_self before

/-- A node that has nothing wrong in it where it stands: texts where they are allowed, known tags
    with declared attributes of their types and all required ones, and no complaints. -/
inductive Schema.Conforms (schema : Schema) : Parent → Node → Prop
  | blank {parent : Parent} {content : String} {span : Span} (blank : isBlankText content = true) :
      Conforms schema parent (.text content span)
  | text {parent : Parent} {content : String} {span : Span} (allowed : parent.allowsText = true) :
      Conforms schema parent (.text content span)
  | tag {parent : Parent} {name : Located String} {attributes : List Attribute}
      {children : List Node} {span : Span} {definition : TagDefinition}
      (known : schema.get? name.value = some definition)
      (typed : ∀ attr ∈ attributes, definition.Typed attr)
      (complete : ∀ key declared, definition.attrs.get? key = some declared →
        declared.required = true → ∃ attr ∈ attributes, attr.key.value = key)
      (valid : definition.complaints (definition.resolve attributes) = [])
      (inside : ∀ child ∈ children, Conforms schema (.known name.value definition) child) :
      Conforms schema parent (.tag name attributes children span)

theorem Schema.Within.conforms {schema : Schema} {parent inner : Parent} {node child : Node}
    {path : List Nat} (within : schema.Within parent node path inner child)
    (conforms : schema.Conforms parent node) : schema.Conforms inner child := by
  induction within with
  | self => exact conforms
  | @child _ _ name _ _ _ _ _ _ _ listed _ ih =>
    cases conforms with
    | tag known typed complete valid inside =>
      have inside := inside _ (List.mem_of_getElem? listed)
      refine ih ?_
      rw [Schema.inside, known]
      exact inside

namespace TagDefinition

variable (definition : TagDefinition) (name : Located String) (attributes : List Attribute)

theorem missing_eq_nil : definition.missing name attributes = [] ↔
    ∀ key declared, definition.attrs.get? key = some declared → declared.required = true →
      ∃ attr ∈ attributes, attr.key.value = key := by
  simp only [missing, List.map_eq_nil_iff, List.filter_eq_nil_iff, KeyMap.get?_eq_some_iff,
    Prod.forall]
  simp

theorem problems_eq_nil : definition.problems name attributes = [] ↔
    (∀ attr ∈ attributes, definition.Typed attr) ∧
    (∀ key declared, definition.attrs.get? key = some declared → declared.required = true →
      ∃ attr ∈ attributes, attr.key.value = key) ∧
    definition.complaints (definition.resolve attributes) = [] := by
  rw [problems, List.append_eq_nil_iff, List.append_eq_nil_iff, List.filterMap_eq_nil_iff,
    missing_eq_nil, rejected, List.map_eq_nil_iff, and_assoc]
  simp only [attributeProblem?_eq_none]

end TagDefinition

namespace Schema

variable (schema : Schema) (parent : Parent)

theorem problems_eq_nil_iff (node : Node) :
    (schema.refineNode parent node).problems = [] ↔ schema.Conforms parent node := by
  induction node generalizing parent with
  | text content span =>
    rw [refineNode]
    cases shown : isBlankText content with
    | true => exact iff_of_true rfl (.blank shown)
    | false =>
      cases rejects : parent.rejectsText? with
      | none => exact iff_of_true rfl (.text (parent.rejectsText?_eq_none.mp rejects))
      | some name =>
        refine iff_of_false nofun fun conforms => ?_
        cases conforms with
        | blank blank => rw [shown] at blank; cases blank
        | text allowed => rw [parent.rejectsText?_eq_none.mpr allowed] at rejects; cases rejects
  | tag name attributes children span ih =>
    rw [refineNode_tag, List.append_eq_nil_iff, refineNodes_problems, List.flatMap_eq_nil_iff]
    have inside : (∀ child ∈ children,
        (schema.refineNode (schema.inside name.value) child).problems = []) ↔
          ∀ child ∈ children, schema.Conforms (schema.inside name.value) child :=
      forall₂_congr fun child member => ih child member _
    rw [inside]
    unfold tagProblems Schema.inside
    cases known : schema.get? name.value with
    | none =>
      refine iff_of_false (fun none => nomatch none.1) fun conforms => ?_
      cases conforms with
      | tag known' => rw [known] at known'; cases known'
    | some definition =>
      simp only [TagDefinition.problems_eq_nil]
      constructor
      · rintro ⟨⟨typed, complete, valid⟩, inside⟩
        exact .tag known typed complete valid inside
      · intro conforms
        cases conforms with
        | tag known' typed complete valid inside =>
          rw [known] at known'
          cases known'
          exact ⟨⟨typed, complete, valid⟩, inside⟩

/-- Refinement reports each violation of the schema once, in the order of the document, and nothing
    else. It is silent on the documents that conform. -/
theorem refine_problems (nodes : List Node) :
    (∃ found : List (Site × Diagnostic), found.map Prod.snd = (schema.refine nodes).problems ∧
      (found.map Prod.fst).Nodup ∧ found.Pairwise (fun first next => first.1.Before next.1) ∧
      ∀ site d, (site, d) ∈ found ↔ schema.Found .root nodes site d) ∧
    ((schema.refine nodes).problems = [] ↔ ∀ node ∈ nodes, schema.Conforms .root node) := by
  constructor
  · obtain ⟨found, same, ordered, exact⟩ := schema.reports_refine nodes
    refine ⟨found, same, ?_, ordered, exact⟩
    refine List.pairwise_map.mpr (ordered.imp fun {first next} before same => ?_)
    rw [same] at before
    exact next.1.not_before_self before
  · rw [refine, refineNodes_problems, List.flatMap_eq_nil_iff]
    exact forall₂_congr fun node _ => schema.problems_eq_nil_iff .root node

end Schema

end PageMarkup
