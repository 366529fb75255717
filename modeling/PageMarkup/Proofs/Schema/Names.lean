import PageMarkup.Proofs.KeyMap
import PageMarkup.Proofs.Layout.Document
import PageMarkup.Schema.Basic

namespace PageMarkup

namespace Written

theorem Name.exists_of_isName {name : String} (named : PageMarkup.isName name = true) :
    ∃ written : Name, written.chars = name.toList := by
  rw [PageMarkup.isName, Bool.and_eq_true, List.all_eq_true] at named
  have nonempty : name.toList ≠ [] := by simpa using named.1
  exact ⟨⟨name.toList, nonempty, named.2⟩, rfl⟩

theorem blank_nil : ∀ c ∈ [], isBlank c = true := nofun

def Blanks.tight : Blanks := ⟨[], blank_nil⟩

def Document.ofHead (head : Head) : Document where
  items := [.tag .tight head .tight [] ⟨.tight, .tight, .tight⟩]
  canonical := List.forall_mem_singleton.mpr
    (.tag _ _ _ (List.forall_mem_nil _) (List.forall_mem_nil _) True.intro)
  flush := List.forall_mem_singleton.mpr rfl
  spaced := ⟨fun text => Bool.noConfusion text, True.intro⟩

theorem Document.text_ofHead (head : Head) :
    (ofHead head).text = head.text ++ ">".toList ++ "</".toList ++ head.name.chars ++ ">".toList := by
  simp [text, ofHead, texts, Item.core, Item.gap, Closing.text, Blanks.tight]

end Written

open Layout Written

/-- Whether a tag of that name, as the only one of its document, is read as such. -/
def ReadsAsTagName (maxDepth : Nat) (name : String) : Prop :=
  ∃ located attributes children span,
    parseDocument maxDepth (.ofString ("<" ++ name ++ "></" ++ name ++ ">")) =
      .ok [.tag located attributes children span] ∧ located.value = name

def ReadsAsKey (maxDepth : Nat) (key : String) : Prop :=
  ∃ located attr children span,
    parseDocument maxDepth (.ofString ("<a " ++ key ++ "></a>")) =
      .ok [.tag located [attr] children span] ∧ attr.key.value = key

section Reading

variable {maxDepth : Nat} {name key : String}

theorem tagLies_of_read {source : Source} {located : Located String} {attributes : List Attribute}
    {children : List Node} {span : Span}
    (read : parseDocument maxDepth source = .ok [.tag located attributes children span]) :
    TagLies source located attributes children span := by
  obtain ⟨_, _, faithful⟩ := parseDocument_faithful read
  cases faithful _ List.mem_cons_self with
  | tag lies => exact lies

theorem readsAsTagName_iff (limited : 1 ≤ maxDepth) :
    ReadsAsTagName maxDepth name ↔ isName name = true := by
  constructor
  · intro ⟨located, attributes, children, span, read, same⟩
    rw [← same]
    exact (tagLies_of_read read).named
  · intro named
    obtain ⟨written, chars⟩ := Name.exists_of_isName named
    let head : Head := ⟨.tight, written, []⟩
    have text : (Document.ofHead head).text = ("<" ++ name ++ "></" ++ name ++ ">").toList := by
      rw [Document.text_ofHead]
      simp [head, Head.text, Head.lead, Blanks.tight, chars]
    have read := parseDocument_text maxDepth (.ofHead head) limited
    rw [text] at read
    refine ⟨_, _, _, _, read, ?_⟩
    show String.ofList written.chars = name
    rw [chars, String.ofList_toList]

theorem readsAsKey_iff (limited : 1 ≤ maxDepth) :
    ReadsAsKey maxDepth key ↔ isName key = true := by
  constructor
  · intro ⟨located, attr, children, span, read, same⟩
    rw [← same]
    exact ((tagLies_of_read read).attributes_lie attr List.mem_cons_self).named
  · intro named
    obtain ⟨written, chars⟩ := Name.exists_of_isName named
    let blank : Blanks := ⟨[' '], List.all_eq_true.mp rfl⟩
    let head : Head :=
      ⟨.tight, ⟨['a'], by decide, List.all_eq_true.mp rfl⟩, [⟨blank, by decide, written, none⟩]⟩
    have text : (Document.ofHead head).text = ("<a " ++ key ++ "></a>").toList := by
      rw [Document.text_ofHead]
      simp [head, blank, Head.text, Head.lead, Blanks.tight, Attr.text, Attr.core, chars]
    have read := parseDocument_text maxDepth (.ofHead head) limited
    rw [text] at read
    refine ⟨_, _, _, _, read, ?_⟩
    show String.ofList written.chars = key
    rw [chars, String.ofList_toList]

end Reading

inductive Node.Holds : Node → Node → Prop
  | self (node : Node) : Holds node node
  | child {name : Located String} {attributes : List Attribute} {children : List Node} {span : Span}
      {child inner : Node} (member : child ∈ children) (deeper : child.Holds inner) :
      Holds (.tag name attributes children span) inner

theorem Layout.Faithful.of_holds {source : Source} {node inner : Node}
    (faithful : Faithful source node) (holds : node.Holds inner) : Faithful source inner := by
  induction holds with
  | self => exact faithful
  | child member deeper ih =>
    cases faithful with
    | tag lies each => exact ih (each _ member)

structure TagDefinition.Admissible (definition : TagDefinition) (name : String) : Prop where
  named : isName name = true
  keys : ∀ key ∈ definition.attrs.keys, isName key = true

namespace Schema

def Accepts (schema : Schema) (name : String) (definition : TagDefinition) : Prop :=
  ∃ registered, schema.register name definition = .ok registered

variable {schema : Schema} {name : String} {definition : TagDefinition}

theorem register_of_admissible (admissible : definition.Admissible name) :
    schema.register name definition =
      .ok (schema.get? name, ⟨schema.tags.insert name definition⟩) := by
  have noneInvalid : definition.attrs.keys.find? (!isName ·) = none := by
    apply List.find?_eq_none.mpr
    intro key member
    simp [admissible.keys key member]
  simp [register, admissible.named, noneInvalid]

theorem admissible_of_register {registered : Option TagDefinition × Schema}
    (accepted : schema.register name definition = .ok registered) : definition.Admissible name := by
  rw [register] at accepted
  split at accepted
  · cases accepted
  · rename_i named
    split at accepted
    · cases accepted
    · rename_i noneInvalid
      rw [List.find?_eq_none] at noneInvalid
      exact ⟨by simpa using named, fun key member => by simpa using noneInvalid key member⟩

theorem accepts_iff : schema.Accepts name definition ↔ definition.Admissible name :=
  ⟨fun ⟨_, accepted⟩ => admissible_of_register accepted,
    fun admissible => ⟨_, register_of_admissible admissible⟩⟩

/-- Exactly the names are registered that the parser can read, as names of tags and as keys of
    attributes. Nothing that it reads, in whatever document, is refused. -/
theorem accepts_what_is_read (schema : Schema) {maxDepth : Nat} (limited : 1 ≤ maxDepth) :
    (∀ (name : String) (definition : TagDefinition), definition.attrs.keys = [] →
      (schema.Accepts name definition ↔ ReadsAsTagName maxDepth name)) ∧
    (∀ (name : String) (definition : TagDefinition), isName name = true →
      (schema.Accepts name definition ↔
        ∀ key ∈ definition.attrs.keys, ReadsAsKey maxDepth key)) ∧
    (∀ (depth : Nat) (source : Source) (nodes : List Node),
      parseDocument depth source = .ok nodes →
      ∀ node ∈ nodes, ∀ name attributes children span,
        node.Holds (.tag name attributes children span) →
        ∀ definition : TagDefinition,
          (∀ key ∈ definition.attrs.keys, ∃ attr ∈ attributes, attr.key.value = key) →
          schema.Accepts name.value definition) := by
  refine ⟨?_, ?_, ?_⟩
  · intro name definition bare
    rw [accepts_iff, readsAsTagName_iff limited]
    have noKeys : ∀ key ∈ definition.attrs.keys, isName key = true := by
      rw [bare]
      exact nofun
    exact ⟨fun admissible => admissible.named, fun named => ⟨named, noKeys⟩⟩
  · intro name definition named
    rw [accepts_iff]
    constructor
    · intro admissible key member
      exact (readsAsKey_iff limited).mpr (admissible.keys key member)
    · intro reads
      exact ⟨named, fun key member => (readsAsKey_iff limited).mp (reads key member)⟩
  · intro depth source nodes read node member name attributes children span holds definition written
    obtain ⟨_, _, faithful⟩ := parseDocument_faithful read
    cases (faithful node member).of_holds holds with
    | tag lies =>
      apply accepts_iff.mpr
      refine ⟨lies.named, fun key declared => ?_⟩
      obtain ⟨attr, listed, rfl⟩ := written key declared
      exact (lies.attributes_lie attr listed).named

theorem accepts_what_is_read_inside :
    let bare := TagDefinition.ofRender fun _ children => children
    let definition := bare.withAttr "w" .number
    let inner : Node :=
      .tag ⟨"box", ⟨8, 11⟩⟩ [⟨⟨"w", ⟨12, 13⟩⟩, ⟨.boolean true, ⟨12, 13⟩⟩⟩] [] ⟨6, 20⟩
    parseDocument 2 (.ofString "<main>< box w></box></main>") =
        .ok [.tag ⟨"main", ⟨1, 5⟩⟩ [] [inner] ⟨0, 27⟩] ∧
      Schema.empty.Accepts "box" definition ∧ ReadsAsTagName 1 "box" ∧ ReadsAsKey 1 "w" ∧
      ¬ Schema.empty.Accepts "bö x" bare ∧ ¬ ReadsAsTagName 1 "bö x" := by
  intro bare definition inner
  obtain ⟨tagNames, keys, noneRefused⟩ := accepts_what_is_read Schema.empty (Nat.le_refl 1)
  have read : parseDocument 2 (.ofString "<main>< box w></box></main>") =
      .ok [.tag ⟨"main", ⟨1, 5⟩⟩ [] [inner] ⟨0, 27⟩] := by decide +kernel
  have inside : (Node.tag ⟨"main", ⟨1, 5⟩⟩ [] [inner] ⟨0, 27⟩).Holds inner :=
    .child List.mem_cons_self (.self inner)
  have accepted (declared : TagDefinition) (keys : ∀ key ∈ declared.attrs.keys, key = "w") :
      Schema.empty.Accepts "box" declared := by
    apply noneRefused 2 _ _ read _ List.mem_cons_self _ _ _ _ inside
    intro key member
    exact ⟨_, List.mem_cons_self, (keys key member).symm⟩
  have withWidth : Schema.empty.Accepts "box" definition :=
    accepted definition fun key member => List.mem_singleton.mp member
  have refused : ¬ Schema.empty.Accepts "bö x" bare := by
    rw [accepts_iff]
    exact fun admissible => absurd admissible.named (by decide)
  refine ⟨read, withWidth, ?_, ?_, refused, ?_⟩
  · have noKeys : ∀ key ∈ bare.attrs.keys, key = "w" := List.forall_mem_nil _
    exact (tagNames "box" bare rfl).mp (accepted bare noKeys)
  · exact (keys "box" definition (by decide)).mp withWidth "w" List.mem_cons_self
  · exact fun reads => refused ((tagNames "bö x" bare rfl).mpr reads)

end Schema

end PageMarkup
