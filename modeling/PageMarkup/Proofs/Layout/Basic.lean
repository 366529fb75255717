import Mathlib.Data.List.Chain
import PageMarkup.Document.Node
import PageMarkup.Proofs.Number.Lexeme
import PageMarkup.Proofs.Text.Cuts

namespace PageMarkup

/-- An ordered span within the source, with both ends between characters. -/
structure Span.Valid (source : Source) (span : Span) : Prop where
  ordered : span.start ≤ span.stop
  bounded : span.stop ≤ source.size
  start_boundary : source.isBoundary span.start = true
  stop_boundary : source.isBoundary span.stop = true

def Source.Between (source : Source) (kind : List Char → Prop) (start stop : Nat) : Prop :=
  ∃ text, source.slice? ⟨start, stop⟩ = some text ∧ kind text

def Attribute.span (attr : Attribute) : Span :=
  ⟨attr.key.span.start, attr.value.span.stop⟩

namespace Node

def isText : Node → Bool
  | .text _ _ => true
  | .tag _ _ _ _ => false

def Visible : Node → Prop
  | .text content _ => beginsWith isBlank content.toList = false
  | .tag _ _ _ _ => True

end Node

namespace Layout

def AllBlank (text : List Char) : Prop := ∀ c ∈ text, isBlank c = true

def Apart (text : List Char) : Prop := text ≠ [] ∧ AllBlank text

def OpensTag (text : List Char) : Prop := ∃ gap, AllBlank gap ∧ text = '<' :: gap

def Assigns (text : List Char) : Prop :=
  ∃ before after, AllBlank before ∧ AllBlank after ∧ text = before ++ '=' :: after

def EndsOpening (text : List Char) : Prop := ∃ gap, AllBlank gap ∧ text = gap ++ ['>']

def Closes (name : List Char) (text : List Char) : Prop :=
  ∃ before after, AllBlank before ∧ AllBlank after ∧
    text = '<' :: '/' :: (before ++ name ++ after ++ ['>'])

/-- Spans that follow one another from `start` to `stop`, with such a gap before each. -/
def Strung (Gap : Nat → Nat → Prop) : (start : Nat) → List Span → (stop : Nat) → Prop
  | start, [], stop => start = stop
  | start, span :: spans, stop =>
    Gap start span.start ∧ span.start < span.stop ∧ Strung Gap span.stop spans stop

/-- The source has at the span of a value what is stored: a string in its quotes or a numeral, with an
    equals sign before it. The value of an attribute that is only named has the span of the key. -/
def ValueLies (source : Source) (key : Span) (value : Located AttrValue) : Prop :=
  match value.value with
  | .string text =>
    '"' ∉ text.toList ∧ source.slice? value.span = some ('"' :: (text.toList ++ ['"'])) ∧
      source.Between Assigns key.stop value.span.start
  | .number number =>
    (∃ numeral : Numeral, numeral.Proper ∧ numeral.value = number ∧
      source.slice? value.span = some numeral.text) ∧
      source.Between Assigns key.stop value.span.start
  | .boolean truth => truth = true ∧ value.span = key

structure AttributeLies (source : Source) (attr : Attribute) : Prop where
  named : isName attr.key.value = true
  key_slice : source.slice? attr.key.span = some attr.key.value.toList
  value_lies : ValueLies source attr.key.span attr.value

structure TextLies (source : Source) (content : String) (span : Span) : Prop where
  slice : source.slice? span = some content.toList
  nonempty : content.toList ≠ []
  plain : '<' ∉ content.toList
  maximal : beginsWith (· != '<') (source.rest span.stop) = false

def Separate (nodes : List Node) : Prop :=
  nodes.IsChain fun node next => ¬ (node.isText = true ∧ next.isText = true)

def partsOf (name : Located String) (attributes : List Attribute) (children : List Node) : List Span :=
  name.span :: (attributes.map Attribute.span ++ children.map Node.span)

/-- All that the span of a tag covers, from the bracket to the end of the closing tag. The opening tag
    has its last attribute up to `last` and ends at `opened`, the last child ends at `ended`, and the
    closing tag begins at `closing`. -/
structure TagCovers (source : Source) (name : Located String) (attributes : List Attribute)
    (children : List Node) (span : Span) (last opened ended closing : Nat) : Prop where
  opens : source.Between OpensTag span.start name.span.start
  apart : Strung (source.Between Apart) name.span.stop (attributes.map Attribute.span) last
  ends : source.Between EndsOpening last opened
  spaced : Strung (source.Between AllBlank) opened (children.map Node.span) ended
  gap : source.Between AllBlank ended closing
  closes : source.Between (Closes name.value.toList) closing span.stop

structure TagLies (source : Source) (name : Located String) (attributes : List Attribute)
    (children : List Node) (span : Span) : Prop where
  valid : ∀ part ∈ span :: partsOf name attributes children, part.Valid source
  inside : ∀ part ∈ partsOf name attributes children, span.start ≤ part.start ∧ part.stop ≤ span.stop
  ordered : (partsOf name attributes children).Pairwise fun part next => part.stop ≤ next.start
  named : isName name.value = true
  name_slice : source.slice? name.span = some name.value.toList
  attributes_lie : ∀ attr ∈ attributes, AttributeLies source attr
  covers : ∃ last opened ended closing,
    TagCovers source name attributes children span last opened ended closing
  visible : ∀ child ∈ children, child.Visible
  separate : Separate children

/-- A node that lies in the source as it says, with all that is in it. -/
inductive Faithful (source : Source) : Node → Prop
  | text {content : String} {span : Span} (lies : TextLies source content span) :
      Faithful source (.text content span)
  | tag {name : Located String} {attributes : List Attribute} {children : List Node} {span : Span}
      (lies : TagLies source name attributes children span)
      (faithful : ∀ child ∈ children, Faithful source child) :
      Faithful source (.tag name attributes children span)

end Layout

section Slices

variable {source : Source} {kind : List Char → Prop} {start stop : Nat} {left right text : List Char}
  {span : Span}

theorem Span.valid_of_slice? (slice : source.slice? span = some text) : span.Valid source := by
  obtain ⟨ordered, bounded, first, last⟩ := Source.slice?_eq_some slice
  exact ⟨ordered, bounded, first, last⟩

theorem Span.Valid.exists_slice (valid : span.Valid source) :
    ∃ text, source.slice? span = some text := by
  obtain ⟨left, covered, right, split, rfl⟩ :=
    Source.exists_covered valid.ordered valid.start_boundary valid.stop_boundary
  exact ⟨covered, Source.slice?_around (Source.suffix?_of_text_eq split)⟩

theorem Span.valid_around (here : source.suffix? start = some (left ++ right)) :
    (Span.around start left).Valid source := Span.valid_of_slice? (Source.slice?_around here)

theorem Source.Between.valid (between : source.Between kind start stop) :
    Span.Valid source ⟨start, stop⟩ := by
  obtain ⟨text, slice, _⟩ := between
  exact Span.valid_of_slice? slice

theorem Source.Between.le (between : source.Between kind start stop) : start ≤ stop :=
  between.valid.ordered

theorem Source.between_of_suffix? (holds : kind left)
    (here : source.suffix? start = some (left ++ right)) :
    source.Between kind start (start + byteLength left) := ⟨left, slice?_around here, holds⟩

end Slices

namespace Layout

variable {Gap : Nat → Nat → Prop} {start middle stop : Nat} {span : Span} {spans others : List Span}

theorem Strung.le (narrow : ∀ {a b}, Gap a b → a ≤ b) (strung : Strung Gap start spans stop) :
    start ≤ stop := by
  induction spans generalizing start with
  | nil => exact Nat.le_of_eq strung
  | cons span spans ih =>
    obtain ⟨gap, advances, strung⟩ := strung
    have before := narrow gap
    have behind := ih strung
    omega

theorem Strung.within (narrow : ∀ {a b}, Gap a b → a ≤ b) (strung : Strung Gap start spans stop)
    (member : span ∈ spans) : start ≤ span.start ∧ span.start < span.stop ∧ span.stop ≤ stop := by
  induction spans generalizing start with
  | nil => cases member
  | cons first spans ih =>
    obtain ⟨gap, advances, strung⟩ := strung
    have before := narrow gap
    rcases List.mem_cons.mp member with rfl | member
    · exact ⟨before, advances, strung.le narrow⟩
    · obtain ⟨lower, ordered, upper⟩ := ih strung member
      exact ⟨by omega, ordered, upper⟩

theorem Strung.pairwise (narrow : ∀ {a b}, Gap a b → a ≤ b) (strung : Strung Gap start spans stop) :
    spans.Pairwise fun span next => span.stop ≤ next.start := by
  induction spans generalizing start with
  | nil => exact .nil
  | cons first spans ih =>
    obtain ⟨_, _, strung⟩ := strung
    refine .cons (fun next member => ?_) (ih strung)
    exact (strung.within narrow member).1

theorem AttributeLies.value_slice {source : Source} {attr : Attribute}
    (lies : AttributeLies source attr) : ∃ text, source.slice? attr.value.span = some text := by
  obtain ⟨_, keySlice, valueLies⟩ := lies
  unfold ValueLies at valueLies
  split at valueLies
  · exact ⟨_, valueLies.2.1⟩
  · obtain ⟨⟨numeral, _, _, slice⟩, _⟩ := valueLies
    exact ⟨_, slice⟩
  · rw [valueLies.2]
    exact ⟨_, keySlice⟩

theorem AttributeLies.valid {source : Source} {attr : Attribute}
    (lies : AttributeLies source attr) (ordered : attr.span.start ≤ attr.span.stop) :
    attr.span.Valid source := by
  obtain ⟨text, slice⟩ := lies.value_slice
  have key := Span.valid_of_slice? lies.key_slice
  have value := Span.valid_of_slice? slice
  exact ⟨ordered, value.bounded, key.start_boundary, value.stop_boundary⟩

theorem mem_partsOf {name : Located String} {attributes : List Attribute} {children : List Node} :
    span ∈ partsOf name attributes children ↔
      span = name.span ∨ span ∈ attributes.map Attribute.span ∨ span ∈ children.map Node.span := by
  simp only [partsOf, List.mem_cons, List.mem_append]

namespace TagCovers

variable {source : Source} {name : Located String} {attributes : List Attribute}
  {children : List Node} {last opened ended closing : Nat}

theorem inside_ordered
    (covers : TagCovers source name attributes children span last opened ended closing)
    (named : name.span.start ≤ name.span.stop) :
    (∀ part ∈ partsOf name attributes children,
      span.start ≤ part.start ∧ part.start ≤ part.stop ∧ part.stop ≤ span.stop) ∧
      (partsOf name attributes children).Pairwise fun part next => part.stop ≤ next.start := by
  obtain ⟨opens, apart, ends, spaced, gap, closes⟩ := covers
  have nameAfter := opens.le
  have attrsAfter := apart.le Source.Between.le
  have openedAfter := ends.le
  have childrenAfter := spaced.le Source.Between.le
  have closingAfter := gap.le
  have stopAfter := closes.le
  have ofAttrs : ∀ part ∈ attributes.map Attribute.span,
      name.span.stop ≤ part.start ∧ part.start < part.stop ∧ part.stop ≤ last :=
    fun part member => apart.within Source.Between.le member
  have ofChildren : ∀ part ∈ children.map Node.span,
      opened ≤ part.start ∧ part.start < part.stop ∧ part.stop ≤ ended :=
    fun part member => spaced.within Source.Between.le member
  constructor
  · intro part member
    rcases mem_partsOf.mp member with rfl | attr | child
    · omega
    · have within := ofAttrs part attr
      omega
    · have within := ofChildren part child
      omega
  · refine .cons ?_ (List.pairwise_append.mpr ⟨apart.pairwise Source.Between.le,
      spaced.pairwise Source.Between.le, ?_⟩)
    · intro next member
      rcases List.mem_append.mp member with attr | child
      · exact (ofAttrs next attr).1
      · have within := ofChildren next child
        omega
    · intro part attr next child
      have before := ofAttrs part attr
      have behind := ofChildren next child
      omega

theorem tagLies
    (covers : TagCovers source name attributes children span last opened ended closing)
    (valid : span.Valid source) (named : isName name.value = true)
    (nameSlice : source.slice? name.span = some name.value.toList)
    (attributesLie : ∀ attr ∈ attributes, AttributeLies source attr)
    (childrenValid : ∀ child ∈ children, child.span.Valid source)
    (visible : ∀ child ∈ children, child.Visible) (separate : Separate children) :
    TagLies source name attributes children span := by
  have nameValid := Span.valid_of_slice? nameSlice
  obtain ⟨inside, ordered⟩ := covers.inside_ordered nameValid.ordered
  have partsValid : ∀ part ∈ partsOf name attributes children, part.Valid source := by
    intro part member
    have bounds := inside part member
    rcases mem_partsOf.mp member with rfl | ofAttr | ofChild
    · exact nameValid
    · obtain ⟨attr, listed, rfl⟩ := List.mem_map.mp ofAttr
      exact (attributesLie attr listed).valid bounds.2.1
    · obtain ⟨child, listed, rfl⟩ := List.mem_map.mp ofChild
      exact childrenValid child listed
  exact {
    valid := List.forall_mem_cons.mpr ⟨valid, partsValid⟩
    inside := fun part member => ⟨(inside part member).1, (inside part member).2.2⟩
    ordered := ordered
    named := named
    name_slice := nameSlice
    attributes_lie := attributesLie
    covers := ⟨last, opened, ended, closing, covers⟩
    visible := visible
    separate := separate }

end TagCovers

end Layout

end PageMarkup
