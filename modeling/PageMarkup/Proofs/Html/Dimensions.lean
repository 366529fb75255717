import Mathlib.Data.List.Infix
import PageMarkup.Proofs.Diagnostic.Lines
import PageMarkup.Proofs.Html.Generation
import PageMarkup.Proofs.Number.Printing

namespace PageMarkup

theorem Numeral.Printed.unescaped {written : Numeral} {number : List Char}
    (printed : written.Printed number) : ∀ c ∈ number, unescaped c = true := by
  cases printed with
  | plain fits proper unsigned =>
    intro c member
    have digit := proper.mem_text member
    refine unescaped_iff.mpr ⟨?_, ?_, ?_, ?_⟩ <;>
    · rintro rfl
      cases digit
  | infinite large => exact List.all_eq_true.mp rfl

namespace Html

open Layout

def htmlOf (parent : Parent) (node : Node) : List Char :=
  (Schema.builtin.generate (Schema.builtin.refineNode parent node).value).toList

theorem htmlOf_eq (parent : Parent) (node : Node) :
    htmlOf parent node = (Schema.builtin.denoteNode parent node).toList := by
  rw [htmlOf, Schema.generate_refineNode]

theorem htmlOf_child {parent : Parent} {name : Located String} {attributes : List Attribute}
    {children : List Node} {span : Span} {definition : TagDefinition} {child : Node}
    (known : Schema.builtin.get? name.value = some definition) (member : child ∈ children) :
    htmlOf (.known name.value definition) child <:+:
      htmlOf parent (.tag name attributes children span) := by
  rw [htmlOf_eq, htmlOf_eq, Schema.denoteNode, known]
  rcases builtin_cases name.value with ⟨definition', element, known', renders, _⟩ | ⟨unknown, _⟩
  · rw [known] at known'
    cases known'
    obtain ⟨style, _, rendered⟩ := renders (definition.lastTyped (attributes.map Attribute.entry))
      (Schema.builtin.denote (.known name.value definition) children)
    rw [rendered]
    exact (Schema.builtin.denote_infix _ member).trans (List.infix_append' _ _ _)
  · rw [known] at unknown
    cases unknown

theorem htmlOf_within {parent inner : Parent} {node child : Node} {path : List Nat}
    (within : Schema.builtin.Within parent node path inner child)
    (conforms : Schema.builtin.Conforms parent node) :
    htmlOf inner child <:+: htmlOf parent node := by
  induction within with
  | self => exact List.infix_refl _
  | @child parent _ name attributes children span _ _ child _ listed _ ih =>
    cases conforms with
    | @tag _ _ _ _ _ definition known typed complete valid inside =>
      have member := List.mem_of_getElem? listed
      have here : Schema.builtin.inside name.value = .known name.value definition := by
        rw [Schema.inside, known]
      rw [here] at ih
      exact (ih (inside _ member)).trans (htmlOf_child known member)

def Declares (element declaration : List Char) : Prop :=
  ∃ style declarations inner, Style style ∧ declaration ∈ declarations ∧
    style = " style=\"".toList ++ ("; ".toList.intercalate declarations ++ ['"']) ∧
    element = ElementName.div.opening style ++ (inner ++ ElementName.div.closing)

theorem flatMap_intercalate {separator : List Char}
    (plain : ∀ c ∈ separator, unescaped c = true) (parts : List (List Char)) :
    (separator.intercalate parts).flatMap escapedInAttr =
      separator.intercalate (parts.map (·.flatMap escapedInAttr)) := by
  have kept := flatMap_escapedInAttr plain
  induction parts with
  | nil => rfl
  | cons first parts ih =>
    cases parts with
    | nil => simp
    | cons second parts =>
      simp only [List.map_cons, List.intercalate_cons_cons, List.flatMap_append, kept] at ih ⊢
      rw [ih]

theorem toList_escapeAttr_intercalate (parts : List String) :
    (escapeAttr ("; ".intercalate parts)).toList =
      "; ".toList.intercalate (parts.map fun part => part.toList.flatMap escapedInAttr) := by
  have separator : ∀ c ∈ "; ".toList, unescaped c = true := List.all_eq_true.mp rfl
  rw [escapeAttr, String.toList_ofList, String.toList_intercalate,
    flatMap_intercalate separator, List.map_map]
  rfl

theorem renderBox_declares {attrs : ResolvedAttrs} {declaration : String}
    (listed : declaration ∈ Builtin.boxStyle attrs)
    (plain : ∀ c ∈ declaration.toList, unescaped c = true) (children : String) :
    Declares (Builtin.renderBox attrs children).toList declaration.toList := by
  have nonempty : (Builtin.boxStyle attrs).isEmpty = false :=
    List.isEmpty_eq_false_iff_exists_mem.mpr ⟨declaration, listed⟩
  have kept := flatMap_escapedInAttr plain
  refine ⟨styleText (Builtin.boxStyle attrs),
    (Builtin.boxStyle attrs).map fun text => text.toList.flatMap escapedInAttr, children.toList,
    styleText_style _, List.mem_map.mpr ⟨declaration, listed, kept⟩, ?_, ?_⟩
  · rw [styleText, nonempty, if_neg Bool.false_ne_true, toList_escapeAttr_intercalate]
  · simp [Builtin.renderBox, openTag_toList, ElementName.opening, ElementName.closing,
      ElementName.tag]

theorem mem_boxStyle {attrs : ResolvedAttrs} {key : String} {size : Double}
    (dimension : key ∈ ["width", "height"]) (given : attrs.number? key = some size) :
    key ++ ": " ++ size.text ++ "px" ∈ Builtin.boxStyle attrs := by
  simp only [List.mem_cons, List.not_mem_nil, or_false] at dimension
  unfold Builtin.boxStyle
  rcases dimension with rfl | rfl
  · simp [given]
  · simp [given]

theorem toList_dimension (key number : String) : (key ++ ": " ++ number ++ "px").toList =
    key.toList ++ ": ".toList ++ number.toList ++ "px".toList := by
  rw [String.toList_append, String.toList_append, String.toList_append]

theorem unescaped_dimension {key number : String} {written : Numeral}
    (dimension : key ∈ ["width", "height"]) (printed : written.Printed number.toList) :
    ∀ c ∈ (key ++ ": " ++ number ++ "px").toList, unescaped c = true := by
  rw [toList_dimension, List.forall_mem_append, List.forall_mem_append, List.forall_mem_append]
  refine ⟨⟨⟨?_, List.all_eq_true.mp rfl⟩, printed.unescaped⟩, List.all_eq_true.mp rfl⟩
  simp only [List.mem_cons, List.not_mem_nil, or_false] at dimension
  rcases dimension with rfl | rfl
  · exact List.all_eq_true.mp rfl
  · exact List.all_eq_true.mp rfl

theorem not_isBelowZero_of_valid {attrs : ResolvedAttrs} {key : String} {size : Double}
    (valid : Builtin.validateBox attrs = []) (dimension : key ∈ ["width", "height"])
    (given : attrs.number? key = some size) : size.isBelowZero = false := by
  have silent := List.filter_eq_nil_iff.mp (List.map_eq_nil_iff.mp valid) key dimension
  rw [given] at silent
  simpa using silent

def WrittenAs (source : Source) (attributes : List Attribute) (key : String) (size : Double)
    (written : Numeral) : Prop :=
  ∃ attr ∈ attributes, attr.key.value = key ∧ source.slice? attr.value.span = some written.text ∧
    written.Proper ∧ written.value = size

theorem exists_writtenAs {source : Source} {attributes : List Attribute} {key : String}
    {size : Double} (lie : ∀ attr ∈ attributes, AttributeLies source attr)
    (given : (Builtin.box.resolve attributes).number? key = some size) :
    ∃ written, WrittenAs source attributes key size written := by
  obtain ⟨value, found, number⟩ := Option.bind_eq_some_iff.mp given
  obtain ⟨before, attr, after, rfl, named, _, assigned, _⟩ :=
    (TagDefinition.get?_resolve_eq_some _ _ _ _).mp found
  have member : attr ∈ before ++ attr :: after := List.mem_append_right _ List.mem_cons_self
  have lies := (lie attr member).value_lies
  cases value with
  | number size' =>
    cases number
    rw [ValueLies, assigned] at lies
    obtain ⟨⟨written, proper, value, slice⟩, _⟩ := lies
    exact ⟨written, attr, member, named, slice, proper, value⟩
  | string text => cases number
  | boolean truth => cases number

/-- The dimensions that are set are declared, with what is printed of the numerals in the source. -/
def Dimensioned (source : Source) (attributes : List Attribute) (element : List Char) : Prop :=
  ∀ key ∈ ["width", "height"], ∀ size, (Builtin.box.resolve attributes).number? key = some size →
    ∃ written, WrittenAs source attributes key size written ∧
      written.Printed size.text.toList ∧
      Declares element (key.toList ++ ": ".toList ++ size.text.toList ++ "px".toList)

theorem htmlOf_box {source : Source} {parent : Parent} {name : Located String}
    {attributes : List Attribute} {children : List Node} {span : Span} (named : name.value = "box")
    (lie : ∀ attr ∈ attributes, AttributeLies source attr)
    (valid : Builtin.validateBox (Builtin.box.resolve attributes) = []) :
    Dimensioned source attributes (htmlOf parent (.tag name attributes children span)) := by
  intro key dimension size given
  obtain ⟨written, stands⟩ := exists_writtenAs lie given
  have printed : written.Printed size.text.toList := by
    obtain ⟨_, _, _, _, _, rfl⟩ := stands
    exact Numeral.printed_value (not_isBelowZero_of_valid valid dimension given)
  have known : Schema.builtin.get? name.value = some Builtin.box := named ▸ rfl
  have declares := renderBox_declares (mem_boxStyle dimension given)
    (unescaped_dimension dimension printed)
    (Schema.builtin.denote (.known name.value Builtin.box) children)
  rw [toList_dimension, Builtin.box.resolve_eq_lastTyped] at declares
  refine ⟨written, stands, printed, ?_⟩
  rw [htmlOf_eq, Schema.denoteNode, known]
  exact declares

/-- A document without problems has in each box the dimensions that are set, in plain numbers except
    where a numeral is too large. -/
theorem compile_dimensions {maxDepth : Nat} {source : Source} {html : String}
    (compiled : ((Compiler.mk .builtin maxDepth).compile source).html = some html)
    (silent : ((Compiler.mk .builtin maxDepth).compile source).errors = []) :
    ∃ nodes, parseDocument maxDepth source = .ok nodes ∧
      ∀ node ∈ nodes, ∀ path parent name attributes children span,
        Schema.builtin.Within .root node path parent (.tag name attributes children span) →
        name.value = "box" →
        htmlOf parent (.tag name attributes children span) <:+: html.toList ∧
          Dimensioned source attributes (htmlOf parent (.tag name attributes children span)) := by
  rw [Compiler.compile] at compiled silent
  cases read : parseDocument maxDepth source with
  | error fault =>
    rw [read] at compiled
    cases compiled
  | ok nodes =>
    rw [read] at compiled silent
    simp only [Schema.refine, Schema.refineNodes_problems, List.flatMap_eq_nil_iff] at silent
    have rendered := (Schema.builtin.generate_refine_eq_denote nodes).symm.trans
      (Option.some.inj compiled)
    obtain ⟨document, same, _, rfl⟩ := Written.exists_document_of_ok read
    obtain ⟨_, _, faithful⟩ := document.faithful same
    refine ⟨document.nodes, rfl, ?_⟩
    -- without problems nothing around a box is unknown, and the validator has let its values pass
    intro node member path parent name attributes children span within named
    have conforms := (Schema.problems_eq_nil_iff _ _ node).mp (silent node member)
    constructor
    · refine (htmlOf_within within conforms).trans ?_
      rw [htmlOf_eq, ← rendered]
      exact Schema.builtin.denote_infix .root member
    · obtain ⟨_, lies⟩ := within.faithful True.intro (faithful node member)
      have here := within.conforms conforms
      cases lies with
      | tag lies _ =>
        cases here with
        | tag known _ _ valid _ =>
          rw [named] at known
          cases known
          exact htmlOf_box named lies.attributes_lie valid

theorem compile_dimensions_nested :
    let source := Source.ofString "<box width=007.50><box height=-0></box></box>"
    let html := "<div style=\"width: 7.5px\"><div style=\"height: 0px\"></div></div>"
    ((Compiler.mk .builtin 2).compile source).html = some html ∧
      ((Compiler.mk .builtin 2).compile source).errors = [] ∧
      ∃ nodes, parseDocument 2 source = .ok nodes ∧
        ∀ node ∈ nodes, ∀ path parent name attributes children span,
          Schema.builtin.Within .root node path parent (.tag name attributes children span) →
          name.value = "box" →
          htmlOf parent (.tag name attributes children span) <:+: html.toList ∧
            Dimensioned source attributes (htmlOf parent (.tag name attributes children span)) := by
  intro source html
  have compiled : ((Compiler.mk .builtin 2).compile source).html = some html := by decide +kernel
  have silent : ((Compiler.mk .builtin 2).compile source).errors = [] := by decide +kernel
  exact ⟨compiled, silent, compile_dimensions compiled silent⟩

theorem infix_intercalate (separator : List Char) {part : List Char} {parts : List (List Char)}
    (member : part ∈ parts) : part <:+: separator.intercalate parts := by
  induction parts with
  | nil => cases member
  | cons first parts ih =>
    cases parts with
    | nil =>
      rw [List.mem_singleton.mp member, List.intercalate_singleton]
    | cons second parts =>
      rw [List.intercalate_cons_cons]
      rcases List.mem_cons.mp member with rfl | member
      · rw [List.append_assoc]
        exact (List.prefix_append _ _).isInfix
      · exact (ih member).trans (List.suffix_append _ _).isInfix

theorem Declares.infix {element declaration : List Char} (declares : Declares element declaration) :
    declaration <:+: element := by
  obtain ⟨style, declarations, inner, _, listed, styled, rfl⟩ := declares
  have quoted : declaration <:+: style := by
    rw [styled]
    exact (infix_intercalate "; ".toList listed).trans (List.infix_append' _ _ _)
  have opened : declaration <:+: ElementName.div.opening style :=
    (quoted.trans (List.infix_append' _ _ _)).trans (List.suffix_cons _ _).isInfix
  exact opened.trans (List.prefix_append _ _).isInfix

def soleWidth? : List Node → Option Double
  | [.tag name attributes _ _] =>
    if name.value = "box" then (Builtin.box.resolve attributes).number? "width" else none
  | _ => none

/-- A width of a one and 309 zeros is an infinity, and nothing is said about it. -/
theorem exists_infinite_dimension :
    let source := Source.ofText ("<box width=1".toList ++ Decimal.zeros 309 ++ "></box>".toList)
    let html := "<div style=\"width: infpx\"></div>"
    ((Compiler.mk .builtin 1).compile source).html = some html ∧
      ((Compiler.mk .builtin 1).compile source).errors = [] ∧
      (parseDocument 1 source).toOption >>= soleWidth? =
        some (.ofMagnitude false Double.infinityMagnitude) ∧
      ∀ number : Numeral, number.Proper →
        ¬ Declares html.toList ("width: ".toList ++ number.text ++ "px".toList) := by
  intro source html
  refine ⟨by decide +kernel, by decide +kernel, by decide +kernel, ?_⟩
  intro number proper declares
  have only : ∀ rest ∈ html.toList.tails, "width: ".toList <+: rest →
      (rest.drop "width: ".toList.length).head? = some 'i' := by decide +kernel
  obtain ⟨rest, begins, ends⟩ := List.infix_iff_prefix_suffix.mp declares.infix
  obtain ⟨behind, rfl⟩ := begins
  have label : "width: ".toList <+: "width: ".toList ++ number.text ++ "px".toList ++ behind := by
    rw [List.append_assoc, List.append_assoc]
    exact List.prefix_append _ _
  have next := only _ ((List.mem_tails _ _).mpr ends) label
  have noDigit : ∀ c : Char, c.isDigit = true → (c == 'i') = false := by
    intro c digit
    refine beq_false_of_ne ?_
    rintro rfl
    cases digit
  have other := proper.not_beginsWith_text rfl noDigit ("px".toList ++ behind)
  rw [List.append_assoc, List.append_assoc, List.drop_left] at next
  rw [beginsWith, next] at other
  cases other

end Html

end PageMarkup
