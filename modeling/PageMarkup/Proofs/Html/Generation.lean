import PageMarkup.Compiler
import PageMarkup.Proofs.Html.Denotation
import PageMarkup.Proofs.Html.Escaping
import PageMarkup.Proofs.Html.Fragment
import PageMarkup.Proofs.Layout.Document

namespace PageMarkup.Html

open Layout

theorem headingLevel_valid (attrs : ResolvedAttrs) :
    1 ≤ Builtin.headingLevel attrs ∧ Builtin.headingLevel attrs ≤ 6 := by
  unfold Builtin.headingLevel
  cases level : attrs.number? "level" >>= Builtin.levelOf? with
  | none => decide
  | some n =>
    obtain ⟨number, _, level⟩ := Option.bind_eq_some_iff.mp level
    unfold Builtin.levelOf? at level
    split at level
    · split at level
      · rename_i whole _ bounds
        cases level
        simp only [Option.getD_some]
        omega
      · cases level
    · cases level

def headingFor (attrs : ResolvedAttrs) : ElementName :=
  .heading (Builtin.headingLevel attrs) (headingLevel_valid attrs)

def elementName? (name : String) (attributes : List Attribute) : Option ElementName :=
  if name = "box" then some .div
  else if name = "text" then some .p
  else if name = "heading" then some (headingFor (Builtin.heading.resolve attributes))
  else if name = "main" then some .main
  else none

mutual

def elementsOf : Node → List Element
  | .text _ _ => []
  | .tag name attributes children _ =>
    match elementName? name.value attributes with
    | some element => [.mk element (elements children)]
    | none => []

/-- The tags of a document without those that vanish and all that is in them. -/
def elements : List Node → List Element
  | [] => []
  | node :: nodes => elementsOf node ++ elements nodes

end

def styleText (style : List String) : List Char :=
  if style.isEmpty then []
  else " style=\"".toList ++ ((escapeAttr ("; ".intercalate style)).toList ++ ['"'])

theorem styleText_style (style : List String) : Style (styleText style) := by
  unfold styleText
  split
  · exact .inl rfl
  · exact .inr ⟨_, (safeInAttr_escapeAttr _).plain, rfl⟩

theorem openTag_toList (name : String) (style : List String) :
    (openTag name style).toList = '<' :: (name.toList ++ (styleText style ++ ['>'])) := by
  unfold openTag styleText
  cases style with
  | nil => simp
  | cons first style => simp

def Renders (definition : TagDefinition) (name : ResolvedAttrs → ElementName) : Prop :=
  ∀ attrs children, ∃ style, (name attrs).Styled style ∧
    (definition.render attrs children).toList =
      (name attrs).opening style ++ (children.toList ++ (name attrs).closing)

theorem box_renders : Renders Builtin.box fun _ => .div := by
  intro attrs children
  refine ⟨styleText (Builtin.boxStyle attrs), styleText_style _, ?_⟩
  change (Builtin.renderBox attrs children).toList = _
  simp [Builtin.renderBox, openTag_toList, ElementName.opening, ElementName.closing, ElementName.tag]

theorem text_renders : Renders Builtin.text fun _ => .p := by
  intro attrs children
  refine ⟨styleText (Builtin.textStyle attrs), styleText_style _, ?_⟩
  change (Builtin.renderText attrs children).toList = _
  simp [Builtin.renderText, openTag_toList, ElementName.opening, ElementName.closing, ElementName.tag]

theorem heading_renders : Renders Builtin.heading headingFor := by
  intro attrs children
  refine ⟨[], rfl, ?_⟩
  change (Builtin.renderHeading attrs children).toList = _
  simp [Builtin.renderHeading, headingFor, ElementName.opening, ElementName.closing, ElementName.tag]

theorem main_renders : Renders Builtin.main fun _ => .main := by
  intro attrs children
  refine ⟨[], rfl, ?_⟩
  change (Builtin.renderMain attrs children).toList = _
  simp [Builtin.renderMain, ElementName.opening, ElementName.closing, ElementName.tag]

theorem builtin_cases (name : String) :
    (∃ definition element, Schema.builtin.get? name = some definition ∧ Renders definition element ∧
      ∀ attributes, elementName? name attributes = some (element (definition.resolve attributes))) ∨
    (Schema.builtin.get? name = none ∧ ∀ attributes, elementName? name attributes = none) := by
  simp only [Schema.builtin, Schema.get?, KeyMap.ofList, List.foldl_cons, List.foldl_nil,
    KeyMap.get?_insert,
    KeyMap.get?_empty]
  by_cases text : name = "text"
  · subst text
    exact .inl ⟨_, _, rfl, text_renders, fun _ => rfl⟩
  · by_cases main : name = "main"
    · subst main
      exact .inl ⟨_, _, rfl, main_renders, fun _ => rfl⟩
    · by_cases heading : name = "heading"
      · subst heading
        exact .inl ⟨_, _, rfl, heading_renders, fun _ => rfl⟩
      · by_cases box : name = "box"
        · subst box
          exact .inl ⟨_, _, rfl, box_renders, fun _ => rfl⟩
        · refine .inr ⟨?_, fun _ => ?_⟩
          · rw [if_neg text, if_neg main, if_neg heading, if_neg box]
          · rw [elementName?, if_neg box, if_neg text, if_neg heading, if_neg main]

theorem generate_refineNodes {nodes : List Node} {parent : Parent}
    (each : ∀ node ∈ nodes, Fragment (elementsOf node)
      (Schema.builtin.generate (Schema.builtin.refineNode parent node).value).toList) :
    Fragment (elements nodes)
      (Schema.builtin.generate (Schema.builtin.refineNodes parent nodes).value).toList := by
  induction nodes with
  | nil => exact .nil
  | cons node nodes ih =>
    rw [Schema.refineNodes, Schema.generate_append, String.toList_append, elements]
    exact (each node List.mem_cons_self).append
      (ih fun other member => each other (List.mem_cons_of_mem _ member))

theorem generate_refineNode {source : Source} {node : Node} (faithful : Faithful source node)
    (parent : Parent) :
    Fragment (elementsOf node)
      (Schema.builtin.generate (Schema.builtin.refineNode parent node).value).toList := by
  induction faithful generalizing parent with
  | @text content span lies =>
    have kept : Fragment (elementsOf (.text content span))
        (Schema.builtin.generate [.text content span]).toList := by
      rw [Schema.generate_singleton]
      exact .of_plain lies.plain
    rw [Schema.refineNode]
    split
    · exact .nil
    · cases parent.rejectsText? with
      | none => exact kept
      | some name => exact .nil
  | @tag name attributes children span lies _ ih =>
    rw [Schema.refineNode, elementsOf]
    rcases builtin_cases name.value with ⟨definition, element, known, renders, becomes⟩ |
      ⟨unknown, vanishes⟩
    · have inside := generate_refineNodes fun child member =>
        ih child member (.known name.value definition)
      obtain ⟨style, styled, rendered⟩ := renders (definition.resolve attributes)
        (Schema.builtin.generate
          (Schema.builtin.refineNodes (.known name.value definition) children).value)
      rw [known, becomes]
      simp only [Schema.generate_singleton, Schema.generateNode, known, rendered]
      exact .of_element styled inside
    · rw [unknown, vanishes]
      simp only [Schema.generate_singleton, Schema.generateNode, unknown]
      exact .nil

/-- The HTML of a document that compiles with the builtin schema has the elements of the document and no
    others, whatever is written in texts and attributes. -/
theorem compile_builtin_fragment {maxDepth : Nat} {source : Source} {html : String}
    (compiled : ((Compiler.mk .builtin maxDepth).compile source).html = some html) :
    ∃ nodes, parseDocument maxDepth source = .ok nodes ∧ Fragment (elements nodes) html.toList ∧
      ∀ others, Fragment others html.toList → others = elements nodes := by
  rw [Compiler.compile] at compiled
  cases read : parseDocument maxDepth source with
  | error fault =>
    rw [read] at compiled
    cases compiled
  | ok nodes =>
    rw [read] at compiled
    cases compiled
    obtain ⟨document, same, _, rfl⟩ := Written.exists_document_of_ok read
    obtain ⟨_, _, faithful⟩ := document.faithful same
    have fragment := generate_refineNodes fun node member =>
      generate_refineNode (faithful node member) .root
    exact ⟨document.nodes, rfl, fragment, fun others other => other.unique fragment⟩

theorem compile_builtin_fragment_escaped :
    ((Compiler.mk .builtin 2).compile (.ofString "<box color=\"<\"><b>x</b><text>></text></box>")).html =
        some "<div style=\"background-color: &lt;\"><p>></p></div>" ∧
      ∃ nodes, parseDocument 2 (.ofString "<box color=\"<\"><b>x</b><text>></text></box>") = .ok nodes ∧
        Fragment (elements nodes)
          "<div style=\"background-color: &lt;\"><p>></p></div>".toList ∧
        ∀ others, Fragment others
          "<div style=\"background-color: &lt;\"><p>></p></div>".toList →
            others = elements nodes := by
  have compiled : ((Compiler.mk .builtin 2).compile
      (.ofString "<box color=\"<\"><b>x</b><text>></text></box>")).html =
        some "<div style=\"background-color: &lt;\"><p>></p></div>" := by decide +kernel
  exact ⟨compiled, compile_builtin_fragment compiled⟩

end PageMarkup.Html
