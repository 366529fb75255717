import PageMarkup.Proofs.Html.Escaping
import PageMarkup.Proofs.Html.Generation

namespace PageMarkup.Html

def joined? (declarations : List String) : Option String :=
  if declarations.isEmpty then none else some ("; ".intercalate declarations)

/-- An opening tag as it is understood, and what stands behind it. -/
structure OpeningTag where
  name : String
  style : Option String
  behind : String
  deriving DecidableEq, Repr

namespace OpeningTag

/-- A value goes up to the next quote, and with it the tag has to end. -/
def readValue? (text : List Char) : Option (String × List Char) :=
  match text.dropWhile (· != '"') with
  | '"' :: '>' :: behind => some (unescapeAttr (.ofList (text.takeWhile (· != '"'))), behind)
  | _ => none

def readStyle? : List Char → Option (Option String × List Char)
  | '>' :: behind => some (none, behind)
  | ' ' :: 's' :: 't' :: 'y' :: 'l' :: 'e' :: '=' :: '"' :: text =>
    (readValue? text).map fun (value, behind) => (some value, behind)
  | _ => none

def read? (html : String) : Option OpeningTag :=
  match html.toList with
  | '<' :: text =>
    (readStyle? (text.dropWhile Char.isAlphanum)).map fun (style, behind) =>
      ⟨.ofList (text.takeWhile Char.isAlphanum), style, .ofList behind⟩
  | _ => none

theorem readValue?_escapeAttr (value : String) (behind : List Char) :
    readValue? ((escapeAttr value).toList ++ '"' :: '>' :: behind) = some (value, behind) := by
  have noQuote : ∀ c ∈ (escapeAttr value).toList, (c != '"') = true := by
    intro c member
    exact bne_iff_ne.mpr ((safeInAttr_escapeAttr value).plain c member).1
  have edge : beginsWith (· != '"') ('"' :: '>' :: behind) = false := rfl
  simp only [readValue?, dropWhile_run noQuote edge, takeWhile_run noQuote edge,
    String.ofList_toList, unescapeAttr_escapeAttr]

theorem readStyle?_quoted (text : List Char) : readStyle? (" style=\"".toList ++ text) =
    (readValue? text).map fun (value, behind) => (some value, behind) := rfl

theorem readStyle?_styleText (style : List String) (behind : List Char) :
    readStyle? (styleText style ++ '>' :: behind) = some (joined? style, behind) := by
  unfold styleText joined?
  split
  · rfl
  · rw [List.append_assoc, List.append_assoc, List.singleton_append, readStyle?_quoted,
      readValue?_escapeAttr, Option.map_some]

theorem read?_openTag {name : String} (alphanumeric : ∀ c ∈ name.toList, c.isAlphanum = true)
    (style : List String) (behind : String) :
    read? (openTag name style ++ behind) = some ⟨name, joined? style, behind⟩ := by
  have written : (openTag name style ++ behind).toList =
      '<' :: (name.toList ++ (styleText style ++ '>' :: behind.toList)) := by
    rw [String.toList_append, openTag_toList]
    simp
  have edge : beginsWith Char.isAlphanum (styleText style ++ '>' :: behind.toList) = false :=
    not_beginsWith_extend (styleText_style style).edge fun _ => rfl
  rw [read?, written]
  simp only [takeWhile_run alphanumeric edge, dropWhile_run alphanumeric edge,
    readStyle?_styleText, Option.map_some, String.ofList_toList]

end OpeningTag

structure Property where
  name : String
  value? : ResolvedAttrs → Option String

namespace Property

def declaration? (property : Property) (attrs : ResolvedAttrs) : Option String :=
  (property.value? attrs).map fun value => property.name ++ ": " ++ value

def color (name : String) : Property := ⟨name, fun attrs => attrs.string? "color"⟩

def dimension (key : String) : Property :=
  ⟨key, fun attrs => (attrs.number? key).map fun size => size.text ++ "px"⟩

def ifCentered (name value : String) : Property :=
  ⟨name, fun attrs => if attrs.boolean? "center" = some true then some value else none⟩

def centering : List Property :=
  [ifCentered "display" "flex", ifCentered "justify-content" "center",
    ifCentered "align-items" "center"]

def surface : List Property := [color "background-color", dimension "width", dimension "height"]

def ofBox : List Property := surface ++ centering

def ofText : List Property := [color "color"]

end Property

def declarations (properties : List Property) (attrs : ResolvedAttrs) : List String :=
  properties.filterMap (·.declaration? attrs)

section Declarations

variable (attrs : ResolvedAttrs)

theorem declarations_append (left right : List Property) :
    declarations (left ++ right) attrs = declarations left attrs ++ declarations right attrs :=
  List.filterMap_append

theorem declarations_centering :
    declarations Property.centering attrs = if attrs.boolean? "center" = some true then
      ["display: flex", "justify-content: center", "align-items: center"] else [] := by
  by_cases centered : attrs.boolean? "center" = some true
  · simp [declarations, Property.centering, Property.declaration?, Property.ifCentered, centered]
  · simp [declarations, Property.centering, Property.declaration?, Property.ifCentered, centered]

theorem declarations_surface : declarations Property.surface attrs =
    ((attrs.string? "color").map fun color => "background-color: " ++ color).toList ++
      ((attrs.number? "width").map fun width => "width: " ++ width.text ++ "px").toList ++
      ((attrs.number? "height").map fun height => "height: " ++ height.text ++ "px").toList := by
  simp [declarations, Property.surface, Property.declaration?, Property.color, Property.dimension,
    List.filterMap_eq_flatMap_toList, Function.comp_def, ← String.append_assoc]

/-- A box writes the declarations that center its children as one. -/
theorem boxStyle_eq : Builtin.boxStyle attrs = declarations Property.surface attrs ++
    (joined? (declarations Property.centering attrs)).toList := by
  have centered : (joined? (declarations Property.centering attrs)).toList =
      if attrs.boolean? "center" = some true then
        ["display: flex; justify-content: center; align-items: center"] else [] := by
    rw [declarations_centering]
    split
    · rfl
    · rfl
  rw [declarations_surface, centered]
  rfl

theorem joined?_append_joined (left right : List String) :
    joined? (left ++ (joined? right).toList) = joined? (left ++ right) := by
  by_cases noneRight : right = []
  · subst noneRight
    rfl
  have inner : (joined? right).toList = ["; ".intercalate right] := by simp [joined?, noneRight]
  rw [inner]
  by_cases noneLeft : left = []
  · subst noneLeft
    simp [joined?, noneRight]
  · have twice : ["; ".intercalate right] ≠ [] := List.cons_ne_nil _ _
    simp [joined?, noneLeft, String.intercalate_append_of_ne_nil noneLeft noneRight,
      String.intercalate_append_of_ne_nil noneLeft twice]

theorem joined?_boxStyle :
    joined? (Builtin.boxStyle attrs) = joined? (declarations Property.ofBox attrs) := by
  rw [boxStyle_eq, joined?_append_joined, Property.ofBox, declarations_append]

theorem textStyle_eq : Builtin.textStyle attrs = declarations Property.ofText attrs := by
  simp [declarations, Property.ofText, Property.declaration?, Property.color, Builtin.textStyle,
    List.filterMap_eq_flatMap_toList]

variable (children : String)

theorem read?_box : OpeningTag.read? (Builtin.box.render attrs children) =
    some ⟨"div", joined? (declarations Property.ofBox attrs), children ++ "</div>"⟩ := by
  have alphanumeric : ∀ c ∈ "div".toList, c.isAlphanum = true := List.all_eq_true.mp rfl
  change OpeningTag.read? (Builtin.renderBox attrs children) = _
  rw [Builtin.renderBox, String.append_assoc, OpeningTag.read?_openTag alphanumeric,
    joined?_boxStyle]

theorem read?_text : OpeningTag.read? (Builtin.text.render attrs children) =
    some ⟨"p", joined? (declarations Property.ofText attrs), children ++ "</p>"⟩ := by
  have alphanumeric : ∀ c ∈ "p".toList, c.isAlphanum = true := List.all_eq_true.mp rfl
  change OpeningTag.read? (Builtin.renderText attrs children) = _
  rw [Builtin.renderText, String.append_assoc, OpeningTag.read?_openTag alphanumeric, textStyle_eq]

end Declarations

/-- An attribute value has one safe written form, and what boxes and texts have for a style is read as
    what was meant, whatever the author wrote for a color. -/
theorem escapeAttr_faithful :
    (∀ value, SafeInAttr (escapeAttr value).toList ∧ unescapeAttr (escapeAttr value) = value) ∧
    Function.Injective escapeAttr ∧
    (∀ text, SafeInAttr text.toList → escapeAttr (unescapeAttr text) = text) ∧
    ∀ attrs children,
      OpeningTag.read? (Builtin.box.render attrs children) =
        some ⟨"div", joined? (declarations Property.ofBox attrs), children ++ "</div>"⟩ ∧
      OpeningTag.read? (Builtin.text.render attrs children) =
        some ⟨"p", joined? (declarations Property.ofText attrs), children ++ "</p>"⟩ := by
  refine ⟨?_, ?_, ?_, ?_⟩
  · intro value
    exact ⟨safeInAttr_escapeAttr value, unescapeAttr_escapeAttr value⟩
  · exact Function.LeftInverse.injective unescapeAttr_escapeAttr
  · intro text safe
    exact escapeAttr_unescapeAttr safe
  · intro attrs children
    exact ⟨read?_box attrs children, read?_text attrs children⟩

theorem escapeAttr_faithful_quotes :
    let color := "red\" onclick=\"a&lt;"
    let attrs : ResolvedAttrs := .ofList [("center", .boolean true), ("color", .string color)]
    SafeInAttr "&amp;lt;".toList ∧ escapeAttr (unescapeAttr "&amp;lt;") = "&amp;lt;" ∧
      OpeningTag.read? (Builtin.box.render attrs "x") = some ⟨"div", some ("background-color: " ++
        color ++ "; display: flex; justify-content: center; align-items: center"), "x</div>"⟩ := by
  intro color attrs
  have safe : SafeInAttr "&amp;lt;".toList :=
    .entity .ampersand (.cons rfl (.cons rfl (.cons rfl .nil)))
  have meant : joined? (declarations Property.ofBox attrs) = some ("background-color: " ++ color ++
      "; display: flex; justify-content: center; align-items: center") := by decide +kernel
  have read := (escapeAttr_faithful.2.2.2 attrs "x").1
  rw [meant] at read
  exact ⟨safe, escapeAttr_faithful.2.2.1 _ safe, read⟩

end PageMarkup.Html
