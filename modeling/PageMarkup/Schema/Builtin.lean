import PageMarkup.Schema.Basic

namespace PageMarkup

def escapedInAttr (c : Char) : List Char :=
  if c = '&' then "&amp;".toList
  else if c = '"' then "&quot;".toList
  else if c = '<' then "&lt;".toList
  else if c = '>' then "&gt;".toList
  else [c]

def escapeAttr (value : String) : String := .ofList (value.toList.flatMap escapedInAttr)

def openTag (name : String) (style : List String) : String :=
  if style.isEmpty then "<" ++ name ++ ">"
  else "<" ++ name ++ " style=\"" ++ escapeAttr ("; ".intercalate style) ++ "\">"

namespace Builtin

def boxStyle (attrs : ResolvedAttrs) : List String :=
  ((attrs.string? "color").map fun color => "background-color: " ++ color).toList ++
    ((attrs.number? "width").map fun width => "width: " ++ width.text ++ "px").toList ++
    ((attrs.number? "height").map fun height => "height: " ++ height.text ++ "px").toList ++
    (if attrs.boolean? "center" = some true then
      ["display: flex; justify-content: center; align-items: center"] else [])

def renderBox (attrs : ResolvedAttrs) (children : String) : String :=
  openTag "div" (boxStyle attrs) ++ children ++ "</div>"

def validateBox (attrs : ResolvedAttrs) : List Complaint :=
  (["width", "height"].filter fun key => (attrs.number? key).any Double.isBelowZero).map
    fun key => ⟨key, "must not be negative"⟩

def textStyle (attrs : ResolvedAttrs) : List String :=
  ((attrs.string? "color").map fun color => "color: " ++ color).toList

def renderText (attrs : ResolvedAttrs) (children : String) : String :=
  openTag "p" (textStyle attrs) ++ children ++ "</p>"

def levelOf? (number : Double) : Option Nat :=
  match number.whole? with
  | some level => if 1 ≤ level ∧ level ≤ 6 then some level.toNat else none
  | none => none

/-- Without a level, or with a bad one, a heading is of level one. -/
def headingLevel (attrs : ResolvedAttrs) : Nat := ((attrs.number? "level") >>= levelOf?).getD 1

def renderHeading (attrs : ResolvedAttrs) (children : String) : String :=
  let level := toString (headingLevel attrs)
  "<h" ++ level ++ ">" ++ children ++ "</h" ++ level ++ ">"

def validateHeading (attrs : ResolvedAttrs) : List Complaint :=
  match attrs.number? "level" with
  | some level =>
    if (levelOf? level).isNone then [⟨"level", "must be a whole number from 1 to 6"⟩] else []
  | none => []

def renderMain (_ : ResolvedAttrs) (children : String) : String := "<main>" ++ children ++ "</main>"

def box : TagDefinition :=
  ((((TagDefinition.ofRender renderBox).withAttr "color" .string).withAttr "width" .number).withAttr
    "height" .number).withAttr "center" .boolean |>.withValidator validateBox

def text : TagDefinition := ((TagDefinition.ofRender renderText).withAttr "color" .string).withText

def heading : TagDefinition :=
  (((TagDefinition.ofRender renderHeading).withAttr "level" .number).withValidator
    validateHeading).withText

def main : TagDefinition := .ofRender renderMain

end Builtin

def Schema.builtin : Schema :=
  ⟨.ofList [("box", Builtin.box), ("heading", Builtin.heading), ("main", Builtin.main),
    ("text", Builtin.text)]⟩

theorem Schema.entries_builtin : builtin.tags.entries = [("box", Builtin.box),
    ("heading", Builtin.heading), ("main", Builtin.main), ("text", Builtin.text)] := rfl

end PageMarkup
