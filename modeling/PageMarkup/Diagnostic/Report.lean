import PageMarkup.Diagnostic.Basic
import PageMarkup.Text.Blank

namespace PageMarkup

/-- A place in a text, counted from one, and how many columns to underline from there. -/
structure Underline where
  line : Nat
  column : Nat
  width : Nat
  deriving DecidableEq, Repr

/-- The lines of a text; a text that ends in a line feed has an empty last line. -/
def linesOf : List Char → List (List Char)
  | [] => [[]]
  | c :: cs =>
    if c = '\n' then [] :: linesOf cs
    else
      match linesOf cs with
      | [] => [[c]]
      | line :: lines => (c :: line) :: lines

namespace Underline

/-- Where a span shows. Spans may come from outside, so an inverted one is turned around, its start
    moved back to a boundary and its end to the end of the text. If the end then lies inside a
    character, the width counts bytes. At least one column is underlined. -/
def ofSpan (source : Source) (span : Span) : Underline :=
  let start := source.floorBoundary (min (min span.start span.stop) source.size)
  let stop := max (min (max span.stop span.start) source.size) start
  let before := source.before start
  let width := match source.slice? ⟨start, stop⟩ with
    | some text => text.length
    | none => stop - start
  ⟨before.count '\n' + 1, (before.reverse.takeWhile (· ≠ '\n')).length + 1, max width 1⟩

end Underline

namespace Diagnostic

def report (source : Source) (d : Diagnostic) : String :=
  let place := Underline.ofSpan source d.span
  let line := ((linesOf source.text)[place.line - 1]?).getD []
  "error[" ++ d.code.name ++ "]: " ++ d.message ++
    "\n  --> line " ++ toString place.line ++ ", column " ++ toString place.column ++
    "\n> " ++ .ofList (dropRightWhile (· == '\r') line) ++
    "\n  " ++ .ofList (List.replicate (place.column - 1) ' ' ++ List.replicate place.width '^')

end Diagnostic

end PageMarkup
