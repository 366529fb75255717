import PageMarkup.Refinement
import PageMarkup.Schema.Builtin

namespace PageMarkup

namespace Schema

mutual

/-- Text is copied as it is, since it holds no `<`. Tags that the schema does not know vanish with
    all that is in them. -/
def generateNode (schema : Schema) : RefinedNode → String
  | .text content _ => content
  | .tag kind _ attrs children _ =>
    match schema.get? kind with
    | some definition => definition.render attrs (schema.generate children)
    | none => ""

def generate (schema : Schema) : List RefinedNode → String
  | [] => ""
  | node :: nodes => schema.generateNode node ++ schema.generate nodes

end

mutual

/-- The unknown tags that generation comes across. Those inside another one are not reached. -/
def skippedInNode (schema : Schema) : RefinedNode → List String
  | .text _ _ => []
  | .tag kind _ _ children _ =>
    match schema.get? kind with
    | some _ => schema.skipped children
    | none => [kind]

def skipped (schema : Schema) : List RefinedNode → List String
  | [] => []
  | node :: nodes => schema.skippedInNode node ++ schema.skipped nodes

end

end Schema

def standalonePage (title fragment : String) : String :=
  "<!DOCTYPE html>\n<html>\n<head>\n  <meta charset=\"UTF-8\">\n  <title>" ++ escapeAttr title ++
    "</title>\n</head>\n<body>\n" ++ fragment ++
    (if fragment.toList.getLast? = some '\n' then "" else "\n") ++ "</body>\n</html>\n"

end PageMarkup
