namespace PageMarkup

namespace Path

def splitName (path : String) : List Char × List Char :=
  let name := (path.toList.reverse.takeWhile (· ≠ '/')).reverse
  (path.toList.take (path.toList.length - name.length), name)

/-- A name that is neither empty nor one of the two that stand for directories. -/
def isFileName (name : List Char) : Bool := !(name == [] || name == ['.'] || name == ['.', '.'])

/-- A file name before its last dot and behind it. A dot at the front begins no extension. -/
def splitExtension (name : List Char) : List Char × Option (List Char) :=
  let extension := (name.reverse.takeWhile (· ≠ '.')).reverse
  let stem := name.take (name.length - extension.length - 1)
  if extension.length = name.length ∨ stem.isEmpty then (name, none) else (stem, some extension)

def stem? (path : String) : Option String :=
  let (_, name) := splitName path
  if isFileName name then some (.ofList (splitExtension name).1) else none

/-- The path with another extension. Where the old extension leaves a single dot behind, what remains
    with the dot before the extension is the parent directory, which takes no extension. -/
def withExtension? (path extension : String) : Option String :=
  let (directory, name) := splitName path
  if isFileName name then
    match splitExtension name with
    | (['.'], some _) => some (.ofList (directory ++ ['.', '.']))
    | (stem, _) => some (.ofList (directory ++ stem ++ '.' :: extension.toList))
  else none

end Path

end PageMarkup
