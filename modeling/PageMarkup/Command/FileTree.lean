namespace PageMarkup

/-- What is stored under a name. A file that is not UTF-8 has bytes but no text. -/
inductive Entry where
  | text (content : String)
  | binary (bytes : List UInt8)
  | directory
  deriving DecidableEq, Repr

/-- A place in the file system: so many directories above the working directory, or the root, and
    then down along names. -/
structure Place where
  absolute : Bool
  above : Nat
  names : List String
  deriving DecidableEq, Repr

namespace Place

def workingDirectory : Place := ⟨false, 0, []⟩

def root : Place := ⟨true, 0, []⟩

def child (place : Place) (name : String) : Place := { place with names := place.names ++ [name] }

def parent (place : Place) : Place :=
  if !place.names.isEmpty then { place with names := place.names.dropLast }
  else if place.absolute then place
  else { place with above := place.above + 1 }

end Place

inductive OpenError where
  | notFound
  | notDirectory
  | isDirectory
  deriving DecidableEq, Repr

namespace OpenError

def message : OpenError → String
  | .notFound => "No such file or directory (os error 2)"
  | .notDirectory => "Not a directory (os error 20)"
  | .isDirectory => "Is a directory (os error 21)"

end OpenError

/-- The files and directories below the working directory and around it. The directories on the way
    from the root to the working directory are always there. -/
structure FileTree where
  entries : List (Place × Entry)

namespace FileTree

def entry? (tree : FileTree) (place : Place) : Option Entry :=
  if place.names.isEmpty then some .directory else tree.entries.lookup place

def put (tree : FileTree) (place : Place) (entry : Entry) : FileTree :=
  ⟨(place, entry) :: tree.entries⟩

def step (tree : FileTree) (place : Place) (name : String) : Except OpenError Place :=
  match tree.entry? place with
  | none => .error .notFound
  | some .directory =>
    .ok (if name = "." then place else if name = ".." then place.parent else place.child name)
  | some _ => .error .notDirectory

def start (path : String) : Place :=
  if path.toList.head? = some '/' then .root else .workingDirectory

def namesOf (path : String) : List String :=
  ((path.toList.splitOn '/').filter (· ≠ [])).map .ofList

def endsInSlash (path : String) : Bool := path.toList.getLast? == some '/'

/-- The place that a path leads to. A slash at the end asks for a directory. -/
def locate (tree : FileTree) (path : String) : Except OpenError Place :=
  (namesOf path ++ if endsInSlash path then ["."] else []).foldlM tree.step (start path)

def find? (tree : FileTree) (path : String) : Option Entry :=
  match tree.locate path with
  | .ok place => tree.entry? place
  | .error _ => none

/-- The place of the file that opening a path for writing creates or empties. -/
def locateForWriting (tree : FileTree) (path : String) : Except OpenError Place := do
  let names := namesOf path
  let name := names.getLastD "."
  if name = "." ∨ name = ".." then
    let place ← names.foldlM tree.step (start path)
    match tree.entry? place with
    | none => .error .notFound
    | some .directory => .error .isDirectory
    | some _ => .error .notDirectory
  else
    let directory ← names.dropLast.foldlM tree.step (start path)
    let place ← tree.step directory name
    if endsInSlash path ∨ tree.entry? place = some .directory then .error .isDirectory
    else .ok place

def write (tree : FileTree) (path content : String) : Except OpenError FileTree := do
  let place ← tree.locateForWriting path
  .ok (tree.put place (.text content))

end FileTree

end PageMarkup
