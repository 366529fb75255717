import PageMarkup.Command.Arguments
import PageMarkup.Command.FileTree
import PageMarkup.Command.Path
import PageMarkup.Compiler
import PageMarkup.Diagnostic.Exchange
import PageMarkup.Json.Writer

namespace PageMarkup

inductive Reading where
  | missing
  | unreadable (reason : String)
  | content (text : String)
  deriving DecidableEq, Repr

/-- How a command reaches files: it reads a path, and writes a path and hears why that failed if it
    did. -/
structure FileAccess (m : Type → Type) where
  read : String → m Reading
  write : (path content : String) → m (Option String)

namespace FileTree

def reading (tree : FileTree) (path : String) : Reading :=
  match tree.find? path with
  | none => .missing
  | some .directory => .unreadable OpenError.isDirectory.message
  | some (.binary _) => .unreadable "stream did not contain valid UTF-8"
  | some (.text content) => .content content

def access : FileAccess (StateM FileTree) where
  read path := do return (← get).reading path
  write path content := do
    match (← get).write path content with
    | .ok tree => set tree; return none
    | .error error => return some error.message

end FileTree

namespace Command

inductive Failed where
  | notFound (path : String)
  | read (path reason : String)
  | write (path reason : String)
  | outputName (path : String)
  deriving DecidableEq, Repr

namespace Failed

def message : Failed → String
  | .notFound path => "Error: file not found: " ++ path ++ "\n"
  | .read path reason => "Error: error reading " ++ path ++ ": " ++ reason ++ "\n"
  | .write path reason => "Error: error writing " ++ path ++ ": " ++ reason ++ "\n"
  | .outputName path => "Error: cannot derive an output name from " ++ path ++ "\n"

end Failed

structure Outcome where
  exit : Nat
  stdout : String
  stderr : String
  deriving DecidableEq, Repr

namespace Outcome

def failed (stderr : String) (error : Failed) : Outcome := ⟨1, "", stderr ++ error.message⟩

def ofReadings (path : String) : Reading → Except Failed String
  | .missing => .error (.notFound path)
  | .unreadable reason => .error (.read path reason)
  | .content text => .ok text

end Outcome

def reports (source : Source) (errors : List Diagnostic) : String :=
  .join (errors.map fun d => d.report source ++ "\n\n")

def outputPath (path : String) (out : Option String) : Except Failed String :=
  match out, Path.withExtension? path "html" with
  | some out, _ => .ok out
  | none, some derived => .ok derived
  | none, none => .error (.outputName path)

def title (path : String) : String := (Path.stem? path).getD "deskml"

section

variable {m : Type → Type} [Monad m]

/-- Writes a page unless there is a syntax error. Violations of the schema do not stop it. -/
def build (files : FileAccess m) (threshold : Log.Threshold) (path : String) (out : Option String)
    (maxDepth : Nat) : m Outcome := do
  match Outcome.ofReadings path (← files.read path) with
  | .error error => return .failed "" error
  | .ok text =>
    let source := Source.ofString text
    let compiler := Compiler.mk .builtin maxDepth
    let compiled := compiler.compile source
    let shown := Log.printed threshold (compiler.log source) ++ reports source compiled.errors
    match compiled.html with
    | none => return ⟨1, "", shown⟩
    | some html =>
      match outputPath path out with
      | .error error => return .failed shown error
      | .ok target =>
        match ← files.write target (standalonePage (title path) html) with
        | some reason => return .failed shown (.write target reason)
        | none =>
          let count := compiled.errors.length
          let warning := if count = 0 then "" else
            Log.printed threshold
              [⟨.warn, "deskml", "built with " ++ toString count ++ " diagnostics"⟩]
          return ⟨0, "", shown ++ warning ++ "Built: " ++ target ++ "\n"⟩

def check (files : FileAccess m) (threshold : Log.Threshold) (path : String) (format : Format)
    (maxDepth : Nat) : m Outcome := do
  match Outcome.ofReadings path (← files.read path) with
  | .error error => return .failed "" error
  | .ok text =>
    let source := Source.ofString text
    let compiler := Compiler.mk .builtin maxDepth
    let compiled := compiler.compile source
    let logged := Log.printed threshold (compiler.log source)
    let exit := if compiled.errors.isEmpty then 0 else 1
    match format with
    | .json =>
      let listing := Json.pretty 0 (.array (compiled.errors.map Diagnostic.toJson))
      return ⟨exit, .ofList listing ++ "\n", logged⟩
    | .text =>
      let verdict := if compiled.errors.isEmpty then "OK: " ++ path ++ "\n" else ""
      return ⟨exit, "", logged ++ reports source compiled.errors ++ verdict⟩

def threshold (logLevel : Option String) (verbose : Bool) : Log.Threshold :=
  match logLevel with
  | some word => Log.thresholdOf word
  | none => (if verbose then Log.Level.debug else .warn).detail

def perform (files : FileAccess m) (threshold : Log.Threshold) : Action → m Outcome
  | .build path out maxDepth => build files threshold path out maxDepth
  | .check path format maxDepth => check files threshold path format maxDepth
  | .tags => return ⟨0, Schema.builtin.describe, ""⟩

def run (files : FileAccess m) (logLevel : Option String) (arguments : List String) : m Outcome :=
  match readInvocation Grammar.defaultMaxDepth false arguments with
  | .error error => return ⟨2, "", error.message⟩
  | .ok .version => return ⟨0, "deskml " ++ version ++ "\n", ""⟩
  | .ok (.run verbose action) => perform files (threshold logLevel verbose) action

end

end Command

end PageMarkup
