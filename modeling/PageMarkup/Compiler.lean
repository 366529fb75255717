import PageMarkup.Diagnostic.Report
import PageMarkup.Document.Grammar
import PageMarkup.Html
import PageMarkup.Log

namespace PageMarkup

/-- A document without a syntax error has HTML even if it violates the schema. -/
structure Compiled where
  html : Option String
  errors : List Diagnostic
  deriving DecidableEq

structure Compiler where
  schema : Schema
  maxDepth : Nat

namespace Compiler

def builtin : Compiler := ⟨.builtin, Grammar.defaultMaxDepth⟩

def compile (compiler : Compiler) (source : Source) : Compiled :=
  match parseDocument compiler.maxDepth source with
  | .error fault => ⟨none, [fault]⟩
  | .ok nodes =>
    let refined := compiler.schema.refine nodes
    ⟨some (compiler.schema.generate refined.value), refined.problems⟩

def log (compiler : Compiler) (source : Source) : List Log.Record :=
  match parseDocument compiler.maxDepth source with
  | .error fault =>
    [⟨.debug, "deskml_parser::grammar", "syntax error " ++ fault.code.name ++
      " at SourceLocation \x7b start: " ++ toString fault.span.start ++ ", end: " ++
      toString fault.span.stop ++ " \x7d"⟩]
  | .ok nodes =>
    let refined := compiler.schema.refine nodes
    let html := compiler.schema.generate refined.value
    let found := toString refined.problems.length ++ " diagnostics"
    [⟨.debug, "deskml_parser::grammar", "parsed " ++ toString nodes.length ++ " top-level nodes"⟩,
      ⟨.debug, "deskml_codegen::refine", "refinement produced " ++ found⟩] ++
      (compiler.schema.skipped refined.value).map (fun tag =>
        ⟨.trace, "deskml_codegen::html", "skipping unknown tag <" ++ tag ++ ">"⟩) ++
      [⟨.debug, "deskml_codegen", "compiled " ++ toString source.size ++ " bytes into " ++
        toString html.utf8ByteSize ++ " bytes of html with " ++ found⟩]

end Compiler

def version : String := "0.3.0"

end PageMarkup
