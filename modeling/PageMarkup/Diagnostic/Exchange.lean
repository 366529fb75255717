import PageMarkup.Diagnostic.Basic
import PageMarkup.Json.Basic

namespace PageMarkup

namespace Json

def offset? : Json → Option Nat
  | .natural n => if n < UInt64.size then some n else none
  | _ => none

/-- A word out of a fixed set may also be written as the name of a member that holds nothing. -/
def word? : Json → Option String
  | .string text => some text
  | .object [(text, .null)] => some text
  | _ => none

end Json

namespace Span

def toJson (span : Span) : Json :=
  .object [("start", .natural span.start), ("end", .natural span.stop)]

def ofJson? : Json → Option Span
  | .object members => do
    let start ← Json.member? "start" members >>= Json.offset?
    let stop ← Json.member? "end" members >>= Json.offset?
    some ⟨start, stop⟩
  | .array [start, stop] => do
    let start ← start.offset?
    let stop ← stop.offset?
    some ⟨start, stop⟩
  | _ => none

end Span

namespace Params

def toJson (params : Params) : Json :=
  .object (params.entries.map fun (name, value) => (name, .string value))

def ofJson? : Json → Option Params
  | .object members => do
    let entries ← members.mapM fun (name, value) => do
      let text ← value.string?
      some (name, text)
    some (.ofList entries)
  | _ => none

end Params

namespace Diagnostic

def toJson (d : Diagnostic) : Json :=
  .object ([("phase", .string d.phase.name), ("code", .string d.code.name)] ++
    (if d.params.isEmpty then [] else [("params", Params.toJson d.params)]) ++
    [("loc", d.span.toJson)])

/-- Reads an object, whose other members are ignored, or the list of all four members. The phase need
    not be that of the code. -/
def ofJson? : Json → Option Diagnostic
  | .object members => do
    let phase ← Json.member? "phase" members >>= Json.word? >>= Phase.ofName?
    let code ← Json.member? "code" members >>= Json.word? >>= Code.ofName?
    let params ← match Json.member? "params" members with
      | some params => Params.ofJson? params
      | none => some .empty
    let span ← Json.member? "loc" members >>= Span.ofJson?
    some ⟨phase, code, params, span⟩
  | .array [phase, code, params, span] => do
    let phase ← phase.word? >>= Phase.ofName?
    let code ← code.word? >>= Code.ofName?
    let params ← Params.ofJson? params
    let span ← Span.ofJson? span
    some ⟨phase, code, params, span⟩
  | _ => none

end Diagnostic

end PageMarkup
