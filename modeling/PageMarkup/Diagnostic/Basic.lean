import PageMarkup.Diagnostic.Code
import PageMarkup.Diagnostic.Template
import PageMarkup.Parsing.Primitives

namespace PageMarkup

structure Diagnostic where
  phase : Phase
  code : Code
  params : Params
  span : Span
  deriving DecidableEq

namespace Diagnostic

def ofCode (code : Code) (span : Span) : Diagnostic := ⟨code.phase, code, .empty, span⟩

def withParam (d : Diagnostic) (key value : String) : Diagnostic :=
  { d with params := d.params.insert key value }

def message (d : Diagnostic) : String := Template.render d.code.template d.params

end Diagnostic

/-- Why the grammar fails: for a reason of the parsing toolkit that no rule of the grammar gave a
    meaning to, or with a code of its own. -/
inductive SyntaxFault where
  | mechanical (reason : Reason)
  | coded (code : Code) (params : Params)
  deriving DecidableEq

namespace SyntaxFault

instance : OfReason SyntaxFault := ⟨mechanical⟩

def ofCode (code : Code) : SyntaxFault := .coded code .empty

def withParam (fault : SyntaxFault) (key value : String) : SyntaxFault :=
  match fault with
  | .mechanical reason => .mechanical reason
  | .coded code params => .coded code (params.insert key value)

end SyntaxFault

def Diagnostic.ofFailure (failure : Failure SyntaxFault) : Diagnostic :=
  match failure.reason with
  | .coded code params => ⟨.parser, code, params, failure.span⟩
  | .mechanical reason => (ofCode .unexpectedInput failure.span).withParam "reason" reason.message

end PageMarkup
