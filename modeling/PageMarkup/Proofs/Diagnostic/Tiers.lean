import PageMarkup.Compiler
import PageMarkup.Proofs.Diagnostic.Template
import PageMarkup.Proofs.Refinement.Violations
import PageMarkup.Proofs.Written.Coverage

namespace PageMarkup

open Written

namespace Code

/-- The codes of the grammar that a text can lead to. The others stand for failures that a rule of
    the grammar takes back or that cannot happen. -/
def syntaxErrors : List Code :=
  [.tagNameAlphanumeric, .unterminatedTag, .expectedAttrValue, .invalidAttribute,
    .mismatchedNesting, .unclosedTag, .maxDepthExceeded]

def parameters : Code → List String
  | .unterminatedTag | .invalidAttribute | .unclosedTag | .unknownTag => ["tag"]
  | .expectedAttrValue => ["key"]
  | .mismatchedNesting => ["expected", "found"]
  | .maxDepthExceeded => ["tag", "max"]
  | .unexpectedInput => ["reason"]
  | .unexpectedAttribute => ["key", "tag"]
  | .attributeTypeMismatch => ["key", "expected", "actual"]
  | .missingRequiredAttribute => ["tag", "key"]
  | .invalidAttributeValue => ["key", "reason"]
  | .textNotAllowed => ["parent"]
  | _ => []

theorem placeholders_template (code : Code) :
    Template.placeholders code.template.toList = code.parameters := by
  cases code <;> decide +kernel

theorem phase_of_mem_syntaxErrors {code : Code} (member : code ∈ syntaxErrors) :
    code.phase = .parser := by
  revert code
  decide

end Code

namespace Diagnostic

@[simp] theorem params_ofCode (code : Code) (span : Span) : (ofCode code span).params = .empty := rfl

@[simp] theorem code_ofCode (code : Code) (span : Span) : (ofCode code span).code = code := rfl

@[simp] theorem code_withParam (d : Diagnostic) (key value : String) :
    (d.withParam key value).code = d.code := rfl

@[simp] theorem mem_keys_withParam (d : Diagnostic) (key value name : String) :
    name ∈ (d.withParam key value).params.keys ↔ name ∈ d.params.keys ∨ name = key :=
  d.params.mem_keys_insert key name value

/-- A diagnostic of the phase of its code, with a parameter for each placeholder of the message and
    no others. -/
structure Complete (d : Diagnostic) : Prop where
  phase_eq : d.phase = d.code.phase
  mem_keys_iff (name : String) :
    name ∈ d.params.keys ↔ name ∈ Template.placeholders d.code.template.toList

theorem Complete.filled {d : Diagnostic} (complete : d.Complete) :
    Template.Filled d.params d.code.template.toList d.message.toList := by
  rw [message, Template.render, String.toList_ofList]
  exact Template.filled_fillAll fun name member => (complete.mem_keys_iff name).mpr member

theorem complete_of_parameters {d : Diagnostic} (phase : d.phase = d.code.phase)
    (given : ∀ name, name ∈ d.params.keys ↔ name ∈ d.code.parameters) : d.Complete :=
  ⟨phase, fun name => by rw [given, Code.placeholders_template]⟩

def IsSyntaxError (d : Diagnostic) : Prop := d.code ∈ Code.syntaxErrors ∧ d.Complete

theorem isSyntaxError_ofFailure {code : Code} {params : Params} {offset : Nat} {span : Span}
    (member : code ∈ Code.syntaxErrors)
    (given : ∀ name, name ∈ params.keys ↔ name ∈ code.parameters) :
    (ofFailure ⟨.coded code params, offset, span⟩).IsSyntaxError :=
  ⟨member, complete_of_parameters (Code.phase_of_mem_syntaxErrors member).symm given⟩

variable {start : Nat} {text : List Char} {failure : Failure SyntaxFault}

theorem badAttr_isSyntaxError {tag : String} (bad : BadAttr tag start text failure) :
    (ofFailure failure).IsSyntaxError := by
  cases bad with
  | key edge => exact isSyntaxError_ofFailure (by decide) fun name => by simp [Code.parameters]
  | value key before after solid bad =>
    exact isSyntaxError_ofFailure (by decide) fun name => by simp [Code.parameters]

theorem stray_isSyntaxError {expected : Name} (stray : Stray expected start text failure) :
    (ofFailure failure).IsSyntaxError := by
  cases stray with
  | intro gap plain solid edge other =>
    exact isSyntaxError_ofFailure (by decide) fun name => by simp [Code.parameters]

theorem broken_isSyntaxError {maxDepth levels : Nat}
    (broken : Broken maxDepth levels start text failure) : (ofFailure failure).IsSyntaxError := by
  induction broken with
  | unnamed gap solid edge => exact isSyntaxError_ofFailure (by decide) fun name => Iff.rfl
  | tooDeep head edge =>
    exact isSyntaxError_ofFailure (by decide) fun name => by simp [Code.parameters]
  | badAttr head gap ends solid more goesOn bad => exact badAttr_isSyntaxError bad
  | unterminated head last =>
    exact isSyntaxError_ofFailure (by decide) fun name => by simp [Code.parameters]
  | unclosed begun proper =>
    exact isSyntaxError_ofFailure (by decide) fun name => by simp [Code.parameters]
  | mismatched begun proper stray => exact stray_isSyntaxError stray
  | inChild begun proper inside broken ih => exact ih

theorem brokenDocument_isSyntaxError {maxDepth : Nat}
    (broken : BrokenDocument maxDepth start text failure) : (ofFailure failure).IsSyntaxError := by
  cases broken with
  | intro items canonical flush shallow spaced broken => exact broken_isSyntaxError broken

def IsViolation (d : Diagnostic) : Prop := d.code.phase = .transformer ∧ d.Complete

theorem attributes_isViolation {definition : TagDefinition} {name : Located String}
    {attributes : List Attribute} {finding : Finding} {d : Diagnostic}
    (violates : definition.Violates name attributes finding d) : d.IsViolation := by
  refine ⟨?_, complete_of_parameters ?_ fun key => ?_⟩
  · cases violates <;> rfl
  · cases violates <;> rfl
  · cases violates with
    | unexpected => simp [Code.parameters]
    | mistyped => simp [Code.parameters, or_assoc]
    | missing => simp [Code.parameters, or_comm]
    | complaint => simp [Code.parameters]

theorem node_isViolation {schema : Schema} {parent : Parent} {node : Node} {finding : Finding}
    {d : Diagnostic} (violates : schema.Violates parent node finding d) : d.IsViolation := by
  cases violates with
  | textAtRoot shown =>
    exact ⟨rfl, complete_of_parameters rfl fun key => by simp [Code.parameters]⟩
  | textInTag shown refused =>
    exact ⟨rfl, complete_of_parameters rfl fun key => by simp [Code.parameters]⟩
  | unknownTag unknown =>
    exact ⟨rfl, complete_of_parameters rfl fun key => by simp [Code.parameters]⟩
  | knownTag known violates => exact attributes_isViolation violates

theorem problems_isViolation (schema : Schema) (nodes : List Node) :
    ∀ d ∈ (schema.refine nodes).problems, d.IsViolation := by
  intro d member
  obtain ⟨site, position, path, node, _, _, parent, child, _, violates⟩ :=
    (schema.reports_refine nodes).holds member
  exact node_isViolation violates

/-- A compilation stops at one error of the grammar, or goes on to HTML and reports what violates the
    schema. Each report is of the phase of its code and fills the message. -/
theorem compile_two_tiers (compiler : Compiler) (source : Source) :
    ((∃ d, compiler.compile source = ⟨none, [d]⟩ ∧ d.phase = .parser ∧
        d.code ∈ Code.syntaxErrors) ∨
      ∃ html errors, compiler.compile source = ⟨some html, errors⟩ ∧
        ∀ d ∈ errors, d.phase = .transformer) ∧
    ∀ d ∈ (compiler.compile source).errors, d.Complete ∧
      Template.Filled d.params d.code.template.toList d.message.toList := by
  rw [Compiler.compile]
  cases read : parseDocument compiler.maxDepth source with
  | error fault =>
    obtain ⟨failure, broken, rfl⟩ := exists_broken_of_error read
    have ⟨member, complete⟩ := brokenDocument_isSyntaxError broken
    have phase := complete.phase_eq.trans (Code.phase_of_mem_syntaxErrors member)
    refine ⟨.inl ⟨_, rfl, phase, member⟩, fun d listed => ?_⟩
    rw [List.mem_singleton.mp listed]
    exact ⟨complete, complete.filled⟩
  | ok nodes =>
    have violations := problems_isViolation compiler.schema nodes
    refine ⟨.inr ⟨_, _, rfl, fun d listed => ?_⟩, fun d listed => ?_⟩
    · have ⟨phase, complete⟩ := violations d listed
      exact complete.phase_eq.trans phase
    · have ⟨_, complete⟩ := violations d listed
      exact ⟨complete, complete.filled⟩

end Diagnostic

end PageMarkup
