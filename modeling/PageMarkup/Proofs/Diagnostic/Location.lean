import PageMarkup.Compiler
import PageMarkup.Proofs.Layout.Document

namespace PageMarkup

open Layout Written

namespace Diagnostic

/-- Whether a text is what the diagnostic is about. -/
def Names (source : Source) (d : Diagnostic) (text : List Char) : Prop :=
  match d.code with
  | .unknownTag | .unclosedTag | .maxDepthExceeded | .missingRequiredAttribute =>
    d.params.get? "tag" = some (.ofList text)
  | .unexpectedAttribute => d.params.get? "key" = some (.ofList text)
  | .textNotAllowed => isBlankText (.ofList text) = false ∧ '<' ∉ text
  | .mismatchedNesting =>
    ∃ before found after bracket, AllBlank before ∧ AllBlank after ∧
      d.params.get? "found" = some (.ofList found) ∧ (bracket = [] ∨ bracket = ['>']) ∧
      text = '<' :: '/' :: (before ++ (found ++ (after ++ bracket)))
  | .unterminatedTag =>
    d.span.stop = source.size ∧ ∃ gap tag rest, AllBlank gap ∧
      d.params.get? "tag" = some (.ofList tag) ∧ text = '<' :: (gap ++ (tag ++ rest))
  | .invalidAttribute | .tagNameAlphanumeric => text = []
  | _ => True

/-- A diagnostic whose span lies in the source, where it covers what the diagnostic is about. -/
structure Points (source : Source) (d : Diagnostic) : Prop where
  valid : d.span.Valid source
  names : ∃ text, source.slice? d.span = some text ∧ d.Names source text

variable {source : Source} {start : Nat} {text rest : List Char}

theorem points_of_slice? {d : Diagnostic} (slice : source.slice? d.span = some text)
    (names : d.Names source text) : d.Points source :=
  ⟨Span.valid_of_slice? slice, text, slice, names⟩

theorem slice?_point (here : source.suffix? start = some text) :
    source.slice? (.point start) = some [] := by
  have here : source.suffix? start = some ([] ++ text) := here
  exact Source.slice?_around here

theorem badAttr_points {tag : String} {failure : Failure SyntaxFault}
    (bad : BadAttr tag start text failure) (here : source.suffix? start = some text) :
    (ofFailure failure).Points source := by
  cases bad with
  | key edge => exact points_of_slice? (slice?_point here) rfl
  | @value key before after text blamed solid bad =>
    obtain ⟨rest, rfl⟩ := bad.isPrefix
    have atValue : source.suffix?
        (start + byteLength (key.chars ++ (before.chars ++ '=' :: after.chars))) =
          some (blamed ++ rest) := by
      apply Source.suffix?_add
      simpa using here
    exact points_of_slice? (Source.slice?_around atValue) True.intro

theorem stray_points {expected : Name} {failure : Failure SyntaxFault}
    (stray : Stray expected start text failure) (here : source.suffix? start = some text) :
    (ofFailure failure).Points source := by
  obtain ⟨gap, plain, solid, edge, other⟩ := stray
  rename_i written bracket rest
  obtain ⟨last, same, blank⟩ := exists_dropRightWhile isBlank written
  have atClosing : source.suffix? start =
      some ('<' :: '/' :: (gap.chars ++ (written ++ bracket)) ++ rest) := by
    simpa using here
  have bracket : bracket = [] ∨ bracket = ['>'] := edge.symm.imp_left And.left
  refine points_of_slice? (Source.slice?_around atClosing) ⟨gap.chars, dropRightWhile isBlank written,
    last, _, gap.blank, blank, rfl, bracket, ?_⟩
  rw [← List.append_assoc (dropRightWhile isBlank written), ← same]

theorem nameAt_slice (head : Head)
    (here : source.suffix? start = some (head.lead ++ (head.name.chars ++ rest))) :
    source.slice? (head.nameAt start).span = some head.name.chars :=
  Source.slice?_around (Source.suffix?_add here)

theorem broken_points {maxDepth levels : Nat} {failure : Failure SyntaxFault}
    (broken : Broken maxDepth levels start text failure) (here : source.suffix? start = some text) :
    (ofFailure failure).Points source := by
  induction broken with
  | unnamed gap solid edge =>
    exact points_of_slice? (slice?_point (Source.suffix?_add here)) rfl
  | tooDeep head edge => exact points_of_slice? (nameAt_slice head here) rfl
  | badAttr head gap ends solid more goesOn bad =>
    apply badAttr_points bad
    apply Source.suffix?_add
    simpa using here
  | @unterminated levels start head last =>
    have whole : source.suffix? start = some (head.text ++ last.chars ++ []) := by
      rw [List.append_nil]
      exact here
    refine points_of_slice? (Source.slice?_around whole) ⟨?_, head.gap.chars, head.name.chars,
      head.attrs.flatMap Attr.text ++ last.chars, head.gap.blank, rfl, ?_⟩
    · exact (Source.size_of_suffix? here).symm
    · simp [Head.text, Head.lead]
  | @unclosed levels start begun proper =>
    exact points_of_slice? (nameAt_slice begun.head (begun.head.suffix?_lead here)) rfl
  | mismatched begun proper stray => exact stray_points stray (Source.suffix?_add here)
  | inChild begun proper inside broken ih => exact ih (Source.suffix?_add here)

theorem brokenDocument_points {maxDepth : Nat} {failure : Failure SyntaxFault}
    (broken : BrokenDocument maxDepth start text failure) (here : source.suffix? start = some text) :
    (ofFailure failure).Points source := by
  cases broken with
  | intro items canonical flush shallow spaced broken =>
    exact broken_points broken (Source.suffix?_add here)

theorem attributeProblem_points {definition : TagDefinition} {tag : String} {attr : Attribute}
    {d : Diagnostic} (lies : AttributeLies source attr)
    (found : definition.attributeProblem? tag attr = some d) : d.Points source := by
  simp only [TagDefinition.attributeProblem?] at found
  split at found
  · cases found
    refine points_of_slice? lies.key_slice ?_
    rw [Names, String.ofList_toList]
    rfl
  · split at found
    · cases found
    · cases found
      obtain ⟨text, slice⟩ := lies.value_slice
      exact points_of_slice? slice True.intro

theorem missing_points {definition : TagDefinition} {name : Located String}
    {attributes : List Attribute} (slice : source.slice? name.span = some name.value.toList) :
    ∀ d ∈ definition.missing name attributes, d.Points source := by
  intro d member
  obtain ⟨entry, _, rfl⟩ := List.mem_map.mp member
  refine points_of_slice? slice ?_
  change Option.some name.value = some (.ofList name.value.toList)
  rw [String.ofList_toList]

theorem rejected_points {definition : TagDefinition} {name : Located String}
    {attributes : List Attribute} (slice : source.slice? name.span = some name.value.toList)
    (lie : ∀ attr ∈ attributes, AttributeLies source attr) :
    ∀ d ∈ definition.rejected name attributes, d.Points source := by
  intro d member
  obtain ⟨complaint, _, rfl⟩ := List.mem_map.mp member
  have shown : ∃ text,
      source.slice? ((valueSpan? attributes complaint.key).getD name.span) = some text := by
    unfold valueSpan?
    cases found : attributes.reverse.find? (·.key.value == complaint.key) with
    | none => exact ⟨_, slice⟩
    | some attr => exact (lie attr (List.mem_reverse.mp (List.mem_of_find?_eq_some found))).value_slice
  obtain ⟨text, slice⟩ := shown
  exact points_of_slice? slice True.intro

theorem problems_points (definition : TagDefinition) {name : Located String}
    {attributes : List Attribute} (slice : source.slice? name.span = some name.value.toList)
    (lie : ∀ attr ∈ attributes, AttributeLies source attr) :
    ∀ d ∈ definition.problems name attributes, d.Points source := by
  intro d member
  rcases List.mem_append.mp member with member | rejected
  · rcases List.mem_append.mp member with found | missing
    · obtain ⟨attr, listed, found⟩ := List.mem_filterMap.mp found
      exact attributeProblem_points (lie attr listed) found
    · exact missing_points slice d missing
  · exact rejected_points slice lie d rejected

theorem refineNodes_points (schema : Schema) {parent : Parent} {nodes : List Node}
    (each : ∀ node ∈ nodes, ∀ d ∈ (schema.refineNode parent node).problems, d.Points source) :
    ∀ d ∈ (schema.refineNodes parent nodes).problems, d.Points source := by
  induction nodes with
  | nil =>
    intro d member
    cases member
  | cons node nodes ih =>
    intro d member
    rw [Schema.refineNodes] at member
    rcases List.mem_append.mp member with first | others
    · exact each node List.mem_cons_self d first
    · exact ih (fun other member => each other (List.mem_cons_of_mem _ member)) d others

theorem refineNode_points (schema : Schema) {node : Node} (faithful : Faithful source node)
    (parent : Parent) : ∀ d ∈ (schema.refineNode parent node).problems, d.Points source := by
  induction faithful generalizing parent with
  | @text content span lies =>
    intro d member
    rw [Schema.refineNode] at member
    split at member
    · cases member
    · rename_i visible
      split at member
      · cases List.mem_singleton.mp member
        refine points_of_slice? lies.slice ⟨?_, lies.plain⟩
        rw [String.ofList_toList]
        exact Bool.eq_false_iff.mpr visible
      · cases member
  | @tag name attributes children span lies _ ih =>
    intro d member
    rw [Schema.refineNode] at member
    split at member
    · rename_i definition known
      rcases List.mem_append.mp member with own | inner
      · exact problems_points definition lies.name_slice lies.attributes_lie d own
      · exact refineNodes_points schema (fun child member => ih child member _) d inner
    · rcases List.mem_cons.mp member with rfl | inner
      · refine points_of_slice? lies.name_slice ?_
        change Option.some name.value = some (.ofList name.value.toList)
        rw [String.ofList_toList]
      · exact refineNodes_points schema (fun child member => ih child member _) d inner

theorem fault_points {maxDepth : Nat} {d : Diagnostic}
    (read : parseDocument maxDepth source = .error d) : d.Points source := by
  obtain ⟨failure, broken, rfl⟩ := exists_broken_of_error read
  exact brokenDocument_points broken (Source.suffix?_zero source)

theorem problem_points {maxDepth : Nat} {nodes : List Node}
    (read : parseDocument maxDepth source = .ok nodes) (schema : Schema) :
    ∀ d ∈ (schema.refine nodes).problems, d.Points source := by
  obtain ⟨document, same, _, rfl⟩ := exists_document_of_ok read
  obtain ⟨_, _, faithful⟩ := document.faithful same
  exact refineNodes_points schema fun node listed =>
    refineNode_points schema (faithful node listed) .root

theorem forall_errors {p : Diagnostic → Prop} (compiler : Compiler)
    (fault : ∀ d, parseDocument compiler.maxDepth source = .error d → p d)
    (problem : ∀ nodes, parseDocument compiler.maxDepth source = .ok nodes →
      ∀ d ∈ (compiler.schema.refine nodes).problems, p d) :
    ∀ d ∈ (compiler.compile source).errors, p d := by
  intro d member
  rw [Compiler.compile] at member
  cases read : parseDocument compiler.maxDepth source with
  | error fault' =>
    rw [read] at member
    cases List.mem_singleton.mp member
    exact fault d read
  | ok nodes =>
    rw [read] at member
    exact problem nodes read d member

theorem span_valid_of_mem_errors (compiler : Compiler) (source : Source) :
    ∀ d ∈ (compiler.compile source).errors, d.span.Valid source :=
  forall_errors compiler (fun _ read => (fault_points read).valid)
    fun _ read d member => (problem_points read compiler.schema d member).valid

/-- Every diagnostic of a compilation points at what it names, whatever the schema and its
    validators. -/
theorem compile_errors_point (compiler : Compiler) (source : Source) :
    ∀ d ∈ (compiler.compile source).errors, d.Points source :=
  forall_errors compiler (fun _ read => fault_points read)
    fun _ read d member => problem_points read compiler.schema d member

theorem compile_errors_point_mismatch :
    let fault := ((SyntaxFault.ofCode .mismatchedNesting).withParam "expected" "box").withParam
      "found" "bx"
    (Compiler.compile ⟨.builtin, 1⟩ (.ofString "<box>ü</ bx >")).errors =
        [ofFailure (.spanning fault ⟨7, 14⟩)] ∧
      (ofFailure (.spanning fault ⟨7, 14⟩)).Points (.ofString "<box>ü</ bx >") := by
  intro fault
  have errors : (Compiler.compile ⟨.builtin, 1⟩ (.ofString "<box>ü</ bx >")).errors =
      [ofFailure (.spanning fault ⟨7, 14⟩)] := by decide +kernel
  refine ⟨errors, compile_errors_point ⟨.builtin, 1⟩ (.ofString "<box>ü</ bx >") _ ?_⟩
  rw [errors]
  exact List.mem_cons_self

end Diagnostic

end PageMarkup
