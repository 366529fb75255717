import PageMarkup.Proofs.Layout.Basic
import PageMarkup.Proofs.Written.Coverage

namespace PageMarkup.Written

variable {source : Source} {maxDepth levels start offset : Nat} {failure : Failure SyntaxFault}
  {text : List Char} {expected : Name}

/-- The closing tag of that name up to its bracket, and then another tag or nothing. -/
def CutShort (name text : List Char) : Prop :=
  ∃ written rest, Layout.Closes name (written ++ ['>']) ∧ text = written ++ rest ∧
    beginsWith (· != '<') rest = false

def staysInTag (c : Char) : Bool := !(c == '>' || c == '<')

theorem not_beginsWith_staysInTag {rest : List Char} (edge : beginsWith (· != '<') rest = false) :
    beginsWith staysInTag rest = false := by
  rcases nil_or_cons_of_stop edge with rfl | ⟨behind, rfl⟩
  · rfl
  · rfl

theorem staysInTag_of_name (name : Name) (after : Blanks) :
    ∀ c ∈ name.chars ++ after.chars, staysInTag c = true := by
  intro c member
  have other : (c == '>') = false ∧ (c == '<') = false := by
    rcases List.mem_append.mp member with inName | inGap
    · have alphanumeric := name.alphanumeric c inName
      exact ⟨beq_eq_false_of_isAlphanum alphanumeric rfl, beq_eq_false_of_isAlphanum alphanumeric rfl⟩
    · have blank := after.blank c inGap
      exact ⟨beq_eq_false_of_isBlank blank rfl, beq_eq_false_of_isBlank blank rfl⟩
  simp [staysInTag, other]

theorem dropRightWhile_isBlank_eq_name {written : List Char} (name : Name) :
    dropRightWhile isBlank written = name.chars ↔
      ∃ after : Blanks, written = name.chars ++ after.chars := by
  constructor
  · intro same
    obtain ⟨after, split, blank⟩ := exists_dropRightWhile isBlank written
    rw [same] at split
    exact ⟨⟨after, blank⟩, split⟩
  · rintro ⟨after, rfl⟩
    have reversed : ∀ c ∈ name.chars.reverse, c.isAlphanum = true := fun c member =>
      name.alphanumeric c (List.mem_reverse.mp member)
    have begins : beginsWith Char.isAlphanum (name.chars.reverse ++ []) = true :=
      beginsWith_of_forall (List.reverse_ne_nil_iff.mpr name.nonempty) reversed
    rw [List.append_nil] at begins
    have solid := beginsWith_disjoint (fun _ => not_isBlank_of_isAlphanum) begins
    exact dropRightWhile_run solid after.blank

theorem CutShort.exists_blanks {name : Name} {gap : Blanks} {written behind : List Char}
    (cut : CutShort name.chars ('<' :: '/' :: (gap.chars ++ (written ++ behind))))
    (solid : beginsWith isBlank (written ++ behind) = false)
    (inTag : ∀ c ∈ written, staysInTag c = true) (edge : beginsWith staysInTag behind = false) :
    ∃ after : Blanks, written = name.chars ++ after.chars := by
  obtain ⟨tag, rest, ⟨before, after, blank, blank', closes⟩, same, edge'⟩ := cut
  have closes : tag ++ ['>'] = '<' :: '/' :: (before ++ name.chars ++ after) ++ ['>'] := closes
  have unbracketed := List.append_cancel_right closes
  have split : gap.chars ++ (written ++ behind) = before ++ (name.chars ++ (after ++ rest)) := by
    simpa [unbracketed] using same
  obtain ⟨_, split⟩ := run_unique gap.blank blank solid (name.not_beginsWith_isBlank _) split
  rw [← List.append_assoc name.chars] at split
  have whole := run_unique inTag (staysInTag_of_name name ⟨after, blank'⟩) edge
    (not_beginsWith_staysInTag edge') split
  exact ⟨⟨after, blank'⟩, whole.1⟩

def mismatch (expected found : List Char) (span : Span) : Failure SyntaxFault :=
  .spanning (((SyntaxFault.ofCode .mismatchedNesting).withParam "expected"
    (.ofList expected)).withParam "found" (.ofList found)) span

/-- A closing tag that is not the expected one is shown with the expected name only if it lacks
    nothing but its bracket: with one, it would have been read. -/
theorem Stray.exists_mismatch (stray : Stray expected offset text failure) :
    ∃ found stop, failure = mismatch expected.chars found ⟨offset, stop⟩ ∧
      (found = expected.chars ↔ CutShort expected.chars text) := by
  cases stray with
  | @intro gap written bracket rest plain solid edge other =>
    refine ⟨_, _, rfl, ?_⟩
    rw [dropRightWhile_isBlank_eq_name]
    constructor
    · rintro ⟨after, rfl⟩
      rcases edge with rfl | ⟨rfl, edge⟩
      · have closes := other ⟨⟨[], by simp⟩, gap, after⟩ rest
        exact absurd (by simp [Closing.text]) closes
      · refine ⟨'<' :: '/' :: (gap.chars ++ expected.chars ++ after.chars), rest, ?_, ?_, edge⟩
        · exact ⟨gap.chars, after.chars, gap.blank, after.blank, rfl⟩
        · simp
    · intro cut
      have inTag : ∀ c ∈ written, staysInTag c = true := fun c member => by
        simp only [staysInTag, plain c member, Bool.not_false]
      have stop : beginsWith staysInTag (bracket ++ rest) = false := by
        rcases edge with rfl | ⟨rfl, edge⟩
        · rfl
        · exact not_beginsWith_staysInTag edge
      exact cut.exists_blanks solid inTag stop

theorem Broken.exists_stray_of_mismatch (broken : Broken maxDepth levels start text failure)
    (code : (Diagnostic.ofFailure failure).code = .mismatchedNesting)
    (here : source.suffix? start = some text) :
    ∃ expected offset text, source.suffix? offset = some text ∧
      Stray expected offset text failure := by
  induction broken with
  | unnamed => cases code
  | tooDeep => cases code
  | badAttr _ _ _ _ _ _ bad =>
    cases bad with
    | key => cases code
    | value => cases code
  | unterminated => cases code
  | unclosed => cases code
  | mismatched begun proper stray => exact ⟨_, _, _, Source.suffix?_add here, stray⟩
  | inChild begun proper inside broken ih => exact ih code (Source.suffix?_add here)

/-- A mismatch tells the expected name and what was found, and these are the same exactly if the
    closing tag is cut short. -/
theorem parseDocument_mismatch_names {d : Diagnostic}
    (rejected : parseDocument maxDepth source = .error d) (code : d.code = .mismatchedNesting) :
    ∃ expected found text,
      d = ((Diagnostic.ofCode .mismatchedNesting d.span).withParam "expected" expected).withParam
        "found" found ∧
      source.suffix? d.span.start = some text ∧
      (found = expected ↔ CutShort expected.toList text) := by
  obtain ⟨failure, broken, rfl⟩ := exists_broken_of_error rejected
  generalize whole : source.text = written at broken
  cases broken with
  | intro items canonical flush shallow spaced broken =>
    have atStart : source.suffix? 0 = some source.text := Source.suffix?_zero source
    rw [whole] at atStart
    obtain ⟨expected, offset, text, here, stray⟩ :=
      broken.exists_stray_of_mismatch code (Source.suffix?_add atStart)
    obtain ⟨found, stop, rfl, same⟩ := stray.exists_mismatch
    refine ⟨.ofList expected.chars, .ofList found, text, rfl, here, ?_⟩
    rw [String.ofList_inj, String.toList_ofList, same]

theorem parseDocument_mismatch_names_ab :
    let d := ((Diagnostic.ofCode .mismatchedNesting ⟨3, 8⟩).withParam "expected" "a").withParam
      "found" "ab"
    parseDocument 1 (.ofString "<a></ab>") = .error d ∧ ∃ expected found text,
      d = ((Diagnostic.ofCode .mismatchedNesting d.span).withParam "expected" expected).withParam
        "found" found ∧
      (Source.ofString "<a></ab>").suffix? d.span.start = some text ∧
      (found = expected ↔ CutShort expected.toList text) := by
  intro d
  have rejected : parseDocument 1 (.ofString "<a></ab>") = .error d := by decide +kernel
  exact ⟨rejected, parseDocument_mismatch_names rejected rfl⟩

/-- What this report expects is what it found, for the closing tag is cut short. -/
theorem exists_mismatch_of_expected :
    ∃ d, parseDocument 1 (.ofString "<a></a") = .error d ∧ d.code = .mismatchedNesting ∧
      d.params.get? "expected" = some "a" ∧ d.params.get? "found" = some "a" ∧
      d.message = "Expected closing tag </a>, found </a>" :=
  ⟨((Diagnostic.ofCode .mismatchedNesting ⟨3, 6⟩).withParam "expected" "a").withParam "found" "a",
    by decide +kernel, rfl, by decide +kernel, by decide +kernel, by decide +kernel⟩

end PageMarkup.Written
