import PageMarkup.Proofs.Written.Decided

namespace PageMarkup.Written

open Grammar

variable {source : Source} {start : Nat} {text rest body blamed : List Char} {key : Located String}

def inValue (c : Char) : Bool := !(isBlank c || c == '>')

theorem endsValue_iff : endsValue rest = true ↔ beginsWith inValue rest = false := by
  cases rest with
  | nil => exact iff_of_true rfl rfl
  | cons c rest => simp only [endsValue, beginsWith_cons, inValue, Bool.not_eq_false']

theorem inValue_of_runsOn {c : Char} (runs : runsOn c = true) : inValue c = true := by
  simp only [runsOn, Bool.not_eq_true', Bool.or_eq_false_iff] at runs
  rw [inValue, runs.1.1, runs.1.2]
  rfl

theorem takeWhile_inValue {numeral : Numeral} (proper : numeral.Proper)
    (ends : endsValue rest = true) : (numeral.text ++ rest).takeWhile inValue = numeral.text :=
  takeWhile_run (fun _ member => inValue_of_runsOn (runsOn_of_numeral (proper.mem_text member)))
    (endsValue_iff.mp ends)

def assigned (key : Located String) (literal : Literal) (start : Nat) : Success Attribute :=
  ⟨⟨key, ⟨literal.value, .around start literal.text⟩⟩, start + byteLength literal.text⟩

theorem assignedValue_eq_ok {success : Success Attribute}
    (here : source.suffix? start = some text) :
    assignedValue key source start = .ok success ↔
      ∃ (literal : Literal) (rest : List Char), text = literal.text ++ rest ∧ endsValue rest = true ∧
        success = assigned key literal start := by
  constructor
  · intro read
    rcases literal_or_badValue text with ⟨literal, rest, rfl, ends⟩ | ⟨blamed, bad⟩
    · rw [assignedValue_reads key literal ends here] at read
      cases read
      exact ⟨literal, rest, rfl, ends, rfl⟩
    · rw [assignedValue_fails key bad here] at read
      cases read
  · rintro ⟨literal, rest, rfl, ends, rfl⟩
    exact assignedValue_reads key literal ends here

theorem assignedValue_eq_error {failure : Failure SyntaxFault}
    (here : source.suffix? start = some text)
    (failed : assignedValue key source start = .error failure) :
    ∃ blamed, BadValue text blamed ∧ failure =
      .spanning ((SyntaxFault.ofCode .expectedAttrValue).withParam "key" key.value)
        (.around start blamed) := by
  rcases literal_or_badValue text with ⟨literal, rest, rfl, ends⟩ | ⟨blamed, bad⟩
  · rw [assignedValue_reads key literal ends here] at failed
    cases failed
  · rw [assignedValue_fails key bad here] at failed
    cases failed
    exact ⟨blamed, bad, rfl⟩

theorem Literal.noQuote_number {numeral : Numeral} (proper : numeral.Proper) (rest : List Char) :
    beginsWith (· == '"') (numeral.text ++ rest) = false := by
  apply proper.not_beginsWith_text rfl
  intro c digit
  rw [beq_eq_false_iff_ne]
  rintro rfl
  cases digit

theorem Literal.exists_string {literal : Literal} (same : '"' :: body = literal.text ++ rest) :
    ∃ (content : List Char) (unquoted : '"' ∉ content), literal = .string content unquoted ∧
      body = content ++ '"' :: rest := by
  cases literal with
  | string content unquoted =>
    refine ⟨content, unquoted, rfl, ?_⟩
    simpa [Literal.text] using same
  | number numeral proper =>
    have noQuote := noQuote_number proper rest
    rw [Literal.text] at same
    rw [← same] at noQuote
    cases noQuote

theorem Literal.exists_number {literal : Literal}
    (noQuote : beginsWith (· == '"') (literal.text ++ rest) = false) :
    ∃ (numeral : Numeral) (proper : numeral.Proper), literal = .number numeral proper := by
  cases literal with
  | string => cases noQuote
  | number numeral proper => exact ⟨numeral, proper, rfl⟩

theorem BadValue.isPrefix_inValue (bad : BadValue text blamed)
    (noQuote : beginsWith (· == '"') text = false) : blamed <+: text.takeWhile inValue := by
  cases bad with
  | unclosed => cases noQuote
  | missing => exact List.nil_prefix
  | @joined literal excess rest maximal goesOn run edge =>
    obtain ⟨numeral, proper, rfl⟩ := Literal.exists_number noQuote
    have inside : ∀ c ∈ numeral.text ++ excess, inValue c = true := by
      intro c member
      apply inValue_of_runsOn
      rcases List.mem_append.mp member with inNumeral | inExcess
      · exact runsOn_of_numeral (proper.mem_text inNumeral)
      · exact run c inExcess
    rw [Literal.text, ← List.append_assoc, List.takeWhile_append_of_pos inside]
    exact List.prefix_append _ _

/-- The value of an attribute is delimited exactly. Behind a quote it is what stands before the next
    quote, if the value ends behind that; everything else up to the next blank or `>` has to be a
    numeral as a whole. What is blamed for a value that is neither begins where the value should. -/
theorem attr_delimits_value (tag : String) (key : Name) (before after : Blanks) {value : List Char}
    (solid : beginsWith isBlank value = false)
    (here : source.suffix? start =
      some (key.chars ++ (before.chars ++ '=' :: (after.chars ++ value)))) :
    let keyAt : Located String := ⟨.ofList key.chars, .around start key.chars⟩
    let position := start + byteLength (key.chars ++ (before.chars ++ '=' :: after.chars))
    (∀ body, value = '"' :: body → ∀ success, attr tag source start = .ok success ↔
      ∃ content rest, body = content ++ '"' :: rest ∧ '"' ∉ content ∧ endsValue rest = true ∧
        success = ⟨⟨keyAt, ⟨.string (.ofList content), .around position ('"' :: (content ++ ['"']))⟩⟩,
          position + byteLength ('"' :: (content ++ ['"']))⟩) ∧
    (beginsWith (· == '"') value = false → ∀ success, attr tag source start = .ok success ↔
      ∃ numeral : Numeral, numeral.Proper ∧ value.takeWhile inValue = numeral.text ∧
        success = ⟨⟨keyAt, ⟨.number numeral.value, .around position numeral.text⟩⟩,
          position + byteLength numeral.text⟩) ∧
    ∀ failure, attr tag source start = .error failure →
      ∃ blamed, blamed <+: value ∧
        (beginsWith (· == '"') value = false → blamed <+: value.takeWhile inValue) ∧
        failure = .spanning
          ((SyntaxFault.ofCode .expectedAttrValue).withParam "key" (.ofList key.chars))
          (.around position blamed) := by
  intro keyAt position
  have atValue : source.suffix? position = some value := by
    apply Source.suffix?_add
    simpa using here
  rw [attr_of_equals tag key before after solid here]
  refine ⟨?_, fun noQuote success => ?_, fun failure failed => ?_⟩
  · rintro body rfl success
    rw [assignedValue_eq_ok atValue]
    constructor
    · rintro ⟨literal, rest, same, ends, rfl⟩
      obtain ⟨content, unquoted, rfl, rfl⟩ := Literal.exists_string same
      exact ⟨content, rest, rfl, unquoted, ends, rfl⟩
    · rintro ⟨content, rest, rfl, unquoted, ends, rfl⟩
      exact ⟨.string content unquoted, rest, by simp [Literal.text], ends, rfl⟩
  · rw [assignedValue_eq_ok atValue]
    constructor
    · rintro ⟨literal, rest, rfl, ends, rfl⟩
      obtain ⟨numeral, proper, rfl⟩ := Literal.exists_number noQuote
      exact ⟨numeral, proper, takeWhile_inValue proper ends, rfl⟩
    · rintro ⟨numeral, proper, whole, rfl⟩
      have split := List.takeWhile_append_dropWhile (p := inValue) (l := value)
      rw [whole] at split
      exact ⟨.number numeral proper, value.dropWhile inValue, split.symm,
        endsValue_iff.mpr (not_beginsWith_dropWhile inValue value), rfl⟩
  · obtain ⟨blamed, bad, rfl⟩ := assignedValue_eq_error atValue failed
    exact ⟨blamed, bad.isPrefix, bad.isPrefix_inValue, rfl⟩

theorem attr_delimits_value_joined :
    let key : Name := ⟨['k'], by simp, List.all_eq_true.mp rfl⟩
    let gap : Blanks := ⟨[' '], List.all_eq_true.mp rfl⟩
    let value := ['7', '.', 'x', ' ', 'b']
    let source := Source.ofString "k = 7.x b"
    beginsWith isBlank value = false ∧
      source.suffix? 0 = some (key.chars ++ (gap.chars ++ '=' :: (gap.chars ++ value))) ∧
      (∀ success, attr "a" source 0 ≠ .ok success) ∧
      ∃ blamed, blamed <+: ['7', '.', 'x'] ∧ attr "a" source 0 = .error (.spanning
        ((SyntaxFault.ofCode .expectedAttrValue).withParam "key" "k") (.around 4 blamed)) := by
  intro key gap value source
  have solid : beginsWith isBlank value = false := by decide
  have here : source.suffix? 0 =
      some (key.chars ++ (gap.chars ++ '=' :: (gap.chars ++ value))) := by decide +kernel
  have delimits := attr_delimits_value "a" key gap gap solid here
  have none (success : Success Attribute) : attr "a" source 0 ≠ .ok success := by
    intro read
    obtain ⟨numeral, proper, whole, _⟩ := (delimits.2.1 (by decide) success).mp read
    have inside : 'x' ∈ numeral.text := by
      rw [← whole]
      decide
    exact absurd (proper.mem_text inside) (by decide)
  refine ⟨solid, here, none, ?_⟩
  cases failed : attr "a" source 0 with
  | ok success => exact absurd failed (none success)
  | error failure =>
    obtain ⟨blamed, _, inRun, rfl⟩ := delimits.2.2 failure failed
    exact ⟨blamed, inRun (by decide), rfl⟩

end PageMarkup.Written
