import PageMarkup.Document.Grammar
import PageMarkup.Proofs.Parsing.Repetition
import PageMarkup.Proofs.Written.Positions

namespace PageMarkup.Written

open Grammar

variable {source : Source} {start : Nat} {rest : List Char}

theorem Name.not_beginsWith_isBlank (name : Name) (text : List Char) :
    beginsWith isBlank (name.chars ++ text) = false :=
  beginsWith_disjoint (fun _ => not_isBlank_of_isAlphanum)
    (beginsWith_of_forall name.nonempty name.alphanumeric)

theorem not_isAlphanum_of_ends {c : Char} (ends : (isBlank c || c == '>') = true) :
    c.isAlphanum = false := by
  cases alphanumeric : c.isAlphanum with
  | false => rfl
  | true =>
    rw [not_isBlank_of_isAlphanum alphanumeric, beq_eq_false_of_isAlphanum alphanumeric rfl] at ends
    cases ends

theorem beginsWith_of_endsValue {p : Char → Bool} (ends : endsValue rest = true)
    (disjoint : ∀ c, (isBlank c || c == '>') = true → p c = false) : beginsWith p rest = false := by
  cases rest with
  | nil => rfl
  | cons c rest => exact disjoint c ends

/-- What follows a literal does not go on with it. -/
def Literal.Maximal (rest : List Char) : Literal → Prop
  | .string _ _ => True
  | .number numeral _ => Numeral.read? (numeral.text ++ rest) = some numeral

theorem Literal.maximal_of_endsValue (literal : Literal) (ends : endsValue rest = true) :
    literal.Maximal rest := by
  cases literal with
  | string => exact True.intro
  | number numeral proper =>
    apply Numeral.read?_text proper
    apply beginsWith_of_endsValue ends
    intro c ends
    have name := not_isAlphanum_of_ends ends
    have digit : c.isDigit = false := (Bool.or_eq_false_iff.mp name).2
    have point : (c == '.') = false := by
      rw [beq_eq_false_iff_ne]
      rintro rfl
      exact absurd ends (by decide)
    rw [digit, point]
    rfl

theorem quotedString_reads {content : List Char} (unquoted : '"' ∉ content)
    (here : source.suffix? start = some ('"' :: (content ++ '"' :: rest))) :
    quotedString source start =
      .ok ⟨.ofList content, start + byteLength ('"' :: (content ++ ['"']))⟩ := by
  have taken : (content ++ '"' :: rest).takeWhile (· ≠ '"') = content := by
    apply takeWhile_run
    · intro c member
      rw [decide_eq_true_eq]
      rintro rfl
      exact unquoted member
    · rfl
  have closed : content.length < (content ++ '"' :: rest).length := by simp
  rw [quotedString, Source.rest_of_suffix? here]
  simp only [taken, closed, if_true]
  rfl

theorem quotedString_fails {text : List Char} (unquoted : beginsWith (· == '"') text = false)
    (here : source.suffix? start = some text) :
    quotedString source start = .error (.atPoint (.mechanical (.literal "\"")) start) := by
  rw [quotedString, Source.rest_of_suffix? here]
  split
  · cases unquoted
  · rfl

theorem Literal.not_beginsWith_text {p : Char → Bool} (quote : p '"' = false) (minus : p '-' = false)
    (digits : ∀ c, c.isDigit = true → p c = false) (literal : Literal) :
    beginsWith p (literal.text ++ rest) = false := by
  cases literal with
  | string content unquoted => exact quote
  | number numeral proper => exact proper.not_beginsWith_text minus digits rest

theorem Literal.not_beginsWith_blank (literal : Literal) :
    beginsWith isBlank (literal.text ++ rest) = false :=
  literal.not_beginsWith_text (by decide) (by decide) fun _ digit =>
    not_isBlank_of_isAlphanum (isAlphanum_of_isDigit digit)

theorem attrValue_reads (literal : Literal) (maximal : literal.Maximal rest)
    (here : source.suffix? start = some (literal.text ++ rest)) :
    attrValue source start = .ok ⟨literal.value, start + byteLength literal.text⟩ := by
  unfold attrValue
  cases literal with
  | string content unquoted =>
    have here : source.suffix? start = some ('"' :: (content ++ '"' :: rest)) := by
      simpa [Literal.text] using here
    exact Parser.choice_pair_of_ok (Parser.map_of_ok (quotedString_reads unquoted here))
  | number numeral proper =>
    have unquoted : beginsWith (· == '"') (numeral.text ++ rest) = false := by
      apply proper.not_beginsWith_text rfl
      intro c digit
      rw [beq_eq_false_iff_ne]
      rintro rfl
      cases digit
    exact Parser.choice_pair_of_error (Parser.map_of_error (quotedString_fails unquoted here))
      (Parser.map_of_ok (Parser.number_reads maximal here))

theorem key_reads (tag : String) (key : Name) (edge : beginsWith Char.isAlphanum rest = false)
    (here : source.suffix? start = some (key.chars ++ rest)) :
    expecting ((SyntaxFault.ofCode .invalidAttribute).withParam "tag" tag)
        Parser.alphanumeric1.located source start =
      .ok ⟨⟨.ofList key.chars, .around start key.chars⟩, start + byteLength key.chars⟩ :=
  Parser.expect_of_ok
    (Parser.located_of_ok (Parser.alphanumeric1_reads key.nonempty key.alphanumeric edge here))

def assignedValue (key : Located String) : DocumentParser Attribute := fun source offset => do
  let noValue := (SyntaxFault.ofCode .expectedAttrValue).withParam "key" key.value
  let value ← expecting noValue attrValue.located source offset
  let rest := source.rest value.offset
  if endsValue rest then .ok ⟨⟨key, value.value⟩, value.offset⟩
  else
    let excess := rest.takeWhile fun c => !(isBlank c || c == '>' || c == '<')
    .error (.spanning noValue ⟨value.value.span.start, value.offset + byteLength excess⟩)

theorem attr_of_equals (tag : String) (key : Name) (before after : Blanks)
    (solid : beginsWith isBlank rest = false)
    (here : source.suffix? start =
      some (key.chars ++ (before.chars ++ '=' :: (after.chars ++ rest)))) :
    Grammar.attr tag source start =
      assignedValue ⟨.ofList key.chars, .around start key.chars⟩ source
        (start + byteLength (key.chars ++ (before.chars ++ '=' :: after.chars))) := by
  have edge : beginsWith Char.isAlphanum (before.chars ++ '=' :: (after.chars ++ rest)) = false :=
    not_beginsWith_append (fun c member => not_isAlphanum_of_isBlank (before.blank c member)) rfl
  have atBefore := Source.suffix?_add here
  have atEquals : source.suffix? (start + byteLength key.chars + byteLength before.chars) =
      some ("=".toList ++ (after.chars ++ rest)) := Source.suffix?_add atBefore
  have atAfter := Source.suffix?_add atEquals
  have position : start + byteLength key.chars + byteLength before.chars + byteLength "=".toList +
      byteLength after.chars =
        start + byteLength (key.chars ++ (before.chars ++ '=' :: after.chars)) := by
    have sign : byteLength "=".toList = 1 := rfl
    have size : '='.utf8Size = 1 := rfl
    simp only [byteLength_append, byteLength_cons, sign, size]
    omega
  unfold Grammar.attr
  rw [key_reads tag key edge here, ok_bind]
  simp only [Parser.whitespace_reads before.blank rfl atBefore, ok_bind,
    Parser.literal_reads atEquals, Parser.whitespace_reads after.blank solid atAfter, position]
  rfl

theorem assignedValue_reads (key : Located String) (literal : Literal)
    (ends : endsValue rest = true)
    (here : source.suffix? start = some (literal.text ++ rest)) :
    assignedValue key source start =
      .ok ⟨⟨key, ⟨literal.value, .around start literal.text⟩⟩, start + byteLength literal.text⟩ := by
  have read := attrValue_reads literal (literal.maximal_of_endsValue ends) here
  simp only [assignedValue, expecting, Parser.expect_of_ok (Parser.located_of_ok read), ok_bind,
    Source.rest_of_suffix? (Source.suffix?_add here), ends, if_true]
  rfl

def Attr.EndsBefore (attr : Attr) (rest : List Char) : Prop :=
  match attr.assignment? with
  | some _ => endsValue rest = true
  | none => beginsWith Char.isAlphanum rest = false ∧
      beginsWith (· == '=') (rest.dropWhile isBlank) = false

theorem attr_reads (tag : String) (attr : Attr) (ends : attr.EndsBefore rest)
    (here : source.suffix? start = some (attr.core ++ rest)) :
    Grammar.attr tag source start =
      .ok ⟨attr.attributeAt start, start + byteLength attr.core⟩ := by
  obtain ⟨gap, apart, key, assignment?⟩ := attr
  cases assignment? with
  | none =>
    obtain ⟨edge, notEquals⟩ := ends
    obtain ⟨blanks, behind, rfl, blank, solid⟩ := exists_run isBlank rest
    have here : source.suffix? start = some (key.chars ++ (blanks ++ behind)) := by
      simpa [Attr.core] using here
    have after := Source.suffix?_add here
    have absent : "=".toList.isPrefixOf behind = false := by
      rw [dropWhile_run blank solid] at notEquals
      exact (Parser.isPrefixOf_singleton '=' behind).trans notEquals
    unfold Grammar.attr
    rw [key_reads tag key edge here, ok_bind]
    simp only [Parser.whitespace_reads blank solid after, ok_bind,
      Parser.literal_fails absent (Source.suffix?_add after)]
    simp [Attr.core, Attr.attributeAt]
  | some assignment =>
    obtain ⟨before, after, literal⟩ := assignment
    have here : source.suffix? start =
        some (key.chars ++ (before.chars ++ '=' :: (after.chars ++ (literal.text ++ rest)))) := by
      simpa [Attr.core, Assignment.text, Assignment.lead] using here
    have atValue : source.suffix? (start +
        byteLength (key.chars ++ (before.chars ++ '=' :: after.chars))) =
          some (literal.text ++ rest) := by
      apply Source.suffix?_add
      simpa using here
    rw [attr_of_equals tag key before after literal.not_beginsWith_blank here,
      assignedValue_reads _ literal ends atValue]
    simp [Attr.core, Attr.attributeAt, Assignment.text, Assignment.lead, byteLength_append,
      Nat.add_assoc]

theorem afterBlanks_reads {α : Type} (parser : DocumentParser α) {gap : List Char}
    (blank : ∀ c ∈ gap, isBlank c = true) (solid : beginsWith isBlank rest = false)
    (here : source.suffix? start = some (gap ++ rest)) :
    afterBlanks parser source start = parser source (start + byteLength gap) := by
  rw [afterBlanks, Parser.whitespace_reads blank solid here, ok_bind]

def endOfAttributes : DocumentParser Unit :=
  afterBlanks (Parser.choice ((Parser.literal ">").map fun _ => ()) [Parser.endOfInput])

theorem attributes_eq (tag : String) :
    attributes tag = Parser.manyUntil (afterBlanks (attr tag)) endOfAttributes := rfl

theorem endOfAttributes_reads {gap : List Char} (blank : ∀ c ∈ gap, isBlank c = true)
    (ends : rest = [] ∨ ∃ behind, rest = '>' :: behind)
    (here : source.suffix? start = some (gap ++ rest)) :
    ∃ success, endOfAttributes source start = .ok success := by
  rcases ends with rfl | ⟨behind, rfl⟩
  · rw [endOfAttributes, afterBlanks_reads _ blank rfl here]
    have there := Source.suffix?_add here
    exact ⟨_, Parser.choice_pair_of_error
      (Parser.map_of_error (Parser.literal_fails rfl there)) (Parser.endOfInput_reads there)⟩
  · rw [endOfAttributes, afterBlanks_reads _ blank rfl here]
    have there : source.suffix? (start + byteLength gap) = some (">".toList ++ behind) :=
      Source.suffix?_add here
    exact ⟨_, Parser.choice_pair_of_ok (Parser.map_of_ok (Parser.literal_reads there))⟩

theorem endOfAttributes_fails {gap : List Char} (blank : ∀ c ∈ gap, isBlank c = true)
    (solid : beginsWith isBlank rest = false) (more : rest ≠ [])
    (goesOn : beginsWith (· == '>') rest = false)
    (here : source.suffix? start = some (gap ++ rest)) :
    ∃ failure, endOfAttributes source start = .error failure := by
  rw [endOfAttributes, afterBlanks_reads _ blank solid here]
  have there := Source.suffix?_add here
  have absent : ">".toList.isPrefixOf rest = false :=
    (Parser.isPrefixOf_singleton '>' rest).trans goesOn
  exact ⟨_, Parser.choice_pair_fails (Parser.map_of_error (Parser.literal_fails absent there))
    (Parser.endOfInput_fails more there) le_rfl⟩

def AttrsEndBefore (rest : List Char) : List Attr → Prop
  | [] => True
  | attr :: attrs =>
    attr.EndsBefore (attrs.flatMap Attr.text ++ rest) ∧ AttrsEndBefore rest attrs

theorem Attr.beginsWith_core {attr : Attr} : beginsWith Char.isAlphanum (attr.core ++ rest) = true := by
  rw [core, List.append_assoc]
  exact beginsWith_of_forall attr.key.nonempty attr.key.alphanumeric

theorem attrs_steps (tag : String) (attrs : List Attr) (ends : AttrsEndBefore rest attrs)
    (here : source.suffix? start = some (attrs.flatMap Attr.text ++ rest)) :
    Parser.Steps (afterBlanks (attr tag)) source
      (fun offset => ∃ failure, endOfAttributes source offset = .error failure) start
      (attributesAt start attrs) (start + byteLength (attrs.flatMap Attr.text)) := by
  induction attrs generalizing start with
  | nil => exact .done start
  | cons first attrs ih =>
    obtain ⟨atGap, atCore, atRest⟩ := suffix?_attrs_cons here
    have begins : beginsWith Char.isAlphanum (first.core ++ (attrs.flatMap Attr.text ++ rest)) = true :=
      first.beginsWith_core
    have solid := beginsWith_disjoint (fun _ => not_isBlank_of_isAlphanum) begins
    have nonempty : first.core ≠ [] := by simp [Attr.core, first.key.nonempty]
    have goesOn := endOfAttributes_fails first.gap.blank solid (by simp [nonempty])
      (beginsWith_disjoint (fun _ name => beq_eq_false_of_isAlphanum name rfl) begins) atGap
    have read := attr_reads tag first ends.1 atCore
    rw [← afterBlanks_reads (attr tag) first.gap.blank solid atGap] at read
    have position : start + byteLength first.gap.chars + byteLength first.core =
        start + byteLength first.text := by
      rw [Attr.text, byteLength_append, Nat.add_assoc]
    have advances := byteLength_pos nonempty
    have size := Source.size_of_suffix? atRest
    rw [position] at read
    rw [attributesAt, List.flatMap_cons, byteLength_append, ← Nat.add_assoc]
    exact .step goesOn read (by simp only [Attr.text, byteLength_append]; omega) (by simp only; omega)
      (ih ends.2 atRest)

theorem attributes_reads (tag : String) (attrs : List Attr) {gap : List Char}
    (blank : ∀ c ∈ gap, isBlank c = true) (stops : rest = [] ∨ ∃ behind, rest = '>' :: behind)
    (ends : AttrsEndBefore (gap ++ rest) attrs)
    (here : source.suffix? start = some (attrs.flatMap Attr.text ++ (gap ++ rest))) :
    attributes tag source start =
      .ok ⟨attributesAt start attrs, start + byteLength (attrs.flatMap Attr.text)⟩ := by
  obtain ⟨success, stop⟩ := endOfAttributes_reads blank stops (Source.suffix?_add here)
  rw [attributes_eq, Parser.manyUntil_of_steps (attrs_steps tag attrs ends here) fun _ open' => open',
    Parser.manyUntil_of_ok stop]
  simp [Except.map, Parser.prepend]

end PageMarkup.Written
