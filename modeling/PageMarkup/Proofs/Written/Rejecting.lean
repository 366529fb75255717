import PageMarkup.Proofs.Written.Broken

namespace PageMarkup.Written

open Grammar

variable {source : Source} {start : Nat} {text blamed : List Char}

theorem cover_point (start : Nat) (text : List Char) :
    (Span.point start).cover (.point (start + byteLength text)) = .around start text := by
  simp [Span.point, Span.cover, Span.around]

theorem cover_self (span : Span) : span.cover span = span := by
  simp [Span.cover]

theorem quotedString_fails_unclosed (unquoted : '"' ∉ text)
    (here : source.suffix? start = some ('"' :: text)) :
    quotedString source start =
      .error (.atPoint (.mechanical .unterminatedRepetition) (start + byteLength ('"' :: text))) := by
  have taken : text.takeWhile (· ≠ '"') = text := by
    rw [List.takeWhile_eq_self_iff]
    intro c member
    rw [decide_eq_true_eq]
    rintro rfl
    exact unquoted member
  rw [quotedString, Source.rest_of_suffix? here]
  simp only [taken, Nat.lt_irrefl, if_false]
  rfl

theorem attrValue_fails_unclosed (unquoted : '"' ∉ text)
    (here : source.suffix? start = some ('"' :: text)) :
    attrValue source start =
      .error (.atPoint (.mechanical .unterminatedRepetition) (start + byteLength ('"' :: text))) :=
  Parser.choice_pair_fails (Parser.map_of_error (quotedString_fails_unclosed unquoted here))
    (Parser.map_of_error (Parser.number_fails rfl here)) (Nat.le_add_right _ _)

theorem attrValue_fails_missing (noQuote : beginsWith (· == '"') text = false)
    (noNumeral : Numeral.read? text = none) (here : source.suffix? start = some text) :
    attrValue source start = .error (.atPoint (.mechanical (.literal "\"")) start) :=
  Parser.choice_pair_fails (Parser.map_of_error (quotedString_fails noQuote here))
    (Parser.map_of_error (Parser.number_fails noNumeral here)) le_rfl

theorem assignedValue_fails (key : Located String) (bad : BadValue text blamed)
    (here : source.suffix? start = some text) :
    assignedValue key source start =
      .error (.spanning ((SyntaxFault.ofCode .expectedAttrValue).withParam "key" key.value)
        (.around start blamed)) := by
  cases bad with
  | unclosed unquoted =>
    have failed := attrValue_fails_unclosed unquoted here
    simp only [assignedValue, expecting, Parser.expect_of_error (Parser.located_of_error failed),
      error_bind, Failure.atPoint, cover_point]
    rfl
  | missing noQuote noNumeral =>
    have failed := attrValue_fails_missing noQuote noNumeral here
    simp only [assignedValue, expecting, Parser.expect_of_error (Parser.located_of_error failed),
      error_bind, Failure.atPoint, cover_self]
    rfl
  | @joined literal excess rest maximal goesOn run edge =>
    have read := attrValue_reads literal maximal here
    have behind := Source.suffix?_add here
    have taken : (excess ++ rest).takeWhile (fun c => !(isBlank c || c == '>' || c == '<')) = excess :=
      takeWhile_run run edge
    simp only [assignedValue, expecting, Parser.expect_of_ok (Parser.located_of_ok read), ok_bind,
      Source.rest_of_suffix? behind, goesOn, Bool.false_eq_true, if_false, taken, Span.around,
      byteLength_append, Nat.add_assoc]

theorem attr_fails {tag : String} {failure : Failure SyntaxFault}
    (bad : BadAttr tag start text failure) (here : source.suffix? start = some text) :
    attr tag source start = .error failure := by
  cases bad with
  | key edge =>
    have failed : (Parser.alphanumeric1 source start : Except (Failure SyntaxFault) _) = _ :=
      Parser.alphanumeric1_fails edge here
    simp only [attr, expecting, Parser.expect_of_error (Parser.located_of_error failed), error_bind,
      Failure.atPoint, cover_self]
  | @value key before after text blamed solid bad =>
    rw [attr_of_equals tag key before after solid here]
    apply assignedValue_fails _ bad
    apply Source.suffix?_add
    simpa using here

theorem attributes_fails {tag : String} {attrs : List Attr} {gap : Blanks}
    {failure : Failure SyntaxFault} (ends : AttrsEndBefore (gap.chars ++ text) attrs)
    (solid : beginsWith isBlank text = false) (more : text ≠ [])
    (goesOn : beginsWith (· == '>') text = false)
    (bad : BadAttr tag (start + byteLength (attrs.flatMap Attr.text ++ gap.chars)) text failure)
    (here : source.suffix? start = some (attrs.flatMap Attr.text ++ (gap.chars ++ text))) :
    attributes tag source start = .error failure := by
  have atGap := Source.suffix?_add here
  have atText := Source.suffix?_add atGap
  obtain ⟨failure', open'⟩ := endOfAttributes_fails gap.blank solid more goesOn atGap
  have failed : afterBlanks (attr tag) source (start + byteLength (attrs.flatMap Attr.text)) =
      .error failure := by
    rw [afterBlanks_reads _ gap.blank solid atGap]
    rw [byteLength_append, ← Nat.add_assoc] at bad
    exact attr_fails bad atText
  have inside : start + byteLength (attrs.flatMap Attr.text) < source.size := by
    have size := Source.size_of_suffix? atText
    have advances := byteLength_pos more
    omega
  rw [attributes_eq, Parser.manyUntil_of_steps (attrs_steps tag attrs ends here) fun _ open' => open',
    Parser.manyUntil_of_error inside open' failed]
  rfl

theorem endOfOpening_fails (tag : String) (start : Nat) {offset : Nat} (gap : Blanks)
    (here : source.suffix? offset = some (gap.chars ++ [])) :
    endOfOpening tag start source offset =
      .error (.spanning ((SyntaxFault.ofCode .unterminatedTag).withParam "tag" tag)
        ⟨start, offset + byteLength gap.chars⟩) := by
  have there := Source.suffix?_add here
  have absent : ">".toList.isPrefixOf [] = false := rfl
  simp only [endOfOpening, Parser.whitespace_reads gap.blank rfl here, ok_bind,
    Parser.literal_fails absent there]
  rfl

theorem tagName_fails (gap : Blanks) (solid : beginsWith isBlank text = false)
    (edge : beginsWith Char.isAlphanum text = false)
    (here : source.suffix? start = some ('<' :: (gap.chars ++ text))) :
    tagName source start = .error (.atPoint (SyntaxFault.ofCode .tagNameAlphanumeric)
      (start + byteLength ('<' :: gap.chars))) := by
  have here : source.suffix? start = some ("<".toList ++ (gap.chars ++ text)) := here
  have atGap := Source.suffix?_add here
  have atText := Source.suffix?_add atGap
  have failed : (Parser.alphanumeric1 source (start + byteLength "<".toList + byteLength gap.chars) :
      Except (Failure SyntaxFault) _) = _ := Parser.alphanumeric1_fails edge atText
  have position : start + byteLength "<".toList + byteLength gap.chars =
      start + byteLength ('<' :: gap.chars) := Nat.add_assoc _ _ _
  simp only [tagName, expecting, Parser.expect_of_ok (Parser.literal_reads here), ok_bind,
    afterBlanks_reads _ gap.blank solid atGap]
  rw [Parser.expect_of_error (Parser.located_of_error failed), position]
  simp only [Failure.atPoint, cover_self]

theorem tag_fails_in_body (maxDepth levels : Nat) {begun : Begun} (proper : begun.Proper levels)
    {failure : Failure SyntaxFault} (edge : beginsWith (· != '<') text = false)
    (here : source.suffix? start = some (begun.text ++ text))
    (failed : ∀ offset, offset + byteLength begun.gap.chars = start + byteLength begun.text →
      source.suffix? offset = some (begun.gap.chars ++ text) →
      body (node maxDepth levels) (begun.head.nameAt start) source offset = .error failure) :
    tag maxDepth (inner? maxDepth (levels + 1)) source start = .error failure := by
  obtain ⟨head, last, children, gap⟩ := begun
  have here : source.suffix? start =
      some (head.text ++ (last.chars ++ '>' :: (texts children ++ (gap.chars ++ text)))) := by
    simpa [Begun.text] using here
  have atBody := head.suffix?_body last here
  have position : start + byteLength (head.text ++ last.chars) + 1 + byteLength (texts children) +
      byteLength gap.chars = start + byteLength (Begun.text ⟨head, last, children, gap⟩) := by
    have bracket : '>'.utf8Size = 1 := rfl
    simp only [Begun.text, byteLength_append, byteLength_cons, bracket]
    omega
  have reads : ∀ child ∈ children, Reads (node maxDepth levels) child := fun child member =>
    node_reads maxDepth (proper.canonical child member)
      (Nat.le_trans (depth_le_depths member) proper.shallow)
  have ends : ItemsEndBefore (gap.chars ++ text) children :=
    itemsEndBefore_of_spaced proper.spaced edge
  rw [inner?, tag_reads_head maxDepth _ head last (head.endsBefore (stops_of_bracket last)) here,
    body_reads_children _ (head.nameAt start) children reads proper.visible ends atBody,
    failed _ position (Source.suffix?_add atBody)]
  rfl

theorem body_fails_at_end (child : DocumentParser PageMarkup.Node) (name : Located String) (gap : Blanks)
    (here : source.suffix? start = some (gap.chars ++ [])) :
    body child name source start =
      .error ⟨(SyntaxFault.ofCode .unclosedTag).withParam "tag" name.value,
        start + byteLength gap.chars, name.span⟩ := by
  have there := Source.suffix?_add here
  have inside : "</".toList.isPrefixOf [] = false := rfl
  obtain ⟨failure, notClosed⟩ := closing_fails name.value inside there
  rw [body, Source.rest_of_suffix? here, takeWhile_run gap.blank rfl]
  simp only [notClosed, Source.rest_of_suffix? there, inside, Bool.false_eq_true, if_false,
    (Source.size_le_iff there).mpr rfl, if_true]

theorem body_fails_in_child (child : DocumentParser PageMarkup.Node) (name : Located String) (gap : Blanks)
    {failure : Failure SyntaxFault} (solid : beginsWith isBlank text = false) (more : text ≠ [])
    (inside : NotClosing text) (here : source.suffix? start = some (gap.chars ++ text))
    (failed : child source (start + byteLength gap.chars) = .error failure) :
    body child name source start = .error failure := by
  have there := Source.suffix?_add here
  obtain ⟨failure', notClosed⟩ := closing_fails name.value inside there
  have goesOn : ¬ source.size ≤ start + byteLength gap.chars := fun stops =>
    more ((Source.size_le_iff there).mp stops)
  have inside : "</".toList.isPrefixOf text = false := inside
  rw [body, Source.rest_of_suffix? here, takeWhile_run gap.blank solid]
  simp only [notClosed, Source.rest_of_suffix? there, inside, goesOn, failed, Bool.false_eq_true,
    if_false]

theorem exists_append_of_isPrefixOf {left text : List Char} (begins : left.isPrefixOf text = true) :
    ∃ right, text = left ++ right := by
  rw [List.isPrefixOf_iff_prefix] at begins
  obtain ⟨right, same⟩ := begins
  exact ⟨right, same.symm⟩

theorem closing_reads_or_fails (name : Name) (here : source.suffix? start = some text) :
    (∃ (closed : Closing) (rest : List Char), text = closed.text name ++ rest) ∨
      ∃ failure, closing (.ofList name.chars) source start = .error failure := by
  unfold closing
  cases slash : "</".toList.isPrefixOf text with
  | false =>
    rw [Parser.literal_fails slash here]
    exact .inr ⟨_, rfl⟩
  | true =>
    obtain ⟨behind, rfl⟩ := exists_append_of_isPrefixOf slash
    obtain ⟨before, inner, rfl, blankBefore, solid⟩ := exists_run isBlank behind
    have atGap := Source.suffix?_add here
    have atName := Source.suffix?_add atGap
    rw [Parser.literal_reads here, ok_bind, afterBlanks_reads _ blankBefore solid atGap]
    cases called : (String.ofList name.chars).toList.isPrefixOf inner with
    | false =>
      rw [Parser.literal_fails called atName]
      exact .inr ⟨_, rfl⟩
    | true =>
      obtain ⟨behind, rfl⟩ := exists_append_of_isPrefixOf called
      obtain ⟨after, inner, rfl, blankAfter, solid'⟩ := exists_run isBlank behind
      have atGap' := Source.suffix?_add atName
      have atEnd := Source.suffix?_add atGap'
      rw [Parser.literal_reads atName, ok_bind, afterBlanks_reads _ blankAfter solid' atGap']
      cases closed : ">".toList.isPrefixOf inner with
      | false =>
        rw [Parser.literal_fails closed atEnd]
        exact .inr ⟨_, rfl⟩
      | true =>
        obtain ⟨rest, rfl⟩ := exists_append_of_isPrefixOf closed
        refine .inl ⟨⟨⟨[], by simp⟩, ⟨before, blankBefore⟩, ⟨after, blankAfter⟩⟩, rest, ?_⟩
        simp [Closing.text]

theorem mismatchedClosing_eq {expected : Name} {failure : Failure SyntaxFault}
    (stray : Stray expected start text failure) (here : source.suffix? start = some text) :
    mismatchedClosing source start (.ofList expected.chars) = failure := by
  cases stray with
  | @intro gap written bracket rest plain solid edge other =>
    have inner : (gap.chars ++ (written ++ (bracket ++ rest))).dropWhile isBlank =
        written ++ (bracket ++ rest) := dropWhile_run gap.blank solid
    have blanks : (gap.chars ++ (written ++ (bracket ++ rest))).takeWhile isBlank = gap.chars :=
      takeWhile_run gap.blank solid
    have stops : beginsWith (fun c => !(c == '>' || c == '<')) (bracket ++ rest) = false := by
      rcases edge with rfl | ⟨rfl, bracket⟩
      · rfl
      · rcases nil_or_cons_of_stop bracket with rfl | ⟨behind, rfl⟩ <;> rfl
    have run : (written ++ (bracket ++ rest)).takeWhile (fun c => !(c == '>' || c == '<')) = written :=
      takeWhile_run (fun c member => by rw [plain c member]; rfl) stops
    have closed : (if ((bracket ++ rest).take 1 == ['>']) = true then ['>'] else []) = bracket := by
      rcases edge with rfl | ⟨rfl, bracket⟩
      · rfl
      · rcases nil_or_cons_of_stop bracket with rfl | ⟨behind, rfl⟩ <;> rfl
    rw [mismatchedClosing, Source.rest_of_suffix? here]
    simp only [List.drop_succ_cons, List.drop_zero, inner, blanks, run, List.drop_left, closed]
    simp [Span.around]

theorem body_fails_at_stray (child : DocumentParser PageMarkup.Node) {name : Name} (span : Span)
    (gap : Blanks) {failure : Failure SyntaxFault}
    (stray : Stray name (start + byteLength gap.chars) text failure)
    (here : source.suffix? start = some (gap.chars ++ text)) :
    body child ⟨.ofList name.chars, span⟩ source start = .error failure := by
  have there := Source.suffix?_add here
  have same := mismatchedClosing_eq stray there
  have slash : "</".toList.isPrefixOf text = true := by
    cases stray
    rfl
  have solid : beginsWith isBlank text = false := by
    cases stray
    rfl
  have notClosed : ∃ failure, closing (.ofList name.chars) source (start + byteLength gap.chars) =
      .error failure := by
    rcases closing_reads_or_fails name there with ⟨closed, rest, closes⟩ | fails
    · cases stray with
      | intro gap plain solid edge other => exact absurd closes (other closed rest)
    · exact fails
  obtain ⟨failure', notClosed⟩ := notClosed
  rw [body, Source.rest_of_suffix? here, takeWhile_run gap.blank solid]
  simp only [notClosed, Source.rest_of_suffix? there, slash, if_true, same]

theorem Head.beginsWith_bracket (head : Head) : beginsWith (· == '<') (head.text ++ text) = true := by
  rw [Head.text, lead]
  rfl

theorem Begun.beginsWith_bracket (begun : Begun) :
    beginsWith (· == '<') (begun.text ++ text) = true := by
  rw [Begun.text, List.append_assoc]
  exact begun.head.beginsWith_bracket

theorem Broken.beginsWith_bracket {maxDepth levels : Nat} {failure : Failure SyntaxFault}
    (broken : Broken maxDepth levels start text failure) : beginsWith (· == '<') text = true := by
  cases broken with
  | unnamed => rfl
  | tooDeep head => rfl
  | badAttr head => exact head.beginsWith_bracket
  | unterminated head => exact head.beginsWith_bracket
  | unclosed begun =>
    rw [← List.append_nil begun.text]
    exact begun.beginsWith_bracket
  | mismatched begun => exact begun.beginsWith_bracket
  | inChild begun => exact begun.beginsWith_bracket

theorem BadAttr.start_le {tag : String} {failure : Failure SyntaxFault}
    (bad : BadAttr tag start text failure) : start ≤ failure.span.stop := by
  cases bad with
  | key => exact le_rfl
  | value => simp only [Failure.spanning, Span.around]; omega

theorem Broken.start_le {maxDepth levels : Nat} {failure : Failure SyntaxFault}
    (broken : Broken maxDepth levels start text failure) : start ≤ failure.span.stop := by
  induction broken with
  | unnamed => exact Nat.le_add_right _ _
  | tooDeep => simp only [Failure.spanning, Head.nameAt, Span.around]; omega
  | badAttr _ _ _ _ _ _ bad => exact Nat.le_trans (Nat.le_add_right _ _) bad.start_le
  | unterminated => exact Nat.le_add_right _ _
  | unclosed => simp only [Head.nameAt, Span.around]; omega
  | mismatched _ _ stray =>
    cases stray
    simp only [Failure.spanning, Span.around]
    omega
  | inChild _ _ _ _ ih => exact Nat.le_trans (Nat.le_add_right _ _) ih

/-- At a bracket the failure of a tag is that of a node, for text would get no further. -/
theorem node_fails_of_tag (maxDepth levels : Nat) {failure : Failure SyntaxFault}
    (bracket : beginsWith (· == '<') text = true) (further : start ≤ failure.span.stop)
    (here : source.suffix? start = some text)
    (failed : tag maxDepth (inner? maxDepth levels) source start = .error failure) :
    node maxDepth levels source start = .error failure := by
  obtain ⟨rest, rfl⟩ := exists_cons_of_beginsWith_beq bracket
  have more : ¬ source.size ≤ start := fun stops => by
    cases (Source.size_le_iff here).mp stops
  have noText : textNode source start =
      .error (.atPoint (SyntaxFault.ofCode .expectedText) start) := by
    rw [textNode, if_neg more, Source.rest_of_suffix? here]
    rfl
  rw [node_eq]
  exact Parser.choice_pair_fails failed noText further

theorem node_fails {maxDepth levels : Nat} {failure : Failure SyntaxFault}
    (broken : Broken maxDepth levels start text failure)
    (here : source.suffix? start = some text) :
    node maxDepth levels source start = .error failure := by
  have bracket := broken.beginsWith_bracket
  have further := broken.start_le
  apply node_fails_of_tag maxDepth levels bracket further here
  clear bracket further
  induction broken with
  | unnamed gap solid edge =>
    rw [tag, tagName_fails gap solid edge here, error_bind]
  | tooDeep head edge => rw [tag_reads_name maxDepth _ head edge here, inner?]
  | @badAttr levels start head gap text failure ends solid more goesOn bad =>
    have position : start + byteLength (head.text ++ gap.chars) =
        start + byteLength (head.lead ++ head.name.chars) +
          byteLength (head.attrs.flatMap Attr.text ++ gap.chars) := by
      rw [byteLength_append, head.byteLength_text, byteLength_append (head.attrs.flatMap Attr.text)]
      omega
    rw [position] at bad
    simp only [tag_reads_name maxDepth _ head ends.name (head.suffix?_lead here), inner?,
      attributes_fails ends.attrs solid more goesOn bad (head.suffix?_attrs here), error_bind]
  | @unterminated levels start head last =>
    have here : source.suffix? start = some (head.text ++ (last.chars ++ [])) := by
      rw [List.append_nil]
      exact here
    have atAttrs := head.suffix?_attrs here
    have atLast := Source.suffix?_add atAttrs
    have ends := head.endsBefore (stops_of_end last)
    have position : start + byteLength (head.lead ++ head.name.chars) +
        byteLength (head.attrs.flatMap Attr.text) + byteLength last.chars =
          start + byteLength (head.text ++ last.chars) := by
      rw [byteLength_append head.text, head.byteLength_text]
      omega
    simp only [tag_reads_name maxDepth _ head ends.name (head.suffix?_lead here), inner?, ok_bind,
      error_bind,
      attributes_reads _ head.attrs last.blank (.inl rfl) ends.attrs atAttrs,
      endOfOpening_fails _ start last atLast, position]
    rfl
  | @unclosed levels start begun proper =>
    have here : source.suffix? start = some (begun.text ++ []) := by simpa using here
    apply tag_fails_in_body maxDepth levels proper rfl here
    intro offset position there
    rw [body_fails_at_end _ _ begun.gap there, position]
    rfl
  | @mismatched levels start begun proper text failure stray =>
    have edge : beginsWith (· != '<') text = false := by
      cases stray
      rfl
    apply tag_fails_in_body maxDepth levels proper edge here
    intro offset position there
    rw [← position] at stray
    exact body_fails_at_stray _ _ begun.gap stray there
  | @inChild levels start begun proper text failure inside broken ih =>
    obtain ⟨rest, rfl⟩ := exists_cons_of_beginsWith_beq broken.beginsWith_bracket
    have there := Source.suffix?_add here
    have failed := node_fails_of_tag maxDepth levels rfl broken.start_le there (ih there)
    apply tag_fails_in_body maxDepth levels proper rfl here
    intro offset position there
    rw [← position] at failed
    exact body_fails_in_child _ _ begun.gap rfl (by simp) inside there failed

theorem document_fails {maxDepth : Nat} {failure : Failure SyntaxFault}
    (broken : BrokenDocument maxDepth start text failure)
    (here : source.suffix? start = some text) :
    document maxDepth source start = .error failure := by
  cases broken with
  | @intro items rest failure canonical flush shallow spaced broken =>
    obtain ⟨rest, rfl⟩ := exists_cons_of_beginsWith_beq broken.beginsWith_bracket
    have ends : ItemsEndBefore ('<' :: rest) items := itemsEndBefore_of_flush spaced rfl
    have failed := node_fails broken (Source.suffix?_add here)
    rw [document_of_nodes maxDepth items canonical flush shallow ends here failed, if_neg (by simp)]

theorem parseDocument_fails {maxDepth : Nat} {failure : Failure SyntaxFault}
    (broken : BrokenDocument maxDepth 0 source.text failure) :
    parseDocument maxDepth source = .error (.ofFailure failure) := by
  rw [parseDocument, document_fails broken (Source.suffix?_zero source)]

end PageMarkup.Written
