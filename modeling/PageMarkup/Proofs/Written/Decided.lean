import PageMarkup.Proofs.Written.Coverage

namespace PageMarkup.Written

open Grammar

variable {start offset maxDepth levels : Nat} {tag : String} {failure : Failure SyntaxFault}
  {text rest more blamed : List Char}

/-- Whether `more` can change nothing that was decided `behind` bytes before the end of a text. No rule
    looks further ahead than two bytes, a minus and a digit, and a bracket ends all but a string. -/
def Sealed (behind : Nat) (more : List Char) : Prop :=
  1 < behind ∨ beginsWith (· == '<') more = true ∧ '"' ∉ more

namespace Sealed

theorem exists_bracket {behind : Nat} (closed : Sealed behind more) (short : behind ≤ 1) :
    ∃ rest, more = '<' :: rest ∧ '"' ∉ more := by
  rcases closed with far | ⟨bracket, unquoted⟩
  · omega
  · obtain ⟨rest, rfl⟩ := exists_cons_of_beginsWith_beq bracket
    exact ⟨rest, rfl, unquoted⟩

theorem of_le {behind farther : Nat} (closed : Sealed behind more) (le : behind ≤ farther) :
    Sealed farther more := closed.imp_left fun far => Nat.lt_of_lt_of_le far le

theorem not_beginsWith {p : Char → Bool} (closed : Sealed (byteLength text) more)
    (bracket : p '<' = false) (edge : beginsWith p text = false) :
    beginsWith p (text ++ more) = false := by
  refine not_beginsWith_extend edge fun empty => ?_
  obtain ⟨rest, rfl, _⟩ := closed.exists_bracket (by simp [empty])
  exact bracket

theorem no_numeral (closed : Sealed (byteLength text) more) (unread : Numeral.read? text = none) :
    Numeral.read? (text ++ more) = none := by
  cases text with
  | nil =>
    obtain ⟨rest, rfl, _⟩ := closed.exists_bracket (by simp)
    rfl
  | cons c text =>
    rw [Numeral.read?_eq_none_iff] at unread ⊢
    by_cases minus : c = '-'
    · subst minus
      refine not_beginsWith_extend unread fun empty => ?_
      obtain ⟨rest, rfl, _⟩ := closed.exists_bracket (by subst empty; decide)
      rfl
    · simpa [minus] using unread

end Sealed

theorem runsOn_of_numeral {c : Char} (inside : (c.isDigit || c == '.' || c == '-') = true) :
    runsOn c = true := by
  simp only [Bool.or_eq_true, beq_iff_eq] at inside
  rcases inside with (digit | rfl) | rfl
  · have name := isAlphanum_of_isDigit digit
    simp [runsOn, not_isBlank_of_isAlphanum name, beq_eq_false_of_isAlphanum name]
  · decide
  · decide

theorem Literal.Maximal.congr {literal : Literal} {excess other : List Char}
    (maximal : literal.Maximal (excess ++ rest)) (edge : beginsWith runsOn rest = false)
    (edge' : beginsWith runsOn other = false) : literal.Maximal (excess ++ other) := by
  have outside {text : List Char} (edge : beginsWith runsOn text = false) :
      beginsWith (fun c => c.isDigit || c == '.' || c == '-') text = false := by
    cases text with
    | nil => rfl
    | cons c text =>
      rw [beginsWith_cons] at edge ⊢
      exact Bool.eq_false_iff.mpr fun inside => by rw [runsOn_of_numeral inside] at edge; cases edge
  cases literal with
  | string => exact True.intro
  | number numeral proper =>
    change Numeral.read? (numeral.text ++ (excess ++ rest)) = some numeral at maximal
    change Numeral.read? (numeral.text ++ (excess ++ other)) = some numeral
    rw [← List.append_assoc, Numeral.read?_append (outside edge)] at maximal
    rw [← List.append_assoc, Numeral.read?_append (outside edge'), maximal]

theorem BadValue.append (bad : BadValue text blamed)
    (closed : Sealed (byteLength text - byteLength blamed) more) :
    ∃ blamed', BadValue (text ++ more) blamed' ∧
      (byteLength blamed + 1 < byteLength text → blamed' = blamed) := by
  cases bad with
  | @unclosed content unquoted =>
    -- an open string is to blame up to the end, so that nothing behind it was decided
    obtain ⟨rest, rfl, clean⟩ := closed.exists_bracket (by omega)
    have still : '"' ∉ content ++ '<' :: rest := fun member =>
      (List.mem_append.mp member).elim unquoted clean
    exact ⟨_, .unclosed still, fun decided => by omega⟩
  | missing noQuote noNumeral =>
    exact ⟨[], .missing (closed.not_beginsWith rfl noQuote) (closed.no_numeral noNumeral),
      fun _ => rfl⟩
  | @joined literal excess rest maximal goesOn run edge =>
    have closed : Sealed (byteLength rest) more := by
      simpa only [← List.append_assoc, byteLength_append, Nat.add_sub_cancel_left] using closed
    have edge' := closed.not_beginsWith rfl edge
    have goesOn' : endsValue (excess ++ (rest ++ more)) = false := by
      cases excess with
      | cons c excess => exact goesOn
      | nil =>
        cases rest with
        | cons c rest => exact goesOn
        | nil => cases goesOn
    rw [List.append_assoc, List.append_assoc]
    exact ⟨_, .joined literal (maximal.congr edge edge') goesOn' run edge', fun _ => rfl⟩

theorem BadAttr.append (bad : BadAttr tag start text failure)
    (closed : Sealed (start + byteLength text - failure.span.stop) more) :
    ∃ failure', BadAttr tag start (text ++ more) failure' ∧
      (failure.span.stop + 1 < start + byteLength text → failure' = failure) := by
  cases bad with
  | key edge =>
    simp only [Failure.atPoint, Span.point, Nat.add_sub_cancel_left] at closed
    exact ⟨_, .key (closed.not_beginsWith rfl edge), fun _ => rfl⟩
  | @value key before after text blamed solid bad =>
    have size : start + byteLength (key.chars ++ (before.chars ++ '=' :: (after.chars ++ text))) =
        start + byteLength (key.chars ++ (before.chars ++ '=' :: after.chars)) + byteLength text := by
      simp only [byteLength_append, byteLength_cons]
      omega
    simp only [Failure.spanning, Span.around, size, Nat.add_sub_add_left] at closed ⊢
    obtain ⟨blamed', bad', same⟩ := bad.append closed
    have solid' : beginsWith isBlank (text ++ more) = false :=
      (closed.of_le (Nat.sub_le _ _)).not_beginsWith rfl solid
    have whole : BadAttr tag start
        (key.chars ++ (before.chars ++ '=' :: (after.chars ++ (text ++ more)))) _ :=
      .value key before after solid' bad'
    refine ⟨_, by simpa using whole, fun decided => ?_⟩
    rw [same (by omega)]
    rfl

theorem Attr.EndsBefore.append {attr : Attr} (ends : attr.EndsBefore rest)
    (visible : ∃ c ∈ rest, isBlank c = false) : attr.EndsBefore (rest ++ more) := by
  obtain ⟨c, member, solid⟩ := visible
  have nonempty : rest ≠ [] := List.ne_nil_of_mem member
  have stays : rest.dropWhile isBlank ≠ [] := fun blank => by
    rw [List.dropWhile_eq_nil_iff] at blank
    rw [blank c member] at solid
    cases solid
  unfold EndsBefore at ends ⊢
  cases assignment : attr.assignment? with
  | some assigned =>
    rw [assignment] at ends
    cases rest with
    | nil => contradiction
    | cons d rest => exact ends
  | none =>
    rw [assignment] at ends
    obtain ⟨edge, notEquals⟩ := ends
    refine ⟨(beginsWith_append nonempty).trans edge, ?_⟩
    rw [List.dropWhile_append, if_neg (by simpa using stays), beginsWith_append stays, notEquals]

theorem AttrsEndBefore.append {attrs : List Attr} (ends : AttrsEndBefore rest attrs)
    (visible : ∃ c ∈ rest, isBlank c = false) : AttrsEndBefore (rest ++ more) attrs := by
  induction attrs with
  | nil => exact True.intro
  | cons attr attrs ih =>
    obtain ⟨c, member, solid⟩ := visible
    refine ⟨?_, ih ends.2⟩
    rw [← List.append_assoc]
    exact ends.1.append ⟨c, List.mem_append_right _ member, solid⟩

theorem Head.EndsBefore.append {head : Head} (ends : head.EndsBefore rest)
    (visible : ∃ c ∈ rest, isBlank c = false) : head.EndsBefore (rest ++ more) := by
  have ⟨c, member, _⟩ := visible
  have nonempty : head.attrs.flatMap Attr.text ++ rest ≠ [] :=
    List.ne_nil_of_mem (List.mem_append_right _ member)
  refine ⟨?_, ends.attrs.append visible⟩
  rw [← List.append_assoc, beginsWith_append nonempty, ends.name]

theorem Blanks.no_bracket (blanks : Blanks) :
    ∀ c ∈ blanks.chars, (!(c == '>' || c == '<')) = true := by
  intro c member
  have blank := blanks.blank c member
  rw [beq_eq_false_of_isBlank blank rfl, beq_eq_false_of_isBlank blank rfl]
  rfl

theorem Name.no_bracket (name : Name) : ∀ c ∈ name.chars, (!(c == '>' || c == '<')) = true := by
  intro c member
  have alphanumeric := name.alphanumeric c member
  rw [beq_eq_false_of_isAlphanum alphanumeric rfl, beq_eq_false_of_isAlphanum alphanumeric rfl]
  rfl

theorem Closing.no_bracket (closing : Closing) (name : Name) :
    ∀ c ∈ closing.beforeName.chars ++ (name.chars ++ closing.afterName.chars),
      (!(c == '>' || c == '<')) = true :=
  List.forall_mem_append.mpr ⟨closing.beforeName.no_bracket,
    List.forall_mem_append.mpr ⟨name.no_bracket, closing.afterName.no_bracket⟩⟩

theorem Closing.text_unique {closing : Closing} {name : Name} {inner tail behind : List Char}
    (goesOn : ∀ c ∈ inner, (!(c == '>' || c == '<')) = true)
    (stops : beginsWith (fun c => !(c == '>' || c == '<')) tail = false)
    (same : '<' :: '/' :: (inner ++ tail) = closing.text name ++ behind) :
    closing.text name = '<' :: '/' :: (inner ++ ['>']) ∧ tail = '>' :: behind := by
  have split : inner ++ tail =
      closing.beforeName.chars ++ (name.chars ++ closing.afterName.chars) ++ '>' :: behind := by
    simpa [Closing.text] using same
  obtain ⟨rfl, rfl⟩ := run_unique goesOn (closing.no_bracket name) stops rfl split
  exact ⟨by simp [Closing.text], rfl⟩

theorem Stray.append {expected : Name} (stray : Stray expected offset text failure)
    (closed : Sealed (offset + byteLength text - failure.span.stop) more) :
    Stray expected offset (text ++ more) failure := by
  cases stray with
  | @intro gap written bracket rest plain solid edge other =>
    have size : offset + byteLength ('<' :: '/' :: (gap.chars ++ (written ++ (bracket ++ rest)))) =
        offset + byteLength ('<' :: '/' :: (gap.chars ++ (written ++ bracket))) + byteLength rest := by
      simp only [byteLength_append, byteLength_cons]
      omega
    simp only [Failure.spanning, Span.around, size, Nat.add_sub_cancel_left] at closed
    have solid' : beginsWith isBlank (written ++ (bracket ++ (rest ++ more))) = false := by
      have whole : written ++ (bracket ++ (rest ++ more)) =
          written ++ (bracket ++ rest) ++ more := by simp
      have size : byteLength rest ≤ byteLength (written ++ (bracket ++ rest)) := by
        simp only [byteLength_append]
        omega
      rw [whole]
      exact (closed.of_le size).not_beginsWith rfl solid
    have edge' : bracket = ['>'] ∨ bracket = [] ∧ beginsWith (· != '<') (rest ++ more) = false :=
      edge.imp_right fun stops => ⟨stops.1, closed.not_beginsWith rfl stops.2⟩
    have other' : ∀ (closing : Closing) (behind : List Char),
        '<' :: '/' :: (gap.chars ++ (written ++ (bracket ++ (rest ++ more)))) ≠
          closing.text expected ++ behind := by
      intro closing behind same
      have goesOn : ∀ c ∈ gap.chars ++ written, (!(c == '>' || c == '<')) = true := by
        refine List.forall_mem_append.mpr ⟨gap.no_bracket, fun c member => ?_⟩
        rw [plain c member]
        rfl
      rw [← List.append_assoc gap.chars] at same
      -- a closing tag that appears now would end at the same bracket as what is there
      rcases edge' with rfl | ⟨rfl, edge'⟩
      · obtain ⟨closes, _⟩ := Closing.text_unique goesOn rfl same
        exact other closing rest (by simp [closes])
      · rcases nil_or_cons_of_stop edge' with empty | ⟨tail, opens⟩
        · rw [empty] at same
          cases (Closing.text_unique goesOn rfl same).2
        · rw [opens] at same
          cases (Closing.text_unique goesOn rfl same).2
    have whole : Stray expected offset
        ('<' :: '/' :: (gap.chars ++ (written ++ (bracket ++ (rest ++ more))))) _ :=
      .intro gap plain solid' edge' other'
    simpa using whole

theorem Head.endsBefore_concat {gap : Blanks} {name : Name} {attrs : List Attr} {attr : Attr}
    (ends : attr.EndsBefore rest) : Head.EndsBefore ⟨gap, name, attrs ++ [attr]⟩ rest := by
  have stops (attrs : List Attr) : Stops ((attrs ++ [attr]).flatMap Attr.text ++ rest) := by
    rw [List.flatMap_append, List.append_assoc]
    apply stops_of_attrs
    simpa using attr.stops
  refine ⟨(stops attrs).notName, ?_⟩
  induction attrs with
  | nil => exact ⟨ends, True.intro⟩
  | cons first attrs ih => exact ⟨first.endsBefore (stops attrs), ih⟩

theorem not_runsOn_of_isBlank {c : Char} (blank : isBlank c = true) : runsOn c = false := by
  simp [runsOn, blank]

theorem Attr.ends_or_badAttr (attr : Attr) (notName : beginsWith Char.isAlphanum rest = false)
    (notEquals : beginsWith (· == '=') (rest.dropWhile isBlank) = false)
    (edge : beginsWith runsOn rest = false) :
    attr.EndsBefore rest ∨
      ∀ tag start, ∃ failure, BadAttr tag start (attr.core ++ rest) failure := by
  obtain ⟨gap, apart, key, assignment?⟩ := attr
  cases assignment? with
  | none => exact .inl ⟨notName, notEquals⟩
  | some assignment =>
    cases ends : endsValue rest with
    | true => exact .inl ends
    | false =>
      obtain ⟨before, after, literal⟩ := assignment
      have maximal : literal.Maximal ([] ++ []) := literal.maximal_of_endsValue rfl
      have bad : BadValue (literal.text ++ ([] ++ rest)) (literal.text ++ []) :=
        .joined literal (maximal.congr rfl edge) ends (by simp) edge
      refine .inr fun tag start => ?_
      have whole : BadAttr tag start _ _ :=
        .value key before after literal.not_beginsWith_blank bad
      exact ⟨_, by simpa [core, Assignment.text, Assignment.lead] using whole⟩

theorem exists_broken_of_bracket (maxDepth levels start : Nat) (head : Head) (last : Blanks)
    (text : List Char) :
    ∃ failure, Broken maxDepth (levels + 1) start (head.text ++ (last.chars ++ '<' :: text))
      failure := by
  have notName : beginsWith Char.isAlphanum (last.chars ++ '<' :: text) = false :=
    not_beginsWith_append (fun c member => not_isAlphanum_of_isBlank (last.blank c member)) rfl
  have notEquals : beginsWith (· == '=') ((last.chars ++ '<' :: text).dropWhile isBlank) = false := by
    rw [dropWhile_run last.blank rfl]
    rfl
  have edge : beginsWith runsOn (last.chars ++ '<' :: text) = false :=
    not_beginsWith_append (fun c member => not_runsOn_of_isBlank (last.blank c member)) rfl
  have atBracket (ends : head.EndsBefore (last.chars ++ '<' :: text)) :
      ∃ failure, Broken maxDepth (levels + 1) start (head.text ++ (last.chars ++ '<' :: text))
        failure :=
    ⟨_, .badAttr head last ends rfl (List.cons_ne_nil _ _) rfl (.key rfl)⟩
  obtain ⟨gap, name, attrs⟩ := head
  rcases List.eq_nil_or_concat attrs with rfl | ⟨attrs, attr, rfl⟩
  · exact atBracket ⟨notName, True.intro⟩
  · rw [List.concat_eq_append] at atBracket ⊢
    rcases attr.ends_or_badAttr notName notEquals edge with ends | bad
    · exact atBracket (Head.endsBefore_concat ends)
    · let head : Head := ⟨gap, name, attrs⟩
      obtain ⟨failure, bad⟩ := bad (.ofList name.chars)
        (start + byteLength (head.text ++ attr.gap.chars))
      have begins : beginsWith Char.isAlphanum (attr.core ++ (last.chars ++ '<' :: text)) = true :=
        attr.beginsWith_core
      have stops : Stops (attr.gap.chars ++ (attr.core ++ (last.chars ++ '<' :: text))) := by
        simpa [Attr.text] using attr.stops
      have broken : Broken maxDepth (levels + 1) start _ failure :=
        .badAttr head attr.gap (head.endsBefore stops)
          (beginsWith_disjoint (fun _ => not_isBlank_of_isAlphanum) begins) (by simp)
          (beginsWith_disjoint (fun _ name => beq_eq_false_of_isAlphanum name rfl) begins) bad
      exact ⟨failure, by simpa [head, Head.text, Head.lead, Attr.text] using broken⟩

theorem NotClosing.append (inside : NotClosing ('<' :: rest))
    (ends : rest = [] → ∃ behind, more = '<' :: behind ∧ '"' ∉ more) :
    NotClosing ('<' :: (rest ++ more)) := by
  have edge : beginsWith (· == '/') rest = false :=
    (Parser.isPrefixOf_singleton '/' rest).symm.trans inside
  refine notClosing_of_bracket (not_beginsWith_extend edge fun empty => ?_)
  obtain ⟨behind, rfl, _⟩ := ends empty
  rfl

theorem Broken.append (broken : Broken maxDepth levels start text failure)
    (other : (Diagnostic.ofFailure failure).code ≠ .unclosedTag)
    (closed : Sealed (start + byteLength text - failure.span.stop) more) :
    ∃ failure', Broken maxDepth levels start (text ++ more) failure' ∧
      (failure.span.stop + 1 < start + byteLength text → failure' = failure) := by
  induction broken with
  | @unnamed levels start gap text solid edge =>
    have closed : Sealed (byteLength text) more := by
      simpa [Failure.atPoint, Span.point, byteLength_append, ← Nat.add_assoc] using closed
    refine ⟨_, ?_, fun _ => rfl⟩
    have whole : Broken maxDepth levels start ('<' :: (gap.chars ++ (text ++ more))) _ :=
      .unnamed gap (closed.not_beginsWith rfl solid) (closed.not_beginsWith rfl edge)
    simpa using whole
  | @tooDeep start head text edge =>
    have closed : Sealed (byteLength text) more := by
      simpa [Failure.spanning, Head.nameAt, Span.around, byteLength_append, ← Nat.add_assoc]
        using closed
    refine ⟨_, ?_, fun _ => rfl⟩
    have whole : Broken maxDepth 0 start (head.lead ++ (head.name.chars ++ (text ++ more))) _ :=
      .tooDeep head (closed.not_beginsWith rfl edge)
    simpa using whole
  | @badAttr levels start head gap text failure ends solid nonempty goesOn bad =>
    have size : start + byteLength (head.text ++ (gap.chars ++ text)) =
        start + byteLength (head.text ++ gap.chars) + byteLength text := by
      simp only [byteLength_append]
      omega
    rw [size] at closed ⊢
    obtain ⟨failure', bad', same⟩ := bad.append closed
    have visible : ∃ c ∈ gap.chars ++ text, isBlank c = false := by
      obtain ⟨c, rest, rfl⟩ := List.exists_cons_of_ne_nil nonempty
      exact ⟨c, by simp, solid⟩
    have ends' : head.EndsBefore (gap.chars ++ (text ++ more)) := by
      rw [← List.append_assoc]
      exact ends.append visible
    refine ⟨failure', ?_, same⟩
    rw [List.append_assoc, List.append_assoc]
    exact .badAttr head gap ends' ((beginsWith_append nonempty).trans solid) (by simp [nonempty])
      ((beginsWith_append nonempty).trans goesOn) bad'
  | @unterminated levels start head last =>
    -- the tag goes on, so that the failure may change, but not from a bracket
    obtain ⟨rest, rfl, _⟩ := closed.exists_bracket (by simp [Failure.spanning, Span.around])
    obtain ⟨failure', broken'⟩ := exists_broken_of_bracket maxDepth levels start head last rest
    refine ⟨failure', by simpa using broken', fun decided => ?_⟩
    simp only [Failure.spanning, Span.around] at decided
    omega
  | unclosed begun proper => exact absurd rfl other
  | @mismatched levels start begun proper text failure stray =>
    rw [byteLength_append, ← Nat.add_assoc] at closed
    refine ⟨failure, ?_, fun _ => rfl⟩
    rw [List.append_assoc]
    exact .mismatched begun proper (stray.append closed)
  | @inChild levels start begun proper text failure inside broken ih =>
    rw [byteLength_append, ← Nat.add_assoc] at closed ⊢
    obtain ⟨failure', broken', same⟩ := ih other closed
    have reaches := broken.start_le
    obtain ⟨rest, rfl⟩ := exists_cons_of_beginsWith_beq broken.beginsWith_bracket
    have inside' : NotClosing ('<' :: (rest ++ more)) := inside.append fun empty => by
      have size : byteLength ('<' :: rest) = 1 := by
        rw [empty]
        rfl
      exact closed.exists_bracket (by omega)
    refine ⟨failure', ?_, same⟩
    rw [List.append_assoc]
    exact .inChild begun proper inside' broken'

theorem BrokenDocument.append (broken : BrokenDocument maxDepth start text failure)
    (other : (Diagnostic.ofFailure failure).code ≠ .unclosedTag)
    (closed : Sealed (start + byteLength text - failure.span.stop) more) :
    ∃ failure', BrokenDocument maxDepth start (text ++ more) failure' ∧
      (failure.span.stop + 1 < start + byteLength text → failure' = failure) := by
  cases broken with
  | @intro items rest failure canonical flush shallow spaced broken =>
    rw [byteLength_append, ← Nat.add_assoc] at closed ⊢
    obtain ⟨failure', broken', same⟩ := broken.append other closed
    rw [List.append_assoc]
    exact ⟨failure', .intro items canonical flush shallow spaced broken', same⟩

theorem span_ofFailure (failure : Failure SyntaxFault) :
    (Diagnostic.ofFailure failure).span = failure.span := by
  obtain ⟨reason, offset, span⟩ := failure
  cases reason <;> rfl

/-- An error that ends two bytes before the end of the text, or earlier, is the same however the text
    goes on. Only a tag that is still open may be closed later. -/
theorem parseDocument_append_of_decided {source : Source} {fault : Diagnostic}
    (rejected : parseDocument maxDepth source = .error fault) (other : fault.code ≠ .unclosedTag)
    (decided : fault.span.stop + 1 < source.size) (more : List Char) :
    parseDocument maxDepth (.ofText (source.text ++ more)) = .error fault := by
  obtain ⟨failure, broken, rfl⟩ := exists_broken_of_error rejected
  rw [span_ofFailure, Source.size_eq] at decided
  have closed : Sealed (0 + byteLength source.text - failure.span.stop) more := .inl (by omega)
  obtain ⟨failure', broken', same⟩ := broken.append other closed
  rw [same (by omega)] at broken'
  exact parseDocument_fails broken'

theorem parseDocument_append_of_decided_minus :
    let fault := (Diagnostic.ofCode .expectedAttrValue ⟨11, 11⟩).withParam "key" "x"
    parseDocument 2 (.ofString "<p>ö <a x=-b") = .error fault ∧ fault.code ≠ .unclosedTag ∧
      fault.span.stop + 1 < (Source.ofString "<p>ö <a x=-b").size ∧
      parseDocument 2 (.ofText ((Source.ofString "<p>ö <a x=-b").text ++ "5></a></p>".toList)) =
        .error fault := by
  intro fault
  have rejected : parseDocument 2 (.ofString "<p>ö <a x=-b") = .error fault := by decide +kernel
  have decided : fault.span.stop + 1 < (Source.ofString "<p>ö <a x=-b").size := by
    have size : (Source.ofString "<p>ö <a x=-b").size = 13 := by decide +kernel
    rw [size]
    decide
  have other : fault.code ≠ .unclosedTag := by rintro ⟨⟩
  exact ⟨rejected, other, decided, parseDocument_append_of_decided rejected other decided _⟩

end PageMarkup.Written
