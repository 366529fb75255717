import PageMarkup.Proofs.Written.Rejecting

namespace PageMarkup.Written

open Grammar

variable {text rest : List Char}

theorem ends_or_joined (literal : Literal) (rest : List Char) (maximal : literal.Maximal rest) :
    endsValue rest = true ∨ ∃ blamed, BadValue (literal.text ++ rest) blamed := by
  cases ends : endsValue rest with
  | true => exact .inl rfl
  | false =>
    obtain ⟨excess, behind, rfl, run, edge⟩ := exists_run runsOn rest
    exact .inr ⟨_, .joined literal maximal ends run edge⟩

theorem literal_or_badValue (text : List Char) :
    (∃ (literal : Literal) (rest : List Char), text = literal.text ++ rest ∧ endsValue rest = true) ∨
      ∃ blamed, BadValue text blamed := by
  cases quote : beginsWith (· == '"') text with
  | true =>
    obtain ⟨body, rfl⟩ := exists_cons_of_beginsWith_beq quote
    obtain ⟨content, behind, rfl, plain, edge⟩ := exists_run (· != '"') body
    have unquoted : '"' ∉ content := fun member => by cases plain _ member
    cases behind with
    | nil =>
      rw [List.append_nil]
      exact .inr ⟨_, .unclosed unquoted⟩
    | cons c rest =>
      have closed : c = '"' := by simpa using edge
      subst closed
      have whole : '"' :: (content ++ '"' :: rest) =
          (Literal.string content unquoted).text ++ rest := by simp [Literal.text]
      rw [whole]
      rcases ends_or_joined (.string content unquoted) rest True.intro with ends | bad
      · exact .inl ⟨_, rest, rfl, ends⟩
      · exact .inr bad
  | false =>
    cases read : Numeral.read? text with
    | none => exact .inr ⟨[], .missing quote read⟩
    | some numeral =>
      obtain ⟨proper, rest, rfl⟩ := Numeral.read?_eq_some read
      rcases ends_or_joined (.number numeral proper) rest read with ends | bad
      · exact .inl ⟨.number numeral proper, rest, rfl, ends⟩
      · exact .inr bad

theorem attr_or_badAttr (gap : Blanks) (apart : gap.chars ≠ [])
    (begins : beginsWith Char.isAlphanum text = true) :
    (∃ (attr : Attr) (rest : List Char), attr.gap = gap ∧ text = attr.core ++ rest ∧
        attr.EndsBefore rest) ∨
      ∀ tag start, ∃ failure, BadAttr tag start text failure := by
  obtain ⟨name, behind, rfl, nonempty, alphanumeric, edge⟩ := exists_run_of_beginsWith begins
  obtain ⟨before, inner, rfl, blank, solid⟩ := exists_run isBlank behind
  let key : Name := ⟨name, nonempty, alphanumeric⟩
  cases equals : beginsWith (· == '=') inner with
  | false =>
    refine .inl ⟨⟨gap, apart, key, none⟩, before ++ inner, rfl, by simp [Attr.core, key], edge, ?_⟩
    rw [dropWhile_run blank solid]
    exact equals
  | true =>
    obtain ⟨behind, rfl⟩ := exists_cons_of_beginsWith_beq equals
    obtain ⟨after, value, rfl, blank', solid'⟩ := exists_run isBlank behind
    rcases literal_or_badValue value with ⟨literal, rest, rfl, ends⟩ | ⟨blamed, bad⟩
    · refine .inl ⟨⟨gap, apart, key, some ⟨⟨before, blank⟩, ⟨after, blank'⟩, literal⟩⟩, rest, rfl, ?_,
        ends⟩
      simp [Attr.core, Assignment.text, Assignment.lead, key]
    · exact .inr fun tag start => ⟨_, .value key ⟨before, blank⟩ ⟨after, blank'⟩ solid' bad⟩

theorem Attr.EndsBefore.notName {attr : Attr} (ends : attr.EndsBefore rest) :
    beginsWith Char.isAlphanum rest = false := by
  unfold EndsBefore at ends
  cases assignment : attr.assignment? with
  | none =>
    rw [assignment] at ends
    exact ends.1
  | some assigned =>
    rw [assignment] at ends
    exact beginsWith_of_endsValue ends fun _ => not_isAlphanum_of_ends

inductive AttrsStop : (rest : List Char) → Prop
  | atEnd : AttrsStop []
  | atBracket (behind : List Char) : AttrsStop ('>' :: behind)
  | atBadAttr {rest : List Char} (more : rest ≠ []) (goesOn : beginsWith (· == '>') rest = false)
      (bad : ∀ tag start, ∃ failure, BadAttr tag start rest failure) : AttrsStop rest

theorem exists_attrs (text : List Char) (edge : beginsWith Char.isAlphanum text = false) :
    ∃ (attrs : List Attr) (gap : Blanks) (rest : List Char),
      text = attrs.flatMap Attr.text ++ (gap.chars ++ rest) ∧
      AttrsEndBefore (gap.chars ++ rest) attrs ∧ beginsWith isBlank rest = false ∧
      AttrsStop rest := by
  induction length : text.length using Nat.strong_induction_on generalizing text with
  | _ n ih =>
    obtain ⟨blanks, inner, rfl, blank, solid⟩ := exists_run isBlank text
    have stop (stops : AttrsStop inner) : ∃ (attrs : List Attr) (gap : Blanks) (rest : List Char),
        blanks ++ inner = attrs.flatMap Attr.text ++ (gap.chars ++ rest) ∧
        AttrsEndBefore (gap.chars ++ rest) attrs ∧ beginsWith isBlank rest = false ∧
        AttrsStop rest := ⟨[], ⟨blanks, blank⟩, inner, rfl, True.intro, solid, stops⟩
    cases inner with
    | nil => exact stop .atEnd
    | cons c behind =>
      cases bracket : c == '>' with
      | true =>
        rw [beq_iff_eq] at bracket
        subst bracket
        exact stop (.atBracket behind)
      | false =>
        cases begins : beginsWith Char.isAlphanum (c :: behind) with
        | false =>
          exact stop (.atBadAttr (by simp) bracket fun tag start => ⟨_, .key begins⟩)
        | true =>
          have apart : blanks ≠ [] := by
            rintro rfl
            rw [List.nil_append, begins] at edge
            cases edge
          rcases attr_or_badAttr ⟨blanks, blank⟩ apart begins with ⟨attr, rest, gap, same, ends⟩ | bad
          · have shorter : rest.length < n := by
              have positive := List.length_pos_iff.mpr apart
              rw [← length, same, List.length_append, List.length_append]
              omega
            obtain ⟨attrs, last, behind', rfl, ends', solid', stops⟩ :=
              ih rest.length shorter rest ends.notName rfl
            refine ⟨attr :: attrs, last, behind', ?_, ⟨ends, ends'⟩, solid', stops⟩
            rw [same, List.flatMap_cons, Attr.text, gap]
            simp
          · exact stop (.atBadAttr (by simp) bracket bad)

theorem spaced_of_itemsEndBefore (last : Blanks) {items : List Item}
    (ends : ItemsEndBefore (last.chars ++ rest) items) : Spaced last.chars items := by
  -- neither blanks nor a text begin with the bracket up to which a text goes on
  have blanks (gap : Blanks) (behind : List Char)
      (edge : beginsWith (· != '<') (gap.chars ++ behind) = false) : gap.chars = [] := by
    rcases nil_or_cons_of_stop edge with empty | ⟨rest, same⟩
    · exact (List.append_eq_nil_iff.mp empty).1
    · cases chars : gap.chars with
      | nil => rfl
      | cons c others =>
        have blank : isBlank c = true := gap.blank c (chars ▸ List.mem_cons_self)
        rw [chars] at same
        cases same
        cases blank
  induction items with
  | nil => exact True.intro
  | cons item items ih =>
    refine ⟨fun text => ?_, ih ends.2⟩
    cases item with
    | tag => cases text
    | text gap run =>
      have edge : beginsWith (· != '<') (texts items ++ (last.chars ++ rest)) = false := ends.1
      cases items with
      | nil => exact blanks last rest edge
      | cons next items =>
        rw [texts, List.append_assoc] at edge
        have flush := blanks next.gap _ edge
        refine ⟨?_, flush⟩
        cases next with
        | tag => rfl
        | text gap run =>
          rw [flush, List.nil_append, Item.core, List.append_assoc,
            beginsWith_append run.nonempty] at edge
          rcases nil_or_cons_of_stop edge with empty | ⟨rest, same⟩
          · exact absurd empty run.nonempty
          · exact absurd (same ▸ List.mem_cons_self) run.plain

theorem exists_stray (expected : Name)
    (other : ∀ (closing : Closing) (behind : List Char),
      '<' :: '/' :: text ≠ closing.text expected ++ behind) (offset : Nat) :
    ∃ failure, Stray expected offset ('<' :: '/' :: text) failure := by
  obtain ⟨gap, inner, rfl, blank, solid⟩ := exists_run isBlank text
  obtain ⟨written, behind, rfl, plain, edge⟩ := exists_run (fun c => !(c == '>' || c == '<')) inner
  have plain : ∀ c ∈ written, (c == '>' || c == '<') = false := fun c member => by
    simpa using plain c member
  cases bracket : beginsWith (· == '>') behind with
  | true =>
    obtain ⟨rest, rfl⟩ := exists_cons_of_beginsWith_beq bracket
    exact ⟨_, @Stray.intro expected offset ⟨gap, blank⟩ written ['>'] rest plain solid (.inl rfl) other⟩
  | false =>
    have stops : beginsWith (· != '<') behind = false := by
      cases behind with
      | nil => rfl
      | cons c behind =>
        rw [beginsWith_cons] at edge bracket ⊢
        simpa [bracket] using edge
    exact ⟨_, @Stray.intro expected offset ⟨gap, blank⟩ written [] behind plain solid
      (.inr ⟨rfl, stops⟩) other⟩

/-- What a text begins with where a node is expected: a canonical node within the limit, whatever the
    blanks before it, or a broken tag. -/
def NodeOrBroken (maxDepth levels : Nat) (text : List Char) : Prop :=
  (∀ gap : Blanks, ∃ (item : Item) (rest : List Char), item.gap = gap ∧ text = item.core ++ rest ∧
      item.Canonical ∧ item.depth ≤ levels ∧ item.EndsBefore rest) ∨
    ∀ start, ∃ failure, Broken maxDepth levels start text failure

inductive ChildrenStop (maxDepth levels : Nat) (name : Name) : (rest : List Char) → Prop
  | atEnd : ChildrenStop maxDepth levels name []
  | atClosing (closing : Closing) (behind : List Char) :
      ChildrenStop maxDepth levels name (closing.text name ++ behind)
  | atStray {rest : List Char} (stray : ∀ offset, ∃ failure, Stray name offset rest failure) :
      ChildrenStop maxDepth levels name rest
  | atBroken {rest : List Char} (inside : NotClosing rest)
      (broken : ∀ start, ∃ failure, Broken maxDepth levels start rest failure) :
      ChildrenStop maxDepth levels name rest

theorem Item.visible_of_solid {item : Item} (solid : beginsWith isBlank (item.core ++ rest) = false) :
    item.Visible := by
  cases item with
  | text gap run =>
    rw [core, beginsWith_append run.nonempty] at solid
    exact solid
  | tag => exact True.intro

theorem exists_children {maxDepth levels : Nat}
    (nodes : ∀ text, text ≠ [] → NodeOrBroken maxDepth levels text) (name : Name)
    (text : List Char) :
    ∃ (children : List Item) (gap : Blanks) (rest : List Char),
      text = texts children ++ (gap.chars ++ rest) ∧ ItemsEndBefore (gap.chars ++ rest) children ∧
      (∀ child ∈ children, child.Canonical) ∧ (∀ child ∈ children, child.Visible) ∧
      depths children ≤ levels ∧ ChildrenStop maxDepth levels name rest := by
  induction length : text.length using Nat.strong_induction_on generalizing text with
  | _ n ih =>
    obtain ⟨blanks, inner, rfl, blank, solid⟩ := exists_run isBlank text
    have stop (stops : ChildrenStop maxDepth levels name inner) :
        ∃ (children : List Item) (gap : Blanks) (rest : List Char),
          blanks ++ inner = texts children ++ (gap.chars ++ rest) ∧
          ItemsEndBefore (gap.chars ++ rest) children ∧
          (∀ child ∈ children, child.Canonical) ∧ (∀ child ∈ children, child.Visible) ∧
          depths children ≤ levels ∧ ChildrenStop maxDepth levels name rest :=
      ⟨[], ⟨blanks, blank⟩, inner, rfl, True.intro, by simp, by simp, Nat.zero_le _, stops⟩
    by_cases more : inner = []
    · subst more
      exact stop .atEnd
    · cases slash : "</".toList.isPrefixOf inner with
      | true =>
        obtain ⟨behind, rfl⟩ := exists_append_of_isPrefixOf slash
        by_cases closes : ∃ (closing : Closing) (rest : List Char),
            '<' :: '/' :: behind = closing.text name ++ rest
        · obtain ⟨closing, rest, same⟩ := closes
          have whole : "</".toList ++ behind = closing.text name ++ rest := same
          exact stop (whole ▸ .atClosing closing rest)
        · have other : ∀ (closing : Closing) (rest : List Char),
              '<' :: '/' :: behind ≠ closing.text name ++ rest := fun closing rest same =>
            closes ⟨closing, rest, same⟩
          exact stop (.atStray (exists_stray name other))
      | false =>
        rcases nodes inner more with node | broken
        · obtain ⟨item, rest, gap, same, canonical, shallow, ends⟩ := node ⟨blanks, blank⟩
          have shorter : rest.length < n := by
            have positive := List.length_pos_iff.mpr item.core_ne_nil
            rw [← length, same, List.length_append, List.length_append]
            omega
          obtain ⟨children, last, behind, rfl, ends', canonical', visible, shallow', stops⟩ :=
            ih rest.length shorter rest rfl
          rw [same] at solid
          refine ⟨item :: children, last, behind, ?_, ⟨ends, ends'⟩, ?_, ?_, Nat.max_le.mpr
            ⟨shallow, shallow'⟩, stops⟩
          · rw [same, texts, gap]
            simp
          · exact List.forall_mem_cons.mpr ⟨canonical, canonical'⟩
          · exact List.forall_mem_cons.mpr ⟨Item.visible_of_solid solid, visible⟩
        · exact stop (.atBroken slash broken)

theorem tag_or_broken (maxDepth levels : Nat)
    (nodes : ∀ level, levels = level + 1 → ∀ text, text ≠ [] → NodeOrBroken maxDepth level text)
    (text : List Char) : NodeOrBroken maxDepth levels ('<' :: text) := by
  obtain ⟨blanks, inner, rfl, blank, solid⟩ := exists_run isBlank text
  cases named : beginsWith Char.isAlphanum inner with
  | false => exact .inr fun start => ⟨_, .unnamed ⟨blanks, blank⟩ solid named⟩
  | true =>
    obtain ⟨chars, behind, rfl, nonempty, alphanumeric, edge⟩ := exists_run_of_beginsWith named
    let name : Name := ⟨chars, nonempty, alphanumeric⟩
    cases levels with
    | zero => exact .inr fun start => ⟨_, .tooDeep ⟨⟨blanks, blank⟩, name, []⟩ edge⟩
    | succ level =>
      obtain ⟨attrs, last, rest, rfl, ends, solid', stops⟩ := exists_attrs behind edge
      let head : Head := ⟨⟨blanks, blank⟩, name, attrs⟩
      have whole : '<' :: (blanks ++ (chars ++ (attrs.flatMap Attr.text ++ (last.chars ++ rest)))) =
          head.text ++ (last.chars ++ rest) := by simp [head, name, Head.text, Head.lead]
      rw [whole]
      cases stops with
      | atEnd =>
        rw [List.append_nil]
        exact .inr fun start => ⟨_, .unterminated head last⟩
      | atBadAttr more goesOn bad =>
        refine .inr fun start => ?_
        obtain ⟨failure, bad⟩ := bad (.ofList chars) (start + byteLength (head.text ++ last.chars))
        exact ⟨failure, .badAttr head last ⟨edge, ends⟩ solid' more goesOn bad⟩
      | atBracket behind =>
        obtain ⟨children, gap, rest, rfl, ends', canonical, visible, shallow, stops⟩ :=
          exists_children (nodes level rfl) name behind
        let begun : Begun := ⟨head, last, children, gap⟩
        have proper : begun.Proper level :=
          ⟨canonical, visible, shallow, spaced_of_itemsEndBefore gap ends'⟩
        have whole : head.text ++ (last.chars ++ '>' :: (texts children ++ (gap.chars ++ rest))) =
            begun.text ++ rest := by simp [begun, Begun.text]
        rw [whole]
        cases stops with
        | atEnd =>
          rw [List.append_nil]
          exact .inr fun start => ⟨_, .unclosed begun proper⟩
        | atStray stray =>
          refine .inr fun start => ?_
          obtain ⟨failure, stray⟩ := stray (start + byteLength begun.text)
          exact ⟨failure, .mismatched begun proper stray⟩
        | atBroken inside broken =>
          refine .inr fun start => ?_
          obtain ⟨failure, broken⟩ := broken (start + byteLength begun.text)
          exact ⟨failure, .inChild begun proper inside broken⟩
        | atClosing closing behind =>
          refine .inl fun outer => ⟨.tag outer head last children ⟨gap, closing.beforeName,
            closing.afterName⟩, behind, rfl, ?_, .tag outer head last canonical visible proper.spaced,
            Nat.add_le_add_right shallow 1, True.intro⟩
          simp [begun, head, name, Begun.text, Item.core, Closing.text]

theorem node_or_broken (maxDepth levels : Nat) (text : List Char) (more : text ≠ []) :
    NodeOrBroken maxDepth levels text := by
  induction levels using Nat.strong_induction_on generalizing text with
  | _ levels ih =>
    cases bracket : beginsWith (· == '<') text with
    | true =>
      obtain ⟨rest, rfl⟩ := exists_cons_of_beginsWith_beq bracket
      exact tag_or_broken maxDepth levels (fun level same => ih level (by omega)) rest
    | false =>
      obtain ⟨chars, rest, rfl, plain, edge⟩ := exists_run (· != '<') text
      have nonempty : chars ≠ [] := by
        rintro rfl
        rcases nil_or_cons_of_stop edge with empty | ⟨behind, same⟩
        · exact more empty
        · rw [List.nil_append, same] at bracket
          cases bracket
      have plain : '<' ∉ chars := fun member => by cases plain _ member
      exact .inl fun gap => ⟨.text gap ⟨chars, nonempty, plain⟩, rest, rfl, rfl, .text _ _,
        Nat.zero_le _, edge⟩

theorem exists_nodes (maxDepth : Nat) (text : List Char) :
    ∃ (items : List Item) (rest : List Char), text = texts items ++ rest ∧
      ItemsEndBefore rest items ∧ (∀ item ∈ items, item.Canonical) ∧
      (∀ item ∈ items, item.gap.chars = []) ∧ depths items ≤ maxDepth ∧
      (rest = [] ∨ ∀ start, ∃ failure, Broken maxDepth maxDepth start rest failure) := by
  induction length : text.length using Nat.strong_induction_on generalizing text with
  | _ n ih =>
    by_cases more : text = []
    · exact ⟨[], text, rfl, True.intro, by simp, by simp, Nat.zero_le _, .inl more⟩
    · rcases node_or_broken maxDepth maxDepth text more with node | broken
      · obtain ⟨item, rest, gap, same, canonical, shallow, ends⟩ := node ⟨[], by simp⟩
        have shorter : rest.length < n := by
          have positive := List.length_pos_iff.mpr item.core_ne_nil
          rw [← length, same, List.length_append]
          omega
        obtain ⟨items, behind, rfl, ends', canonical', flush, shallow', stops⟩ :=
          ih rest.length shorter rest rfl
        refine ⟨item :: items, behind, ?_, ⟨ends, ends'⟩, List.forall_mem_cons.mpr
          ⟨canonical, canonical'⟩, List.forall_mem_cons.mpr ⟨by rw [gap], flush⟩,
          Nat.max_le.mpr ⟨shallow, shallow'⟩, stops⟩
        rw [same, texts, gap]
        simp
      · exact ⟨[], text, rfl, True.intro, by simp, by simp, Nat.zero_le _, .inr broken⟩

/-- Every text is a document within the limit, or stops at a broken tag. -/
theorem exists_document_or_broken (maxDepth : Nat) (text : List Char) :
    (∃ document : Document, document.text = text ∧ document.depth ≤ maxDepth) ∨
      ∀ start, ∃ failure, BrokenDocument maxDepth start text failure := by
  obtain ⟨items, rest, rfl, ends, canonical, flush, shallow, stops⟩ := exists_nodes maxDepth text
  have spaced : Spaced [] items := spaced_of_itemsEndBefore ⟨[], by simp⟩ ends
  rcases stops with rfl | broken
  · exact .inl ⟨⟨items, canonical, flush, spaced⟩, (List.append_nil _).symm, shallow⟩
  · refine .inr fun start => ?_
    obtain ⟨failure, broken⟩ := broken (start + byteLength (texts items))
    exact ⟨failure, .intro items canonical flush shallow spaced broken⟩

variable {source : Source} {maxDepth : Nat}

theorem exists_document_of_ok {nodes : List PageMarkup.Node}
    (read : parseDocument maxDepth source = .ok nodes) :
    ∃ document : Document, document.text = source.text ∧ document.depth ≤ maxDepth ∧
      document.nodes = nodes := by
  rcases exists_document_or_broken maxDepth source.text with ⟨document, same, shallow⟩ | broken
  · rw [parseDocument_reads document same shallow] at read
    cases read
    exact ⟨document, same, shallow, rfl⟩
  · obtain ⟨failure, broken⟩ := broken 0
    rw [parseDocument_fails broken] at read
    cases read

theorem exists_broken_of_error {fault : Diagnostic}
    (rejected : parseDocument maxDepth source = .error fault) :
    ∃ failure, BrokenDocument maxDepth 0 source.text failure ∧ fault = .ofFailure failure := by
  rcases exists_document_or_broken maxDepth source.text with ⟨document, same, shallow⟩ | broken
  · rw [parseDocument_reads document same shallow] at rejected
    cases rejected
  · obtain ⟨failure, broken⟩ := broken 0
    rw [parseDocument_fails broken] at rejected
    cases rejected
    exact ⟨failure, broken, rfl⟩

end PageMarkup.Written
