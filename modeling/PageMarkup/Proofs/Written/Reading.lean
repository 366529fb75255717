import PageMarkup.Proofs.Written.Attributes

namespace PageMarkup.Written

open Grammar

variable {source : Source} {start : Nat} {rest : List Char}

theorem tagName_reads (head : Head) (edge : beginsWith Char.isAlphanum rest = false)
    (here : source.suffix? start = some (head.lead ++ (head.name.chars ++ rest))) :
    tagName source start =
      .ok ⟨head.nameAt start, start + byteLength (head.lead ++ head.name.chars)⟩ := by
  have here : source.suffix? start =
      some ("<".toList ++ (head.gap.chars ++ (head.name.chars ++ rest))) := here
  have atGap := Source.suffix?_add here
  have atName := Source.suffix?_add atGap
  have solid : beginsWith isBlank (head.name.chars ++ rest) = false :=
    head.name.not_beginsWith_isBlank rest
  have lead : byteLength "<".toList + byteLength head.gap.chars = byteLength head.lead := rfl
  simp only [tagName, expecting, Parser.expect_of_ok (Parser.literal_reads here), ok_bind,
    afterBlanks_reads _ head.gap.blank solid atGap]
  rw [Parser.expect_of_ok (Parser.located_of_ok
    (Parser.alphanumeric1_reads head.name.nonempty head.name.alphanumeric edge atName))]
  simp only [Head.nameAt, Span.around, byteLength_append, ← lead, Nat.add_assoc]

theorem endOfOpening_reads (tag : String) (start : Nat) {offset : Nat} {gap : List Char}
    (blank : ∀ c ∈ gap, isBlank c = true)
    (here : source.suffix? offset = some (gap ++ '>' :: rest)) :
    endOfOpening tag start source offset = .ok ⟨(), offset + byteLength gap + 1⟩ := by
  have there : source.suffix? (offset + byteLength gap) = some (">".toList ++ rest) :=
    Source.suffix?_add here
  simp only [endOfOpening, Parser.whitespace_reads blank rfl here, ok_bind,
    Parser.literal_reads there]
  rfl

/-- The attributes of a tag end where its text goes on with `rest`. -/
structure Head.EndsBefore (head : Head) (rest : List Char) : Prop where
  name : beginsWith Char.isAlphanum (head.attrs.flatMap Attr.text ++ rest) = false
  attrs : AttrsEndBefore rest head.attrs

theorem tag_reads_name (maxDepth : Nat) (child? : Option (DocumentParser PageMarkup.Node))
    (head : Head) (edge : beginsWith Char.isAlphanum rest = false)
    (here : source.suffix? start = some (head.lead ++ (head.name.chars ++ rest))) :
    tag maxDepth child? source start = (
      match child? with
      | none =>
        .error (.spanning (((SyntaxFault.ofCode .maxDepthExceeded).withParam "tag"
          (.ofList head.name.chars)).withParam "max" (toString maxDepth)) (head.nameAt start).span)
      | some child => do
        let attributes ← attributes (.ofList head.name.chars) source
          (start + byteLength (head.lead ++ head.name.chars))
        let opened ← endOfOpening (.ofList head.name.chars) start source attributes.offset
        let children ← body child (head.nameAt start) source opened.offset
        .ok ⟨.tag (head.nameAt start) attributes.value children.value ⟨start, children.offset⟩,
          children.offset⟩) := by
  rw [tag, tagName_reads head edge here, ok_bind]
  rfl

theorem tag_reads_head (maxDepth : Nat) (child : DocumentParser Node) (head : Head) (last : Blanks)
    (ends : head.EndsBefore (last.chars ++ '>' :: rest))
    (here : source.suffix? start = some (head.text ++ (last.chars ++ '>' :: rest))) :
    tag maxDepth (some child) source start = (do
      let children ← body child (head.nameAt start) source
        (start + byteLength (head.text ++ last.chars) + 1)
      .ok ⟨.tag (head.nameAt start) (head.attributesAt start) children.value
        ⟨start, children.offset⟩, children.offset⟩) := by
  have atName := head.suffix?_lead here
  have atAttrs := head.suffix?_attrs here
  have atLast := Source.suffix?_add atAttrs
  have position : start + byteLength (head.lead ++ head.name.chars) +
      byteLength (head.attrs.flatMap Attr.text) + byteLength last.chars + 1 =
        start + byteLength (head.text ++ last.chars) + 1 := by
    rw [byteLength_append head.text, head.byteLength_text]
    omega
  simp only [tag_reads_name maxDepth (some child) head ends.name atName, ok_bind,
    attributes_reads _ head.attrs last.blank (.inr ⟨rest, rfl⟩) ends.attrs atAttrs,
    endOfOpening_reads _ start last.blank atLast, position]
  rfl

theorem closing_reads (name : Name) (closed : Closing)
    (here : source.suffix? start = some (closed.text name ++ rest)) :
    closing (.ofList name.chars) source start = .ok ⟨(), start + byteLength (closed.text name)⟩ := by
  have here : source.suffix? start = some ("</".toList ++ (closed.beforeName.chars ++
      ((String.ofList name.chars).toList ++ (closed.afterName.chars ++ (">".toList ++ rest))))) := by
    simpa [Closing.text] using here
  have atGap := Source.suffix?_add here
  have atName := Source.suffix?_add atGap
  have atGap' := Source.suffix?_add atName
  have atEnd := Source.suffix?_add atGap'
  have solid : beginsWith isBlank ((String.ofList name.chars).toList ++
      (closed.afterName.chars ++ (">".toList ++ rest))) = false := by
    rw [String.toList_ofList]
    exact name.not_beginsWith_isBlank _
  have edge : beginsWith isBlank (">".toList ++ rest) = false := rfl
  simp only [closing, Parser.literal_reads here, ok_bind,
    afterBlanks_reads _ closed.beforeName.blank solid atGap, Parser.literal_reads atName,
    afterBlanks_reads _ closed.afterName.blank edge atGap',
    Parser.literal_reads atEnd]
  have slash : byteLength "</".toList = 2 := rfl
  have bracket : byteLength ">".toList = 1 := rfl
  have small : '<'.utf8Size = 1 ∧ '/'.utf8Size = 1 ∧ '>'.utf8Size = 1 := ⟨rfl, rfl, rfl⟩
  congr 2
  simp only [Closing.text, byteLength_append, byteLength_cons, byteLength_nil, slash, bracket, small,
    String.toList_ofList]
  omega

def NotClosing (text : List Char) : Prop := "</".toList.isPrefixOf text = false

theorem closing_fails {text : List Char} (name : String) (inside : NotClosing text)
    (here : source.suffix? start = some text) :
    ∃ failure, closing name source start = .error failure := by
  simp only [closing, Parser.literal_fails inside here, error_bind]
  exact ⟨_, rfl⟩

theorem body_reads_closing (child : DocumentParser Node) (name : Name) (span : Span)
    (closed : Closing)
    (here : source.suffix? start = some (closed.gap.chars ++ (closed.text name ++ rest))) :
    body child ⟨.ofList name.chars, span⟩ source start =
      .ok ⟨[], start + byteLength (closed.gap.chars ++ closed.text name)⟩ := by
  have there := Source.suffix?_add here
  have gap : (closed.gap.chars ++ (closed.text name ++ rest)).takeWhile isBlank = closed.gap.chars :=
    takeWhile_run closed.gap.blank rfl
  rw [body, Source.rest_of_suffix? here, gap]
  simp only [closing_reads name closed there]
  rw [byteLength_append, Nat.add_assoc]

theorem body_reads_child (child : DocumentParser Node) (name : Located String) {gap text : List Char}
    {step : Success Node} (blank : ∀ c ∈ gap, isBlank c = true)
    (solid : beginsWith isBlank text = false) (more : text ≠ []) (inside : NotClosing text)
    (here : source.suffix? start = some (gap ++ text))
    (read : child source (start + byteLength gap) = .ok step)
    (advances : start + byteLength gap < step.offset) (within : step.offset ≤ source.size) :
    body child name source start =
      (body child name source step.offset).map (Parser.prepend [step.value]) := by
  have there := Source.suffix?_add here
  obtain ⟨failure, notClosed⟩ := closing_fails name.value inside there
  have goesOn : ¬ source.size ≤ start + byteLength gap := fun stops =>
    more ((Source.size_le_iff there).mp stops)
  rw [body, Source.rest_of_suffix? here, takeWhile_run blank solid]
  simp only [notClosed, Source.rest_of_suffix? there, show "</".toList.isPrefixOf text = false from inside,
    goesOn, read, advances, within, and_self, if_true, Bool.false_eq_true, if_false]
  cases body child name source step.offset <;> rfl

def Item.EndsBefore (rest : List Char) : Item → Prop
  | .text _ _ => beginsWith (· != '<') rest = false
  | .tag _ _ _ _ _ => True

def ItemsEndBefore (rest : List Char) : List Item → Prop
  | [] => True
  | item :: items => item.EndsBefore (texts items ++ rest) ∧ ItemsEndBefore rest items

def Reads (parser : DocumentParser Node) (item : Item) : Prop :=
  ∀ ⦃source : Source⦄ ⦃start : Nat⦄ ⦃rest : List Char⦄, item.EndsBefore rest →
    source.suffix? start = some (item.core ++ rest) →
    parser source start = .ok ⟨item.nodeAt start, start + byteLength item.core⟩

theorem Item.core_ne_nil (item : Item) : item.core ≠ [] := by
  cases item with
  | text gap run => simp [core, run.nonempty]
  | tag gap head last children closing => simp [core, Head.text, Head.lead]

theorem Item.not_beginsWith_blank {item : Item} (visible : item.Visible) :
    beginsWith isBlank (item.core ++ rest) = false := by
  rw [beginsWith_append item.core_ne_nil]
  cases item with
  | text gap run => rw [core]; exact visible
  | tag gap head last children closing => rw [core, Head.text, Head.lead]; rfl

theorem notClosing_of_bracket {text : List Char} (edge : beginsWith (· == '/') text = false) :
    NotClosing ('<' :: text) :=
  (Parser.isPrefixOf_singleton '/' text).trans edge

theorem notClosing_of_text {text : List Char} (plain : beginsWith (· == '<') text = false) :
    NotClosing text := by
  cases text with
  | nil => rfl
  | cons c text =>
    have different : ('<' == c) = false := BEq.comm.trans plain
    simp [NotClosing, List.isPrefixOf, different]

theorem Run.not_beginsWith_bracket (run : Run) : beginsWith (· == '<') (run.chars ++ rest) = false := by
  obtain ⟨chars, nonempty, plain⟩ := run
  rw [beginsWith_append nonempty]
  cases chars with
  | nil => contradiction
  | cons c chars =>
    rw [beginsWith_cons, beq_eq_false_iff_ne]
    rintro rfl
    exact plain List.mem_cons_self

theorem Head.notClosing (head : Head) : NotClosing (head.text ++ rest) := by
  rw [text, lead, List.append_assoc, List.append_assoc]
  apply notClosing_of_bracket
  apply not_beginsWith_append
  · intro c member
    exact beq_eq_false_of_isBlank (head.gap.blank c member) rfl
  · exact beginsWith_disjoint (fun c name => beq_eq_false_of_isAlphanum name rfl)
      (beginsWith_of_forall head.name.nonempty head.name.alphanumeric)

theorem Item.notClosing (item : Item) : NotClosing (item.core ++ rest) := by
  cases item with
  | text gap run =>
    apply notClosing_of_text
    rw [core]
    exact run.not_beginsWith_bracket
  | tag gap head last children closing =>
    rw [core, List.append_assoc]
    exact head.notClosing

theorem body_reads_children (child : DocumentParser Node) (name : Located String) (items : List Item)
    (reads : ∀ item ∈ items, Reads child item) (visible : ∀ item ∈ items, item.Visible)
    (ends : ItemsEndBefore rest items)
    (here : source.suffix? start = some (texts items ++ rest)) :
    body child name source start =
      (body child name source (start + byteLength (texts items))).map
        (Parser.prepend (nodesAt start items)) := by
  induction items generalizing start with
  | nil =>
    rw [texts, byteLength_nil, Nat.add_zero, nodesAt]
    cases body child name source start <;> rfl
  | cons item items ih =>
    obtain ⟨atGap, atCore, atRest⟩ := suffix?_texts_cons here
    have solid : beginsWith isBlank (item.core ++ (texts items ++ rest)) = false :=
      item.not_beginsWith_blank (visible item List.mem_cons_self)
    have read := reads item List.mem_cons_self ends.1 atCore
    have position : start + byteLength item.gap.chars + byteLength item.core =
        start + byteLength (item.gap.chars ++ item.core) := by
      rw [byteLength_append, Nat.add_assoc]
    have size := Source.size_of_suffix? atRest
    have advances := byteLength_pos item.core_ne_nil
    have one := body_reads_child child name item.gap.blank solid (by simp [item.core_ne_nil])
      item.notClosing atGap read (by simp only; omega) (by simp only; omega)
    rw [position] at one
    have more := ih (fun other member => reads other (List.mem_cons_of_mem _ member))
      (fun other member => visible other (List.mem_cons_of_mem _ member)) ends.2 atRest
    have length : byteLength (texts (item :: items)) =
        byteLength (item.gap.chars ++ item.core) + byteLength (texts items) := by
      rw [texts, ← List.append_assoc, byteLength_append]
    rw [one, more, length, ← Nat.add_assoc, nodesAt]
    cases body child name source _ <;> rfl

/-- An attribute ends here: a blank, the end of the opening tag or of the text follows, and no
    equals sign. -/
structure Stops (rest : List Char) : Prop where
  ends : endsValue rest = true
  notEquals : beginsWith (· == '=') (rest.dropWhile isBlank) = false

theorem Stops.notName (stops : Stops rest) : beginsWith Char.isAlphanum rest = false :=
  beginsWith_of_endsValue stops.ends fun _ => not_isAlphanum_of_ends

theorem Attr.endsBefore (attr : Attr) (stops : Stops rest) : attr.EndsBefore rest := by
  unfold EndsBefore
  cases attr.assignment? with
  | some assignment => exact stops.ends
  | none => exact ⟨stops.notName, stops.notEquals⟩

theorem stops_of_blanks (blanks : Blanks) (edge : endsValue (blanks.chars ++ rest) = true)
    (solid : beginsWith isBlank rest = false) (notEquals : beginsWith (· == '=') rest = false) :
    Stops (blanks.chars ++ rest) :=
  ⟨edge, by rw [dropWhile_run blanks.blank solid]; exact notEquals⟩

theorem endsValue_append (blanks : Blanks) (edge : blanks.chars = [] → endsValue rest = true) :
    endsValue (blanks.chars ++ rest) = true := by
  obtain ⟨chars, blank⟩ := blanks
  cases chars with
  | nil => exact edge rfl
  | cons c chars =>
    have first : isBlank c = true := blank c List.mem_cons_self
    simp [endsValue, first]

theorem Attr.stops (attr : Attr) : Stops (attr.text ++ rest) := by
  have begins : beginsWith Char.isAlphanum (attr.core ++ rest) = true := attr.beginsWith_core
  rw [text, List.append_assoc]
  exact stops_of_blanks attr.gap (endsValue_append attr.gap fun empty => absurd empty attr.apart)
    (beginsWith_disjoint (fun _ => not_isBlank_of_isAlphanum) begins)
    (beginsWith_disjoint (fun _ name => beq_eq_false_of_isAlphanum name rfl) begins)

theorem stops_of_attrs (attrs : List Attr) (stops : Stops rest) :
    Stops (attrs.flatMap Attr.text ++ rest) := by
  cases attrs with
  | nil => exact stops
  | cons attr attrs =>
    rw [List.flatMap_cons, List.append_assoc]
    exact attr.stops

theorem attrsEndBefore_of_stops (attrs : List Attr) (stops : Stops rest) :
    AttrsEndBefore rest attrs := by
  induction attrs with
  | nil => exact True.intro
  | cons attr attrs ih => exact ⟨attr.endsBefore (stops_of_attrs attrs stops), ih⟩

theorem Head.endsBefore (head : Head) (stops : Stops rest) : head.EndsBefore rest :=
  ⟨(stops_of_attrs head.attrs stops).notName, attrsEndBefore_of_stops head.attrs stops⟩

theorem stops_of_bracket (last : Blanks) : Stops (last.chars ++ '>' :: rest) :=
  stops_of_blanks last (endsValue_append last fun _ => rfl) rfl rfl

theorem stops_of_end (last : Blanks) : Stops (last.chars ++ []) :=
  stops_of_blanks last (endsValue_append last fun _ => rfl) rfl rfl

theorem itemsEndBefore_of_spaced {last : List Char} {items : List Item} (spaced : Spaced last items)
    (edge : beginsWith (· != '<') rest = false) : ItemsEndBefore (last ++ rest) items := by
  induction items with
  | nil => exact True.intro
  | cons item items ih =>
    refine ⟨?_, ih spaced.2⟩
    cases item with
    | tag gap head last children closing => exact True.intro
    | text gap run =>
      have ends := spaced.1 rfl
      cases items with
      | nil =>
        have empty : last = [] := ends
        rw [Item.EndsBefore, texts, empty]
        exact edge
      | cons next items =>
        obtain ⟨bracket, flush⟩ := ends
        cases next with
        | text gap run => cases bracket
        | tag gap head last children closing =>
          have empty : gap.chars = [] := flush
          simp [Item.EndsBefore, texts, Item.gap, empty, Item.core, Head.text, Head.lead]

theorem itemsEndBefore_of_flush {items : List Item} (spaced : Spaced [] items)
    (edge : beginsWith (· != '<') rest = false) : ItemsEndBefore rest items := by
  have ends : ItemsEndBefore ([] ++ rest) items := itemsEndBefore_of_spaced spaced edge
  exact ends

theorem tag_fails_without_bracket (maxDepth : Nat) (child? : Option (DocumentParser Node))
    {text : List Char} (plain : beginsWith (· == '<') text = false)
    (here : source.suffix? start = some text) :
    tag maxDepth child? source start =
      .error (.atPoint (SyntaxFault.ofCode .missingOpeningBracket) start) := by
  have absent : "<".toList.isPrefixOf text = false :=
    (Parser.isPrefixOf_singleton '<' text).trans plain
  simp only [tag, tagName, expecting, Parser.expect_of_error (Parser.literal_fails absent here),
    error_bind]
  simp [Failure.atPoint, Span.cover, Span.point]

theorem textNode_reads (run : Run) (edge : beginsWith (· != '<') rest = false)
    (here : source.suffix? start = some (run.chars ++ rest)) :
    textNode source start =
      .ok ⟨.text (.ofList run.chars) (.around start run.chars), start + byteLength run.chars⟩ := by
  obtain ⟨chars, nonempty, plain⟩ := run
  have goes : ∀ c ∈ chars, (c == '<') = false := by
    intro c member
    rw [beq_eq_false_iff_ne]
    rintro rfl
    exact plain member
  have more : ¬ source.size ≤ start := fun stops => by
    have empty := (Source.size_le_iff here).mp stops
    exact nonempty (List.append_eq_nil_iff.mp empty).1
  have solid : ((chars ++ rest).head? == some '<') = false := by
    cases chars with
    | nil => contradiction
    | cons c chars => simpa using goes c List.mem_cons_self
  simp only [textNode, more, if_false, Source.rest_of_suffix? here, solid, Bool.false_eq_true,
    Parser.takeUntil1_reads nonempty goes edge here, ok_bind]
  rfl

def inner? (maxDepth : Nat) : (levels : Nat) → Option (DocumentParser Node)
  | 0 => none
  | levels + 1 => some (node maxDepth levels)

theorem node_eq (maxDepth levels : Nat) (source : Source) (start : Nat) :
    node maxDepth levels source start =
      Parser.choice (tag maxDepth (inner? maxDepth levels)) [textNode] source start := by
  cases levels <;> rfl

theorem depth_le_depths {item : Item} {items : List Item} (member : item ∈ items) :
    item.depth ≤ depths items := by
  induction items with
  | nil => cases member
  | cons first items ih =>
    rw [depths]
    rcases List.mem_cons.mp member with rfl | member
    · exact Nat.le_max_left _ _
    · exact Nat.le_trans (ih member) (Nat.le_max_right _ _)

theorem node_reads_text (maxDepth levels : Nat) (gap : Blanks) (run : Run) :
    Reads (node maxDepth levels) (.text gap run) := by
  intro source start rest ends here
  rw [Item.core] at here ⊢
  rw [node_eq]
  exact Parser.choice_pair_of_error
    (tag_fails_without_bracket maxDepth _ run.not_beginsWith_bracket here)
    (textNode_reads run ends here)

theorem node_reads_tag (maxDepth levels : Nat) (gap : Blanks) (head : Head) (last : Blanks)
    {children : List Item} {closing : Closing} (visible : ∀ child ∈ children, child.Visible)
    (spaced : Spaced closing.gap.chars children)
    (reads : ∀ child ∈ children, Reads (node maxDepth levels) child) :
    Reads (node maxDepth (levels + 1)) (.tag gap head last children closing) := by
  intro source start rest _ here
  have atHead := Item.suffix?_head here
  have atBody := head.suffix?_body last atHead
  have ends : ItemsEndBefore (closing.gap.chars ++ (closing.text head.name ++ rest)) children :=
    itemsEndBefore_of_spaced spaced rfl
  have atClosing := Source.suffix?_add atBody
  have closed := body_reads_closing (node maxDepth levels) head.name (head.nameAt start).span closing
    atClosing
  have read := body_reads_children (node maxDepth levels) (head.nameAt start) children reads visible
    ends atBody
  rw [show body (node maxDepth levels) (head.nameAt start) source _ = _ from closed] at read
  rw [node_eq]
  apply Parser.choice_pair_of_ok
  rw [inner?, tag_reads_head maxDepth _ head last (head.endsBefore (stops_of_bracket last)) atHead, read]
  have position : start + byteLength (head.text ++ last.chars) + 1 + byteLength (texts children) +
      byteLength (closing.gap.chars ++ closing.text head.name) =
        start + byteLength (Item.tag gap head last children closing).core := by
    rw [Item.byteLength_core]
    omega
  simp only [Except.map, ok_bind, Parser.prepend, List.append_nil, position]
  rfl

theorem node_reads (maxDepth : Nat) {levels : Nat} {item : Item} (canonical : item.Canonical)
    (shallow : item.depth ≤ levels) : Reads (node maxDepth levels) item := by
  induction levels generalizing item with
  | zero =>
    cases canonical with
    | text gap run => exact node_reads_text maxDepth 0 gap run
    | tag => simp [Item.depth] at shallow
  | succ levels ih =>
    cases canonical with
    | text gap run => exact node_reads_text maxDepth (levels + 1) gap run
    | tag gap head last canonical visible spaced =>
      apply node_reads_tag maxDepth levels gap head last visible spaced
      intro child member
      have deep := depth_le_depths member
      rw [Item.depth] at shallow
      exact ih (canonical child member) (by omega)

theorem nodes_steps (parser : DocumentParser PageMarkup.Node) (items : List Item)
    (reads : ∀ item ∈ items, Reads parser item) (flush : ∀ item ∈ items, item.gap.chars = [])
    (ends : ItemsEndBefore rest items) (here : source.suffix? start = some (texts items ++ rest)) :
    Parser.Steps parser source (fun _ => True) start (nodesAt start items)
      (start + byteLength (texts items)) := by
  induction items generalizing start with
  | nil => exact .done start
  | cons item items ih =>
    have empty := flush item List.mem_cons_self
    have here : source.suffix? start = some (item.core ++ (texts items ++ rest)) := by
      simpa [texts, empty] using here
    have atRest := Source.suffix?_add here
    have read := reads item List.mem_cons_self ends.1 here
    have size := Source.size_of_suffix? atRest
    have advances := byteLength_pos item.core_ne_nil
    have more := ih (fun other member => reads other (List.mem_cons_of_mem _ member))
      (fun other member => flush other (List.mem_cons_of_mem _ member)) ends.2 atRest
    have step := Parser.Steps.step True.intro read (by simp only; omega) (by simp only; omega) more
    simpa [texts, nodesAt, empty, byteLength_append, Nat.add_assoc] using step

theorem node_fails_at_end (maxDepth levels : Nat) (here : source.suffix? start = some []) :
    ∃ failure, node maxDepth levels source start = .error failure := by
  rw [node_eq]
  have ended : textNode source start =
      .error (.atPoint (SyntaxFault.ofCode .unexpectedEof) start) := by
    rw [textNode, if_pos ((Source.size_le_iff here).mpr rfl)]
  exact ⟨_, Parser.choice_pair_fails (tag_fails_without_bracket maxDepth _ rfl here) ended le_rfl⟩

theorem document_of_nodes (maxDepth : Nat) (items : List Item)
    (canonical : ∀ item ∈ items, item.Canonical) (flush : ∀ item ∈ items, item.gap.chars = [])
    (shallow : depths items ≤ maxDepth) (ends : ItemsEndBefore rest items)
    (here : source.suffix? start = some (texts items ++ rest)) {failure : Failure SyntaxFault}
    (failed : node maxDepth maxDepth source (start + byteLength (texts items)) = .error failure) :
    document maxDepth source start =
      if rest = [] then .ok ⟨nodesAt start items, start + byteLength (texts items)⟩
      else .error failure := by
  have reads : ∀ item ∈ items, Reads (node maxDepth maxDepth) item := fun item member =>
    node_reads maxDepth (canonical item member) (Nat.le_trans (depth_le_depths member) shallow)
  have atRest := Source.suffix?_add here
  rw [document, Parser.many_of_steps (nodes_steps _ items reads flush ends here),
    Parser.many_of_error failed]
  simp only [Except.map, ok_bind, Parser.prepend, List.append_nil, Source.size_le_iff atRest, failed]

theorem document_reads (maxDepth : Nat) (items : List Item)
    (canonical : ∀ item ∈ items, item.Canonical) (flush : ∀ item ∈ items, item.gap.chars = [])
    (shallow : depths items ≤ maxDepth) (spaced : Spaced [] items)
    (here : source.suffix? start = some (texts items)) :
    document maxDepth source start =
      .ok ⟨nodesAt start items, start + byteLength (texts items)⟩ := by
  have here : source.suffix? start = some (texts items ++ []) := by
    rw [List.append_nil]
    exact here
  have ends : ItemsEndBefore [] items := itemsEndBefore_of_flush spaced rfl
  obtain ⟨failure, failed⟩ := node_fails_at_end maxDepth maxDepth (Source.suffix?_add here)
  rw [document_of_nodes maxDepth items canonical flush shallow ends here failed, if_pos rfl]

theorem parseDocument_reads (document : Document) (same : document.text = source.text)
    (shallow : document.depth ≤ maxDepth) : parseDocument maxDepth source = .ok document.nodes := by
  have here := Source.suffix?_zero source
  rw [← same] at here
  rw [parseDocument, document_reads maxDepth document.items document.canonical document.flush shallow
    document.spaced here]
  rfl

/-- A document that was written within the nesting limit is read as it was meant: with the same
    nodes, attributes and values, and with the spans at which they were written. -/
theorem parseDocument_text (maxDepth : Nat) (document : Document)
    (shallow : document.depth ≤ maxDepth) :
    parseDocument maxDepth (.ofText document.text) = .ok document.nodes := by
  have here : (Source.ofText document.text).suffix? 0 = some (texts document.items) :=
    Source.suffix?_zero _
  rw [parseDocument, document_reads maxDepth document.items document.canonical document.flush
    shallow document.spaced here]
  rfl

def Document.sample : Document :=
  let tight : Blanks := ⟨[], List.all_eq_true.mp rfl⟩
  let blank : Blanks := ⟨[' '], List.all_eq_true.mp rfl⟩
  let wide : Blanks := ⟨['\u2003'], List.all_eq_true.mp rfl⟩
  let language : Attr :=
    ⟨blank, by decide, ⟨"lang".toList, by decide, List.all_eq_true.mp rfl⟩,
      some ⟨blank, blank, .string "de".toList (by decide)⟩⟩
  let width : Attr :=
    ⟨wide, by decide, ⟨['w'], by decide, List.all_eq_true.mp rfl⟩,
      some ⟨tight, tight, .number ⟨true, ['1'], ['5']⟩
        ⟨by decide, List.all_eq_true.mp rfl, List.all_eq_true.mp rfl⟩⟩⟩
  let bold : Attr := ⟨blank, by decide, ⟨['b'], by decide, List.all_eq_true.mp rfl⟩, .none⟩
  let greeting : Item := .text tight ⟨"Grüße".toList, by decide, by decide⟩
  let box : Item :=
    .tag tight ⟨tight, ⟨"box".toList, by decide, List.all_eq_true.mp rfl⟩, [width, bold]⟩ tight []
      ⟨tight, tight, blank⟩
  let page : Item :=
    .tag tight ⟨blank, ⟨"main".toList, by decide, List.all_eq_true.mp rfl⟩, [language]⟩ blank
      [greeting, box] ⟨blank, blank, tight⟩
  have empty : box.Canonical := .tag _ _ _ nofun nofun True.intro
  have canonical : page.Canonical :=
    .tag _ _ _ (List.forall_mem_cons.mpr ⟨.text _ _, List.forall_mem_singleton.mpr empty⟩)
      (List.forall_mem_cons.mpr ⟨rfl, List.forall_mem_singleton.mpr True.intro⟩)
      ⟨fun _ => ⟨rfl, rfl⟩, nofun, True.intro⟩
  ⟨[page], List.forall_mem_singleton.mpr canonical, List.forall_mem_singleton.mpr rfl,
    ⟨nofun, True.intro⟩⟩

theorem parseDocument_sample :
    Document.sample.text =
        "< main lang = \"de\" >Grüße<box\u2003w=-1.5 b></box > </ main>".toList ∧
      Document.sample.depth ≤ 2 ∧
      parseDocument 2 (.ofText Document.sample.text) = .ok Document.sample.nodes := by
  have shallow : Document.sample.depth ≤ 2 := by decide
  exact ⟨by decide, shallow, parseDocument_text 2 Document.sample shallow⟩

end PageMarkup.Written
