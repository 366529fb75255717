import PageMarkup.Proofs.Layout.Basic
import PageMarkup.Proofs.Written.Coverage

namespace PageMarkup.Written

open Layout

variable {source : Source} {start : Nat} {rest : List Char}

theorem Name.isName (name : Name) : isName (.ofList name.chars) = true := by
  obtain ⟨chars, nonempty, alphanumeric⟩ := name
  simpa [PageMarkup.isName, nonempty] using alphanumeric

theorem Name.slice (name : Name) (here : source.suffix? start = some (name.chars ++ rest)) :
    source.slice? (.around start name.chars) = some (String.ofList name.chars).toList := by
  rw [String.toList_ofList]
  exact Source.slice?_around here

theorem Assignment.assigns (assignment : Assignment) : Assigns assignment.lead :=
  ⟨_, _, assignment.before.blank, assignment.after.blank, rfl⟩

theorem Attr.attributeAt_lies (attr : Attr)
    (here : source.suffix? start = some (attr.core ++ rest)) :
    AttributeLies source (attr.attributeAt start) := by
  obtain ⟨gap, apart, key, assignment?⟩ := attr
  cases assignment? with
  | none =>
    have here : source.suffix? start = some (key.chars ++ rest) := by
      simpa [Attr.core] using here
    exact ⟨key.isName, key.slice here, rfl, rfl⟩
  | some assignment =>
    have atKey : source.suffix? start =
        some (key.chars ++ (assignment.lead ++ (assignment.literal.text ++ rest))) := by
      simpa [Attr.core, Assignment.text] using here
    have atLead := Source.suffix?_add atKey
    have atValue : source.suffix? (start + byteLength (key.chars ++ assignment.lead)) =
        some (assignment.literal.text ++ rest) := by
      rw [byteLength_append, ← Nat.add_assoc]
      exact Source.suffix?_add atLead
    have slice := Source.slice?_around atValue
    have between : source.Between Assigns (start + byteLength key.chars)
        (start + byteLength (key.chars ++ assignment.lead)) := by
      rw [byteLength_append, ← Nat.add_assoc]
      exact Source.between_of_suffix? assignment.assigns atLead
    refine ⟨key.isName, key.slice atKey, ?_⟩
    obtain ⟨before, after, literal⟩ := assignment
    cases literal with
    | string content unquoted =>
      refine ⟨?_, ?_, between⟩
      · rw [String.toList_ofList]
        exact unquoted
      · rw [String.toList_ofList]
        exact slice
    | number numeral proper => exact ⟨⟨numeral, proper, rfl, slice⟩, between⟩

theorem Attr.span_attributeAt (attr : Attr) (start : Nat) :
    (attr.attributeAt start).span = .around start attr.core := by
  obtain ⟨gap, apart, key, assignment?⟩ := attr
  cases assignment? with
  | none => simp [Attr.attributeAt, Attribute.span, Attr.core, Span.around]
  | some assignment =>
    simp [Attr.attributeAt, Attribute.span, Attr.core, Span.around, Assignment.text,
      byteLength_append, Nat.add_assoc]

theorem Attr.core_pos (attr : Attr) : 0 < byteLength attr.core := by
  have positive := byteLength_pos attr.key.nonempty
  rw [core, byteLength_append]
  omega

theorem attributesAt_lie (attrs : List Attr)
    (here : source.suffix? start = some (attrs.flatMap Attr.text ++ rest)) :
    (∀ attr ∈ attributesAt start attrs, AttributeLies source attr) ∧
      Strung (source.Between Apart) start ((attributesAt start attrs).map Attribute.span)
        (start + byteLength (attrs.flatMap Attr.text)) := by
  induction attrs generalizing start with
  | nil => exact ⟨by simp [attributesAt], rfl⟩
  | cons attr attrs ih =>
    obtain ⟨atGap, atCore, atRest⟩ := suffix?_attrs_cons here
    obtain ⟨lie, strung⟩ := ih atRest
    have positive := attr.core_pos
    have gap : source.Between Apart start (start + byteLength attr.gap.chars) :=
      Source.between_of_suffix? ⟨attr.apart, attr.gap.blank⟩ atGap
    have stop : start + byteLength attr.gap.chars + byteLength attr.core =
        start + byteLength attr.text := by
      rw [Attr.text, byteLength_append, Nat.add_assoc]
    refine ⟨List.forall_mem_cons.mpr ⟨attr.attributeAt_lies atCore, lie⟩, ?_⟩
    simp only [attributesAt, List.map_cons, Strung, Attr.span_attributeAt, Span.around, stop,
      List.flatMap_cons, byteLength_append (attr.text), ← Nat.add_assoc]
    exact ⟨gap, by omega, strung⟩

theorem Head.lies (head : Head) (here : source.suffix? start = some (head.text ++ rest)) :
    source.slice? (head.nameAt start).span = some (head.nameAt start).value.toList ∧
      ∀ attr ∈ head.attributesAt start, AttributeLies source attr := by
  have atName := Source.suffix?_add (head.suffix?_lead here)
  exact ⟨head.name.slice atName, (attributesAt_lie head.attrs (head.suffix?_attrs here)).1⟩

theorem Item.span_nodeAt (item : Item) (start : Nat) :
    (item.nodeAt start).span = .around start item.core := by
  cases item with
  | text gap run => rfl
  | tag gap head last children closing => rfl

theorem Item.isText_nodeAt (item : Item) (start : Nat) :
    (item.nodeAt start).isText = item.isText := by
  cases item with
  | text gap run => rfl
  | tag gap head last children closing => rfl

theorem Item.visible_nodeAt {item : Item} (visible : item.Visible) (start : Nat) :
    (item.nodeAt start).Visible := by
  cases item with
  | text gap run =>
    rw [nodeAt, Node.Visible, String.toList_ofList]
    exact visible
  | tag gap head last children closing => exact True.intro

theorem forall_nodesAt {P : Node → Prop} (items : List Item) (ends : ItemsEndBefore rest items)
    (here : source.suffix? start = some (texts items ++ rest))
    (holds : ∀ item ∈ items, ∀ {start : Nat} {rest : List Char}, item.EndsBefore rest →
      source.suffix? start = some (item.core ++ rest) → P (item.nodeAt start)) :
    ∀ node ∈ nodesAt start items, P node := by
  induction items generalizing start with
  | nil => simp [nodesAt]
  | cons item items ih =>
    obtain ⟨_, atCore, atRest⟩ := suffix?_texts_cons here
    rw [nodesAt]
    refine List.forall_mem_cons.mpr ⟨?_, ?_⟩
    · exact holds item List.mem_cons_self ends.1 atCore
    · exact ih ends.2 atRest fun other member => holds other (List.mem_cons_of_mem _ member)

theorem nodesAt_strung {Gap : Nat → Nat → Prop} (items : List Item)
    (gaps : ∀ item ∈ items, ∀ {start : Nat} {rest : List Char},
      source.suffix? start = some (item.gap.chars ++ rest) →
        Gap start (start + byteLength item.gap.chars))
    (here : source.suffix? start = some (texts items ++ rest)) :
    Strung Gap start ((nodesAt start items).map Node.span) (start + byteLength (texts items)) := by
  induction items generalizing start with
  | nil => rfl
  | cons item items ih =>
    obtain ⟨atGap, _, atRest⟩ := suffix?_texts_cons here
    have strung := ih (fun other member => gaps other (List.mem_cons_of_mem _ member)) atRest
    have positive := byteLength_pos item.core_ne_nil
    simp only [byteLength_append, ← Nat.add_assoc] at strung
    simp only [nodesAt, List.map_cons, Strung, Item.span_nodeAt, Span.around, texts,
      byteLength_append, ← Nat.add_assoc]
    exact ⟨gaps item List.mem_cons_self atGap, by omega, strung⟩

theorem separate_nodesAt {last : List Char} {items : List Item} (spaced : Spaced last items)
    (start : Nat) : Separate (nodesAt start items) := by
  induction items generalizing start with
  | nil => exact .nil
  | cons item items ih =>
    obtain ⟨ends, spaced⟩ := spaced
    have separate := ih spaced (start + byteLength (item.gap.chars ++ item.core))
    cases items with
    | nil => exact .singleton _
    | cons next items =>
      refine .cons_cons ?_ separate
      rintro ⟨text, follows⟩
      rw [Item.isText_nodeAt] at text follows
      rw [(ends text).1] at follows
      cases follows

theorem Run.lies (run : Run) (ends : beginsWith (· != '<') rest = false)
    (here : source.suffix? start = some (run.chars ++ rest)) :
    TextLies source (.ofList run.chars) (.around start run.chars) := by
  have behind := Source.rest_of_suffix? (Source.suffix?_add here)
  constructor
  · rw [String.toList_ofList]
    exact Source.slice?_around here
  · rw [String.toList_ofList]
    exact run.nonempty
  · rw [String.toList_ofList]
    exact run.plain
  · rw [Span.around, behind]
    exact ends

theorem tag_covers (gap : Blanks) (head : Head) (last : Blanks) (children : List Item)
    (closing : Closing)
    (here : source.suffix? start =
      some ((Item.tag gap head last children closing).core ++ rest)) :
    let named := start + byteLength (head.lead ++ head.name.chars)
    let attrsEnd := named + byteLength (head.attrs.flatMap Attr.text)
    let opened := start + byteLength (head.text ++ last.chars) + 1
    let ended := opened + byteLength (texts children)
    TagCovers source (head.nameAt start) (head.attributesAt start) (nodesAt opened children)
      (.around start (Item.tag gap head last children closing).core) attrsEnd opened ended
      (ended + byteLength closing.gap.chars) := by
  intro named attrsEnd opened ended
  have atHead := Item.suffix?_head here
  have atAttrs := head.suffix?_attrs atHead
  have atLast : source.suffix? attrsEnd = some ((last.chars ++ ['>']) ++ (texts children ++
      (closing.gap.chars ++ (closing.text head.name ++ rest)))) := by
    rw [List.append_assoc]
    exact Source.suffix?_add atAttrs
  have atChildren := head.suffix?_body last atHead
  have atGap := Source.suffix?_add atChildren
  have atClosing := Source.suffix?_add atGap
  have namedIs : start + byteLength head.lead + byteLength head.name.chars = named := by
    rw [Nat.add_assoc, ← byteLength_append]
  have openedIs : attrsEnd + byteLength (last.chars ++ ['>']) = opened := by
    have bracket : byteLength ['>'] = 1 := rfl
    simp only [attrsEnd, named, opened, byteLength_append, head.byteLength_text, bracket]
    omega
  have stopIs : ended + byteLength closing.gap.chars + byteLength (closing.text head.name) =
      start + byteLength (Item.tag gap head last children closing).core := by
    rw [Item.byteLength_core, byteLength_append closing.gap.chars]
    omega
  constructor
  · exact Source.between_of_suffix? ⟨_, head.gap.blank, rfl⟩ (head.suffix?_lead atHead)
  · simp only [Head.nameAt, Head.attributesAt, Span.around, namedIs]
    exact (attributesAt_lie head.attrs atAttrs).2
  · rw [← openedIs]
    exact Source.between_of_suffix? ⟨_, last.blank, rfl⟩ atLast
  · exact nodesAt_strung children
      (fun item _ _ _ atItem => Source.between_of_suffix? item.gap.blank atItem) atChildren
  · exact Source.between_of_suffix? closing.gap.blank atGap
  · rw [Span.around, ← stopIs]
    apply Source.between_of_suffix? _ atClosing
    rw [Head.nameAt, String.toList_ofList]
    exact ⟨_, _, closing.beforeName.blank, closing.afterName.blank, rfl⟩

theorem faithful_nodeAt {item : Item} (canonical : item.Canonical) (ends : item.EndsBefore rest)
    (here : source.suffix? start = some (item.core ++ rest)) :
    Faithful source (item.nodeAt start) := by
  induction canonical generalizing start rest with
  | text gap run => exact .text (run.lies ends here)
  | @tag gap head last children closing canonical visible spaced ih =>
    have covers := tag_covers gap head last children closing here
    have ends : ItemsEndBefore (closing.gap.chars ++ (closing.text head.name ++ rest)) children :=
      itemsEndBefore_of_spaced spaced rfl
    have atHead := Item.suffix?_head here
    obtain ⟨nameSlice, attributesLie⟩ := head.lies atHead
    have atChildren := head.suffix?_body last atHead
    have faithful := forall_nodesAt (P := Faithful source) children ends atChildren
      fun child member _ _ ends here => ih child member ends here
    have valid := forall_nodesAt (P := fun node => node.span.Valid source) children ends atChildren
      fun child _ _ _ _ here => by
        rw [child.span_nodeAt]
        exact Span.valid_around here
    have visible := forall_nodesAt (P := Node.Visible) children ends atChildren
      fun child member _ _ _ _ => Item.visible_nodeAt (visible child member) _
    exact .tag (covers.tagLies (Span.valid_around here) head.name.isName nameSlice attributesLie valid
      visible (separate_nodesAt spaced _)) faithful

theorem Document.faithful (document : Document) (same : document.text = source.text) :
    Strung (· = ·) 0 (document.nodes.map Node.span) source.size ∧ Separate document.nodes ∧
      ∀ node ∈ document.nodes, Faithful source node := by
  have whole : source.suffix? 0 = some (texts document.items ++ []) := by
    rw [Source.suffix?_zero, ← same, List.append_nil]
    rfl
  have size : source.size = 0 + byteLength (texts document.items) := by
    rw [Source.size_of_suffix? whole, List.append_nil]
  have ends : ItemsEndBefore [] document.items := itemsEndBefore_of_flush document.spaced rfl
  refine ⟨?_, separate_nodesAt document.spaced 0, ?_⟩
  · rw [size]
    apply nodesAt_strung document.items _ whole
    intro item member start rest _
    rw [document.flush item member]
    rfl
  · exact forall_nodesAt document.items ends whole fun item member _ _ ends here =>
      faithful_nodeAt (document.canonical item member) ends here

/-- What was read lies in the source as it says, whatever the source. -/
theorem parseDocument_faithful {maxDepth : Nat} {nodes : List Node}
    (read : parseDocument maxDepth source = .ok nodes) :
    Strung (· = ·) 0 (nodes.map Node.span) source.size ∧ Separate nodes ∧
      ∀ node ∈ nodes, Faithful source node := by
  obtain ⟨document, same, _, rfl⟩ := exists_document_of_ok read
  exact document.faithful same

theorem parseDocument_faithful_umlauts :
    ∃ nodes, parseDocument 2 (.ofString "<p b> ü<q s = \"ö\"></ q></p >ä") = .ok nodes ∧
      Strung (· = ·) 0 (nodes.map Node.span) 32 ∧ Separate nodes ∧
        ∀ node ∈ nodes, Faithful (.ofString "<p b> ü<q s = \"ö\"></ q></p >ä") node := by
  have read : parseDocument 2 (.ofString "<p b> ü<q s = \"ö\"></ q></p >ä") = .ok [
      .tag ⟨"p", ⟨1, 2⟩⟩ [⟨⟨"b", ⟨3, 4⟩⟩, ⟨.boolean true, ⟨3, 4⟩⟩⟩]
        [.text "ü" ⟨6, 8⟩,
          .tag ⟨"q", ⟨9, 10⟩⟩ [⟨⟨"s", ⟨11, 12⟩⟩, ⟨.string "ö", ⟨15, 19⟩⟩⟩] [] ⟨8, 25⟩]
        ⟨0, 30⟩,
      .text "ä" ⟨30, 32⟩] := by decide +kernel
  have size : (Source.ofString "<p b> ü<q s = \"ö\"></ q></p >ä").size = 32 := by decide +kernel
  have faithful := parseDocument_faithful read
  rw [size] at faithful
  exact ⟨_, read, faithful⟩

end PageMarkup.Written
