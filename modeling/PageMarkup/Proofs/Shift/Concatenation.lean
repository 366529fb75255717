import PageMarkup.Compiler
import PageMarkup.Proofs.Layout.Basic
import PageMarkup.Proofs.Shift.Basic
import PageMarkup.Proofs.Written.Coverage
import PageMarkup.Proofs.Written.Limit

namespace PageMarkup

/-- Whether a text that ends a document would go on in the text behind it. -/
def TextGoesOn (nodes : List Node) (text : List Char) : Prop :=
  nodes.getLast?.any Node.isText = true ∧ text ≠ [] ∧ beginsWith (· == '<') text = false

theorem not_textGoesOn_of_bracket {nodes : List Node} {text : List Char}
    (bracket : beginsWith (· == '<') text = true) : ¬ TextGoesOn nodes text := by
  rintro ⟨_, _, other⟩
  rw [bracket] at other
  cases other

namespace Written

variable {bytes start offset maxDepth levels : Nat} {tag : String} {failure : Failure SyntaxFault}
  {text rest : List Char}

theorem Attr.attributeAt_add (bytes start : Nat) (attr : Attr) :
    attr.attributeAt (bytes + start) = (attr.attributeAt start).shift bytes := by
  obtain ⟨gap, apart, key, assignment?⟩ := attr
  cases assignment? <;>
    simp [attributeAt, Attribute.shift, Located.shift, Span.shift_around, Nat.add_assoc]

theorem attributesAt_add (bytes start : Nat) (attrs : List Attr) :
    attributesAt (bytes + start) attrs = (attributesAt start attrs).map (Attribute.shift bytes) := by
  induction attrs generalizing start with
  | nil => rfl
  | cons attr attrs ih =>
    rw [attributesAt, Nat.add_assoc, Nat.add_assoc, attr.attributeAt_add, ih, attributesAt,
      List.map_cons]

theorem Head.nameAt_add (bytes start : Nat) (head : Head) :
    head.nameAt (bytes + start) = (head.nameAt start).shift bytes := by
  simp only [nameAt, Located.shift, Span.shift_around, Nat.add_assoc]

theorem Head.span_nameAt_shift (head : Head) :
    (head.nameAt start).span.shift bytes = (head.nameAt (bytes + start)).span := by
  rw [nameAt_add]
  rfl

mutual

theorem Item.nodeAt_add (bytes start : Nat) (item : Item) :
    item.nodeAt (bytes + start) = (item.nodeAt start).shift bytes := by
  cases item with
  | text gap run => simp only [Item.nodeAt, Node.shift, Span.shift_around]
  | tag gap head last children closing =>
    simp only [Item.nodeAt, Node.shift, shiftNodes_eq_map, Span.shift_around, Head.attributesAt,
      head.nameAt_add, Nat.add_assoc, attributesAt_add, nodesAt_add]

theorem nodesAt_add (bytes start : Nat) (items : List Item) :
    nodesAt (bytes + start) items = (nodesAt start items).map (Node.shift bytes) := by
  cases items with
  | nil => rfl
  | cons item items =>
    simp only [nodesAt, Nat.add_assoc, item.nodeAt_add, nodesAt_add, List.map_cons]

end

theorem BadAttr.shift (bad : BadAttr tag start text failure) :
    BadAttr tag (bytes + start) text (failure.shift bytes) := by
  cases bad with
  | key edge => exact .key edge
  | value key before after solid bad =>
    rw [Failure.shift_spanning, Span.shift_around, ← Nat.add_assoc]
    exact .value key before after solid bad

theorem Stray.shift {expected : Name} (stray : Stray expected offset text failure) :
    Stray expected (bytes + offset) text (failure.shift bytes) := by
  cases stray with
  | intro gap plain solid edge other =>
    rw [Failure.shift_spanning, Span.shift_around]
    exact .intro gap plain solid edge other

theorem Broken.shift (broken : Broken maxDepth levels start text failure) :
    Broken maxDepth levels (bytes + start) text (failure.shift bytes) := by
  induction broken with
  | unnamed gap solid edge =>
    rw [Failure.shift_atPoint, ← Nat.add_assoc]
    exact .unnamed gap solid edge
  | tooDeep head edge =>
    rw [Failure.shift_spanning, Head.span_nameAt_shift]
    exact .tooDeep head edge
  | badAttr head gap ends solid more goesOn bad =>
    refine .badAttr head gap ends solid more goesOn ?_
    rw [Nat.add_assoc]
    exact bad.shift
  | unterminated head last =>
    rw [Failure.shift_spanning, Span.shift_around]
    exact .unterminated head last
  | unclosed begun proper =>
    rw [Failure.shift, Head.span_nameAt_shift, ← Nat.add_assoc]
    exact .unclosed begun proper
  | mismatched begun proper stray =>
    refine .mismatched begun proper ?_
    rw [Nat.add_assoc]
    exact stray.shift
  | inChild begun proper inside broken ih =>
    refine .inChild begun proper inside ?_
    rw [Nat.add_assoc]
    exact ih

theorem getLast?_nodesAt (start : Nat) (items : List Item) :
    (nodesAt start items).getLast?.any Node.isText = items.getLast?.any Item.isText := by
  induction items generalizing start with
  | nil => rfl
  | cons item items ih =>
    cases items with
    | nil => cases item <;> rfl
    | cons next items => simpa only [nodesAt, List.getLast?_cons_cons] using ih _

theorem Item.isText_of_bracket {item : Item}
    (bracket : beginsWith (· == '<') (item.core ++ rest) = true) : item.isText = false := by
  cases item with
  | text gap run =>
    rw [Item.core, beginsWith_append run.nonempty] at bracket
    obtain ⟨behind, same⟩ := exists_cons_of_beginsWith_beq bracket
    exact absurd (same ▸ List.mem_cons_self) run.plain
  | tag => rfl

namespace Document

variable {document : Document}

theorem endsText_of_not_goesOn {items : List Item} (flush : ∀ item ∈ items, item.gap.chars = [])
    (apart : ¬ TextGoesOn document.nodes (texts items ++ rest))
    (text : document.items.getLast?.any Item.isText = true) : EndsText [] items := by
  cases items with
  | nil => rfl
  | cons item items =>
    have tight : item.gap.chars = [] := flush item List.mem_cons_self
    have written : texts (item :: items) ++ rest = item.core ++ (texts items ++ rest) := by
      rw [texts, tight, List.nil_append, List.append_assoc]
    rw [written] at apart
    have ends : document.nodes.getLast?.any Node.isText = true := by
      rw [nodes, getLast?_nodesAt]
      exact text
    cases begins : beginsWith (· == '<') (item.core ++ (texts items ++ rest)) with
    | true => exact ⟨item.isText_of_bracket begins, tight⟩
    | false => exact absurd ⟨ends, by simp [item.core_ne_nil], begins⟩ apart

theorem nodes_append (first second : Document)
    (ends : first.items.getLast?.any Item.isText = true → EndsText [] second.items) :
    (first.append second ends).nodes =
      first.nodes ++ second.nodes.map (Node.shift (byteLength first.text)) := by
  rw [nodes, nodes, nodes, append, nodesAt_append, ← nodesAt_add, Nat.zero_add]
  rfl

theorem parseDocument_append {second : Source} {others : List Node}
    (shallow : document.depth ≤ maxDepth) (apart : ¬ TextGoesOn document.nodes second.text)
    (read : parseDocument maxDepth second = .ok others) :
    parseDocument maxDepth (.ofText (document.text ++ second.text)) =
      .ok (document.nodes ++ others.map (Node.shift (byteLength document.text))) := by
  obtain ⟨behind, same, shallow', rfl⟩ := exists_document_of_ok read
  rw [← same, text, ← List.append_nil (texts behind.items)] at apart
  let whole := document.append behind (endsText_of_not_goesOn behind.flush apart)
  have written : whole.text = (Source.ofText (document.text ++ second.text)).text := by
    rw [document.text_append, same, Source.text_ofText]
  have depth : whole.depth ≤ maxDepth := by
    rw [document.depth_append]
    exact Nat.max_le.mpr ⟨shallow, shallow'⟩
  rw [parseDocument_reads whole written depth, document.nodes_append]

theorem broken_append (shallow : document.depth ≤ maxDepth)
    (apart : ¬ TextGoesOn document.nodes text) (broken : BrokenDocument maxDepth 0 text failure) :
    BrokenDocument maxDepth 0 (document.text ++ text) (failure.shift (byteLength document.text)) := by
  cases broken with
  | @intro items rest failure canonical flush shallow' spaced broken =>
    let whole := document.append ⟨items, canonical, flush, spaced⟩ (endsText_of_not_goesOn flush apart)
    have written : document.text ++ texts items = texts whole.items :=
      (document.text_append ⟨items, canonical, flush, spaced⟩ _).symm
    have position : byteLength document.text + (0 + byteLength (texts items)) =
        0 + byteLength (texts whole.items) := by
      rw [← written, byteLength_append]
      omega
    have depth : whole.depth ≤ maxDepth := by
      rw [document.depth_append]
      exact Nat.max_le.mpr ⟨shallow, shallow'⟩
    have broken : Broken maxDepth maxDepth (byteLength document.text + (0 + byteLength (texts items)))
        rest (failure.shift (byteLength document.text)) := broken.shift
    rw [position] at broken
    rw [← List.append_assoc, written]
    exact .intro whole.items whole.canonical whole.flush depth whole.spaced broken

theorem parseDocument_append_fails {second : Source} {fault : Diagnostic}
    (shallow : document.depth ≤ maxDepth) (apart : ¬ TextGoesOn document.nodes second.text)
    (rejected : parseDocument maxDepth second = .error fault) :
    parseDocument maxDepth (.ofText (document.text ++ second.text)) =
      .error (fault.shift (byteLength document.text)) := by
  obtain ⟨failure, broken, rfl⟩ := exists_broken_of_error rejected
  rw [← Diagnostic.ofFailure_shift]
  exact parseDocument_fails (broken_append shallow apart broken)

end Document

end Written

theorem Schema.refine_append (schema : Schema) (nodes others : List Node) :
    schema.refine (nodes ++ others) =
      ⟨(schema.refine nodes).value ++ (schema.refine others).value,
        (schema.refine nodes).problems ++ (schema.refine others).problems⟩ := by
  have parts (refined : Refined (List RefinedNode)) : refined = ⟨refined.value, refined.problems⟩ := rfl
  rw [parts (schema.refine (nodes ++ others))]
  simp only [refine, refineNodes_value, refineNodes_problems, List.flatMap_append]

namespace Compiler

variable (compiler : Compiler) {source first second : Source} {nodes others : List Node}

theorem compile_of_ok (read : parseDocument compiler.maxDepth source = .ok nodes) :
    compiler.compile source = ⟨some (compiler.schema.generate (compiler.schema.refine nodes).value),
      (compiler.schema.refine nodes).problems⟩ := by
  rw [compile, read]

theorem compile_of_error {fault : Diagnostic}
    (rejected : parseDocument compiler.maxDepth source = .error fault) :
    compiler.compile source = ⟨none, [fault]⟩ := by
  rw [compile, rejected]

/-- A text behind a document compiles as it does alone, except that its spans are shifted. Only a text
    that ends the document must not go on in it. -/
theorem compile_append (read : parseDocument compiler.maxDepth first = .ok nodes)
    (apart : ¬ TextGoesOn nodes second.text) :
    (∀ others, parseDocument compiler.maxDepth second = .ok others →
      parseDocument compiler.maxDepth (.ofText (first.text ++ second.text)) =
          .ok (nodes ++ others.map (Node.shift first.size)) ∧
        ∃ html html', (compiler.compile first).html = some html ∧
          (compiler.compile second).html = some html' ∧
          compiler.compile (.ofText (first.text ++ second.text)) =
            ⟨some (html ++ html'), (compiler.compile first).errors ++
              (compiler.compile second).errors.map (Diagnostic.shift first.size)⟩) ∧
    ∀ fault, parseDocument compiler.maxDepth second = .error fault →
      parseDocument compiler.maxDepth (.ofText (first.text ++ second.text)) =
          .error (fault.shift first.size) ∧
        compiler.compile (.ofText (first.text ++ second.text)) =
          ⟨none, [fault.shift first.size]⟩ := by
  rw [compiler.compile_of_ok read]
  obtain ⟨document, same, shallow, rfl⟩ := Written.exists_document_of_ok read
  rw [first.size_eq, ← same]
  constructor
  · intro others read'
    have whole := Written.Document.parseDocument_append shallow apart read'
    refine ⟨whole, _, _, rfl, by rw [compiler.compile_of_ok read'], ?_⟩
    rw [compiler.compile_of_ok whole, compiler.compile_of_ok read', Schema.refine_append,
      Schema.generate_append, Schema.generate_refine_shift, Schema.problems_refine_shift]
  · intro fault rejected
    have whole := Written.Document.parseDocument_append_fails shallow apart rejected
    exact ⟨whole, compiler.compile_of_error whole⟩

theorem compile_append_shifted :
    let compiler : Compiler := ⟨.builtin, 2⟩
    let first := Source.ofString "<main></main>ä"
    let second := Source.ofString "<b></b><text color>x</text>"
    let broken := Source.ofString "<b></a>"
    (∃ nodes, parseDocument compiler.maxDepth first = .ok nodes ∧
      ¬ TextGoesOn nodes second.text ∧ ¬ TextGoesOn nodes broken.text) ∧
    compiler.compile (.ofText (first.text ++ second.text)) = ⟨some "<main></main><p>x</p>", [
      (Diagnostic.ofCode .textNotAllowed ⟨13, 15⟩).withParam "parent" "the document root",
      (Diagnostic.ofCode .unknownTag ⟨16, 17⟩).withParam "tag" "b",
      (((Diagnostic.ofCode .attributeTypeMismatch ⟨28, 33⟩).withParam "key" "color").withParam
        "expected" "string").withParam "actual" "boolean"]⟩ ∧
    compiler.compile (.ofText (first.text ++ broken.text)) =
      ⟨none, [((Diagnostic.ofCode .mismatchedNesting ⟨18, 22⟩).withParam "expected" "b").withParam
        "found" "a"]⟩ := by
  intro compiler first second broken
  have read : parseDocument 2 (.ofString "<main></main>ä") =
      .ok [.tag ⟨"main", ⟨1, 5⟩⟩ [] [] ⟨0, 13⟩, .text "ä" ⟨13, 15⟩] := by decide +kernel
  have read' : parseDocument 2 (.ofString "<b></b><text color>x</text>") =
      .ok [.tag ⟨"b", ⟨1, 2⟩⟩ [] [] ⟨0, 7⟩, .tag ⟨"text", ⟨8, 12⟩⟩
        [⟨⟨"color", ⟨13, 18⟩⟩, ⟨.boolean true, ⟨13, 18⟩⟩⟩] [.text "x" ⟨19, 20⟩] ⟨7, 27⟩] := by decide +kernel
  have rejected : parseDocument 2 (.ofString "<b></a>") =
      .error (((Diagnostic.ofCode .mismatchedNesting ⟨3, 7⟩).withParam "expected" "b").withParam
        "found" "a") := by decide +kernel
  have own : (Compiler.mk .builtin 2).compile (.ofString "<main></main>ä") = ⟨some "<main></main>",
      [(Diagnostic.ofCode .textNotAllowed ⟨13, 15⟩).withParam "parent" "the document root"]⟩ := by
    decide +kernel
  have others : (Compiler.mk .builtin 2).compile (.ofString "<b></b><text color>x</text>") =
      ⟨some "<p>x</p>", [(Diagnostic.ofCode .unknownTag ⟨1, 2⟩).withParam "tag" "b",
        (((Diagnostic.ofCode .attributeTypeMismatch ⟨13, 18⟩).withParam "key" "color").withParam
          "expected" "string").withParam "actual" "boolean"]⟩ := by decide +kernel
  have size : (Source.ofString "<main></main>ä").size = 15 := by decide +kernel
  have bracket : beginsWith (· == '<') (Source.ofString "<b></b><text color>x</text>").text = true := by
    decide +kernel
  have bracket' : beginsWith (· == '<') (Source.ofString "<b></a>").text = true := by decide +kernel
  obtain ⟨_, html, html', made, made', compiled⟩ :=
    (compile_append ⟨.builtin, 2⟩ read (not_textGoesOn_of_bracket bracket)).1 _ read'
  obtain ⟨_, fails⟩ :=
    (compile_append ⟨.builtin, 2⟩ read (not_textGoesOn_of_bracket bracket')).2 _ rejected
  rw [own] at made compiled
  rw [others] at made' compiled
  rw [size] at compiled fails
  cases made
  cases made'
  exact ⟨⟨_, read, not_textGoesOn_of_bracket bracket, not_textGoesOn_of_bracket bracket'⟩, compiled,
    fails⟩

end Compiler

end PageMarkup
