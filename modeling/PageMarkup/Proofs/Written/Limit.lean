import PageMarkup.Proofs.Written.Coverage

namespace PageMarkup

mutual

def Node.depth : Node → Nat
  | .text _ _ => 0
  | .tag _ _ children _ => nestingDepth children + 1

/-- How deep tags are nested in a forest; a tag without tags in it is of depth one. -/
def nestingDepth : List Node → Nat
  | [] => 0
  | node :: nodes => max node.depth (nestingDepth nodes)

end

mutual

def Node.namesAt (level : Nat) : Node → List (Located String)
  | .text _ _ => []
  | .tag name _ children _ =>
    match level with
    | 0 => [name]
    | level + 1 => namesAt level children

def namesAt (level : Nat) : List Node → List (Located String)
  | [] => []
  | node :: nodes => node.namesAt level ++ namesAt level nodes

end

mutual

theorem Node.namesAt_eq_nil {level : Nat} (node : Node) (shallow : node.depth ≤ level) :
    node.namesAt level = [] := by
  cases node with
  | text content span => rfl
  | tag name attributes children span =>
    rw [Node.depth] at shallow
    cases level with
    | zero => omega
    | succ level =>
      rw [Node.namesAt]
      exact namesAt_eq_nil children (by omega)

theorem namesAt_eq_nil {level : Nat} (nodes : List Node) (shallow : nestingDepth nodes ≤ level) :
    namesAt level nodes = [] := by
  cases nodes with
  | nil => rfl
  | cons node nodes =>
    rw [nestingDepth] at shallow
    rw [namesAt, node.namesAt_eq_nil (by omega), namesAt_eq_nil nodes (by omega), List.append_nil]

end

theorem namesAt_append (level : Nat) (left right : List Node) :
    namesAt level (left ++ right) = namesAt level left ++ namesAt level right := by
  induction left with
  | nil => rfl
  | cons node left ih => rw [List.cons_append, namesAt, ih, namesAt, List.append_assoc]

namespace Written

variable {source : Source} {start : Nat} {rest : List Char} {maxDepth levels : Nat}

mutual

theorem Item.depth_nodeAt (start : Nat) (item : Item) : (item.nodeAt start).depth = item.depth := by
  cases item with
  | text gap run => rfl
  | tag gap head last children closing =>
    rw [Item.nodeAt, Node.depth, Item.depth, depth_nodesAt]

theorem depth_nodesAt (start : Nat) (items : List Item) :
    nestingDepth (nodesAt start items) = depths items := by
  cases items with
  | nil => rfl
  | cons item items => rw [nodesAt, nestingDepth, depths, item.depth_nodeAt, depth_nodesAt]

end

theorem texts_append (left right : List Item) : texts (left ++ right) = texts left ++ texts right := by
  induction left with
  | nil => rfl
  | cons item left ih => simp only [List.cons_append, texts, ih, List.append_assoc]

theorem nodesAt_append (start : Nat) (left right : List Item) :
    nodesAt start (left ++ right) =
      nodesAt start left ++ nodesAt (start + byteLength (texts left)) right := by
  induction left generalizing start with
  | nil => rfl
  | cons item left ih =>
    simp only [List.cons_append, nodesAt, ih, texts, byteLength_append, Nat.add_assoc]

theorem spaced_before {last : List Char} {before after : List Item} {item : Item}
    (spaced : Spaced last (before ++ item :: after)) : Spaced item.gap.chars before := by
  induction before with
  | nil => exact True.intro
  | cons first before ih =>
    obtain ⟨ends, spaced⟩ := spaced
    refine ⟨fun text => ?_, ih spaced⟩
    have ends := ends text
    cases before with
    | nil => exact ends.2
    | cons next before => exact ends

theorem spaced_append {gap last : List Char} {left right : List Item} (spaced : Spaced gap left)
    (bridge : gap = [] → left.getLast?.any Item.isText = true → EndsText last right)
    (others : Spaced last right) : Spaced last (left ++ right) := by
  induction left with
  | nil => exact others
  | cons item left ih =>
    obtain ⟨ends, spaced⟩ := spaced
    cases left with
    | nil => exact ⟨fun text => bridge (ends text) text, others⟩
    | cons next left => exact ⟨ends, ih spaced bridge⟩

theorem depths_append (left right : List Item) :
    depths (left ++ right) = max (depths left) (depths right) := by
  induction left with
  | nil => simp [depths]
  | cons item left ih => rw [List.cons_append, depths, ih, depths, Nat.max_assoc]

namespace Document

variable (first second : Document)
  (ends : first.items.getLast?.any Item.isText = true → EndsText [] second.items)

def append : Document where
  items := first.items ++ second.items
  canonical := List.forall_mem_append.mpr ⟨first.canonical, second.canonical⟩
  flush := List.forall_mem_append.mpr ⟨first.flush, second.flush⟩
  spaced := spaced_append first.spaced (fun _ => ends) second.spaced

theorem text_append : (first.append second ends).text = first.text ++ second.text :=
  texts_append first.items second.items

theorem depth_append : (first.append second ends).depth = max first.depth second.depth :=
  depths_append first.items second.items

end Document

theorem exists_first_deep {items : List Item} (deep : levels < depths items) :
    ∃ before item after, items = before ++ item :: after ∧ depths before ≤ levels ∧
      levels < item.depth := by
  induction items with
  | nil => cases deep
  | cons item items ih =>
    by_cases first : levels < item.depth
    · exact ⟨[], item, items, rfl, Nat.zero_le _, first⟩
    · rw [depths] at deep
      obtain ⟨before, next, after, rfl, shallow, deep⟩ := ih (by omega)
      refine ⟨item :: before, next, after, rfl, ?_, deep⟩
      rw [depths]
      omega

def tooDeep (maxDepth : Nat) (name : Located String) : Failure SyntaxFault :=
  .spanning (((SyntaxFault.ofCode .maxDepthExceeded).withParam "tag" name.value).withParam "max"
    (toString maxDepth)) name.span

theorem head?_namesAt_nodesAt {before after : List Item} {item : Item} (shallow : depths before ≤ levels)
    {name : Located String}
    (first : ((item.nodeAt (start + byteLength (texts before) + byteLength item.gap.chars)).namesAt
      levels).head? = some name) :
    (namesAt levels (nodesAt start (before ++ item :: after))).head? = some name := by
  have none : namesAt levels (nodesAt start before) = [] := by
    apply namesAt_eq_nil
    rw [depth_nodesAt]
    exact shallow
  rw [nodesAt_append, namesAt_append, none, List.nil_append, nodesAt, namesAt, List.head?_append, first]
  rfl

theorem broken_of_deep {item : Item} (canonical : item.Canonical) (deep : levels < item.depth)
    (start : Nat) (rest : List Char) :
    ∃ name, ((item.nodeAt start).namesAt levels).head? = some name ∧
      Broken maxDepth levels start (item.core ++ rest) (tooDeep maxDepth name) := by
  induction canonical generalizing levels start rest with
  | text gap run => cases deep
  | @tag gap head last children closing canonical visible spaced ih =>
    cases levels with
    | zero =>
      have ends : head.EndsBefore (last.chars ++ '>' :: (texts children ++
          (closing.gap.chars ++ (closing.text head.name ++ rest)))) :=
        head.endsBefore (stops_of_bracket last)
      refine ⟨head.nameAt start, rfl, ?_⟩
      simp only [Item.core, Head.text, List.append_assoc, List.cons_append]
      exact .tooDeep head ends.name
    | succ levels =>
      rw [Item.depth] at deep
      obtain ⟨before, child, after, rfl, shallow, deep⟩ := exists_first_deep (Nat.lt_of_succ_lt_succ deep)
      let begun : Begun := ⟨head, last, before, child.gap⟩
      have proper : begun.Proper levels :=
        ⟨fun item member => canonical item (List.mem_append_left _ member),
          fun item member => visible item (List.mem_append_left _ member), shallow,
          spaced_before spaced⟩
      have position : start + byteLength begun.text =
          start + byteLength (head.text ++ last.chars) + 1 + byteLength (texts before) +
            byteLength child.gap.chars := by
        have bracket : '>'.utf8Size = 1 := rfl
        simp only [begun, Begun.text, byteLength_append, byteLength_cons, bracket]
        omega
      obtain ⟨name, first, broken⟩ := ih child (List.mem_append_right _ List.mem_cons_self) deep
        (start + byteLength begun.text)
        (texts after ++ (closing.gap.chars ++ (closing.text head.name ++ rest)))
      refine ⟨name, ?_, ?_⟩
      · rw [position] at first
        rw [Item.nodeAt, Node.namesAt]
        exact head?_namesAt_nodesAt shallow first
      · have broken := Broken.inChild begun proper child.notClosing broken
        simpa [begun, Begun.text, Item.core, texts_append, texts] using broken

theorem Begun.Proper.of_larger (extra : Nat) {begun : Begun} (proper : begun.Proper levels) :
    begun.Proper (levels + extra) :=
  ⟨proper.canonical, proper.visible, Nat.le_add_right_of_le proper.shallow, proper.spaced⟩

theorem Broken.of_larger {larger : Nat} (extra : Nat) {text : List Char}
    {failure : Failure SyntaxFault} (broken : Broken maxDepth levels start text failure)
    (other : (Diagnostic.ofFailure failure).code ≠ .maxDepthExceeded) :
    Broken larger (levels + extra) start text failure := by
  induction broken with
  | unnamed gap solid edge => exact .unnamed gap solid edge
  | tooDeep head edge => exact absurd rfl other
  | badAttr head gap ends solid more goesOn bad =>
    rw [Nat.add_right_comm]
    exact .badAttr head gap ends solid more goesOn bad
  | unterminated head last =>
    rw [Nat.add_right_comm]
    exact .unterminated head last
  | unclosed begun proper =>
    rw [Nat.add_right_comm]
    exact .unclosed begun (proper.of_larger extra)
  | mismatched begun proper stray =>
    rw [Nat.add_right_comm]
    exact .mismatched begun (proper.of_larger extra) stray
  | inChild begun proper inside broken ih =>
    rw [Nat.add_right_comm]
    exact .inChild begun (proper.of_larger extra) inside (ih other)

theorem BrokenDocument.of_larger (extra : Nat) {text : List Char} {failure : Failure SyntaxFault}
    (broken : BrokenDocument maxDepth start text failure)
    (other : (Diagnostic.ofFailure failure).code ≠ .maxDepthExceeded) :
    BrokenDocument (maxDepth + extra) start text failure := by
  cases broken with
  | intro items canonical flush shallow spaced broken =>
    exact .intro items canonical flush (Nat.le_add_right_of_le shallow) spaced
      (broken.of_larger extra other)

theorem Document.broken_of_deep (document : Document) (deep : maxDepth < document.depth) :
    ∃ name, (namesAt maxDepth document.nodes).head? = some name ∧
      BrokenDocument maxDepth 0 document.text (tooDeep maxDepth name) := by
  obtain ⟨before, item, after, same, shallow, beyond⟩ := exists_first_deep deep
  obtain ⟨items, canonical, flush, spaced⟩ := document
  subst same
  have tight : item.gap.chars = [] := flush item (List.mem_append_right _ List.mem_cons_self)
  obtain ⟨name, first, broken⟩ := Written.broken_of_deep
    (canonical item (List.mem_append_right _ List.mem_cons_self)) beyond
    (0 + byteLength (texts before)) (texts after)
  refine ⟨name, ?_, ?_⟩
  · apply head?_namesAt_nodesAt shallow
    rw [tight]
    exact first
  · have spaced := spaced_before spaced
    rw [tight] at spaced
    have broken := BrokenDocument.intro before
      (fun item member => canonical item (List.mem_append_left _ member))
      (fun item member => flush item (List.mem_append_left _ member)) shallow spaced broken
    simpa only [Document.text, texts_append, texts, tight, List.nil_append] using broken

/-- A limit that is not exceeded changes nothing. A document that is nested deeper is rejected at the
    first tag that has as many tags around it as the limit allows. -/
theorem parseDocument_limit {limit larger : Nat} (le : limit ≤ larger) (source : Source) :
    ((∀ fault, parseDocument limit source = .error fault → fault.code ≠ .maxDepthExceeded) →
      parseDocument larger source = parseDocument limit source) ∧
    ∀ nodes, parseDocument larger source = .ok nodes →
      (nestingDepth nodes ≤ limit → parseDocument limit source = .ok nodes) ∧
      (limit < nestingDepth nodes → ∃ name, (namesAt limit nodes).head? = some name ∧
        parseDocument limit source =
          .error (((Diagnostic.ofCode .maxDepthExceeded name.span).withParam "tag"
            name.value).withParam "max" (toString limit))) := by
  constructor
  · intro other
    cases read : parseDocument limit source with
    | ok nodes =>
      obtain ⟨document, same, shallow, rfl⟩ := exists_document_of_ok read
      exact parseDocument_reads document same (Nat.le_trans shallow le)
    | error fault =>
      obtain ⟨failure, broken, rfl⟩ := exists_broken_of_error read
      obtain ⟨extra, rfl⟩ := Nat.exists_eq_add_of_le le
      exact parseDocument_fails (broken.of_larger extra (other _ read))
  · intro nodes read
    obtain ⟨document, same, _, rfl⟩ := exists_document_of_ok read
    have depth : nestingDepth document.nodes = document.depth := depth_nodesAt 0 document.items
    rw [depth]
    refine ⟨parseDocument_reads document same, fun deep => ?_⟩
    obtain ⟨name, first, broken⟩ := document.broken_of_deep deep
    rw [same] at broken
    exact ⟨name, first, parseDocument_fails broken⟩

theorem parseDocument_limit_siblings :
    (∃ nodes, parseDocument 3 (.ofString "<a>ä<b><c></c></b><d></d></a>") = .ok nodes ∧
      nestingDepth nodes = 3 ∧
      parseDocument 1 (.ofString "<a>ä<b><c></c></b><d></d></a>") =
        .error (((Diagnostic.ofCode .maxDepthExceeded ⟨6, 7⟩).withParam "tag" "b").withParam "max"
          "1")) ∧
    parseDocument 1 (.ofString "<a>ä</b><c><d></d></c>") =
      .error (((Diagnostic.ofCode .mismatchedNesting ⟨5, 9⟩).withParam "expected" "a").withParam
        "found" "b") ∧
    parseDocument 3 (.ofString "<a>ä</b><c><d></d></c>") =
      parseDocument 1 (.ofString "<a>ä</b><c><d></d></c>") := by
  have read : parseDocument 3 (.ofString "<a>ä<b><c></c></b><d></d></a>") = .ok [
      .tag ⟨"a", ⟨1, 2⟩⟩ [] [
        .text "ä" ⟨3, 5⟩,
        .tag ⟨"b", ⟨6, 7⟩⟩ [] [.tag ⟨"c", ⟨9, 10⟩⟩ [] [] ⟨8, 15⟩] ⟨5, 19⟩,
        .tag ⟨"d", ⟨20, 21⟩⟩ [] [] ⟨19, 26⟩] ⟨0, 30⟩] := by decide +kernel
  have rejected : parseDocument 1 (.ofString "<a>ä</b><c><d></d></c>") =
      .error (((Diagnostic.ofCode .mismatchedNesting ⟨5, 9⟩).withParam "expected" "a").withParam
        "found" "b") := by decide +kernel
  have le : 1 ≤ 3 := by decide
  refine ⟨⟨_, read, rfl, ?_⟩, rejected, ?_⟩
  · obtain ⟨name, first, exceeded⟩ := ((parseDocument_limit le _).2 _ read).2 (by decide)
    cases first
    exact exceeded
  · apply (parseDocument_limit le _).1
    rw [rejected]
    rintro fault ⟨⟩ ⟨⟩

end Written

end PageMarkup
