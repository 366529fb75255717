import Mathlib.Data.List.Chain
import PageMarkup.Proofs.Parsing.Progress
import PageMarkup.Proofs.Written.Coverage

namespace PageMarkup.Grammar

open Written

variable {source : Source} {maxDepth levels start : Nat}

section Forward

theorem quoted_isPrefix {body : List Char}
    (shorter : (body.takeWhile (· ≠ '"')).length < body.length) :
    '"' :: body.takeWhile (· ≠ '"') ++ ['"'] <+: '"' :: body := by
  have split := List.takeWhile_append_dropWhile (p := (· ≠ '"')) (l := body)
  have edge := not_beginsWith_dropWhile (· ≠ '"') body
  generalize body.takeWhile (· ≠ '"') = content at shorter split ⊢
  generalize body.dropWhile (· ≠ '"') = behind at split edge
  subst split
  cases behind with
  | nil => simp at shorter
  | cons c behind =>
    have quote : c = '"' := by simpa using edge
    subst quote
    exact ⟨behind, by simp⟩

theorem forward_quotedString : quotedString.Forward source := by
  intro entry inside
  unfold quotedString
  split
  · rename_i body rest
    dsimp only
    split
    · rename_i shorter
      apply accept_ahead inside
      rw [rest]
      exact quoted_isPrefix shorter
    · exact ahead_error _
  · exact ahead_error _

theorem forward_attrValue : attrValue.Forward source := by
  apply Parser.Forward.choice forward_quotedString.map
  intro parser member
  cases List.mem_singleton.mp member
  exact Parser.forward_number.map

theorem forward_afterBlanks {α : Type} {parser : DocumentParser α} (forward : parser.Forward source) :
    (afterBlanks parser).Forward source := by
  intro entry inside
  apply ahead_bind (Parser.forward_whitespace entry inside)
  intro gap ordered within
  exact (forward gap.offset within).of_le ordered

theorem forward_attr (tag : String) : (attr tag).Forward source := by
  intro entry inside
  apply ahead_bind (Parser.forward_alphanumeric1.located.expect entry inside)
  intro key afterKey keyWithin
  apply ahead_bind ((Parser.forward_whitespace key.offset keyWithin).of_le afterKey)
  intro gap afterGap gapWithin
  cases read : (Parser.literal "=" : DocumentParser String) source gap.offset with
  | error failure => exact ahead_ok afterKey keyWithin
  | ok equals =>
    obtain ⟨ordered, equalsWithin⟩ := Parser.forward_literal "=" gap.offset gapWithin equals read
    have afterEquals := Nat.le_trans afterGap ordered
    apply ahead_bind ((Parser.forward_whitespace equals.offset equalsWithin).of_le afterEquals)
    intro gap afterGap gapWithin
    apply ahead_bind ((forward_attrValue.located.expect gap.offset gapWithin).of_le afterGap)
    intro value afterValue valueWithin
    dsimp only
    split
    · exact ahead_ok afterValue valueWithin
    · exact ahead_error _

theorem forward_attributes (tag : String) : (attributes tag).Forward source :=
  (forward_afterBlanks (forward_attr tag)).manyUntil _

theorem forward_endOfOpening (tag : String) (start : Nat) : (endOfOpening tag start).Forward source := by
  intro entry inside
  apply ahead_bind (Parser.forward_whitespace entry inside)
  intro gap afterGap gapWithin
  cases read : (Parser.literal ">" : DocumentParser String) source gap.offset with
  | error failure => exact ahead_error _
  | ok closed =>
    obtain ⟨ordered, within⟩ := Parser.forward_literal ">" gap.offset gapWithin closed read
    exact ahead_ok (Nat.le_trans afterGap ordered) within

end Forward

def nodeUnder (maxDepth depth : Nat) : DocumentParser Node := node maxDepth (maxDepth - depth)

def opening (maxDepth depth : Nat) : DocumentParser (Located String × List Attribute) :=
  fun source offset => do
    let name ← tagName source offset
    if maxDepth ≤ depth then
      .error (.spanning (((SyntaxFault.ofCode .maxDepthExceeded).withParam "tag"
        name.value.value).withParam "max" (toString maxDepth)) name.value.span)
    else do
      let attributes ← attributes name.value.value source name.offset
      let opened ← endOfOpening name.value.value offset source attributes.offset
      .ok ⟨(name.value, attributes.value), opened.offset⟩

def tagOf (start : Nat) (head : Located String × List Attribute) (children : Success (List Node)) :
    Success Node :=
  ⟨.tag head.1 head.2 children.value ⟨start, children.offset⟩, children.offset⟩

inductive Turn where
  | returns (answer : Except (Failure SyntaxFault) (Success (List Node)))
  | parses (offset : Nat)
  deriving DecidableEq

/-- One turn of the loop, up to the child that it parses. It does not check that it moves. -/
def childrenTurn (name : Located String) (source : Source) (cursor : Nat) : Turn :=
  let offset := cursor + byteLength ((source.rest cursor).takeWhile isBlank)
  match closing name.value source offset with
  | .ok closed => .returns (.ok ⟨[], closed.offset⟩)
  | .error _ =>
    if "</".toList.isPrefixOf (source.rest offset) then
      .returns (.error (mismatchedClosing source offset name.value))
    else if source.size ≤ offset then
      .returns (.error ⟨(SyntaxFault.ofCode .unclosedTag).withParam "tag" name.value, offset,
        name.span⟩)
    else .parses offset

section Advances

theorem rest_ne_nil_of_node {step : Success Node}
    (read : node maxDepth levels source start = .ok step) : source.rest start ≠ [] := by
  intro empty
  have noBracket : (Parser.literal "<" : DocumentParser String) source start =
      .error (.atPoint (ofReason (.literal "<")) start) := by
    rw [Parser.literal, empty]
    rfl
  have noTag : ∃ failure, tag maxDepth (inner? maxDepth levels) source start = .error failure := by
    rw [tag, tagName, expecting, Parser.expect_of_error noBracket]
    exact ⟨_, rfl⟩
  have noText : ∃ failure, textNode source start = .error failure := by
    rw [textNode, Parser.takeUntil1, empty]
    split
    · exact ⟨_, rfl⟩
    · exact ⟨_, rfl⟩
  obtain ⟨failure, noTag⟩ := noTag
  obtain ⟨failure', noText⟩ := noText
  rw [node_eq, Parser.choice, noTag] at read
  simp only [Parser.choice, noText] at read
  cases read

theorem node_advances {step : Success Node} (read : node maxDepth levels source start = .ok step) :
    start < step.offset ∧ step.offset ≤ source.size := by
  have more := rest_ne_nil_of_node read
  have here := Source.suffix?_of_rest more
  rcases node_or_broken maxDepth levels _ more with node | broken
  · obtain ⟨item, rest, _, split, canonical, shallow, ends⟩ := node ⟨[], nofun⟩
    rw [split] at here
    rw [node_reads maxDepth canonical shallow ends here] at read
    cases read
    have size := Source.size_of_suffix? here
    have positive := byteLength_pos item.core_ne_nil
    rw [byteLength_append] at size
    show start < start + byteLength item.core ∧ start + byteLength item.core ≤ source.size
    omega
  · obtain ⟨failure, broken⟩ := broken start
    rw [node_fails broken here] at read
    cases read

theorem tagName_advances {name : Success (Located String)}
    (named : tagName source start = .ok name) :
    start < name.offset ∧ name.offset ≤ source.size := by
  rw [tagName] at named
  cases read : (Parser.literal "<" : DocumentParser String) source start with
  | error failure =>
    rw [expecting, Parser.expect_of_error read] at named
    cases named
  | ok opened =>
    obtain ⟨behind, within⟩ := Parser.literal_advances (by decide) read
    rw [expecting, Parser.expect_of_ok read, ok_bind] at named
    obtain ⟨ordered, nameWithin⟩ := forward_afterBlanks
      Parser.forward_alphanumeric1.located.expect _ within name named
    exact ⟨Nat.lt_of_lt_of_le behind ordered, nameWithin⟩

theorem opening_advances {depth : Nat} {opened : Success (Located String × List Attribute)}
    (opens : opening maxDepth depth source start = .ok opened) : start < opened.offset := by
  rw [opening] at opens
  cases named : tagName source start with
  | error failure =>
    rw [named] at opens
    cases opens
  | ok name =>
    obtain ⟨behind, within⟩ := tagName_advances named
    rw [named, ok_bind] at opens
    split at opens
    · cases opens
    · have ahead : Ahead source name.offset (do
          let attributes ← attributes name.value.value source name.offset
          let opened ← endOfOpening name.value.value start source attributes.offset
          .ok ⟨(name.value, attributes.value), opened.offset⟩ :
            Except (Failure SyntaxFault) (Success (Located String × List Attribute))) := by
        apply ahead_bind (forward_attributes _ _ within)
        intro attributes afterAttributes attributesWithin
        apply ahead_bind ((forward_endOfOpening _ _ _ attributesWithin).of_le afterAttributes)
        intro closed afterClosed closedWithin
        exact ahead_ok afterClosed closedWithin
      obtain ⟨ordered, _⟩ := ahead opened opens
      exact Nat.lt_of_lt_of_le behind ordered

theorem le_of_childrenTurn {name : Located String} {cursor offset : Nat}
    (turn : childrenTurn name source cursor = .parses offset) :
    cursor ≤ offset ∧ offset < source.size := by
  unfold childrenTurn at turn
  dsimp only at turn
  split at turn
  · cases turn
  · split at turn
    · cases turn
    · split at turn
      · cases turn
      · rename_i more
        cases turn
        exact ⟨Nat.le_add_right _ _, Nat.not_le.mp more⟩

theorem body_eq (child : DocumentParser Node) (name : Located String) (source : Source)
    (cursor : Nat) : body child name source cursor =
      match childrenTurn name source cursor with
      | .returns answer => answer
      | .parses offset =>
        match child source offset with
        | .error failure => .error failure
        | .ok step =>
          if offset < step.offset ∧ step.offset ≤ source.size then
            (body child name source step.offset).map (Parser.prepend [step.value])
          else Parser.fail .stuck offset := by
  rw [body, childrenTurn]
  cases closing name.value source
      (cursor + byteLength ((source.rest cursor).takeWhile isBlank)) with
  | ok closed => rfl
  | error failure =>
    dsimp only
    split
    · rfl
    · split
      · rfl
      · dsimp only
        cases child source (cursor + byteLength ((source.rest cursor).takeWhile isBlank)) with
        | error failure => rfl
        | ok step =>
          dsimp only
          split
          · cases body child name source step.offset <;> rfl
          · rfl

/-- The loop over children needs no check that it goes forward. -/
theorem body_of_parses {depth : Nat} {name : Located String} {cursor offset : Nat}
    {step : Success Node} (turn : childrenTurn name source cursor = .parses offset)
    (read : nodeUnder maxDepth depth source offset = .ok step) :
    body (nodeUnder maxDepth depth) name source cursor =
      (body (nodeUnder maxDepth depth) name source step.offset).map
        (Parser.prepend [step.value]) := by
  rw [body_eq, turn]
  simp only [read, node_advances read, and_self, if_true]

end Advances

def orText (source : Source) (start : Nat) (answer : Except (Failure SyntaxFault) (Success Node)) :
    Except (Failure SyntaxFault) (Success Node) :=
  Parser.choice (fun _ _ => answer) [textNode] source start

mutual

/-- The runs for a node under `depth` tags, with their answers. A run is finite, although neither it
    nor the loop in it is bounded by anything but the nesting limit. -/
inductive NodeRuns (maxDepth : Nat) (source : Source) :
    (depth start : Nat) → Except (Failure SyntaxFault) (Success Node) → Prop
  | unopened {depth start : Nat} {failure : Failure SyntaxFault}
      (unopened : opening maxDepth depth source start = .error failure) :
      NodeRuns maxDepth source depth start (orText source start (.error failure))
  | opened {depth start : Nat} {opened : Success (Located String × List Attribute)}
      {answer : Except (Failure SyntaxFault) (Success (List Node))}
      (opens : opening maxDepth depth source start = .ok opened)
      (children : ChildrenRuns maxDepth source (depth + 1) opened.value.1 opened.offset answer) :
      NodeRuns maxDepth source depth start
        (orText source start (answer.map (tagOf start opened.value)))

inductive ChildrenRuns (maxDepth : Nat) (source : Source) : (depth : Nat) → (name : Located String) →
    (cursor : Nat) → Except (Failure SyntaxFault) (Success (List Node)) → Prop
  | returns {depth cursor : Nat} {name : Located String}
      {answer : Except (Failure SyntaxFault) (Success (List Node))}
      (turn : childrenTurn name source cursor = .returns answer) :
      ChildrenRuns maxDepth source depth name cursor answer
  | failed {depth cursor offset : Nat} {name : Located String} {failure : Failure SyntaxFault}
      (turn : childrenTurn name source cursor = .parses offset)
      (child : NodeRuns maxDepth source depth offset (.error failure)) :
      ChildrenRuns maxDepth source depth name cursor (.error failure)
  | goesOn {depth cursor offset : Nat} {name : Located String} {step : Success Node}
      {answer : Except (Failure SyntaxFault) (Success (List Node))}
      (turn : childrenTurn name source cursor = .parses offset)
      (child : NodeRuns maxDepth source depth offset (.ok step))
      (more : ChildrenRuns maxDepth source depth name step.offset answer) :
      ChildrenRuns maxDepth source depth name cursor (answer.map (Parser.prepend [step.value]))

end

section Runs

theorem tag_eq (maxDepth depth : Nat) (source : Source) (start : Nat) :
    tag maxDepth (inner? maxDepth (maxDepth - depth)) source start =
      match opening maxDepth depth source start with
      | .error failure => .error failure
      | .ok opened =>
        (body (nodeUnder maxDepth (depth + 1)) opened.value.1 source opened.offset).map
          (tagOf start opened.value) := by
  rw [tag, opening]
  cases tagName source start with
  | error failure => rfl
  | ok name =>
    rw [ok_bind, ok_bind]
    by_cases deep : maxDepth ≤ depth
    · have noLevel : maxDepth - depth = 0 := Nat.sub_eq_zero_of_le deep
      rw [if_pos deep, noLevel]
      rfl
    · have level : maxDepth - depth = maxDepth - (depth + 1) + 1 := by omega
      rw [if_neg deep, level]
      show (do
        let attributes ← attributes name.value.value source name.offset
        _) = _
      cases attributes name.value.value source name.offset with
      | error failure => rfl
      | ok attributes =>
        rw [ok_bind, ok_bind]
        cases endOfOpening name.value.value start source attributes.offset with
        | error failure => rfl
        | ok opened =>
          rw [ok_bind, ok_bind]
          show (do
            let children ← body (nodeUnder maxDepth (depth + 1)) name.value source opened.offset
            _) = (body (nodeUnder maxDepth (depth + 1)) name.value source opened.offset).map
              (tagOf start (name.value, attributes.value))
          cases body (nodeUnder maxDepth (depth + 1)) name.value source opened.offset <;> rfl

theorem nodeUnder_eq (maxDepth depth : Nat) (source : Source) (start : Nat) :
    nodeUnder maxDepth depth source start = orText source start
      (match opening maxDepth depth source start with
      | .error failure => .error failure
      | .ok opened =>
        (body (nodeUnder maxDepth (depth + 1)) opened.value.1 source opened.offset).map
          (tagOf start opened.value)) := by
  rw [nodeUnder, node_eq, Parser.choice, tag_eq]
  rfl

theorem childrenRuns_of_nodeRuns {depth entry : Nat} (name : Located String)
    (nodes : ∀ offset, entry ≤ offset → offset < source.size →
      NodeRuns maxDepth source depth offset (nodeUnder maxDepth depth source offset))
    {cursor : Nat} (ahead : entry ≤ cursor) :
    ChildrenRuns maxDepth source depth name cursor
      (body (nodeUnder maxDepth depth) name source cursor) := by
  induction bytes : source.size - cursor using Nat.strong_induction_on generalizing cursor with
  | _ bytes ih =>
    cases turn : childrenTurn name source cursor with
    | returns answer =>
      rw [body_eq, turn]
      exact .returns turn
    | parses offset =>
      obtain ⟨ordered, inside⟩ := le_of_childrenTurn turn
      have child := nodes offset (Nat.le_trans ahead ordered) inside
      cases read : nodeUnder maxDepth depth source offset with
      | error failure =>
        rw [read] at child
        rw [body_eq, turn]
        simp only [read]
        exact .failed turn child
      | ok step =>
        obtain ⟨advances, within⟩ := node_advances read
        rw [read] at child
        rw [body_of_parses turn read]
        apply ChildrenRuns.goesOn turn child
        exact ih (source.size - step.offset) (by omega) (by omega) rfl

theorem nodeRuns (maxDepth : Nat) (source : Source) (depth start : Nat) :
    NodeRuns maxDepth source depth start (nodeUnder maxDepth depth source start) := by
  induction bytes : source.size - start using Nat.strong_induction_on generalizing depth start with
  | _ bytes ih =>
    rw [nodeUnder_eq]
    cases opens : opening maxDepth depth source start with
    | error failure => exact .unopened opens
    | ok opened =>
      have behind := opening_advances opens
      apply NodeRuns.opened opens
      apply childrenRuns_of_nodeRuns opened.value.1 _ (Nat.le_refl _)
      intro offset ordered inside
      exact ih (source.size - offset) (by omega) (depth + 1) offset rfl

mutual

theorem NodeRuns.eq {depth start : Nat} {answer : Except (Failure SyntaxFault) (Success Node)} :
    NodeRuns maxDepth source depth start answer → nodeUnder maxDepth depth source start = answer
  | .unopened unopened => by rw [nodeUnder_eq, unopened]
  | .opened opens children => by
    have read := children.eq
    rw [nodeUnder_eq, opens, ← read]

theorem ChildrenRuns.eq {depth cursor : Nat} {name : Located String}
    {answer : Except (Failure SyntaxFault) (Success (List Node))} :
    ChildrenRuns maxDepth source depth name cursor answer →
      body (nodeUnder maxDepth depth) name source cursor = answer
  | .returns turn => by rw [body_eq, turn]
  | .failed turn child => by
    have failed := child.eq
    rw [body_eq, turn]
    simp only [failed]
  | .goesOn turn child more => by
    have read := child.eq
    have others := more.eq
    rw [body_of_parses turn read, others]

end

theorem nodeRuns_iff {depth : Nat} {answer : Except (Failure SyntaxFault) (Success Node)} :
    NodeRuns maxDepth source depth start answer ↔ nodeUnder maxDepth depth source start = answer := by
  constructor
  · exact NodeRuns.eq
  · intro same
    rw [← same]
    exact nodeRuns maxDepth source depth start

end Runs

inductive Reaches (maxDepth : Nat) (source : Source) (depth : Nat) (name : Located String) :
    (cursor offset : Nat) → Prop
  | here {cursor offset : Nat} (turn : childrenTurn name source cursor = .parses offset) :
      Reaches maxDepth source depth name cursor offset
  | later {cursor next offset : Nat} {step : Success Node}
      (turn : childrenTurn name source cursor = .parses next)
      (read : nodeUnder maxDepth depth source next = .ok step)
      (more : Reaches maxDepth source depth name step.offset offset) :
      Reaches maxDepth source depth name cursor offset

structure NodeCall where
  depth : Nat
  start : Nat

def Encloses (maxDepth : Nat) (source : Source) (outer inner : NodeCall) : Prop :=
  ∃ opened, opening maxDepth outer.depth source outer.start = .ok opened ∧
    inner.depth = outer.depth + 1 ∧
    Reaches maxDepth source inner.depth opened.value.1 opened.offset inner.start

section Calls

theorem Reaches.ahead {depth cursor offset : Nat} {name : Located String}
    (reaches : Reaches maxDepth source depth name cursor offset) :
    cursor ≤ offset ∧ offset < source.size := by
  induction reaches with
  | here turn => exact le_of_childrenTurn turn
  | later turn read more ih =>
    obtain ⟨ordered, _⟩ := le_of_childrenTurn turn
    obtain ⟨advances, _⟩ := node_advances read
    omega

theorem Encloses.ahead {outer inner : NodeCall} (encloses : Encloses maxDepth source outer inner) :
    outer.start < inner.start ∧ inner.start < source.size := by
  obtain ⟨opened, opens, _, reaches⟩ := encloses
  have behind := opening_advances opens
  obtain ⟨ordered, inside⟩ := reaches.ahead
  exact ⟨Nat.lt_of_lt_of_le behind ordered, inside⟩

theorem length_le_of_nested {outer : NodeCall} {inner : List NodeCall}
    (nested : (outer :: inner).IsChain (Encloses maxDepth source)) :
    inner.length ≤ source.size - outer.start := by
  induction inner generalizing outer with
  | nil => exact Nat.zero_le _
  | cons next inner ih =>
    obtain ⟨encloses, deeper⟩ := List.isChain_cons_cons.mp nested
    obtain ⟨ordered, inside⟩ := encloses.ahead
    have shorter := ih deeper
    rw [List.length_cons]
    omega

theorem forward_node (maxDepth levels : Nat) : (node maxDepth levels).Forward source := by
  intro entry inside step read
  obtain ⟨advances, within⟩ := node_advances read
  exact ⟨Nat.le_of_lt advances, within⟩

theorem document_turns (maxDepth : Nat) (source : Source) (start : Nat) :
    ∃ nodes last failure,
      Parser.Turns (node maxDepth maxDepth) source (fun _ => True) start nodes last ∧
      node maxDepth maxDepth source last = .error failure ∧
      document maxDepth source start =
        if source.size ≤ last then .ok ⟨nodes, last⟩ else .error failure := by
  have runs : ∃ nodes last failure,
      Parser.Turns (node maxDepth maxDepth) source (fun _ => True) start nodes last ∧
      node maxDepth maxDepth source last = .error failure ∧
      (node maxDepth maxDepth).many source start = .ok ⟨nodes, last⟩ := by
    cases first : node maxDepth maxDepth source start with
    | error failure => exact ⟨[], start, failure, .done start, first, Parser.many_of_error first⟩
    | ok step =>
      obtain ⟨advances, within⟩ := node_advances first
      obtain ⟨nodes, last, turns, stops⟩ :=
        Parser.many_stops (forward_node maxDepth maxDepth) (by omega : start ≤ source.size)
      generalize (node maxDepth maxDepth).many source start = answer at stops ⊢
      cases stops with
      | failed failed => exact ⟨nodes, last, _, turns, failed, rfl⟩
      | stuck read still =>
        obtain ⟨advances, _⟩ := node_advances read
        omega
  obtain ⟨nodes, last, failure, turns, failed, read⟩ := runs
  refine ⟨nodes, last, failure, turns, failed, ?_⟩
  rw [document, read, ok_bind, failed]

end Calls

structure Ends (maxDepth : Nat) (source : Source) : Prop where
  node_advances : ∀ levels start step, node maxDepth levels source start = .ok step →
    start < step.offset ∧ step.offset ≤ source.size
  turn_advances : ∀ depth name cursor offset step,
    childrenTurn name source cursor = .parses offset →
    nodeUnder maxDepth depth source offset = .ok step →
    cursor < step.offset ∧ step.offset ≤ source.size
  child_ahead : ∀ outer inner, Encloses maxDepth source outer inner →
    outer.start < inner.start ∧ inner.start < source.size
  nested : ∀ outer inner, (outer :: inner).IsChain (Encloses maxDepth source) →
    inner.length ≤ source.size - outer.start
  attr_forward : ∀ tag, (afterBlanks (attr tag)).Forward source
  node_runs : ∀ depth start answer,
    NodeRuns maxDepth source depth start answer ↔ nodeUnder maxDepth depth source start = answer
  document_turns : ∀ start, ∃ nodes last failure,
    Parser.Turns (node maxDepth maxDepth) source (fun _ => True) start nodes last ∧
    node maxDepth maxDepth source last = .error failure ∧
    document maxDepth source start =
      if source.size ≤ last then .ok ⟨nodes, last⟩ else .error failure

theorem ends (maxDepth : Nat) (source : Source) : Ends maxDepth source where
  node_advances _ _ _ read := node_advances read
  turn_advances _ _ _ _ _ turn read := by
    obtain ⟨ordered, _⟩ := le_of_childrenTurn turn
    obtain ⟨advances, within⟩ := Grammar.node_advances read
    exact ⟨Nat.lt_of_le_of_lt ordered advances, within⟩
  child_ahead _ _ encloses := encloses.ahead
  nested _ _ := length_le_of_nested
  attr_forward tag := forward_afterBlanks (forward_attr tag)
  node_runs _ _ _ := nodeRuns_iff
  document_turns := Grammar.document_turns maxDepth source

/-- Parsing ends. Repetitions end for every parser that goes forward, and documents are read to an
    end although the loop over children does not check that it goes forward. -/
theorem parsing_ends :
    (∀ {ε α β : Type} [OfReason ε] (parser : Parser ε α) (terminator : Parser ε β) (source : Source),
      parser.Forward source →
      ∀ entry, entry ≤ source.size → parser.Repeats terminator source entry) ∧
    ∀ maxDepth source, Ends maxDepth source :=
  ⟨fun _ terminator _ forward _ inside => forward.repeats terminator inside, ends⟩

theorem parsing_ends_stuck :
    let blanks : Parser Reason String := Parser.whitespace
    let bracket : Parser Reason String := Parser.literal ">"
    let source := Source.ofString "é  x"
    blanks.Forward source ∧ 2 ≤ source.size ∧ blanks.Repeats bracket source 2 ∧
      blanks.many source 2 = .error (.atPoint .stuck 4) ∧
      Ends 1000000000 (.ofString "<a><b>t</a>") ∧
      Encloses 1000000000 (.ofString "<a><b>t</a>") ⟨0, 0⟩ ⟨1, 3⟩ := by
  intro blanks bracket source
  have forward : blanks.Forward source := Parser.forward_whitespace
  have inside : 2 ≤ source.size := by decide +kernel
  have repeats := parsing_ends.1 blanks bracket source forward 2 inside
  have here : blanks source 2 = .ok ⟨"  ", 4⟩ := by decide +kernel
  have there : blanks source 4 = .ok ⟨"", 4⟩ := by decide +kernel
  have turns : Parser.Turns blanks source (fun _ => True) 2 ["  "] 4 :=
    .turn True.intro here (by decide) (.done 4)
  have stuck := ((repeats.stuck ["  "] 4 ⟨"", 4⟩ there rfl).1 turns).1
  have opens : opening 1000000000 0 (.ofString "<a><b>t</a>") 0 =
      .ok ⟨(⟨"a", ⟨1, 2⟩⟩, []), 3⟩ := by decide +kernel
  have turn : childrenTurn ⟨"a", ⟨1, 2⟩⟩ (.ofString "<a><b>t</a>") 3 = .parses 3 := by decide +kernel
  exact ⟨forward, inside, repeats, stuck, parsing_ends.2 _ _, _, opens, rfl, .here turn⟩

end PageMarkup.Grammar
