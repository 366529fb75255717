import PageMarkup.Proofs.Parsing.Ending
import PageMarkup.Proofs.Shift.Concatenation

namespace PageMarkup

variable {ε ε' α β : Type} {bytes offset : Nat} {source behind : Source}

mutual

def Value.shift (bytes : Nat) : Value → Value
  | .text content => .text content
  | .number double => .number double
  | .char c => .char c
  | .unit => .unit
  | .list values => .list (shiftAll bytes values)
  | .mapped value => .mapped (value.shift bytes)
  | .some value => .some (value.shift bytes)
  | .none => .none
  | .located value span => .located (value.shift bytes) (span.shift bytes)

def Value.shiftAll (bytes : Nat) : List Value → List Value
  | [] => []
  | value :: values => value.shift bytes :: shiftAll bytes values

end

theorem Value.shiftAll_eq_map (bytes : Nat) (values : List Value) :
    shiftAll bytes values = values.map (Value.shift bytes) := by
  induction values with
  | nil => rfl
  | cons value values ih => rw [shiftAll, ih, List.map_cons]

def shiftAnswer (bytes : Nat) (move : α → α) :
    Except (Failure ε) (Success α) → Except (Failure ε) (Success α)
  | .ok success => .ok ⟨move success.value, bytes + success.offset⟩
  | .error failure => .error (failure.shift bytes)

theorem Span.shift_injective (bytes : Nat) : Function.Injective (Span.shift bytes) := by
  rintro ⟨start, stop⟩ ⟨start', stop'⟩ same
  simpa [Span.shift] using same

mutual

theorem Value.shift_injective {value other : Value} (same : value.shift bytes = other.shift bytes) :
    value = other := by
  cases value <;> cases other <;>
    simp only [shift, reduceCtorEq, Value.text.injEq, Value.number.injEq, Value.char.injEq,
      Value.list.injEq, Value.mapped.injEq, Value.some.injEq, Value.located.injEq] at same ⊢
  case text => exact same
  case number => exact same
  case char => exact same
  case list => exact shiftAll_injective same
  case mapped => exact shift_injective same
  case some => exact shift_injective same
  case located => exact ⟨shift_injective same.1, Span.shift_injective bytes same.2⟩

theorem Value.shiftAll_injective {values others : List Value}
    (same : shiftAll bytes values = shiftAll bytes others) : values = others := by
  cases values <;> cases others <;>
    simp only [shiftAll, reduceCtorEq, List.cons.injEq] at same ⊢
  case cons => exact ⟨shift_injective same.1, shiftAll_injective same.2⟩

end

theorem shiftAnswer_injective {move : α → α} (injective : Function.Injective move)
    {answer other : Except (Failure ε) (Success α)}
    (same : shiftAnswer bytes move answer = shiftAnswer bytes move other) : answer = other := by
  cases answer with
  | ok success =>
    cases other with
    | ok other =>
      obtain ⟨value, offset⟩ := success
      obtain ⟨value', offset'⟩ := other
      simp only [shiftAnswer, Except.ok.injEq, Success.mk.injEq, Nat.add_left_cancel_iff] at same
      rw [injective same.1, same.2]
    | error failure => cases same
  | error failure =>
    cases other with
    | ok other => cases same
    | error other =>
      obtain ⟨reason, offset, span⟩ := failure
      obtain ⟨reason', offset', span'⟩ := other
      simp only [shiftAnswer, Failure.shift, Except.error.injEq, Failure.mk.injEq,
        Nat.add_left_cancel_iff] at same
      rw [same.1, same.2.1, Span.shift_injective bytes same.2.2]

/-- `behind` is what follows the first `bytes` bytes of a source. -/
structure Source.Behind (source : Source) (bytes : Nat) (behind : Source) : Prop where
  suffix?_eq (offset : Nat) : source.suffix? (bytes + offset) = behind.suffix? offset
  size_eq : source.size = bytes + behind.size

theorem dropBytes?_append_add (left right : List Char) (n : Nat) :
    dropBytes? (left ++ right) (byteLength left + n) = dropBytes? right n := by
  induction left with
  | nil => simp
  | cons c left ih =>
    have positive := c.utf8Size_pos
    obtain ⟨m, same⟩ : ∃ m, c.utf8Size + byteLength left + n = m + 1 :=
      ⟨c.utf8Size + byteLength left + n - 1, by omega⟩
    have others : m + 1 - c.utf8Size = byteLength left + n := by omega
    rw [byteLength_cons, same, List.cons_append, dropBytes?, if_pos (by omega), others, ih]

namespace Source

theorem behind_of_suffix? {rest : List Char} (here : source.suffix? bytes = some rest) :
    source.Behind bytes (.ofText rest) := by
  obtain ⟨left, split, rfl⟩ := exists_before_of_suffix? here
  constructor
  · intro offset
    rw [suffix?_eq, suffix?_eq, split, dropBytes?_append_add, text_ofText]
  · rw [size_eq, size_eq, split, byteLength_append, text_ofText]

namespace Behind

variable (follows : source.Behind bytes behind)

include follows

theorem rest_eq (offset : Nat) : source.rest (bytes + offset) = behind.rest offset := by
  rw [rest, rest, follows.suffix?_eq]

theorem isBoundary_eq (offset : Nat) :
    source.isBoundary (bytes + offset) = behind.isBoundary offset := by
  rw [isBoundary, isBoundary, follows.suffix?_eq]

theorem size_le_iff (offset : Nat) : source.size ≤ bytes + offset ↔ behind.size ≤ offset := by
  rw [follows.size_eq]
  omega

theorem advances_iff (offset next : Nat) :
    bytes + offset < bytes + next ∧ bytes + next ≤ source.size ↔
      offset < next ∧ next ≤ behind.size := by
  rw [follows.size_eq]
  omega

end Behind

end Source

/-- The first parser answers behind `bytes` more bytes as the second does without them, but for the
    shift. -/
def Parser.Shifts (source : Source) (bytes : Nat) (behind : Source) (move : α → α)
    (parser parser' : Parser ε α) : Prop :=
  ∀ offset, parser source (bytes + offset) = shiftAnswer bytes move (parser' behind offset)

namespace Parser

section Primitives

variable [OfReason ε]

theorem fail_shift {move : α → α} (reason : Reason) (offset : Nat) :
    (fail reason (bytes + offset) : Except (Failure ε) (Success α)) =
      shiftAnswer bytes move (fail reason offset) := rfl

omit [OfReason ε] in
theorem accept_shift (value : α) (offset : Nat) (taken : List Char) :
    (accept value (bytes + offset) taken : Except (Failure ε) (Success α)) =
      shiftAnswer bytes id (accept value offset taken) := by
  rw [accept, accept, Nat.add_assoc]
  rfl

variable (follows : source.Behind bytes behind)

include follows

theorem shifts_literal (expected : String) :
    Shifts source bytes behind id (literal expected : Parser ε String) (literal expected) := by
  intro offset
  rw [literal, literal, follows.rest_eq]
  split
  · exact accept_shift _ _ _
  · exact fail_shift _ _

omit [OfReason ε] in
theorem shifts_whitespace :
    Shifts source bytes behind id (whitespace : Parser ε String) whitespace := by
  intro offset
  rw [whitespace, whitespace, follows.rest_eq]
  exact accept_shift _ _ _

theorem shifts_alphanumeric1 :
    Shifts source bytes behind id (alphanumeric1 : Parser ε String) alphanumeric1 := by
  intro offset
  simp only [alphanumeric1, follows.rest_eq]
  split
  · exact fail_shift _ _
  · exact accept_shift _ _ _

theorem shifts_number : Shifts source bytes behind id (number : Parser ε Double) number := by
  intro offset
  rw [number, number, follows.rest_eq]
  cases Numeral.read? (behind.rest offset) with
  | none => exact fail_shift _ _
  | some numeral => exact accept_shift _ _ _

theorem shifts_anyChar : Shifts source bytes behind id (anyChar : Parser ε Char) anyChar := by
  intro offset
  rw [anyChar, anyChar, follows.rest_eq]
  cases behind.rest offset with
  | nil => exact fail_shift _ _
  | cons c text => exact accept_shift _ _ _

theorem shifts_endOfInput :
    Shifts source bytes behind id (endOfInput : Parser ε Unit) endOfInput := by
  intro offset
  simp only [endOfInput, follows.size_le_iff]
  split
  · rfl
  · exact fail_shift _ _

theorem shifts_takeUntil1 (stop : Char → Bool) :
    Shifts source bytes behind id (takeUntil1 stop : Parser ε String) (takeUntil1 stop) := by
  intro offset
  rw [takeUntil1, takeUntil1, follows.rest_eq]
  cases behind.rest offset with
  | nil => exact fail_shift _ _
  | cons c text =>
    cases stops : stop c with
    | true =>
      simp only [stops, if_true]
      exact fail_shift _ _
    | false =>
      simp only [stops, Bool.false_eq_true, if_false]
      exact accept_shift _ _ _

end Primitives

section Combinators

variable {move : α → α} {move' : β → β} {parser parser' : Parser ε α}
  {terminator terminator' : Parser ε β}

theorem shifts_map {f : α → β} (commutes : ∀ value, f (move value) = move' (f value))
    (shifts : Shifts source bytes behind move parser parser') :
    Shifts source bytes behind move' (parser.map f) (parser'.map f) := by
  intro offset
  rw [map, map, shifts]
  cases parser' behind offset with
  | error failure => rfl
  | ok success => simp only [shiftAnswer, Except.map, commutes]

theorem shifts_optional (shifts : Shifts source bytes behind move parser parser') :
    Shifts source bytes behind (Option.map move) parser.optional parser'.optional := by
  intro offset
  rw [optional, optional, shifts]
  cases parser' behind offset <;> rfl

theorem shifts_located (shifts : Shifts source bytes behind move parser parser') :
    Shifts source bytes behind (fun located => ⟨move located.value, located.span.shift bytes⟩)
      parser.located parser'.located := by
  intro offset
  rw [located, located, shifts]
  cases parser' behind offset <;> rfl

theorem shifts_lookahead (shifts : Shifts source bytes behind move parser parser') :
    Shifts source bytes behind move parser.lookahead parser'.lookahead := by
  intro offset
  rw [lookahead, lookahead, shifts]
  cases parser' behind offset <;> rfl

theorem cover_shift (first second : Span) :
    (first.shift bytes).cover (second.shift bytes) = (first.cover second).shift bytes := by
  simp only [Span.cover, Span.shift, Nat.add_min_add_left, Nat.add_max_add_left]

theorem shifts_expect (reason : ε') (shifts : Shifts source bytes behind move parser parser') :
    Shifts source bytes behind move (parser.expect reason) (parser'.expect reason) := by
  intro offset
  rw [expect, expect, shifts]
  cases parser' behind offset with
  | ok success => rfl
  | error failure =>
    have widened : (Span.point (bytes + offset)).cover (failure.span.shift bytes) =
        ((Span.point offset).cover failure.span).shift bytes := cover_shift (.point offset) _
    simp only [shiftAnswer, Except.mapError, Failure.shift, widened]

theorem shifts_seq {parsers parsers' : List (Parser ε α)}
    (each : List.Forall₂ (Shifts source bytes behind move) parsers parsers') :
    Shifts source bytes behind (List.map move) (seq parsers) (seq parsers') := by
  induction each with
  | nil => exact fun offset => rfl
  | @cons parser parser' parsers parsers' shifts _ ih =>
    intro offset
    rw [seq, seq, shifts]
    cases parser' behind offset with
    | error failure => rfl
    | ok step =>
      simp only [shiftAnswer, ok_bind, ih step.offset]
      cases seq parsers' behind step.offset <;> rfl

theorem furthest_shift (first second : Failure ε) :
    furthest (first.shift bytes) (second.shift bytes) = (furthest first second).shift bytes := by
  have further : (first.shift bytes).span.stop < (second.shift bytes).span.stop ↔
      first.span.stop < second.span.stop := Nat.add_lt_add_iff_left
  simp only [furthest, further]
  split <;> rfl

theorem shifts_choice {first first' : Parser ε α} {others others' : List (Parser ε α)}
    (shifts : Shifts source bytes behind move first first')
    (each : List.Forall₂ (Shifts source bytes behind move) others others') :
    Shifts source bytes behind move (choice first others) (choice first' others') := by
  induction each generalizing first first' with
  | nil => exact shifts
  | @cons second second' others others' shifts' _ ih =>
    intro offset
    rw [choice, choice, shifts]
    cases first' behind offset with
    | ok success => rfl
    | error failure =>
      simp only [shiftAnswer, ih shifts' offset]
      cases choice second' others' behind offset with
      | ok success => rfl
      | error failure' => simp only [furthest_shift]

section Reasons

variable [OfReason ε]

theorem shifts_not (shifts : Shifts source bytes behind move parser parser') :
    Shifts source bytes behind id parser.not parser'.not := by
  intro offset
  rw [not, not, shifts]
  cases parser' behind offset <;> rfl

theorem shifts_many (follows : source.Behind bytes behind)
    (shifts : Shifts source bytes behind move parser parser') :
    Shifts source bytes behind (List.map move) (many parser) (many parser') := by
  intro offset
  induction offset using many.induct parser' behind with
  | case1 offset failure failed =>
    rw [many, many, shifts, failed]
    rfl
  | case2 offset step read advances ih =>
    rw [many, many, shifts, read]
    simp only [shiftAnswer, follows.advances_iff, advances, and_self, if_true, ih]
    cases many parser' behind step.offset <;> rfl
  | case3 offset step read stuck =>
    rw [many, many, shifts, read]
    simp only [shiftAnswer, follows.advances_iff, stuck, if_false]
    rfl

theorem shifts_many1 (follows : source.Behind bytes behind)
    (shifts : Shifts source bytes behind move parser parser') :
    Shifts source bytes behind (List.map move) parser.many1 parser'.many1 := by
  intro offset
  rw [many1, many1, shifts]
  cases parser' behind offset with
  | error failure => rfl
  | ok first =>
    simp only [shiftAnswer, ok_bind, Nat.add_left_cancel_iff,
      shifts_many follows shifts first.offset]
    split
    · rfl
    · cases many parser' behind first.offset <;> rfl

theorem shifts_manyUntil (follows : source.Behind bytes behind)
    (shifts : Shifts source bytes behind move parser parser')
    (shifts' : Shifts source bytes behind move' terminator terminator') :
    Shifts source bytes behind (List.map move) (parser.manyUntil terminator)
      (parser'.manyUntil terminator') := by
  intro offset
  induction offset using manyUntil.induct parser' terminator' behind with
  | case1 offset success ends =>
    rw [manyUntil, manyUntil, shifts', ends]
    rfl
  | case2 offset failure goesOn done =>
    rw [manyUntil, manyUntil, shifts', goesOn]
    simp only [shiftAnswer, follows.size_le_iff, done, if_true]
    rfl
  | case3 offset failure goesOn inside failure' failed =>
    rw [manyUntil, manyUntil, shifts', goesOn]
    simp only [shiftAnswer, follows.size_le_iff, inside, if_false, shifts offset, failed]
  | case4 offset failure goesOn inside step read advances ih =>
    rw [manyUntil, manyUntil, shifts', goesOn]
    simp only [shiftAnswer, follows.size_le_iff, inside, if_false, shifts offset, read,
      follows.advances_iff, advances, and_self, if_true, ih]
    cases manyUntil parser' terminator' behind step.offset <;> rfl
  | case5 offset failure goesOn inside step read stuck =>
    rw [manyUntil, manyUntil, shifts', goesOn]
    simp only [shiftAnswer, follows.size_le_iff, inside, if_false, shifts offset, read,
      follows.advances_iff, stuck]
    rfl

end Reasons

end Combinators

end Parser

section Rules

variable [OfReason ε] {named named' : String → Parser ε Value}

mutual

theorem Rule.parser_shifts (follows : source.Behind bytes behind)
    (shifts : ∀ name,
      Parser.Shifts source bytes behind (Value.shift bytes) (named name) (named' name))
    (rule : Rule ε) :
    Parser.Shifts source bytes behind (Value.shift bytes) (rule.parser named)
      (rule.parser named') := by
  cases rule with
  | literal text =>
    rw [Rule.parser, Rule.parser]
    exact Parser.shifts_map (fun _ => rfl) (Parser.shifts_literal follows text)
  | whitespace =>
    rw [Rule.parser, Rule.parser]
    exact Parser.shifts_map (fun _ => rfl) (Parser.shifts_whitespace follows)
  | alphanumeric1 =>
    rw [Rule.parser, Rule.parser]
    exact Parser.shifts_map (fun _ => rfl) (Parser.shifts_alphanumeric1 follows)
  | number =>
    rw [Rule.parser, Rule.parser]
    exact Parser.shifts_map (fun _ => rfl) (Parser.shifts_number follows)
  | anyChar =>
    rw [Rule.parser, Rule.parser]
    exact Parser.shifts_map (fun _ => rfl) (Parser.shifts_anyChar follows)
  | endOfInput =>
    rw [Rule.parser, Rule.parser]
    exact Parser.shifts_map (fun _ => rfl) (Parser.shifts_endOfInput follows)
  | takeUntil1 stop =>
    rw [Rule.parser, Rule.parser]
    exact Parser.shifts_map (fun _ => rfl) (Parser.shifts_takeUntil1 follows stop)
  | seq rules =>
    rw [Rule.parser, Rule.parser]
    exact Parser.shifts_map (fun values => by rw [Value.shift, Value.shiftAll_eq_map])
      (Parser.shifts_seq (parsers_shift follows shifts rules))
  | choice first others =>
    exact Parser.shifts_choice (parser_shifts follows shifts first)
      (parsers_shift follows shifts others)
  | map rule =>
    rw [Rule.parser, Rule.parser]
    exact Parser.shifts_map (fun _ => rfl) (parser_shifts follows shifts rule)
  | optional rule =>
    rw [Rule.parser, Rule.parser]
    refine Parser.shifts_map (fun value? => ?_)
      (Parser.shifts_optional (parser_shifts follows shifts rule))
    cases value? <;> rfl
  | located rule =>
    rw [Rule.parser, Rule.parser]
    exact Parser.shifts_map (fun _ => rfl)
      (Parser.shifts_located (parser_shifts follows shifts rule))
  | many rule =>
    rw [Rule.parser, Rule.parser]
    exact Parser.shifts_map (fun values => by rw [Value.shift, Value.shiftAll_eq_map])
      (Parser.shifts_many follows (parser_shifts follows shifts rule))
  | many1 rule =>
    rw [Rule.parser, Rule.parser]
    exact Parser.shifts_map (fun values => by rw [Value.shift, Value.shiftAll_eq_map])
      (Parser.shifts_many1 follows (parser_shifts follows shifts rule))
  | manyUntil rule terminator =>
    rw [Rule.parser, Rule.parser]
    exact Parser.shifts_map (fun values => by rw [Value.shift, Value.shiftAll_eq_map])
      (Parser.shifts_manyUntil follows (parser_shifts follows shifts rule)
        (parser_shifts follows shifts terminator))
  | lookahead rule => exact Parser.shifts_lookahead (parser_shifts follows shifts rule)
  | not rule =>
    rw [Rule.parser, Rule.parser]
    exact Parser.shifts_map (fun _ => rfl) (Parser.shifts_not (parser_shifts follows shifts rule))
  | expect rule reason => exact Parser.shifts_expect reason (parser_shifts follows shifts rule)
  | ref name => exact shifts name

theorem Rule.parsers_shift (follows : source.Behind bytes behind)
    (shifts : ∀ name,
      Parser.Shifts source bytes behind (Value.shift bytes) (named name) (named' name))
    (rules : List (Rule ε)) :
    List.Forall₂ (Parser.Shifts source bytes behind (Value.shift bytes)) (Rule.parsers named rules)
      (Rule.parsers named' rules) := by
  cases rules with
  | nil => exact .nil
  | cons rule rules =>
    exact .cons (parser_shifts follows shifts rule) (parsers_shift follows shifts rules)

end

end Rules

namespace Definitions

variable [OfReason ε] {definitions : Definitions ε}

theorem shifts_named (follows : source.Behind bytes behind) (depth : Nat) (name : String) :
    Parser.Shifts source bytes behind (Value.shift bytes) (definitions.named depth name)
      (definitions.named depth name) := by
  induction depth generalizing name with
  | zero => exact fun offset => rfl
  | succ depth ih =>
    intro offset
    rw [named]
    cases definitions.lookup name with
    | none => rfl
    | some rule => exact rule.parser_shifts follows ih offset

def namedBehind (bytes : Nat) (behind : Source) (named : String → Parser ε Value) (name : String) :
    Parser ε Value := fun _ offset =>
  shiftAnswer bytes (Value.shift bytes) (named name behind (offset - bytes))

omit [OfReason ε] in
theorem shifts_namedBehind (named : String → Parser ε Value) (name : String) :
    Parser.Shifts source bytes behind (Value.shift bytes) (namedBehind bytes behind named name)
      (named name) := by
  intro offset
  rw [namedBehind, Nat.add_sub_cancel_left]

theorem settledBy_behind (follows : source.Behind bytes behind) {rule : Rule ε}
    {answers answers' : Answers ε} {answer : Except (Failure ε) (Success Value)}
    (settled : rule.SettledBy source answers (bytes + offset) answer)
    (each : ∀ {name next reply}, answers name next reply → ∃ next' reply', next = bytes + next' ∧
      reply = shiftAnswer bytes (Value.shift bytes) reply' ∧ answers' name next' reply')
    {named : String → Parser ε Value}
    (agrees : ∀ name next reply, answers' name next reply → named name behind next = reply) :
    answer = shiftAnswer bytes (Value.shift bytes) (rule.parser named behind offset) ∧
      rule.SettledBy behind answers' offset (rule.parser named behind offset) := by
  -- parsers that answer in the source as `named` does on the rest agree with the answers there
  have same {named : String → Parser ε Value}
      (agrees : ∀ name next reply, answers' name next reply → named name behind next = reply) :
      shiftAnswer bytes (Value.shift bytes) (rule.parser named behind offset) = answer := by
    rw [← rule.parser_shifts follows (shifts_namedBehind named)]
    refine settled _ fun name next reply given => ?_
    obtain ⟨next', reply', rfl, rfl, given'⟩ := each given
    rw [shifts_namedBehind named name, agrees name next' reply' given']
  refine ⟨(same agrees).symm, fun named' agrees' => ?_⟩
  exact shiftAnswer_injective (fun _ _ => Value.shift_injective)
    ((same agrees').trans (same agrees).symm)

theorem Answered.unshifted (follows : source.Behind bytes behind) {name : String} {next : Nat}
    {reply : Except (Failure ε) (Success Value)}
    (answered : definitions.Answered source name next reply) (here : next = bytes + offset) :
    ∃ reply', reply = shiftAnswer bytes (Value.shift bytes) reply' ∧
      definitions.Answered behind name offset reply' := by
  induction answered generalizing offset with
  | @intro name rule next answer answers ahead _ found settled ih =>
    subst here
    let answers' : Answers ε := fun name next' reply' =>
      offset ≤ next' ∧ behind.isBoundary next' = true ∧
        definitions.Answered behind name next' reply'
    have each {name : String} {next : Nat} {reply : Except (Failure ε) (Success Value)}
        (given : answers name next reply) : ∃ next' reply', next = bytes + next' ∧
          reply = shiftAnswer bytes (Value.shift bytes) reply' ∧ answers' name next' reply' := by
      obtain ⟨later, boundary⟩ := ahead given
      obtain ⟨next', rfl⟩ := Nat.exists_eq_add_of_le (Nat.le_trans (Nat.le_add_right _ _) later)
      obtain ⟨reply', same, answered'⟩ := ih given rfl
      rw [follows.isBoundary_eq] at boundary
      exact ⟨next', reply', rfl, same, by omega, boundary, answered'⟩
    obtain ⟨same, settled'⟩ := settledBy_behind follows settled each
      fun name next reply given => given.2.2.named_eq given.2.1
    exact ⟨_, same, .intro answers' (fun given => ⟨given.1, given.2.1⟩) (fun given => given.2.2)
      found settled'⟩

theorem Ends.unshifted (follows : source.Behind bytes behind) {rule : Rule ε}
    {answer : Except (Failure ε) (Success Value)}
    (ends : definitions.Ends source rule (bytes + offset) answer) :
    answer = shiftAnswer bytes (Value.shift bytes) (definitions.run rule behind offset) ∧
      definitions.Ends behind rule offset (definitions.run rule behind offset) := by
  refine settledBy_behind follows ends ?_ fun name next reply given => given.2.2.named_eq given.2.1
  rintro name next reply ⟨later, boundary, answered⟩
  obtain ⟨next', rfl⟩ := Nat.exists_eq_add_of_le (Nat.le_trans (Nat.le_add_right _ _) later)
  obtain ⟨reply', same, answered'⟩ := answered.unshifted follows rfl
  rw [follows.isBoundary_eq] at boundary
  exact ⟨next', reply', rfl, same, by omega, boundary, answered'⟩

end Definitions

namespace Written

theorem BrokenDocument.shift {maxDepth start : Nat} {text : List Char}
    {failure : Failure SyntaxFault} (broken : BrokenDocument maxDepth start text failure) :
    BrokenDocument maxDepth (bytes + start) text (failure.shift bytes) := by
  cases broken with
  | intro items canonical flush shallow spaced broken =>
    refine .intro items canonical flush shallow spaced ?_
    rw [Nat.add_assoc]
    exact broken.shift

end Written

open Written in
theorem Grammar.document_shift (maxDepth : Nat) {rest : List Char}
    (here : source.suffix? offset = some rest) :
    document maxDepth source offset =
      shiftAnswer offset (List.map (Node.shift offset)) (document maxDepth (.ofText rest) 0) := by
  have atStart : (Source.ofText rest).suffix? 0 = some rest := Source.suffix?_zero _
  rcases exists_document_or_broken maxDepth rest with ⟨document, rfl, shallow⟩ | broken
  · have reads {source : Source} {start : Nat} (here : source.suffix? start = some document.text) :=
      document_reads maxDepth document.items document.canonical document.flush shallow
        document.spaced here
    rw [reads here, reads atStart]
    simp only [shiftAnswer, ← nodesAt_add, Nat.add_zero, Nat.zero_add]
  · obtain ⟨failure, broken⟩ := broken 0
    have shifted : BrokenDocument maxDepth offset rest (failure.shift offset) := broken.shift
    rw [document_fails broken atStart, document_fails shifted here]
    rfl

/-- No parser looks behind where it is entered. However deep references are followed, a rule answers
    on the rest of the source as it does in the source, but that all offsets and spans are shifted.
    So it is for a run that ends, which then ends on the rest of the source too, and for
    documents. -/
theorem look_ahead_only [OfReason ε] {rest : List Char} (here : source.suffix? offset = some rest) :
    (∀ (definitions : Definitions ε) (rule : Rule ε),
      (∀ depth, rule.parser (definitions.named depth) source offset =
        shiftAnswer offset (Value.shift offset)
          (rule.parser (definitions.named depth) (.ofText rest) 0)) ∧
      ∀ answer, definitions.Ends source rule offset answer →
        definitions.run rule source offset = answer ∧
        definitions.Ends (.ofText rest) rule 0 (definitions.run rule (.ofText rest) 0) ∧
        answer =
          shiftAnswer offset (Value.shift offset) (definitions.run rule (.ofText rest) 0)) ∧
    ∀ maxDepth, Grammar.document maxDepth source offset =
      shiftAnswer offset (List.map (Node.shift offset))
        (Grammar.document maxDepth (.ofText rest) 0) := by
  have follows := Source.behind_of_suffix? here
  refine ⟨fun definitions rule => ⟨fun depth => ?_, fun answer ends => ?_⟩,
    fun maxDepth => Grammar.document_shift maxDepth here⟩
  · exact rule.parser_shifts follows (definitions.shifts_named follows depth) 0
  · have ends' : definitions.Ends source rule (offset + 0) answer := ends
    obtain ⟨same, onRest⟩ := ends'.unshifted follows
    exact ⟨ends.run_eq, onRest, same⟩

theorem Definitions.answered_brackets {failure : Failure Reason}
    {opening closing : Success String}
    (opens : (Parser.literal "<" : Parser Reason String) source offset = .ok opening)
    (ahead : offset ≤ opening.offset ∧ source.isBoundary opening.offset = true)
    (empty : (Parser.literal "<" : Parser Reason String) source opening.offset = .error failure)
    (closes : (Parser.literal ">" : Parser Reason String) source opening.offset = .ok closing) :
    brackets.Answered source "nest" offset
      (.ok ⟨.list [.text opening.value, .none, .text closing.value], closing.offset⟩) := by
  have inner : brackets.Answered source "nest" opening.offset (.error failure) := by
    refine .intro (fun _ _ _ => False) nofun nofun rfl fun named _ => ?_
    simp only [Rule.parser, Rule.parsers, Parser.map, Parser.seq, empty, Except.map]
    rfl
  refine .intro (fun name next reply => name = "nest" ∧ next = opening.offset ∧
    reply = .error failure) ?_ ?_ rfl fun named agrees => ?_
  · rintro _ _ _ ⟨rfl, rfl, rfl⟩
    exact ahead
  · rintro _ _ _ ⟨rfl, rfl, rfl⟩
    exact inner
  · have reply := agrees _ _ _ ⟨rfl, rfl, rfl⟩
    simp only [Rule.parser, Rule.parsers, Parser.map, Parser.seq, Parser.optional, Parser.located,
      opens, closes, reply, Except.map, ok_bind]

theorem look_ahead_only_brackets :
    (Source.ofString "é<>ü").suffix? 2 = some ['<', '>', 'ü'] ∧
      Definitions.brackets.Ends (.ofString "é<>ü") (.located (.ref "nest")) 2
        (.ok ⟨.located (.list [.text "<", .none, .text ">"]) ⟨2, 4⟩, 4⟩) ∧
      Definitions.brackets.run (.located (.ref "nest")) (.ofText ['<', '>', 'ü']) 0 =
        .ok ⟨.located (.list [.text "<", .none, .text ">"]) ⟨0, 2⟩, 2⟩ ∧
      Grammar.document 1 (.ofString "é<>ü") 2 =
        shiftAnswer 2 (List.map (Node.shift 2))
          (Grammar.document 1 (.ofText ['<', '>', 'ü']) 0) := by
  have here : (Source.ofString "é<>ü").suffix? 2 = some ['<', '>', 'ü'] := by decide +kernel
  have opens : (Parser.literal "<" : Parser Reason String) (.ofString "é<>ü") 2 = .ok ⟨"<", 3⟩ := by
    decide +kernel
  have answered : Definitions.brackets.Answered (.ofString "é<>ü") "nest" 2
      (.ok ⟨.list [.text "<", .none, .text ">"], 4⟩) :=
    Definitions.answered_brackets opens ⟨by decide, by decide +kernel⟩ rfl rfl
  have ends : Definitions.brackets.Ends (.ofString "é<>ü") (.located (.ref "nest")) 2
      (.ok ⟨.located (.list [.text "<", .none, .text ">"]) ⟨2, 4⟩, 4⟩) := by
    intro named agrees
    have reply := agrees _ _ _ ⟨Nat.le_refl _, by decide +kernel, answered⟩
    simp only [Rule.parser, Parser.map, Parser.located, reply, Except.map]
  obtain ⟨rules, documents⟩ := @look_ahead_only Reason _ _ _ _ here
  obtain ⟨_, _, same⟩ := (rules Definitions.brackets (.located (.ref "nest"))).2 _ ends
  exact ⟨here, ends, shiftAnswer_injective (fun _ _ => Value.shift_injective) same.symm,
    documents 1⟩

end PageMarkup
