import PageMarkup.Parsing.Rule
import PageMarkup.Proofs.Layout.Basic
import PageMarkup.Proofs.Parsing.Primitives

namespace PageMarkup

class HasSpans (α : Type) where
  spans : α → List Span

export HasSpans (spans)

instance : HasSpans String := ⟨fun _ => []⟩

instance : HasSpans Double := ⟨fun _ => []⟩

instance : HasSpans Char := ⟨fun _ => []⟩

instance : HasSpans Unit := ⟨fun _ => []⟩

instance {α : Type} [HasSpans α] : HasSpans (List α) := ⟨fun values => values.flatMap spans⟩

instance {α : Type} [HasSpans α] : HasSpans (Option α) :=
  ⟨fun value? => value?.toList.flatMap spans⟩

instance {α : Type} [HasSpans α] : HasSpans (Located α) :=
  ⟨fun located => located.span :: spans located.value⟩

mutual

def Value.spans : Value → List Span
  | .text _ | .number _ | .char _ | .unit | .none => []
  | .list values => spansOfAll values
  | .mapped value | .some value => value.spans
  | .located value span => span :: value.spans

def Value.spansOfAll : List Value → List Span
  | [] => []
  | value :: values => value.spans ++ spansOfAll values

end

instance : HasSpans Value := ⟨Value.spans⟩

theorem Value.spansOfAll_eq (values : List Value) :
    spansOfAll values = PageMarkup.spans values := by
  induction values with
  | nil => rfl
  | cons value values ih =>
    rw [spansOfAll, ih]
    rfl

structure Span.From (source : Source) (entry : Nat) (span : Span) : Prop where
  entry_le : entry ≤ span.start
  valid : span.Valid source

section Answers

variable {ε α : Type} [HasSpans α]

/-- A parser that was entered at `entry` goes on behind it, at a boundary, and has recorded spans of
    the source only. -/
structure Success.Within (source : Source) (entry : Nat) (success : Success α) : Prop where
  entry_le : entry ≤ success.offset
  boundary : source.isBoundary success.offset = true
  spans_from : ∀ span ∈ spans success.value, span.From source entry

structure Failure.Within (source : Source) (entry : Nat) (failure : Failure ε) : Prop where
  span_from : failure.span.From source entry
  stop_eq : failure.span.stop = failure.offset

def Within (source : Source) (entry : Nat) : Except (Failure ε) (Success α) → Prop
  | .ok success => success.Within source entry
  | .error failure => failure.Within source entry

def Parser.KeepsTo (source : Source) (parser : Parser ε α) : Prop :=
  ∀ entry, source.isBoundary entry = true → Within source entry (parser source entry)

end Answers

variable {ε ε' α β : Type} {source : Source} {entry offset : Nat} {span : Span}

theorem Source.isBoundary_iff :
    source.isBoundary offset = true ↔ ∃ text, source.suffix? offset = some text :=
  Option.isSome_iff_exists

theorem Source.le_size_of_isBoundary (boundary : source.isBoundary offset = true) :
    offset ≤ source.size := by
  obtain ⟨text, here⟩ := isBoundary_iff.mp boundary
  rw [size_of_suffix? here]
  exact Nat.le_add_right _ _

theorem Span.From.of_le (ordered : entry ≤ offset) (lies : span.From source offset) :
    span.From source entry := ⟨Nat.le_trans ordered lies.entry_le, lies.valid⟩

theorem Span.from_entry (ordered : entry ≤ offset) (start : source.isBoundary entry = true)
    (stop : source.isBoundary offset = true) : Span.From source entry ⟨entry, offset⟩ :=
  ⟨Nat.le_refl _, ordered, Source.le_size_of_isBoundary stop, start, stop⟩

theorem Success.Within.of_le [HasSpans α] {success : Success α} (ordered : entry ≤ offset)
    (within : success.Within source offset) : success.Within source entry :=
  ⟨Nat.le_trans ordered within.entry_le, within.boundary,
    fun span member => (within.spans_from span member).of_le ordered⟩

theorem Failure.Within.of_le {failure : Failure ε} (ordered : entry ≤ offset)
    (within : failure.Within source offset) : failure.Within source entry :=
  ⟨within.span_from.of_le ordered, within.stop_eq⟩

namespace Parser

theorem fail_within [OfReason ε] [HasSpans α] {reason : Reason}
    (boundary : source.isBoundary entry = true) :
    Within source entry (fail reason entry : Except (Failure ε) (Success α)) :=
  ⟨Span.from_entry (Nat.le_refl _) boundary boundary, rfl⟩

theorem accept_within [HasSpans α] {value : α} {taken rest : List Char} (bare : spans value = [])
    (here : source.suffix? entry = some (taken ++ rest)) :
    Within source entry (accept value entry taken : Except (Failure ε) (Success α)) := by
  refine ⟨Nat.le_add_right _ _, Source.isBoundary_of_suffix? (Source.suffix?_add here), ?_⟩
  intro span member
  rw [bare] at member
  cases member

theorem accept_takeWhile_within {p : Char → Bool} {text : List Char}
    (here : source.suffix? entry = some text) :
    Within source entry (accept (.ofList (text.takeWhile p)) entry (text.takeWhile p) :
      Except (Failure ε) (Success String)) := by
  rw [← List.takeWhile_append_dropWhile (p := p) (l := text)] at here
  exact accept_within rfl here

section Primitives

variable [OfReason ε]

theorem keepsTo_literal (expected : String) :
    (literal expected : Parser ε String).KeepsTo source := by
  intro entry boundary
  obtain ⟨text, here⟩ := Source.isBoundary_iff.mp boundary
  rw [literal, Source.rest_of_suffix? here]
  split
  · rename_i begins
    obtain ⟨rest, rfl⟩ := List.isPrefixOf_iff_prefix.mp begins
    exact accept_within rfl here
  · exact fail_within boundary

omit [OfReason ε] in
theorem keepsTo_whitespace : (whitespace : Parser ε String).KeepsTo source := by
  intro entry boundary
  obtain ⟨text, here⟩ := Source.isBoundary_iff.mp boundary
  rw [whitespace, Source.rest_of_suffix? here]
  exact accept_takeWhile_within here

theorem keepsTo_alphanumeric1 : (alphanumeric1 : Parser ε String).KeepsTo source := by
  intro entry boundary
  obtain ⟨text, here⟩ := Source.isBoundary_iff.mp boundary
  simp only [alphanumeric1, Source.rest_of_suffix? here]
  split
  · exact fail_within boundary
  · exact accept_takeWhile_within here

theorem keepsTo_number : (number : Parser ε Double).KeepsTo source := by
  intro entry boundary
  obtain ⟨text, here⟩ := Source.isBoundary_iff.mp boundary
  rw [number, Source.rest_of_suffix? here]
  cases read : Numeral.read? text with
  | none => exact fail_within boundary
  | some numeral =>
    obtain ⟨_, rest, rfl⟩ := Numeral.read?_eq_some read
    exact accept_within rfl here

theorem keepsTo_anyChar : (anyChar : Parser ε Char).KeepsTo source := by
  intro entry boundary
  obtain ⟨text, here⟩ := Source.isBoundary_iff.mp boundary
  rw [anyChar, Source.rest_of_suffix? here]
  cases text with
  | nil => exact fail_within boundary
  | cons c text =>
    have here : source.suffix? entry = some ([c] ++ text) := here
    exact accept_within rfl here

theorem keepsTo_endOfInput : (endOfInput : Parser ε Unit).KeepsTo source := by
  intro entry boundary
  rw [endOfInput]
  split
  · refine ⟨Nat.le_refl _, boundary, fun span member => ?_⟩
    cases member
  · exact fail_within boundary

theorem keepsTo_takeUntil1 (stop : Char → Bool) :
    (takeUntil1 stop : Parser ε String).KeepsTo source := by
  intro entry boundary
  obtain ⟨text, here⟩ := Source.isBoundary_iff.mp boundary
  rw [takeUntil1, Source.rest_of_suffix? here]
  cases text with
  | nil => exact fail_within boundary
  | cons c text =>
    cases stops : stop c with
    | true =>
      simp only [stops, if_true]
      exact fail_within boundary
    | false =>
      simp only [stops, Bool.false_eq_true, if_false]
      exact accept_takeWhile_within here

end Primitives

section Combinators

variable [HasSpans α] [HasSpans β] {parser : Parser ε α} {terminator : Parser ε β}

theorem within_bind {answer : Except (Failure ε) (Success α)}
    {next : Success α → Except (Failure ε) (Success β)} (within : Within source entry answer)
    (goesOn : ∀ success : Success α, success.Within source entry →
      Within source entry (next success)) :
    Within source entry (answer >>= next) := by
  cases answer with
  | error failure => exact within
  | ok success => exact goesOn success within

theorem within_map {answer : Except (Failure ε) (Success α)} {next : Success α → Success β}
    (within : Within source entry answer)
    (goesOn : ∀ success : Success α, success.Within source entry →
      (next success).Within source entry) :
    Within source entry (answer.map next) := by
  cases answer with
  | error failure => exact within
  | ok success => exact goesOn success within

theorem within_cons {step : Success α} {answer : Except (Failure ε) (Success (List α))}
    (first : step.Within source entry) (others : Within source step.offset answer) :
    Within source entry (do
      let others ← answer
      .ok ⟨step.value :: others.value, others.offset⟩ : Except (Failure ε) (Success (List α))) := by
  cases answer with
  | error failure => exact Failure.Within.of_le first.entry_le others
  | ok success =>
    have behind : success.Within source entry := Success.Within.of_le first.entry_le others
    refine ⟨behind.entry_le, behind.boundary, fun span member => ?_⟩
    rcases List.mem_append.mp member with member | member
    · exact first.spans_from span member
    · exact behind.spans_from span member

theorem keepsTo_seq {parsers : List (Parser ε α)}
    (each : ∀ parser ∈ parsers, parser.KeepsTo source) : (seq parsers).KeepsTo source := by
  induction parsers with
  | nil =>
    intro entry boundary
    exact ⟨Nat.le_refl _, boundary, nofun⟩
  | cons parser parsers ih =>
    intro entry boundary
    have others := ih fun parser member => each parser (List.mem_cons_of_mem _ member)
    exact within_bind (each parser List.mem_cons_self entry boundary) fun step within =>
      within_cons within (others _ within.boundary)

theorem furthest_within {first second : Failure ε} (within : first.Within source entry)
    (within' : second.Within source entry) : (furthest first second).Within source entry := by
  unfold furthest
  split
  · exact within'
  · exact within

theorem keepsTo_choice {first : Parser ε α} {others : List (Parser ε α)}
    (keeps : first.KeepsTo source) (each : ∀ parser ∈ others, parser.KeepsTo source) :
    (choice first others).KeepsTo source := by
  induction others generalizing first with
  | nil => exact keeps
  | cons second others ih =>
    intro entry boundary
    have within := keeps entry boundary
    have within' := ih (each second List.mem_cons_self)
      (fun parser member => each parser (List.mem_cons_of_mem _ member)) entry boundary
    rw [choice]
    cases read : first source entry with
    | ok success =>
      rw [read] at within
      exact within
    | error failure =>
      rw [read] at within
      cases readOther : choice second others source entry with
      | ok success =>
        rw [readOther] at within'
        exact within'
      | error failure' =>
        rw [readOther] at within'
        exact furthest_within within within'

theorem keepsTo_map {f : α → β} (bare : ∀ value, spans (f value) = spans value)
    (keeps : parser.KeepsTo source) : (parser.map f).KeepsTo source := by
  intro entry boundary
  refine within_map (keeps entry boundary) fun success within =>
    ⟨within.entry_le, within.boundary, fun span member => ?_⟩
  rw [bare] at member
  exact within.spans_from span member

theorem keepsTo_optional (keeps : parser.KeepsTo source) : parser.optional.KeepsTo source := by
  intro entry boundary
  have within := keeps entry boundary
  rw [optional]
  cases read : parser source entry with
  | error failure => exact ⟨Nat.le_refl _, boundary, nofun⟩
  | ok success =>
    rw [read] at within
    refine ⟨within.entry_le, within.boundary, fun span member => ?_⟩
    exact within.spans_from span (by simpa [spans] using member)

theorem keepsTo_located (keeps : parser.KeepsTo source) : parser.located.KeepsTo source := by
  intro entry boundary
  refine within_map (keeps entry boundary) fun success within =>
    ⟨within.entry_le, within.boundary, fun span member => ?_⟩
  rcases List.mem_cons.mp member with rfl | member
  · exact Span.from_entry within.entry_le boundary within.boundary
  · exact within.spans_from span member

theorem keepsTo_lookahead (keeps : parser.KeepsTo source) : parser.lookahead.KeepsTo source := by
  intro entry boundary
  exact within_map (keeps entry boundary) fun success within =>
    ⟨Nat.le_refl _, boundary, within.spans_from⟩

theorem keepsTo_expect {reason : ε'} (keeps : parser.KeepsTo source) :
    (parser.expect reason).KeepsTo source := by
  intro entry boundary
  have within := keeps entry boundary
  rw [expect]
  cases read : parser source entry with
  | ok success =>
    rw [read] at within
    exact within
  | error failure =>
    rw [read] at within
    obtain ⟨⟨entry_le, valid⟩, stop_eq⟩ := within
    have reached : entry ≤ failure.span.stop := Nat.le_trans entry_le valid.ordered
    have widened : (Span.point entry).cover failure.span = ⟨entry, failure.span.stop⟩ := by
      rw [Span.cover, Span.point, Nat.min_eq_left entry_le, Nat.max_eq_right reached]
    simp only [Except.mapError, widened]
    exact ⟨Span.from_entry reached boundary valid.stop_boundary, stop_eq⟩

section Reasons

variable [OfReason ε]

omit [HasSpans α] in
theorem keepsTo_not (parser : Parser ε α) : parser.not.KeepsTo source := by
  intro entry boundary
  rw [not]
  cases parser source entry with
  | ok success => exact fail_within boundary
  | error failure => exact ⟨Nat.le_refl _, boundary, nofun⟩

theorem keepsTo_many (keeps : parser.KeepsTo source) : Parser.KeepsTo source (many parser) := by
  intro entry boundary
  induction entry using many.induct parser source with
  | case1 entry failure failed =>
    rw [many, failed]
    exact ⟨Nat.le_refl _, boundary, nofun⟩
  | case2 entry step read advances ih =>
    have first := keeps entry boundary
    rw [read] at first
    rw [many, read]
    simp only [advances, and_self, if_true]
    exact within_cons first (ih first.boundary)
  | case3 entry step read stuck =>
    rw [many, read]
    simp only [stuck, if_false]
    exact fail_within boundary

theorem keepsTo_many1 (keeps : parser.KeepsTo source) : parser.many1.KeepsTo source := by
  intro entry boundary
  refine within_bind (keeps entry boundary) fun first within => ?_
  split
  · exact fail_within boundary
  · exact within_cons within (keepsTo_many keeps _ within.boundary)

omit [HasSpans β] in
theorem keepsTo_manyUntil (keeps : parser.KeepsTo source) :
    Parser.KeepsTo source (parser.manyUntil terminator) := by
  intro entry boundary
  induction entry using manyUntil.induct parser terminator source with
  | case1 entry success ends =>
    rw [manyUntil, ends]
    exact ⟨Nat.le_refl _, boundary, nofun⟩
  | case2 entry failure goesOn atEnd =>
    rw [manyUntil, goesOn]
    simp only [atEnd, if_true]
    exact fail_within boundary
  | case3 entry failure goesOn inside failure' failed =>
    have first := keeps entry boundary
    rw [failed] at first
    rw [manyUntil, goesOn]
    simp only [inside, if_false, failed]
    exact first
  | case4 entry failure goesOn inside step read advances ih =>
    have first := keeps entry boundary
    rw [read] at first
    rw [manyUntil, goesOn]
    simp only [inside, if_false, read, advances, and_self, if_true]
    exact within_cons first (ih first.boundary)
  | case5 entry failure goesOn inside step read stuck =>
    rw [manyUntil, goesOn]
    simp only [inside, if_false, read, stuck]
    exact fail_within boundary

end Reasons

end Combinators

end Parser

variable [OfReason ε] {named : String → Parser ε Value}

mutual

theorem Rule.parser_keepsTo (keeps : ∀ name, (named name).KeepsTo source) (rule : Rule ε) :
    (rule.parser named).KeepsTo source := by
  cases rule with
  | literal text =>
    rw [Rule.parser]
    exact Parser.keepsTo_map (fun _ => rfl) (Parser.keepsTo_literal text)
  | whitespace =>
    rw [Rule.parser]
    exact Parser.keepsTo_map (fun _ => rfl) Parser.keepsTo_whitespace
  | alphanumeric1 =>
    rw [Rule.parser]
    exact Parser.keepsTo_map (fun _ => rfl) Parser.keepsTo_alphanumeric1
  | number =>
    rw [Rule.parser]
    exact Parser.keepsTo_map (fun _ => rfl) Parser.keepsTo_number
  | anyChar =>
    rw [Rule.parser]
    exact Parser.keepsTo_map (fun _ => rfl) Parser.keepsTo_anyChar
  | endOfInput =>
    rw [Rule.parser]
    exact Parser.keepsTo_map (fun _ => rfl) Parser.keepsTo_endOfInput
  | takeUntil1 stop =>
    rw [Rule.parser]
    exact Parser.keepsTo_map (fun _ => rfl) (Parser.keepsTo_takeUntil1 stop)
  | seq rules =>
    rw [Rule.parser]
    exact Parser.keepsTo_map Value.spansOfAll_eq (Parser.keepsTo_seq (parsers_keepTo keeps rules))
  | choice first others =>
    exact Parser.keepsTo_choice (parser_keepsTo keeps first) (parsers_keepTo keeps others)
  | map rule =>
    rw [Rule.parser]
    exact Parser.keepsTo_map (fun _ => rfl) (parser_keepsTo keeps rule)
  | optional rule =>
    rw [Rule.parser]
    refine Parser.keepsTo_map (fun value? => ?_)
      (Parser.keepsTo_optional (parser_keepsTo keeps rule))
    cases value? with
    | none => rfl
    | some value => exact (List.append_nil _).symm
  | located rule =>
    rw [Rule.parser]
    exact Parser.keepsTo_map (fun _ => rfl) (Parser.keepsTo_located (parser_keepsTo keeps rule))
  | many rule =>
    rw [Rule.parser]
    exact Parser.keepsTo_map Value.spansOfAll_eq (Parser.keepsTo_many (parser_keepsTo keeps rule))
  | many1 rule =>
    rw [Rule.parser]
    exact Parser.keepsTo_map Value.spansOfAll_eq (Parser.keepsTo_many1 (parser_keepsTo keeps rule))
  | manyUntil rule terminator =>
    rw [Rule.parser]
    exact Parser.keepsTo_map Value.spansOfAll_eq
      (Parser.keepsTo_manyUntil (parser_keepsTo keeps rule))
  | lookahead rule => exact Parser.keepsTo_lookahead (parser_keepsTo keeps rule)
  | not rule =>
    rw [Rule.parser]
    exact Parser.keepsTo_map (fun _ => rfl) (Parser.keepsTo_not _)
  | expect rule reason => exact Parser.keepsTo_expect (parser_keepsTo keeps rule)
  | ref name => exact keeps name

theorem Rule.parsers_keepTo (keeps : ∀ name, (named name).KeepsTo source) (rules : List (Rule ε)) :
    ∀ parser ∈ Rule.parsers named rules, parser.KeepsTo source := by
  cases rules with
  | nil => exact nofun
  | cons rule rules =>
    exact List.forall_mem_cons.mpr ⟨parser_keepsTo keeps rule, parsers_keepTo keeps rules⟩

end

namespace Definitions

variable (definitions : Definitions ε)

theorem keepsTo_named (depth : Nat) (name : String) :
    (definitions.named depth name).KeepsTo source := by
  induction depth generalizing name with
  | zero =>
    intro entry boundary
    exact Parser.fail_within boundary
  | succ depth ih =>
    intro entry boundary
    rw [named]
    cases definitions.lookup name with
    | none => exact Parser.fail_within boundary
    | some rule => exact rule.parser_keepsTo ih entry boundary

/-- Whatever a parser is built of, entered at a boundary it goes forward along the boundaries of
    the source: to where it succeeds, or from the start of the span of its failure to the end of it,
    where it gives up. What it records lies there too. -/
theorem run_within (rule : Rule ε) (source : Source) {entry : Nat}
    (boundary : source.isBoundary entry = true) :
    Within source entry (definitions.run rule source entry) :=
  rule.parser_keepsTo (definitions.keepsTo_named _) entry boundary

def brackets : Definitions Reason :=
  [("nest", .seq [.literal "<", .optional (.located (.ref "nest")), .literal ">"])]

theorem run_within_unclosed :
    (Source.ofString "é<<>ü").isBoundary 2 = true ∧
      brackets.run (.expect (.ref "nest") .number) (.ofString "é<<>ü") 2 =
        .error ⟨.number, 5, ⟨2, 5⟩⟩ ∧
      Within (.ofString "é<<>ü") 2
        (brackets.run (.expect (.ref "nest") .number) (.ofString "é<<>ü") 2) := by
  have boundary : (Source.ofString "é<<>ü").isBoundary 2 = true := by decide +kernel
  exact ⟨boundary, rfl, brackets.run_within _ _ boundary⟩

end Definitions

end PageMarkup
