import PageMarkup.Proofs.Parsing.Repetition

namespace PageMarkup

variable {ε ε' α β : Type} {source : Source} {entry : Nat}

def Ahead (source : Source) (entry : Nat) (answer : Except (Failure ε) (Success α)) : Prop :=
  ∀ success, answer = .ok success → entry ≤ success.offset ∧ success.offset ≤ source.size

def Parser.Forward (source : Source) (parser : Parser ε α) : Prop :=
  ∀ entry, entry ≤ source.size → Ahead source entry (parser source entry)

section Ahead

theorem ahead_error (failure : Failure ε) :
    Ahead source entry (.error failure : Except (Failure ε) (Success α)) := nofun

theorem ahead_ok {success : Success α} (ordered : entry ≤ success.offset)
    (within : success.offset ≤ source.size) :
    Ahead source entry (.ok success : Except (Failure ε) (Success α)) := by
  intro found same
  cases same
  exact ⟨ordered, within⟩

theorem Ahead.of_le {offset : Nat} {answer : Except (Failure ε) (Success α)}
    (ahead : Ahead source offset answer) (ordered : entry ≤ offset) : Ahead source entry answer := by
  intro success read
  obtain ⟨ordered', within⟩ := ahead success read
  exact ⟨Nat.le_trans ordered ordered', within⟩

theorem ahead_bind {answer : Except (Failure ε) (Success α)}
    {next : Success α → Except (Failure ε) (Success β)} (ahead : Ahead source entry answer)
    (goesOn : ∀ success : Success α, entry ≤ success.offset → success.offset ≤ source.size →
      Ahead source entry (next success)) :
    Ahead source entry (answer >>= next) := by
  cases answer with
  | error failure => exact ahead_error failure
  | ok first =>
    obtain ⟨ordered, within⟩ := ahead first rfl
    exact goesOn first ordered within

theorem ahead_map {answer : Except (Failure ε) (Success α)} {next : Success α → Success β}
    (ahead : Ahead source entry answer) (stays : ∀ success, (next success).offset = success.offset) :
    Ahead source entry (answer.map next) := by
  cases answer with
  | error failure => exact ahead_error failure
  | ok success =>
    obtain ⟨ordered, within⟩ := ahead success rfl
    rw [← stays success] at ordered within
    exact ahead_ok ordered within

theorem Source.suffix?_of_rest (more : source.rest entry ≠ []) :
    source.suffix? entry = some (source.rest entry) := by
  cases here : source.suffix? entry with
  | none =>
    have empty : source.rest entry = [] := by rw [rest, here]; rfl
    exact absurd empty more
  | some text => rw [rest_of_suffix? here]

theorem Source.add_byteLength_le {taken : List Char} (inside : entry ≤ source.size)
    (begins : taken <+: source.rest entry) : entry + byteLength taken ≤ source.size := by
  by_cases empty : source.rest entry = []
  · rw [empty, List.prefix_nil] at begins
    rw [begins]
    exact inside
  · have size := size_of_suffix? (suffix?_of_rest empty)
    obtain ⟨behind, split⟩ := begins
    rw [← split, byteLength_append] at size
    omega

theorem accept_ahead {value : α} {taken : List Char} (inside : entry ≤ source.size)
    (begins : taken <+: source.rest entry) :
    Ahead source entry (Parser.accept value entry taken : Except (Failure ε) (Success α)) :=
  ahead_ok (Nat.le_add_right _ _) (Source.add_byteLength_le inside begins)

end Ahead

namespace Parser

section Forward

variable {parser : Parser ε α}

theorem forward_whitespace : (whitespace : Parser ε String).Forward source :=
  fun _ inside => accept_ahead inside (List.takeWhile_prefix _)

theorem Forward.map {f : α → β} (forward : parser.Forward source) :
    (parser.map f).Forward source :=
  fun entry inside => ahead_map (forward entry inside) fun _ => rfl

theorem Forward.located (forward : parser.Forward source) : parser.located.Forward source :=
  fun entry inside => ahead_map (forward entry inside) fun _ => rfl

theorem Forward.expect {reason : ε'} (forward : parser.Forward source) :
    (parser.expect reason).Forward source := by
  intro entry inside
  have ahead := forward entry inside
  rw [Parser.expect]
  cases read : parser source entry with
  | error failure => exact ahead_error _
  | ok success =>
    obtain ⟨ordered, within⟩ := ahead success read
    exact ahead_ok ordered within

theorem Forward.choice {first : Parser ε α} {others : List (Parser ε α)}
    (forward : first.Forward source) (each : ∀ parser ∈ others, parser.Forward source) :
    (choice first others).Forward source := by
  induction others generalizing first with
  | nil => exact forward
  | cons second others ih =>
    intro entry inside
    have earlier := forward entry inside
    have later := ih (each second List.mem_cons_self)
      (fun parser member => each parser (List.mem_cons_of_mem _ member)) entry inside
    rw [Parser.choice]
    cases read : first source entry with
    | ok success =>
      rw [read] at earlier
      exact earlier
    | error failure =>
      cases readLater : Parser.choice second others source entry with
      | ok success =>
        rw [readLater] at later
        exact later
      | error failure' => exact ahead_error _

variable [OfReason ε]

theorem forward_literal (expected : String) : (literal expected : Parser ε String).Forward source := by
  intro entry inside
  rw [literal]
  split
  · rename_i begins
    exact accept_ahead inside (List.isPrefixOf_iff_prefix.mp begins)
  · exact ahead_error _

theorem literal_advances {expected : String} {success : Success String}
    (nonempty : expected.toList ≠ [])
    (read : (literal expected source entry : Except (Failure ε) (Success String)) = .ok success) :
    entry < success.offset ∧ success.offset ≤ source.size := by
  rw [literal] at read
  split at read
  · rename_i begins
    cases read
    obtain ⟨behind, split⟩ := List.isPrefixOf_iff_prefix.mp begins
    have more : source.rest entry ≠ [] := by
      rw [← split]
      exact List.append_ne_nil_of_left_ne_nil nonempty behind
    have size := Source.size_of_suffix? (Source.suffix?_of_rest more)
    have positive := byteLength_pos nonempty
    rw [← split, byteLength_append] at size
    show entry < entry + byteLength expected.toList ∧ entry + byteLength expected.toList ≤ source.size
    omega
  · cases read

theorem forward_alphanumeric1 : (alphanumeric1 : Parser ε String).Forward source := by
  intro entry inside
  simp only [alphanumeric1]
  split
  · exact ahead_error _
  · exact accept_ahead inside (List.takeWhile_prefix _)

theorem forward_number : (number : Parser ε Double).Forward source := by
  intro entry inside
  rw [number]
  cases read : Numeral.read? (source.rest entry) with
  | none => exact ahead_error _
  | some numeral =>
    obtain ⟨_, rest, split⟩ := Numeral.read?_eq_some read
    exact accept_ahead inside ⟨rest, split.symm⟩

end Forward

/-- The turns that a loop takes from one cursor to another, each where `ready` holds. A turn makes
    sure of nothing but that the parser did not stay where it was. -/
inductive Turns (parser : Parser ε α) (source : Source) (ready : Nat → Prop) :
    Nat → List α → Nat → Prop
  | done (cursor : Nat) : Turns parser source ready cursor [] cursor
  | turn {cursor last : Nat} {success : Success α} {values : List α} (start : ready cursor)
      (read : parser source cursor = .ok success) (moves : success.offset ≠ cursor)
      (more : Turns parser source ready success.offset values last) :
      Turns parser source ready cursor (success.value :: values) last

section Repetition

variable [OfReason ε] {parser : Parser ε α} {terminator : Parser ε β} {ready : Nat → Prop}
  {last : Nat} {values : List α}

omit [OfReason ε] in
theorem Turns.steps (turns : Turns parser source ready entry values last)
    (forward : parser.Forward source) (inside : entry ≤ source.size) :
    Steps parser source ready entry values last := by
  induction turns with
  | done cursor => exact .done cursor
  | turn start read moves more ih =>
    obtain ⟨ordered, within⟩ := forward _ inside _ read
    exact .step start read (Nat.lt_of_le_of_ne ordered (Ne.symm moves)) within (ih within)

omit [OfReason ε] in
theorem Steps.length_le (steps : Steps parser source ready entry values last)
    (inside : entry ≤ source.size) : entry + values.length ≤ last ∧ last ≤ source.size := by
  induction steps with
  | done cursor => exact ⟨Nat.le_refl _, inside⟩
  | step start read advances within more ih =>
    obtain ⟨counted, within'⟩ := ih within
    rw [List.length_cons]
    exact ⟨by omega, within'⟩

inductive ManyStops (parser : Parser ε α) (source : Source) (last : Nat) (values : List α) :
    Except (Failure ε) (Success (List α)) → Prop
  | failed {failure : Failure ε} (failed : parser source last = .error failure) :
      ManyStops parser source last values (.ok ⟨values, last⟩)
  | stuck {success : Success α} (read : parser source last = .ok success)
      (still : success.offset = last) :
      ManyStops parser source last values (.error (.atPoint (ofReason .stuck) last))

inductive Many1Stops (parser : Parser ε α) (source : Source) (last : Nat) :
    List α → Except (Failure ε) (Success (List α)) → Prop
  | first {failure : Failure ε} (failed : parser source last = .error failure) :
      Many1Stops parser source last [] (.error failure)
  | failed {failure : Failure ε} (failed : parser source last = .error failure) (value : α)
      (values : List α) :
      Many1Stops parser source last (value :: values) (.ok ⟨value :: values, last⟩)
  | stuck {success : Success α} (read : parser source last = .ok success)
      (still : success.offset = last) (values : List α) :
      Many1Stops parser source last values (.error (.atPoint (ofReason .stuck) last))

def GoesOn (terminator : Parser ε β) (source : Source) (cursor : Nat) : Prop :=
  (∃ failure, terminator source cursor = .error failure) ∧ cursor < source.size

inductive UntilStops (parser : Parser ε α) (terminator : Parser ε β) (source : Source) (last : Nat)
    (values : List α) : Except (Failure ε) (Success (List α)) → Prop
  | ended {success : Success β} (ends : terminator source last = .ok success) :
      UntilStops parser terminator source last values (.ok ⟨values, last⟩)
  | unterminated {failure : Failure ε} (goesOn : terminator source last = .error failure)
      (atEnd : source.size ≤ last) :
      UntilStops parser terminator source last values
        (.error (.atPoint (ofReason .unterminatedRepetition) last))
  | failed {failure : Failure ε} (goesOn : GoesOn terminator source last)
      (failed : parser source last = .error failure) :
      UntilStops parser terminator source last values (.error failure)
  | stuck {success : Success α} (goesOn : GoesOn terminator source last)
      (read : parser source last = .ok success) (still : success.offset = last) :
      UntilStops parser terminator source last values (.error (.atPoint (ofReason .stuck) last))

theorem ManyStops.prepend {answer : Except (Failure ε) (Success (List α))}
    (stops : ManyStops parser source last values answer) (value : α) :
    ManyStops parser source last (value :: values) (do
      let others ← answer
      .ok ⟨value :: others.value, others.offset⟩) := by
  cases stops with
  | failed failed => exact .failed failed
  | stuck read still => exact .stuck read still

theorem many_stops (forward : parser.Forward source) (inside : entry ≤ source.size) :
    ∃ values last, Turns parser source (fun _ => True) entry values last ∧
      ManyStops parser source last values (many parser source entry) := by
  induction entry using many.induct parser source with
  | case1 entry failure failed =>
    rw [many, failed]
    exact ⟨[], entry, .done entry, .failed failed⟩
  | case2 entry step read advances ih =>
    obtain ⟨values, last, turns, stops⟩ := ih advances.2
    rw [many, read]
    simp only [advances, and_self, if_true]
    exact ⟨step.value :: values, last, .turn True.intro read (by omega) turns,
      stops.prepend step.value⟩
  | case3 entry step read stuck =>
    obtain ⟨ordered, within⟩ := forward entry inside step read
    rw [many, read]
    simp only [stuck, if_false]
    exact ⟨[], entry, .done entry, .stuck read (by omega)⟩

theorem many1_stops (forward : parser.Forward source) (inside : entry ≤ source.size) :
    ∃ values last, Turns parser source (fun _ => True) entry values last ∧
      Many1Stops parser source last values (parser.many1 source entry) := by
  cases read : parser source entry with
  | error failure =>
    rw [many1, read]
    exact ⟨[], entry, .done entry, .first read⟩
  | ok first =>
    obtain ⟨ordered, within⟩ := forward entry inside first read
    by_cases still : first.offset = entry
    · rw [many1, read, ok_bind, if_pos still]
      exact ⟨[], entry, .done entry, .stuck read still []⟩
    · obtain ⟨values, last, turns, stops⟩ := many_stops forward within
      rw [many1, read, ok_bind, if_neg still]
      refine ⟨first.value :: values, last, .turn True.intro read still turns, ?_⟩
      generalize many parser source first.offset = answer at stops ⊢
      cases stops with
      | failed failed => exact .failed failed _ _
      | stuck read still => exact .stuck read still _

theorem UntilStops.prepend {answer : Except (Failure ε) (Success (List α))}
    (stops : UntilStops parser terminator source last values answer) (value : α) :
    UntilStops parser terminator source last (value :: values) (do
      let others ← answer
      .ok ⟨value :: others.value, others.offset⟩) := by
  cases stops with
  | ended ends => exact .ended ends
  | unterminated goesOn atEnd => exact .unterminated goesOn atEnd
  | failed goesOn failed => exact .failed goesOn failed
  | stuck goesOn read still => exact .stuck goesOn read still

theorem manyUntil_stops (forward : parser.Forward source) (terminator : Parser ε β)
    (inside : entry ≤ source.size) :
    ∃ values last, Turns parser source (GoesOn terminator source) entry values last ∧
      UntilStops parser terminator source last values
        (parser.manyUntil terminator source entry) := by
  induction entry using manyUntil.induct parser terminator source with
  | case1 entry success ends =>
    rw [manyUntil, ends]
    exact ⟨[], entry, .done entry, .ended ends⟩
  | case2 entry failure goesOn atEnd =>
    rw [manyUntil, goesOn]
    simp only [atEnd, if_true]
    exact ⟨[], entry, .done entry, .unterminated goesOn atEnd⟩
  | case3 entry failure goesOn more failure' failed =>
    rw [manyUntil, goesOn]
    simp only [more, if_false, failed]
    exact ⟨[], entry, .done entry, .failed ⟨⟨failure, goesOn⟩, Nat.not_le.mp more⟩ failed⟩
  | case4 entry failure goesOn more step read advances ih =>
    obtain ⟨values, last, turns, stops⟩ := ih advances.2
    rw [manyUntil, goesOn]
    simp only [more, if_false, read, advances, and_self, if_true]
    exact ⟨step.value :: values, last,
      .turn ⟨⟨failure, goesOn⟩, Nat.not_le.mp more⟩ read (by omega) turns, stops.prepend step.value⟩
  | case5 entry failure goesOn more step read stuck =>
    obtain ⟨ordered, within⟩ := forward entry inside step read
    rw [manyUntil, goesOn]
    simp only [more, if_false, read, stuck]
    exact ⟨[], entry, .done entry,
      .stuck ⟨⟨failure, goesOn⟩, Nat.not_le.mp more⟩ read (by omega)⟩

section Stuck

variable {success : Success α} (read : parser source last = .ok success)
  (still : success.offset = last)

include read still

theorem many_stuck (steps : Steps parser source ready entry values last) :
    many parser source entry = .error (.atPoint (ofReason .stuck) last) := by
  have here : many parser source last = .error (.atPoint (ofReason .stuck) last) := by
    rw [many, read]
    simp only [still, Nat.lt_irrefl, false_and, if_false]
    rfl
  rw [many_of_steps steps, here]
  rfl

theorem many1_stuck (steps : Steps parser source ready entry values last) :
    parser.many1 source entry = .error (.atPoint (ofReason .stuck) last) := by
  cases steps with
  | done =>
    rw [many1, read, ok_bind, if_pos still]
    rfl
  | step start readFirst advances within more =>
    rw [many1, readFirst, ok_bind, if_neg (Nat.ne_of_gt advances), many_stuck read still more]
    rfl

theorem manyUntil_stuck (steps : Steps parser source (GoesOn terminator source) entry values last)
    (goesOn : GoesOn terminator source last) :
    parser.manyUntil terminator source entry = .error (.atPoint (ofReason .stuck) last) := by
  obtain ⟨⟨failure, unended⟩, more⟩ := goesOn
  have here : parser.manyUntil terminator source last =
      .error (.atPoint (ofReason .stuck) last) := by
    rw [manyUntil, unended]
    simp only [Nat.not_le.mpr more, if_false, read, still, Nat.lt_irrefl, false_and]
    rfl
  rw [manyUntil_of_steps steps fun _ ready => ready.1, here]
  rfl

end Stuck

/-- A repetition ends for a parser that goes forward: no turns from the entry are more than there are
    bytes behind it, each reads some of them, and it is known how the turns stop. -/
structure Repeats (parser : Parser ε α) (terminator : Parser ε β) (source : Source) (entry : Nat) :
    Prop where
  bounded : ∀ ready values last, Turns parser source ready entry values last →
    Steps parser source ready entry values last ∧ values.length ≤ source.size - entry
  stuck : ∀ values last success, parser source last = .ok success → success.offset = last →
    (Turns parser source (fun _ => True) entry values last →
      many parser source entry = .error (.atPoint (ofReason .stuck) last) ∧
      parser.many1 source entry = .error (.atPoint (ofReason .stuck) last)) ∧
    (Turns parser source (GoesOn terminator source) entry values last →
      GoesOn terminator source last →
        parser.manyUntil terminator source entry = .error (.atPoint (ofReason .stuck) last))
  many : ∃ values last, Turns parser source (fun _ => True) entry values last ∧
    ManyStops parser source last values (many parser source entry)
  many1 : ∃ values last, Turns parser source (fun _ => True) entry values last ∧
    Many1Stops parser source last values (parser.many1 source entry)
  manyUntil : ∃ values last, Turns parser source (GoesOn terminator source) entry values last ∧
    UntilStops parser terminator source last values (parser.manyUntil terminator source entry)

theorem Forward.repeats (forward : parser.Forward source) (terminator : Parser ε β)
    (inside : entry ≤ source.size) : Repeats parser terminator source entry where
  bounded := by
    intro ready values last turns
    have steps := turns.steps forward inside
    obtain ⟨counted, within⟩ := steps.length_le inside
    exact ⟨steps, by omega⟩
  stuck _ _ _ read still :=
    ⟨fun turns => ⟨many_stuck read still (turns.steps forward inside),
        many1_stuck read still (turns.steps forward inside)⟩,
      fun turns => manyUntil_stuck read still (turns.steps forward inside)⟩
  many := many_stops forward inside
  many1 := many1_stops forward inside
  manyUntil := manyUntil_stops forward terminator inside

theorem Forward.manyUntil (forward : parser.Forward source) (terminator : Parser ε β) :
    Parser.Forward source (parser.manyUntil terminator) := by
  intro entry inside
  obtain ⟨values, last, turns, stops⟩ := manyUntil_stops forward terminator inside
  obtain ⟨counted, within⟩ := (turns.steps forward inside).length_le inside
  generalize parser.manyUntil terminator source entry = answer at stops
  cases stops with
  | ended => exact ahead_ok (by simp only; omega) within
  | unterminated => exact ahead_error _
  | failed => exact ahead_error _
  | stuck => exact ahead_error _

end Repetition

end Parser

end PageMarkup
