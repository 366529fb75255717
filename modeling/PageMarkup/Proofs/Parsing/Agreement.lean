import PageMarkup.Proofs.Parsing.Progress

namespace PageMarkup.Parser

variable {ε α β : Type}

def pair (first : Parser ε α) (second : Parser ε β) : Parser ε (α × β) := fun source offset => do
  let left ← first source offset
  let right ← second source left.offset
  .ok ⟨(left.value, right.value), right.offset⟩

theorem seq_pair (first second : Parser ε α) :
    seq [first, second] = (pair first second).map fun values => [values.1, values.2] := by
  funext source offset
  simp only [seq, map, pair]
  cases first source offset with
  | error failure => rfl
  | ok left =>
    simp only [ok_bind]
    cases second source left.offset <;> rfl

section Agreement

variable {source : Source} {ready ready' : Nat → Prop} {offset cursor : Nat} {values : List α}

theorem pair_eq_ok {first : Parser ε α} {second : Parser ε β} {left : α} {right : β} :
    pair first second source offset = .ok ⟨(left, right), cursor⟩ ↔
      ∃ middle, first source offset = .ok ⟨left, middle⟩ ∧
        second source middle = .ok ⟨right, cursor⟩ := by
  rw [pair]
  cases read : first source offset with
  | error failure => simp
  | ok success =>
    obtain ⟨value, middle⟩ := success
    cases read' : second source middle with
    | error failure => simp [read']
    | ok success =>
      obtain ⟨value', cursor'⟩ := success
      simp [read', and_assoc]

theorem lookahead_eq_ok {parser : Parser ε α} {value : α} :
    parser.lookahead source offset = .ok ⟨value, cursor⟩ ↔
      cursor = offset ∧ ∃ reached, parser source offset = .ok ⟨value, reached⟩ := by
  rw [lookahead]
  cases parser source offset with
  | error failure => simp [Except.map]
  | ok success =>
    obtain ⟨value', reached⟩ := success
    simp [Except.map, eq_comm, and_comm]

theorem Steps.congr {parser other : Parser ε α}
    (steps : Steps parser source ready offset values cursor)
    (same : ∀ offset success, ready offset → parser source offset = .ok success →
      ready' offset ∧ other source offset = .ok success) :
    Steps other source ready' offset values cursor := by
  induction steps with
  | done offset => exact .done offset
  | step start read advances within _ ih =>
    obtain ⟨start', read'⟩ := same _ _ start read
    exact .step start' read' advances within ih

variable [OfReason ε] {parser : Parser ε α} {terminator : Parser ε β}

theorem many_eq_ok : many parser source offset = .ok ⟨values, cursor⟩ ↔
    Steps parser source (fun _ => True) offset values cursor ∧
      ∃ failure, parser source cursor = .error failure := by
  constructor
  · intro read
    induction offset using many.induct parser source generalizing values with
    | case1 offset failure failed =>
      rw [many, failed] at read
      cases read
      exact ⟨.done _, failure, failed⟩
    | case2 offset step first advances ih =>
      rw [many, first] at read
      simp only [advances, and_self, if_true] at read
      cases others : many parser source step.offset with
      | error failure => rw [others] at read; cases read
      | ok rest =>
        rw [others] at read
        cases read
        obtain ⟨steps, fails⟩ := ih others
        exact ⟨.step True.intro first advances.1 advances.2 steps, fails⟩
    | case3 offset step first stuck =>
      rw [many, first] at read
      simp only [stuck, if_false] at read
      cases read
  · rintro ⟨steps, failure, failed⟩
    rw [many_of_steps steps, many_of_error failed]
    simp [Except.map, prepend]

theorem manyUntil_eq_ok : manyUntil parser terminator source offset = .ok ⟨values, cursor⟩ ↔
    Steps parser source (fun offset => ∃ failure, terminator source offset = .error failure) offset
        values cursor ∧
      ∃ success, terminator source cursor = .ok success := by
  constructor
  · intro read
    induction offset using manyUntil.induct parser terminator source generalizing values with
    | case1 offset success ends =>
      rw [manyUntil, ends] at read
      cases read
      exact ⟨.done _, success, ends⟩
    | case2 offset failure goesOn atEnd =>
      rw [manyUntil, goesOn] at read
      simp only [atEnd, if_true] at read
      cases read
    | case3 offset failure goesOn more failure' failed =>
      rw [manyUntil, goesOn] at read
      simp only [more, if_false, failed] at read
      cases read
    | case4 offset failure goesOn more step first advances ih =>
      rw [manyUntil, goesOn] at read
      simp only [more, if_false, first, advances, and_self, if_true] at read
      cases others : manyUntil parser terminator source step.offset with
      | error failure => rw [others] at read; cases read
      | ok rest =>
        rw [others] at read
        cases read
        obtain ⟨steps, ends⟩ := ih others
        exact ⟨.step ⟨failure, goesOn⟩ first advances.1 advances.2 steps, ends⟩
    | case5 offset failure goesOn more step first stuck =>
      rw [manyUntil, goesOn] at read
      simp only [more, if_false, first, stuck] at read
      cases read
  · rintro ⟨steps, success, ends⟩
    rw [manyUntil_of_steps steps fun _ open' => open', manyUntil_of_ok ends]
    simp [Except.map, prepend]

def butNot (parser : Parser ε α) (stop : Parser ε β) : Parser ε α := (pair (not stop) parser).map (·.2)

theorem butNot_eq_ok {success : Success α} :
    parser.butNot terminator source offset = .ok success ↔
      (∃ failure, terminator source offset = .error failure) ∧
        parser source offset = .ok success := by
  rw [butNot, map, pair, not]
  cases terminator source offset with
  | ok stopped => simp [Except.map, fail]
  | error failure =>
    cases read : parser source offset <;> simp [Except.map, read]

theorem butNot_fails {stopped : Success β} (stops : terminator source offset = .ok stopped) :
    ∃ failure, parser.butNot terminator source offset = .error failure := by
  cases read : parser.butNot terminator source offset with
  | error failure => exact ⟨failure, rfl⟩
  | ok success =>
    obtain ⟨⟨failure, goesOn⟩, _⟩ := butNot_eq_ok.mp read
    rw [stops] at goesOn
    cases goesOn

theorem many1_eq_pair (parser : Parser ε α) :
    parser.many1 = (pair parser (many parser)).map fun values => values.1 :: values.2 := by
  funext source offset
  rw [many1, map, pair]
  cases read : parser source offset with
  | error failure => rfl
  | ok first =>
    simp only [ok_bind]
    by_cases still : first.offset = offset
    · have start : Steps parser source (fun _ => True) offset [] offset := .done offset
      rw [if_pos still, still, many_stuck read still start]
      rfl
    · rw [if_neg still]
      cases many parser source first.offset <;> rfl

/-- The repetitions agree. Once or more is once and then any number of times, with the same failures.
    Up to a terminator is any number of times where the terminator fails, and then the terminator
    ahead. Any number of times goes on step by step up to where the parser fails. -/
theorem repetitions_agree (parser : Parser ε α) (terminator : Parser ε β) :
    parser.many1 = (pair parser (many parser)).map (fun values => values.1 :: values.2) ∧
    (∀ source offset values cursor,
      manyUntil parser terminator source offset = .ok ⟨values, cursor⟩ ↔
        ∃ ended, pair (many (parser.butNot terminator)) terminator.lookahead source offset =
          .ok ⟨(values, ended), cursor⟩) ∧
    ∀ source offset values cursor, many parser source offset = .ok ⟨values, cursor⟩ ↔
      Steps parser source (fun _ => True) offset values cursor ∧
        ∃ failure, parser source cursor = .error failure := by
  refine ⟨many1_eq_pair parser, fun source offset values cursor => ?_,
    fun source offset values cursor => many_eq_ok⟩
  rw [manyUntil_eq_ok]
  constructor
  · rintro ⟨steps, ⟨ended, reached⟩, stops⟩
    have guarded : Steps (parser.butNot terminator) source (fun _ => True) offset values cursor :=
      steps.congr fun _ _ goesOn read => ⟨True.intro, butNot_eq_ok.mpr ⟨goesOn, read⟩⟩
    exact ⟨ended, pair_eq_ok.mpr ⟨cursor, many_eq_ok.mpr ⟨guarded, butNot_fails stops⟩,
      lookahead_eq_ok.mpr ⟨rfl, reached, stops⟩⟩⟩
  · rintro ⟨ended, read⟩
    obtain ⟨middle, guarded, peeked⟩ := pair_eq_ok.mp read
    obtain ⟨rfl, reached, stops⟩ := lookahead_eq_ok.mp peeked
    have steps := (many_eq_ok.mp guarded).1.congr fun _ _ _ read => butNot_eq_ok.mp read
    exact ⟨steps, _, stops⟩

end Agreement

end PageMarkup.Parser
