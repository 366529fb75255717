import PageMarkup.Parsing.Combinators

namespace PageMarkup.Parser

variable {ε α : Type}

theorem furthest_assoc (first second third : Failure ε) :
    furthest (furthest first second) third = furthest first (furthest second third) := by
  unfold furthest
  by_cases later : first.span.stop < second.span.stop
  · by_cases latest : second.span.stop < third.span.stop
    · have beyond : first.span.stop < third.span.stop := Nat.lt_trans later latest
      simp only [later, latest, beyond, if_true]
    · simp only [later, latest, if_true, if_false]
  · by_cases latest : second.span.stop < third.span.stop
    · simp only [later, latest, if_true, if_false]
    · have noLater : ¬ first.span.stop < third.span.stop := by omega
      simp only [later, latest, noLater, if_false]

def either : (first second : Except (Failure ε) (Success α)) → Except (Failure ε) (Success α)
  | .ok success, _ => .ok success
  | .error _, .ok success => .ok success
  | .error failure, .error failure' => .error (furthest failure failure')

theorem either_assoc (first second third : Except (Failure ε) (Success α)) :
    either (either first second) third = either first (either second third) := by
  cases first with
  | ok success => rfl
  | error failure =>
    cases second with
    | ok success => rfl
    | error failure' =>
      cases third with
      | ok success => rfl
      | error failure'' =>
        simp only [either]
        rw [furthest_assoc]

section Choice

variable {source : Source} {offset : Nat}

theorem choice_cons (first second : Parser ε α) (others : List (Parser ε α)) :
    choice first (second :: others) source offset =
      either (first source offset) (choice second others source offset) := by
  rw [choice]
  cases first source offset with
  | ok success => rfl
  | error failure =>
    cases choice second others source offset with
    | ok success => rfl
    | error failure' => rfl

theorem choice_append (first second : Parser ε α) (left right : List (Parser ε α)) :
    choice first (left ++ second :: right) source offset =
      either (choice first left source offset) (choice second right source offset) := by
  induction left generalizing first with
  | nil => exact choice_cons first second right
  | cons next left ih => rw [List.cons_append, choice_cons, ih, choice_cons, either_assoc]

theorem choice_group_first (inner : Parser ε α) (inners right : List (Parser ε α)) :
    choice (choice inner inners) right = choice inner (inners ++ right) := by
  funext source offset
  cases right with
  | nil => rw [List.append_nil, choice]
  | cons next right => rw [choice_cons, choice_append]

theorem choice_group (first inner : Parser ε α) (left inners right : List (Parser ε α)) :
    choice first (left ++ choice inner inners :: right) =
      choice first (left ++ inner :: (inners ++ right)) := by
  funext source offset
  rw [choice_append, choice_append, choice_group_first]

end Choice

/-- What is answered where several alternatives have answered: the first success, or else the failure
    that got furthest, and the first of those that got as far. -/
inductive Chosen :
    (answers : List (Except (Failure ε) (Success α))) → Except (Failure ε) (Success α) → Prop
  | success (before : List (Failure ε)) (success : Success α)
      (after : List (Except (Failure ε) (Success α))) :
      Chosen (before.map .error ++ .ok success :: after) (.ok success)
  | failure {before after : List (Failure ε)} {failure : Failure ε}
      (further : ∀ earlier ∈ before, earlier.span.stop < failure.span.stop)
      (noLess : ∀ later ∈ after, later.span.stop ≤ failure.span.stop) :
      Chosen ((before ++ failure :: after).map .error) (.error failure)

theorem eq_or_mem_of_split {β : Type} {before before' after after' : List β} {b b' : β}
    (split : before ++ b :: after = before' ++ b' :: after') :
    b = b' ∨ b ∈ before' ∧ b' ∈ after ∨ b' ∈ before ∧ b ∈ after' := by
  rcases List.append_eq_append_iff.mp split with ⟨between, rfl, same⟩ | ⟨between, rfl, same⟩
  · cases between with
    | nil => exact .inl (List.cons.inj same).1
    | cons c between =>
      obtain ⟨rfl, rfl⟩ := List.cons.inj same
      exact .inr (.inl ⟨by simp, by simp⟩)
  · cases between with
    | nil => exact .inl (List.cons.inj same).1.symm
    | cons c between =>
      obtain ⟨rfl, rfl⟩ := List.cons.inj same
      exact .inr (.inr ⟨by simp, by simp⟩)

namespace Chosen

variable {answers : List (Except (Failure ε) (Success α))}
  {answer answer' : Except (Failure ε) (Success α)}

theorem cons (chosen : Chosen answers answer) (first : Except (Failure ε) (Success α)) :
    Chosen (first :: answers) (either first answer) := by
  cases first with
  | ok success => exact .success [] success answers
  | error first =>
    cases chosen with
    | success before success after => exact .success (first :: before) success after
    | @failure before after failure further noLess =>
      simp only [either, furthest]
      by_cases less : first.span.stop < failure.span.stop
      · rw [if_pos less]
        have further : ∀ earlier ∈ first :: before, earlier.span.stop < failure.span.stop :=
          List.forall_mem_cons.mpr ⟨less, further⟩
        exact .failure further noLess
      · rw [if_neg less]
        have noLess : ∀ later ∈ before ++ failure :: after, later.span.stop ≤ first.span.stop := by
          intro later member
          rcases List.mem_append.mp member with member | member
          · have := further later member
            omega
          · rcases List.mem_cons.mp member with rfl | member
            · omega
            · have := noLess later member
              omega
        have further : ∀ earlier ∈ ([] : List (Failure ε)),
            earlier.span.stop < first.span.stop := nofun
        exact .failure further noLess

theorem ok_not_mem (success : Success α) (failures : List (Failure ε)) :
    Except.ok success ∉ failures.map (Except.error (α := Success α)) := by
  intro member
  obtain ⟨failure, _, same⟩ := List.mem_map.mp member
  cases same

theorem unique (chosen : Chosen answers answer) (chosen' : Chosen answers answer') :
    answer = answer' := by
  generalize split : answers = answers' at chosen'
  cases chosen with
  | success before success after =>
    cases chosen' with
    | success before' success' after' =>
      rcases eq_or_mem_of_split split with same | ⟨member, _⟩ | ⟨member, _⟩
      · exact same
      · exact absurd member (ok_not_mem success before')
      · exact absurd member (ok_not_mem success' before)
    | failure =>
      have member : Except.ok success ∈ before.map .error ++ .ok success :: after := by simp
      rw [split] at member
      exact absurd member (ok_not_mem success _)
  | @failure before after failure further noLess =>
    cases chosen' with
    | success before' success' after' =>
      have member : Except.ok success' ∈ before'.map .error ++ .ok success' :: after' := by simp
      rw [← split] at member
      exact absurd member (ok_not_mem success' _)
    | @failure before' after' failure' further' noLess' =>
      have split := (List.map_inj_right fun _ _ => Except.error.inj).mp split
      rcases eq_or_mem_of_split split with same | ⟨member, member'⟩ | ⟨member', member⟩
      · rw [same]
      · have less := further' failure member
        have := noLess failure' member'
        omega
      · have less := further failure' member'
        have := noLess' failure member
        omega

end Chosen

theorem choice_chosen (first : Parser ε α) (others : List (Parser ε α)) (source : Source)
    (offset : Nat) :
    Chosen ((first :: others).map (· source offset)) (choice first others source offset) := by
  induction others generalizing first with
  | nil =>
    rw [choice, List.map_singleton]
    cases first source offset with
    | ok success => exact .success [] success []
    | error failure =>
      have alone : Chosen (([] ++ [failure]).map Except.error) (Except.error (α := Success α) failure) :=
        .failure nofun nofun
      exact alone
  | cons second others ih =>
    rw [choice_cons]
    exact (ih second).cons (first source offset)

/-- A choice answers with the first success, or else with the first of the furthest failures. It does
    not matter how the alternatives are grouped, whether a group stands in front or behind others. -/
theorem choice_furthest_ungrouped (ε α : Type) :
    (∀ (first : Parser ε α) (others : List (Parser ε α)) (source : Source) (offset : Nat)
      (answer : Except (Failure ε) (Success α)),
      choice first others source offset = answer ↔
        Chosen ((first :: others).map (· source offset)) answer) ∧
    (∀ (inner : Parser ε α) (inners right : List (Parser ε α)),
      choice (choice inner inners) right = choice inner (inners ++ right)) ∧
    ∀ (first inner : Parser ε α) (left inners right : List (Parser ε α)),
      choice first (left ++ choice inner inners :: right) =
        choice first (left ++ inner :: (inners ++ right)) := by
  refine ⟨fun first others source offset answer => ?_, choice_group_first, choice_group⟩
  have chosen := choice_chosen first others source offset
  constructor
  · intro same
    rw [← same]
    exact chosen
  · exact chosen.unique

end PageMarkup.Parser
