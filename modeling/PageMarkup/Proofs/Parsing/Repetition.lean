import PageMarkup.Proofs.Parsing.Primitives

namespace PageMarkup.Parser

variable {ε α β : Type}

/-- The parser reads one value after the other, each where `ready` holds, and advances with each. -/
inductive Steps (parser : Parser ε α) (source : Source) (ready : Nat → Prop) :
    Nat → List α → Nat → Prop
  | done (offset : Nat) : Steps parser source ready offset [] offset
  | step {offset last : Nat} {success : Success α} {values : List α} (start : ready offset)
      (read : parser source offset = .ok success) (advances : offset < success.offset)
      (within : success.offset ≤ source.size)
      (more : Steps parser source ready success.offset values last) :
      Steps parser source ready offset (success.value :: values) last

def prepend (values : List α) (others : Success (List α)) : Success (List α) :=
  ⟨values ++ others.value, others.offset⟩

section Repetition

variable [OfReason ε] {parser : Parser ε α} {terminator : Parser ε β} {source : Source}
  {ready : Nat → Prop} {offset last : Nat} {values : List α}

theorem many_of_steps (steps : Steps parser source ready offset values last) :
    many parser source offset = (many parser source last).map (prepend values) := by
  induction steps with
  | done offset => cases many parser source offset <;> rfl
  | step _ read advances within _ ih =>
    rw [many, read]
    simp only [advances, within, and_self, if_true]
    rw [ih]
    cases many parser source _ <;> rfl

theorem many_of_error {failure : Failure ε} (failed : parser source offset = .error failure) :
    many parser source offset = .ok ⟨[], offset⟩ := by
  rw [many, failed]

theorem manyUntil_of_steps (steps : Steps parser source ready offset values last)
    (goesOn : ∀ offset, ready offset → ∃ failure, terminator source offset = .error failure) :
    manyUntil parser terminator source offset =
      (manyUntil parser terminator source last).map (prepend values) := by
  induction steps with
  | done offset => cases manyUntil parser terminator source offset <;> rfl
  | step start read advances within _ ih =>
    obtain ⟨failure, open'⟩ := goesOn _ start
    rw [manyUntil, open', read]
    simp only [advances, within, and_self, if_true]
    rw [if_neg (by omega), ih]
    cases manyUntil parser terminator source _ <;> rfl

theorem manyUntil_of_ok {success : Success β} (ends : terminator source offset = .ok success) :
    manyUntil parser terminator source offset = .ok ⟨[], offset⟩ := by
  rw [manyUntil, ends]

theorem manyUntil_of_error {failure failure' : Failure ε} (inside : offset < source.size)
    (goesOn : terminator source offset = .error failure')
    (failed : parser source offset = .error failure) :
    manyUntil parser terminator source offset = .error failure := by
  rw [manyUntil, goesOn, failed]
  simp only [if_neg (Nat.not_le.mpr inside)]

end Repetition

end PageMarkup.Parser
