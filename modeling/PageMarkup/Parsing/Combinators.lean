import PageMarkup.Parsing.Primitives

namespace PageMarkup

namespace Parser

variable {ε ε' α β : Type}

def seq : List (Parser ε α) → Parser ε (List α)
  | [], _, offset => .ok ⟨[], offset⟩
  | parser :: parsers, source, offset => do
    let first ← parser source offset
    let others ← seq parsers source first.offset
    .ok ⟨first.value :: others.value, others.offset⟩

/-- The later failure; of two whose spans end alike, the first. -/
def furthest (first second : Failure ε) : Failure ε :=
  if first.span.stop < second.span.stop then second else first

def choice (first : Parser ε α) : List (Parser ε α) → Parser ε α
  | [], source, offset => first source offset
  | second :: others, source, offset =>
    match first source offset with
    | .ok success => .ok success
    | .error failure =>
      match choice second others source offset with
      | .ok success => .ok success
      | .error failure' => .error (furthest failure failure')

def map (f : α → β) (parser : Parser ε α) : Parser ε β := fun source offset =>
  (parser source offset).map fun success => ⟨f success.value, success.offset⟩

def optional (parser : Parser ε α) : Parser ε (Option α) := fun source offset =>
  match parser source offset with
  | .ok success => .ok ⟨some success.value, success.offset⟩
  | .error _ => .ok ⟨none, offset⟩

def located (parser : Parser ε α) : Parser ε (Located α) := fun source offset =>
  (parser source offset).map fun success =>
    ⟨⟨success.value, ⟨offset, success.offset⟩⟩, success.offset⟩

def lookahead (parser : Parser ε α) : Parser ε α := fun source offset =>
  (parser source offset).map fun success => ⟨success.value, offset⟩

def not [OfReason ε] (parser : Parser ε α) : Parser ε Unit := fun source offset =>
  match parser source offset with
  | .ok _ => fail .unexpectedMatch offset
  | .error _ => .ok ⟨(), offset⟩

def expect (parser : Parser ε α) (reason : ε') : Parser ε' α := fun source offset =>
  (parser source offset).mapError fun failure =>
    ⟨reason, failure.offset, (Span.point offset).cover failure.span⟩

section Repetition

variable [OfReason ε]

/-- Repeats until the parser fails. A success must advance within the text; one that does not is
    `stuck`, because repeating it would never end. -/
def many (parser : Parser ε α) (source : Source) (offset : Nat) :
    Except (Failure ε) (Success (List α)) :=
  match parser source offset with
  | .error _ => .ok ⟨[], offset⟩
  | .ok step =>
    if offset < step.offset ∧ step.offset ≤ source.size then do
      let others ← many parser source step.offset
      .ok ⟨step.value :: others.value, others.offset⟩
    else fail .stuck offset
termination_by source.size - offset

def many1 (parser : Parser ε α) : Parser ε (List α) := fun source offset => do
  let first ← parser source offset
  if first.offset = offset then fail .stuck offset
  else
    let others ← many parser source first.offset
    .ok ⟨first.value :: others.value, others.offset⟩

/-- Repeats until the terminator would succeed, which is left unread. -/
def manyUntil (parser : Parser ε α) (terminator : Parser ε β) (source : Source) (offset : Nat) :
    Except (Failure ε) (Success (List α)) :=
  match terminator source offset with
  | .ok _ => .ok ⟨[], offset⟩
  | .error _ =>
    if source.size ≤ offset then fail .unterminatedRepetition offset
    else
      match parser source offset with
      | .error failure => .error failure
      | .ok step =>
        if offset < step.offset ∧ step.offset ≤ source.size then do
          let others ← manyUntil parser terminator source step.offset
          .ok ⟨step.value :: others.value, others.offset⟩
        else fail .stuck offset
termination_by source.size - offset

end Repetition

end Parser

end PageMarkup
