import PageMarkup.Source
import PageMarkup.Text.Blank
import PageMarkup.Number.Numeral

namespace PageMarkup

inductive Reason where
  | literal (text : String)
  | alphanumeric
  | number
  | unexpectedEnd
  | expectedEnd
  | unexpectedMatch
  | emptyTake
  | unterminatedRepetition
  | stuck
  deriving DecidableEq, Repr

namespace Reason

def message : Reason → String
  | .literal text => "expected \"" ++ text ++ "\""
  | .alphanumeric => "expected alphanumeric character"
  | .number => "expected number"
  | .unexpectedEnd => "unexpected end of input"
  | .expectedEnd => "expected end of input"
  | .unexpectedMatch => "expected parser to fail"
  | .emptyTake => "predicate matched immediately; nothing to take"
  | .unterminatedRepetition => "reached end of input before terminator"
  | .stuck => "parser stuck: child parser did not consume any input"

end Reason

class OfReason (ε : Type) where
  ofReason : Reason → ε

export OfReason (ofReason)

instance : OfReason Reason := ⟨id⟩

structure Success (α : Type) where
  value : α
  offset : Nat
  deriving DecidableEq, Repr

/-- Where a parser gave up. The span may begin earlier, at the start of the construct that failed. -/
structure Failure (ε : Type) where
  reason : ε
  offset : Nat
  span : Span
  deriving DecidableEq, Repr

namespace Failure

variable {ε : Type}

def atPoint (reason : ε) (offset : Nat) : Failure ε := ⟨reason, offset, .point offset⟩

def spanning (reason : ε) (span : Span) : Failure ε := ⟨reason, span.stop, span⟩

end Failure

abbrev Parser (ε α : Type) : Type := Source → Nat → Except (Failure ε) (Success α)

namespace Parser

variable {ε : Type} [OfReason ε]

def fail {α : Type} (reason : Reason) (offset : Nat) : Except (Failure ε) (Success α) :=
  .error (.atPoint (ofReason reason) offset)

def accept {α : Type} (value : α) (offset : Nat) (taken : List Char) :
    Except (Failure ε) (Success α) :=
  .ok ⟨value, offset + byteLength taken⟩

def literal (expected : String) : Parser ε String := fun source offset =>
  if expected.toList.isPrefixOf (source.rest offset) then
    accept expected offset expected.toList
  else fail (.literal expected) offset

def whitespace : Parser ε String := fun source offset =>
  let taken := (source.rest offset).takeWhile isBlank
  accept (.ofList taken) offset taken

def alphanumeric1 : Parser ε String := fun source offset =>
  let taken := (source.rest offset).takeWhile Char.isAlphanum
  if taken.isEmpty then fail .alphanumeric offset else accept (.ofList taken) offset taken

def number : Parser ε Double := fun source offset =>
  match Numeral.read? (source.rest offset) with
  | some numeral => accept numeral.value offset numeral.text
  | none => fail .number offset

def anyChar : Parser ε Char := fun source offset =>
  match source.rest offset with
  | c :: _ => accept c offset [c]
  | [] => fail .unexpectedEnd offset

def endOfInput : Parser ε Unit := fun source offset =>
  if source.size ≤ offset then .ok ⟨(), offset⟩ else fail .expectedEnd offset

def takeUntil1 (stop : Char → Bool) : Parser ε String := fun source offset =>
  match source.rest offset with
  | [] => fail .unexpectedEnd offset
  | c :: cs =>
    if stop c then fail .emptyTake offset
    else
      let taken := (c :: cs).takeWhile (!stop ·)
      accept (.ofList taken) offset taken

end Parser

end PageMarkup
