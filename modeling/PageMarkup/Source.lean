import PageMarkup.Text.Bytes

namespace PageMarkup

/-- A half-open range of byte offsets. Spans that the compiler makes are ordered; spans that come
    from outside may be inverted or lie past the end of the text. -/
structure Span where
  start : Nat
  stop : Nat
  deriving DecidableEq, Repr, Inhabited

namespace Span

def point (offset : Nat) : Span := ⟨offset, offset⟩

def length (span : Span) : Nat := span.stop - span.start

def isEmpty (span : Span) : Bool := span.start == span.stop

def cover (a b : Span) : Span := ⟨min a.start b.start, max a.stop b.stop⟩

end Span

structure Located (α : Type) where
  value : α
  span : Span
  deriving DecidableEq, Repr, Inhabited

/-- A text together with the suffix at each of its byte offsets, so that a parser can look at what
    follows an offset without walking there. -/
structure Source where
  text : List Char
  suffixes : Array (Option (List Char))
  suffixes_eq : suffixes = (suffixTable text).toArray

namespace Source

def ofText (text : List Char) : Source := ⟨text, (suffixTable text).toArray, rfl⟩

def ofString (text : String) : Source := ofText text.toList

def size (source : Source) : Nat := source.suffixes.size - 1

def suffix? (source : Source) (offset : Nat) : Option (List Char) := source.suffixes[offset]?.join

/-- What follows `offset`; nothing inside a character or past the end. -/
def rest (source : Source) (offset : Nat) : List Char := (source.suffix? offset).getD []

def isBoundary (source : Source) (offset : Nat) : Bool := (source.suffix? offset).isSome

def before (source : Source) (offset : Nat) : List Char := takeBytes source.text offset

/-- The text that a span covers, if it is ordered and has both ends on boundaries. -/
def slice? (source : Source) (span : Span) : Option (List Char) :=
  if span.start ≤ span.stop && source.isBoundary span.stop then
    (source.suffix? span.start).map (takeBytes · span.length)
  else none

def floorBoundary (source : Source) : Nat → Nat
  | 0 => 0
  | offset + 1 => if source.isBoundary (offset + 1) then offset + 1 else source.floorBoundary offset

@[simp] theorem text_ofText (text : List Char) : (ofText text).text = text := rfl

theorem size_eq (source : Source) : source.size = byteLength source.text := by
  simp [size, source.suffixes_eq, length_suffixTable]

theorem suffix?_eq (source : Source) (offset : Nat) :
    source.suffix? offset = dropBytes? source.text offset := by
  simp [suffix?, source.suffixes_eq, getElem?_suffixTable]

theorem suffix?_of_text_eq {source : Source} {left right : List Char}
    (split : source.text = left ++ right) : source.suffix? (byteLength left) = some right := by
  rw [suffix?_eq, split, dropBytes?_append]

end Source

end PageMarkup
