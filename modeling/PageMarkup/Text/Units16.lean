namespace PageMarkup

/-- The number of 16-bit code units in which UTF-16 writes a character. -/
def units16 (c : Char) : Nat := if c.toNat < 0x10000 then 1 else 2

/-- The UTF-16 units of the characters that begin before a UTF-8 offset. -/
def utf16Offset : List Char → (offset : Nat) → Nat
  | [], _ => 0
  | c :: cs, offset =>
    if offset = 0 then 0 else units16 c + utf16Offset cs (offset - c.utf8Size)

end PageMarkup
