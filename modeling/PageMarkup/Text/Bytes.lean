namespace PageMarkup

def byteLength : List Char → Nat
  | [] => 0
  | c :: cs => c.utf8Size + byteLength cs

def dropBytes? : List Char → Nat → Option (List Char)
  | text, 0 => some text
  | [], _ + 1 => none
  | c :: cs, n + 1 => if c.utf8Size ≤ n + 1 then dropBytes? cs (n + 1 - c.utf8Size) else none

def takeBytes : List Char → Nat → List Char
  | [], _ => []
  | c :: cs, n => if c.utf8Size ≤ n then c :: takeBytes cs (n - c.utf8Size) else []

/-- Entry `n` is `dropBytes? text n`, for every `n` up to the end of the text. -/
def suffixTable : List Char → List (Option (List Char))
  | [] => [some []]
  | c :: cs => some (c :: cs) :: (List.replicate (c.utf8Size - 1) none ++ suffixTable cs)

theorem utf8Size_eq_succ (c : Char) : c.utf8Size = c.utf8Size - 1 + 1 := by
  have := c.utf8Size_pos
  omega

theorem byteLength_append (left right : List Char) :
    byteLength (left ++ right) = byteLength left + byteLength right := by
  induction left with
  | nil => simp [byteLength]
  | cons c cs ih => simp [byteLength, ih, Nat.add_assoc]

theorem dropBytes?_append (left right : List Char) :
    dropBytes? (left ++ right) (byteLength left) = some right := by
  induction left with
  | nil => cases right <;> rfl
  | cons c cs ih =>
    have split := utf8Size_eq_succ c
    rw [List.cons_append, byteLength, split, Nat.add_right_comm, dropBytes?, if_pos (by omega)]
    rw [← ih]
    congr 1
    omega

theorem dropBytes?_zero (text : List Char) : dropBytes? text 0 = some text := by
  cases text <;> rfl

theorem length_suffixTable (text : List Char) :
    (suffixTable text).length = byteLength text + 1 := by
  induction text with
  | nil => rfl
  | cons c cs ih =>
    have := c.utf8Size_pos
    simp only [suffixTable, List.length_cons, List.length_append, List.length_replicate, ih, byteLength]
    omega

theorem getElem?_suffixTable (text : List Char) (n : Nat) :
    (suffixTable text)[n]?.join = dropBytes? text n := by
  induction text generalizing n with
  | nil => cases n <;> simp [suffixTable, dropBytes?]
  | cons c cs ih =>
    have positive := c.utf8Size_pos
    cases n with
    | zero => simp [suffixTable, dropBytes?]
    | succ n =>
      simp only [suffixTable, List.getElem?_cons_succ, dropBytes?]
      split
      · rw [List.getElem?_append_right (by simp; omega), List.length_replicate, ← ih]
        congr 2
        omega
      · rw [List.getElem?_append_left (by simp; omega)]
        rw [List.getElem?_replicate_of_lt (by omega)]
        rfl

end PageMarkup
