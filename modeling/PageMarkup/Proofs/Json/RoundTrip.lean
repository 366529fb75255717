import Mathlib.Data.List.Basic
import PageMarkup.Json.Reader
import PageMarkup.Json.Writer
import PageMarkup.Proofs.Number.Printing

namespace PageMarkup

theorem head?_toDigits {n : Nat} (positive : 0 < n) : (Nat.toDigits 10 n).head? ≠ some '0' := by
  induction n using Nat.strong_induction_on with
  | _ n ih =>
    rcases Nat.lt_or_ge n 10 with small | large
    · have digits : ∀ digit < 10, 0 < digit → digit.digitChar ≠ '0' := by decide
      rw [Nat.toDigits_of_lt_base small, List.head?_cons, Option.some_inj.ne]
      exact digits n small positive
    · have front : n / 10 < n := Nat.div_lt_self positive (by decide)
      rw [Nat.toDigits_of_base_le (by decide) large, List.head?_append_of_ne_nil _ Nat.toDigits_ne_nil]
      exact ih _ front (Nat.div_pos large (by decide))

theorem head?_toDigits_append {c : Char} (other : c.isDigit = false) (n : Nat) (rest : List Char) :
    ((Nat.toDigits 10 n ++ rest).head? == some c) = false := by
  obtain ⟨digit, tail, split⟩ := List.exists_cons_of_ne_nil (@Nat.toDigits_ne_nil n 10)
  have first : digit.isDigit = true := isDigit_of_mem_toDigits digit (split ▸ List.mem_cons_self)
  rw [split, List.cons_append, List.head?_cons, beq_eq_false_iff_ne, Option.some_inj.ne]
  rintro rfl
  rw [first] at other
  cases other

namespace Json

section Strings

theorem hexValues?_control : ∀ n < 32,
    hexValues? '0' '0' (hexDigit (n / 16)) (hexDigit (n % 16)) = some n := by decide

theorem escaped_cases (c : Char) :
    (∃ letter, escaped c = ['\\', letter] ∧ unescape? letter = some c) ∨
      (c.toNat < 32 ∧ escaped c =
        ['\\', 'u', '0', '0', hexDigit (c.toNat / 16), hexDigit (c.toNat % 16)]) ∨
      (c ≠ '"' ∧ c ≠ '\\' ∧ 32 ≤ c.toNat ∧ escaped c = [c]) := by
  by_cases short : c ∈ ['"', '\\', '\n', '\r', '\t', '\x08', '\x0c']
  · left
    simp only [List.mem_cons, List.not_mem_nil, or_false] at short
    rcases short with rfl | rfl | rfl | rfl | rfl | rfl | rfl <;> exact ⟨_, rfl, rfl⟩
  · simp only [List.mem_cons, List.not_mem_nil, or_false, not_or] at short
    right
    by_cases control : c.toNat < 32
    · exact .inl ⟨control, by simp [escaped, short, control]⟩
    · exact .inr ⟨short.1, short.2.1, by omega, by simp [escaped, short, control]⟩

theorem readString?_letter {letter c : Char} (meant : unescape? letter = some c)
    (rest : List Char) : readString? ('\\' :: letter :: rest) =
      (readString? rest).map fun (text, rest) => (c :: text, rest) := by
  have short : letter ≠ 'u' := by
    rintro rfl
    cases meant
  simp [readString?, meant, short]

theorem readString?_control {c : Char} (control : c.toNat < 32) (rest : List Char) :
    readString? ('\\' :: 'u' :: '0' :: '0' :: hexDigit (c.toNat / 16) :: hexDigit (c.toNat % 16) ::
        rest) =
      (readString? rest).map fun (text, rest) => (c :: text, rest) := by
  have single : ¬ (0xd800 ≤ c.toNat ∧ c.toNat < 0xdc00) := by omega
  have single' : ¬ (0xdc00 ≤ c.toNat ∧ c.toNat < 0xe000) := by omega
  rw [readString?, hexValues?_control _ control]
  simp only [if_neg single, if_neg single', Char.ofNat_toNat]

theorem readString?_escaped (c : Char) (rest : List Char) :
    readString? (escaped c ++ rest) =
      (readString? rest).map fun (text, rest) => (c :: text, rest) := by
  rcases escaped_cases c with ⟨letter, short, meant⟩ | ⟨control, numbered⟩ |
    ⟨noQuote, noBackslash, printed, plain⟩
  · rw [short]
    exact readString?_letter meant rest
  · rw [numbered]
    exact readString?_control control rest
  · have kept : ¬ c.toNat < 32 := Nat.not_lt.mpr printed
    rw [plain, List.singleton_append]
    simp [readString?, noBackslash, kept]

theorem readString?_flatMap (text rest : List Char) :
    readString? (text.flatMap escaped ++ '"' :: rest) = some (text, rest) := by
  induction text with
  | nil => simp [readString?]
  | cons c text ih =>
    rw [List.flatMap_cons, List.append_assoc, readString?_escaped, ih]
    rfl

end Strings

section Numbers

variable {numeral : Numeral} {exponent : Int} {rest : List Char}

def extendsNumber (c : Char) : Bool := c.isDigit || c == '.' || c == 'e' || c == 'E'

theorem not_point_of_edge (edge : beginsWith extendsNumber rest = false) :
    beginsWith (fun c => c.isDigit || c == '.') rest = false :=
  not_beginsWith_of_imp edge fun c point => by
    rw [extendsNumber, point, Bool.true_or, Bool.true_or]

theorem readExponent?_absent (edge : beginsWith extendsNumber rest = false) :
    readExponent? rest = some (0, rest) := by
  cases rest with
  | nil => rfl
  | cons c rest =>
    rw [readExponent?, if_neg]
    rintro (rfl | rfl) <;> cases edge

theorem readExponent?_exponentText (edge : beginsWith extendsNumber rest = false) :
    readExponent? (exponentText exponent ++ rest) = some (exponent, rest) := by
  rw [exponentText]
  split
  · rename_i zero
    rw [zero]
    exact readExponent?_absent edge
  · have noDigit : beginsWith Char.isDigit rest = false :=
      not_beginsWith_of_imp edge fun c digit => by simp [extendsNumber, digit]
    have digits := @isDigit_of_mem_toDigits exponent.natAbs
    have taken := takeWhile_run digits noDigit
    have dropped := dropWhile_run digits noDigit
    have nonempty : (Nat.toDigits 10 exponent.natAbs).isEmpty = false :=
      List.isEmpty_eq_false_iff.mpr Nat.toDigits_ne_nil
    rw [← Numeral.text_ofInt, Numeral.text, Numeral.ofInt, List.isEmpty_nil, if_pos rfl,
      List.append_nil, List.cons_append, List.append_assoc, readExponent?, if_pos (.inl rfl)]
    by_cases negative : exponent < 0
    · have value : -(Numeral.digitsValue (Nat.toDigits 10 exponent.natAbs) : Int) = exponent := by
        rw [Numeral.digitsValue_toDigits]
        omega
      simp [negative, taken, dropped, nonempty, value]
    · have value : (Numeral.digitsValue (Nat.toDigits 10 exponent.natAbs) : Int) = exponent := by
        rw [Numeral.digitsValue_toDigits]
        omega
      have noMinus : ((Nat.toDigits 10 exponent.natAbs ++ rest).head? == some '-') = false :=
        head?_toDigits_append rfl _ _
      have noPlus : ((Nat.toDigits 10 exponent.natAbs ++ rest).head? == some '+') = false :=
        head?_toDigits_append rfl _ _
      simp [-List.head?_append, negative, noMinus, noPlus, taken, dropped, nonempty, value]

structure Marked (numeral : Numeral) (exponent : Int) : Prop where
  proper : numeral.Proper
  unpadded : 1 < numeral.whole.length → numeral.whole.head? ≠ some '0'
  marked : numeral.negative = true ∨ numeral.fraction ≠ [] ∨ exponent ≠ 0

theorem readNumber?_numeral {behind : List Char} (proper : numeral.Proper)
    (unpadded : 1 < numeral.whole.length → numeral.whole.head? ≠ some '0')
    (edge : beginsWith (fun c => c.isDigit || c == '.') rest = false)
    (read : readExponent? rest = some (exponent, behind)) :
    readNumber? (numeral.text ++ rest) =
      if numeral.negative ∨ !numeral.fraction.isEmpty ∨ behind.length < rest.length then
        some (.number numeral exponent, behind)
      else some (.natural (Numeral.digitsValue numeral.whole), behind) := by
  have noPoint : rest.head? ≠ some '.' := by
    cases rest with
    | nil => nofun
    | cons c rest =>
      rintro ⟨⟩
      cases edge
  have padded : ¬ (numeral.whole.length > 1 ∧ numeral.whole.head? = some '0') :=
    fun ⟨long, zero⟩ => unpadded long zero
  simp only [readNumber?, Numeral.read?_text proper edge, Option.bind_eq_bind, Option.bind_some,
    List.drop_left, if_neg padded, if_neg noPoint, read]

theorem readNumber?_toDigits (n : Nat) (edge : beginsWith extendsNumber rest = false) :
    readNumber? (Nat.toDigits 10 n ++ rest) = some (.natural n, rest) := by
  have unpadded : 1 < (Nat.toDigits 10 n).length → (Nat.toDigits 10 n).head? ≠ some '0' := by
    intro long
    refine head?_toDigits (Nat.pos_of_ne_zero ?_)
    rintro rfl
    exact Nat.lt_irrefl 1 long
  have read := readNumber?_numeral (Numeral.ofInt_proper n) unpadded (not_point_of_edge edge)
    (readExponent?_absent edge)
  have unsigned : ¬ (n : Int) < 0 := Int.not_lt.mpr (Int.natCast_nonneg n)
  rw [Numeral.text_ofNat] at read
  simpa [Numeral.ofInt, unsigned, Numeral.digitsValue_toDigits] using read

theorem readNumber?_marked (marked : Marked numeral exponent)
    (edge : beginsWith extendsNumber rest = false) :
    readNumber? (numeral.text ++ (exponentText exponent ++ rest)) =
      some (.number numeral exponent, rest) := by
  have noPoint : beginsWith (fun c => c.isDigit || c == '.') (exponentText exponent ++ rest) =
      false := by
    rw [exponentText]
    split
    · exact not_point_of_edge edge
    · rfl
  have shorter : exponent ≠ 0 → rest.length < (exponentText exponent ++ rest).length := by
    intro nonzero
    rw [exponentText, if_neg nonzero, List.length_append, List.length_cons]
    omega
  rw [readNumber?_numeral marked.proper marked.unpadded noPoint (readExponent?_exponentText edge),
    if_pos]
  rcases marked.marked with negative | fraction | nonzero
  · exact .inl negative
  · exact .inr (.inl (by simp [fraction]))
  · exact .inr (.inr (shorter nonzero))

end Numbers

mutual

/-- Numbers that are not plain digits are written without a spare zero. -/
def Canonical : Json → Prop
  | .number numeral exponent => Marked numeral exponent
  | .array elements => CanonicalElements elements
  | .object members => CanonicalMembers members
  | .null | .boolean _ | .natural _ | .string _ => True

def CanonicalElements : List Json → Prop
  | [] => True
  | element :: elements => element.Canonical ∧ CanonicalElements elements

def CanonicalMembers : List (String × Json) → Prop
  | [] => True
  | (_, value) :: members => value.Canonical ∧ CanonicalMembers members

end

section Containers

theorem not_isSpace_of_begins {c : Char} (begins : (c.isDigit || c == '-') = true) :
    isSpace c = false ∧ c ≠ ']' := by
  constructor
  · cases space : isSpace c with
    | false => rfl
    | true =>
      simp only [isSpace, Bool.or_eq_true, beq_iff_eq] at space
      rcases space with ((rfl | rfl) | rfl) | rfl <;> cases begins
  · rintro rfl
    cases begins

variable {level fuel : Nat} {text rest : List Char}

theorem skipSpace_lineBreak (level : Nat) (edge : beginsWith isSpace rest = false) :
    skipSpace (lineBreak level ++ rest) = rest := by
  refine dropWhile_run (fun c member => ?_) edge
  rcases List.mem_cons.mp member with rfl | blank
  · rfl
  · rw [List.eq_of_mem_replicate blank]
    rfl

theorem exists_head_pretty {json : Json} (canonical : json.Canonical) :
    ∃ c tail, pretty level json = c :: tail ∧ isSpace c = false ∧ c ≠ ']' := by
  cases json with
  | null => exact ⟨_, _, rfl, rfl, by decide⟩
  | boolean truth => cases truth <;> exact ⟨_, _, rfl, rfl, by decide⟩
  | natural n =>
    obtain ⟨c, tail, head, begins⟩ := (Numeral.ofInt_proper n).text_cons
    rw [Numeral.text_ofNat] at head
    exact ⟨c, tail, head, not_isSpace_of_begins begins⟩
  | number numeral exponent =>
    have marked : Marked numeral exponent := canonical
    obtain ⟨c, tail, head, begins⟩ := marked.proper.text_cons
    exact ⟨c, tail ++ exponentText exponent, by rw [pretty, head]; rfl, not_isSpace_of_begins begins⟩
  | string text => exact ⟨_, _, rfl, rfl, by decide⟩
  | array elements => cases elements <;> exact ⟨_, _, rfl, rfl, by decide⟩
  | object members => cases members <;> exact ⟨_, _, rfl, rfl, by decide⟩

theorem skipSpace_pretty {json : Json} (canonical : json.Canonical) :
    skipSpace (pretty level json ++ rest) = pretty level json ++ rest := by
  obtain ⟨c, tail, head, blank, _⟩ := @exists_head_pretty level _ canonical
  rw [head]
  exact dropWhile_eq_self_of_not_beginsWith blank

theorem skipSpace_blank_pretty {json : Json} (canonical : json.Canonical) :
    skipSpace (' ' :: (pretty level json ++ rest)) = pretty level json ++ rest :=
  skipSpace_pretty canonical

theorem readValue?_numeral {numeral : Numeral} (proper : numeral.Proper)
    (here : skipSpace text = numeral.text ++ rest) :
    readValue? (fuel + 1) text = readNumber? (numeral.text ++ rest) := by
  obtain ⟨c, tail, head, begins⟩ := proper.text_cons
  rw [head, List.cons_append] at here ⊢
  rw [readValue?, here]
  split <;> simp_all

theorem edge_prettyElements (outer : Nat) (elements : List Json) :
    beginsWith extendsNumber (prettyElements level elements ++ (lineBreak outer ++ rest)) = false := by
  cases elements <;> rfl

theorem edge_prettyMembers (outer : Nat) (members : List (String × Json)) :
    beginsWith extendsNumber (prettyMembers level members ++ (lineBreak outer ++ rest)) = false := by
  cases members <;> rfl

section Steps

variable {element value : Json} {elements : List Json} {member : String × Json}
  {members : List (String × Json)} {first behind : List Char}

theorem readValue?_bracket {c : Char} {tail : List Char} (here : skipSpace text = '[' :: first)
    (opened : skipSpace first = c :: tail) (noEnd : c ≠ ']')
    (read : readValue? fuel (c :: tail) = some (element, behind))
    (others : readElements? fuel behind = some (elements, rest)) :
    readValue? (fuel + 1) text = some (.array (element :: elements), rest) := by
  simp [readValue?, here, opened, noEnd, read, others]

theorem readElements?_comma (read : readValue? fuel first = some (element, behind))
    (others : readElements? fuel behind = some (elements, rest)) :
    readElements? (fuel + 1) (',' :: first) = some (element :: elements, rest) := by
  have comma : skipSpace (',' :: first) = ',' :: first := rfl
  simp [readElements?, comma, read, others]

theorem readMember?_quoted {key : String}
    (here : skipSpace text = quoted key ++ ([':', ' '] ++ behind))
    (read : readValue? fuel (' ' :: behind) = some (value, rest)) :
    readMember? (fuel + 1) text = some ((key, value), rest) := by
  have quote : skipSpace text =
      '"' :: (key.toList.flatMap escaped ++ '"' :: ':' :: ' ' :: behind) := by simp [here, quoted]
  have colon : skipSpace (':' :: ' ' :: behind) = ':' :: ' ' :: behind := rfl
  simp [readMember?, quote, readString?_flatMap, colon, read]

theorem readValue?_brace {tail : List Char} (here : skipSpace text = '{' :: first)
    (opened : skipSpace first = '"' :: tail)
    (read : readMember? fuel ('"' :: tail) = some (member, behind))
    (others : readMembers? fuel behind = some (members, rest)) :
    readValue? (fuel + 1) text = some (.object (member :: members), rest) := by
  simp [readValue?, here, opened, read, others]

theorem readMembers?_comma (read : readMember? fuel first = some (member, behind))
    (others : readMembers? fuel behind = some (members, rest)) :
    readMembers? (fuel + 1) (',' :: first) = some (member :: members, rest) := by
  have comma : skipSpace (',' :: first) = ',' :: first := rfl
  simp [readMembers?, comma, read, others]

end Steps

-- by induction on the value; every call goes into a part of it, so its length is fuel enough
mutual

theorem readValue?_pretty (json : Json) {level fuel : Nat} {text rest : List Char}
    (canonical : json.Canonical) (enough : (pretty level json).length ≤ fuel)
    (edge : beginsWith extendsNumber rest = false)
    (here : skipSpace text = pretty level json ++ rest) :
    readValue? fuel text = some (json, rest) := by
  obtain ⟨fuel, rfl⟩ : ∃ less, fuel = less + 1 := by
    obtain ⟨c, tail, head, _⟩ := @exists_head_pretty level _ canonical
    rw [head] at enough
    exact ⟨fuel - 1, by simp at enough; omega⟩
  match json with
  | .null => rw [readValue?, here]; rfl
  | .boolean true => rw [readValue?, here]; rfl
  | .boolean false => rw [readValue?, here]; rfl
  | .natural n =>
    have digits : pretty level (.natural n) = Nat.toDigits 10 n := rfl
    rw [digits, ← Numeral.text_ofNat] at here
    rw [readValue?_numeral (Numeral.ofInt_proper n) here, Numeral.text_ofNat,
      readNumber?_toDigits n edge]
  | .number numeral exponent =>
    have marked : Marked numeral exponent := canonical
    have written : pretty level (.number numeral exponent) = numeral.text ++ exponentText exponent :=
      rfl
    rw [written, List.append_assoc] at here
    rw [readValue?_numeral marked.proper here, readNumber?_marked marked edge]
  | .string text =>
    have quote : pretty level (.string text) ++ rest =
        '"' :: (text.toList.flatMap escaped ++ '"' :: rest) := by simp [pretty, quoted]
    rw [readValue?, here, quote]
    simp [readString?_flatMap]
  | .array [] => rw [readValue?, here]; rfl
  | .array (element :: elements) =>
    obtain ⟨c, tail, head, blank, noEnd⟩ := @exists_head_pretty (level + 1) _ canonical.1
    simp only [pretty, List.length_append, List.length_cons] at enough
    have read := @readValue?_pretty element (level + 1) fuel _ _ canonical.1 (by omega)
      (@edge_prettyElements (level + 1) (']' :: rest) level elements) (skipSpace_pretty canonical.1)
    have others := @readElements?_pretty elements (level + 1) level fuel rest canonical.2 (by omega)
    rw [head] at read
    refine readValue?_bracket ?_ (skipSpace_lineBreak (level + 1) blank) noEnd read others
    rw [here, pretty, head]
    simp
  | .object [] => rw [readValue?, here]; rfl
  | .object ((key, value) :: members) =>
    simp only [pretty, List.length_append, List.length_cons] at enough
    obtain ⟨fuel, rfl⟩ : ∃ less, fuel = less + 1 := ⟨fuel - 1, by omega⟩
    have read := @readValue?_pretty value (level + 1) fuel _ _ canonical.1 (by omega)
      (@edge_prettyMembers (level + 1) ('}' :: rest) level members)
      (skipSpace_blank_pretty canonical.1)
    have others :=
      @readMembers?_pretty members (level + 1) level (fuel + 1) rest canonical.2 (by omega)
    refine readValue?_brace ?_ (skipSpace_lineBreak (level + 1) rfl) (readMember?_quoted rfl read)
      others
    rw [here, pretty]
    simp [quoted]

theorem readElements?_pretty (elements : List Json) {level outer fuel : Nat} {rest : List Char}
    (canonical : CanonicalElements elements)
    (enough : (prettyElements level elements).length < fuel) :
    readElements? fuel (prettyElements level elements ++ (lineBreak outer ++ ']' :: rest)) =
      some (elements, rest) := by
  obtain ⟨fuel, rfl⟩ : ∃ less, fuel = less + 1 := ⟨fuel - 1, by omega⟩
  match elements with
  | [] =>
    have here : skipSpace (lineBreak outer ++ ']' :: rest) = ']' :: rest := skipSpace_lineBreak _ rfl
    simp [prettyElements, readElements?, here]
  | element :: elements =>
    obtain ⟨c, tail, head, blank, _⟩ := @exists_head_pretty level _ canonical.1
    simp only [prettyElements, List.length_append, List.length_cons] at enough
    have read := @readValue?_pretty element level fuel _ _ canonical.1 (by omega)
      (@edge_prettyElements level (']' :: rest) outer elements)
      (skipSpace_lineBreak level (by rw [head]; exact blank))
    have others := @readElements?_pretty elements level outer fuel rest canonical.2 (by omega)
    simpa [prettyElements] using readElements?_comma read others

theorem readMembers?_pretty (members : List (String × Json)) {level outer fuel : Nat}
    {rest : List Char} (canonical : CanonicalMembers members)
    (enough : (prettyMembers level members).length < fuel) :
    readMembers? fuel (prettyMembers level members ++ (lineBreak outer ++ '}' :: rest)) =
      some (members, rest) := by
  obtain ⟨fuel, rfl⟩ : ∃ less, fuel = less + 1 := ⟨fuel - 1, by omega⟩
  match members with
  | [] =>
    have here : skipSpace (lineBreak outer ++ '}' :: rest) = '}' :: rest := skipSpace_lineBreak _ rfl
    simp [prettyMembers, readMembers?, here]
  | (key, value) :: members =>
    simp only [prettyMembers, List.length_append, List.length_cons] at enough
    obtain ⟨fuel, rfl⟩ : ∃ less, fuel = less + 1 := ⟨fuel - 1, by omega⟩
    have read := @readValue?_pretty value level fuel _ _ canonical.1 (by omega)
      (@edge_prettyMembers level ('}' :: rest) outer members) (skipSpace_blank_pretty canonical.1)
    have others :=
      @readMembers?_pretty members level outer (fuel + 1) rest canonical.2 (by omega)
    have member := readMember?_quoted (@skipSpace_lineBreak (quoted key ++ _) level rfl) read
    simpa [prettyMembers, quoted] using readMembers?_comma member others

end

theorem read?_pretty {json : Json} (canonical : json.Canonical) (level : Nat) {blanks : List Char}
    (blank : ∀ c ∈ blanks, isSpace c = true) :
    read? (.ofList (pretty level json ++ blanks)) = some json := by
  have edge : beginsWith extendsNumber blanks = false := by
    cases blanks with
    | nil => rfl
    | cons c blanks =>
      have space := blank c List.mem_cons_self
      simp only [isSpace, Bool.or_eq_true, beq_iff_eq] at space
      rcases space with ((rfl | rfl) | rfl) | rfl <;> rfl
  have behind : skipSpace blanks = [] := List.dropWhile_eq_nil_iff.mpr blank
  have enough : (pretty level json).length ≤ 2 * (pretty level json ++ blanks).length + 2 := by
    rw [List.length_append]
    omega
  have read := readValue?_pretty json canonical enough edge (skipSpace_pretty canonical)
  rw [read?, String.toList_ofList, read]
  simp [behind]

end Containers

end Json

end PageMarkup
