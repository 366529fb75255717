import PageMarkup.Number.Numeral
import PageMarkup.Proofs.Text.Runs

namespace PageMarkup.Numeral

structure Proper (numeral : Numeral) : Prop where
  whole_ne_nil : numeral.whole ≠ []
  whole_digits : ∀ c ∈ numeral.whole, c.isDigit = true
  fraction_digits : ∀ c ∈ numeral.fraction, c.isDigit = true

def unsigned (numeral : Numeral) : List Char :=
  numeral.whole ++ if numeral.fraction.isEmpty then [] else '.' :: numeral.fraction

theorem text_eq (numeral : Numeral) :
    numeral.text = (if numeral.negative then ['-'] else []) ++ numeral.unsigned := by
  rw [text, unsigned, List.append_assoc]

theorem Proper.unsigned_cons {numeral : Numeral} (proper : numeral.Proper) :
    ∃ c rest, numeral.unsigned = c :: rest ∧ c.isDigit = true := by
  obtain ⟨negative, whole, fraction⟩ := numeral
  cases whole with
  | nil => exact absurd rfl proper.whole_ne_nil
  | cons c whole => exact ⟨c, _, rfl, proper.whole_digits c List.mem_cons_self⟩

theorem Proper.text_cons {numeral : Numeral} (proper : numeral.Proper) :
    ∃ c rest, numeral.text = c :: rest ∧ (c.isDigit || c == '-') = true := by
  obtain ⟨digit, tail, same, isDigit⟩ := proper.unsigned_cons
  rw [text_eq, same]
  cases numeral.negative with
  | true => exact ⟨'-', digit :: tail, rfl, rfl⟩
  | false => exact ⟨digit, tail, rfl, by rw [isDigit, Bool.true_or]⟩

theorem Proper.not_beginsWith_text {numeral : Numeral} (proper : numeral.Proper) {p : Char → Bool}
    (minus : p '-' = false) (digits : ∀ c, c.isDigit = true → p c = false) (rest : List Char) :
    beginsWith p (numeral.text ++ rest) = false := by
  obtain ⟨c, tail, same, begins⟩ := proper.text_cons
  rw [same]
  rcases Bool.or_eq_true_iff.mp begins with digit | sign
  · exact digits c digit
  · rw [beq_iff_eq] at sign
    exact sign ▸ minus

theorem Proper.mem_text {numeral : Numeral} (proper : numeral.Proper) {c : Char}
    (member : c ∈ numeral.text) : (c.isDigit || c == '.' || c == '-') = true := by
  obtain ⟨negative, whole, fraction⟩ := numeral
  have digits : ∀ d, d ∈ whole ∨ d ∈ fraction → d.isDigit = true := by
    rintro d (inWhole | inFraction)
    · exact proper.whole_digits d inWhole
    · exact proper.fraction_digits d inFraction
  rw [text_eq, unsigned, List.mem_append, List.mem_append] at member
  rcases member with sign | inWhole | inFraction
  · have minus : c = '-' := by
      cases negative with
      | true => exact List.mem_singleton.mp sign
      | false => cases sign
    rw [minus]
    rfl
  · simp [digits c (.inl inWhole)]
  · cases fraction with
    | nil => cases inFraction
    | cons digit fraction =>
      rcases List.mem_cons.mp inFraction with rfl | inFraction
      · rfl
      · simp [digits c (.inr inFraction)]

/-- The part of `read?` that follows the sign. -/
def readUnsigned? (negative : Bool) (text : List Char) : Option Numeral :=
  let whole := text.takeWhile Char.isDigit
  let fraction := match text.dropWhile Char.isDigit with
    | '.' :: after => after.takeWhile Char.isDigit
    | _ => []
  if whole.isEmpty then none else some ⟨negative, whole, fraction⟩

theorem read?_eq (text : List Char) :
    read? text =
      if text.head? == some '-' then readUnsigned? true text.tail else readUnsigned? false text := by
  unfold read? readUnsigned?
  cases text.head? == some '-' <;> rfl

theorem readUnsigned?_unsigned {numeral : Numeral} (proper : numeral.Proper) {rest : List Char}
    (edge : beginsWith (fun c => c.isDigit || c == '.') rest = false) :
    readUnsigned? numeral.negative (numeral.unsigned ++ rest) = some numeral := by
  obtain ⟨negative, whole, fraction⟩ := numeral
  have noDigit : beginsWith Char.isDigit rest = false := by
    cases rest with
    | nil => rfl
    | cons c rest => exact (Bool.or_eq_false_iff.mp edge).1
  have noPoint : ∀ after, rest ≠ '.' :: after := by
    rintro after rfl
    cases edge
  have nonempty : whole.isEmpty = false := List.isEmpty_eq_false_iff.mpr proper.whole_ne_nil
  cases fraction with
  | nil =>
    have taken := takeWhile_run proper.whole_digits noDigit
    have dropped := dropWhile_run proper.whole_digits noDigit
    -- `noPoint` selects the branch without a fraction
    simp only [readUnsigned?, unsigned, List.isEmpty_nil, if_true, List.append_nil, taken, dropped,
      nonempty, Bool.false_eq_true, if_false]
  | cons digit fraction =>
    have edge : beginsWith Char.isDigit ('.' :: (digit :: fraction ++ rest)) = false := rfl
    have taken := takeWhile_run proper.whole_digits edge
    have dropped := dropWhile_run proper.whole_digits edge
    have behind := takeWhile_run proper.fraction_digits noDigit
    simp only [readUnsigned?, unsigned, List.isEmpty_cons, Bool.false_eq_true, if_false,
      List.append_assoc, List.cons_append] at taken dropped behind ⊢
    simp only [taken, dropped, behind, nonempty, Bool.false_eq_true, if_false]

theorem read?_text {numeral : Numeral} (proper : numeral.Proper) {rest : List Char}
    (edge : beginsWith (fun c => c.isDigit || c == '.') rest = false) :
    read? (numeral.text ++ rest) = some numeral := by
  have digits := readUnsigned?_unsigned proper edge
  rw [read?_eq, text_eq]
  cases sign : numeral.negative with
  | true =>
    rw [sign] at digits
    simpa using digits
  | false =>
    rw [sign] at digits
    obtain ⟨c, tail, same, digit⟩ := proper.unsigned_cons
    have notMinus : c ≠ '-' := by
      rintro rfl
      cases digit
    rw [same] at digits ⊢
    simpa [notMinus] using digits

theorem readUnsigned?_eq_some {negative : Bool} {text : List Char} {numeral : Numeral}
    (read : readUnsigned? negative text = some numeral) :
    numeral.Proper ∧ numeral.negative = negative ∧ ∃ rest, text = numeral.unsigned ++ rest := by
  obtain ⟨whole, behind, rfl, digits, edge⟩ := exists_run Char.isDigit text
  rw [readUnsigned?, takeWhile_run digits edge, dropWhile_run digits edge] at read
  split at read
  · cases read
  · rename_i nonempty
    cases read
    rw [List.isEmpty_iff] at nonempty
    split
    · rename_i after
      refine ⟨⟨nonempty, digits, fun c member => List.mem_takeWhile_imp member⟩, rfl, ?_⟩
      cases fraction : after.takeWhile Char.isDigit with
      | nil => exact ⟨'.' :: after, by simp [unsigned]⟩
      | cons digit fraction' =>
        refine ⟨after.dropWhile Char.isDigit, ?_⟩
        have whole := List.takeWhile_append_dropWhile (p := Char.isDigit) (l := after)
        rw [fraction] at whole
        simp only [unsigned, List.isEmpty_cons, Bool.false_eq_true, if_false, List.append_assoc,
          List.cons_append]
        rw [← List.cons_append, whole]
    · exact ⟨⟨nonempty, digits, by simp⟩, rfl, behind, by simp [unsigned]⟩

theorem read?_eq_some {text : List Char} {numeral : Numeral} (read : read? text = some numeral) :
    numeral.Proper ∧ ∃ rest, text = numeral.text ++ rest := by
  rw [read?_eq] at read
  split at read
  · rename_i minus
    obtain ⟨proper, sign, rest, same⟩ := readUnsigned?_eq_some read
    refine ⟨proper, rest, ?_⟩
    cases text with
    | nil => cases minus
    | cons c text =>
      have first : c = '-' := by simpa using minus
      rw [text_eq, sign, first, if_pos rfl, List.append_assoc, ← same]
      rfl
  · obtain ⟨proper, sign, rest, same⟩ := readUnsigned?_eq_some read
    refine ⟨proper, rest, ?_⟩
    rw [text_eq, sign, same]
    rfl

theorem readUnsigned?_eq_none_iff {negative : Bool} {text : List Char} :
    readUnsigned? negative text = none ↔ beginsWith Char.isDigit text = false := by
  cases text with
  | nil => exact iff_of_true rfl rfl
  | cons c text =>
    rw [beginsWith_cons]
    cases digit : c.isDigit <;> simp [readUnsigned?, digit]

theorem read?_eq_none_iff {text : List Char} :
    read? text = none ↔
      beginsWith Char.isDigit (if text.head? == some '-' then text.tail else text) = false := by
  rw [read?_eq]
  split <;> exact readUnsigned?_eq_none_iff

theorem readUnsigned?_append (negative : Bool) {text rest : List Char}
    (edge : beginsWith (fun c => c.isDigit || c == '.') rest = false) :
    readUnsigned? negative (text ++ rest) = readUnsigned? negative text := by
  have noDigit : beginsWith Char.isDigit rest = false := by
    cases rest with
    | nil => rfl
    | cons c rest => exact (Bool.or_eq_false_iff.mp edge).1
  simp only [readUnsigned?, takeWhile_append_of_edge noDigit, dropWhile_append_of_edge noDigit]
  cases text.dropWhile Char.isDigit with
  | nil =>
    cases rest with
    | nil => rfl
    | cons c rest =>
      have notPoint : c ≠ '.' := by
        rintro rfl
        cases edge
      simp [notPoint]
  | cons c behind =>
    rw [List.cons_append]
    by_cases point : c = '.'
    · subst point
      simp only [takeWhile_append_of_edge noDigit]
    · simp [point]

theorem read?_append {text rest : List Char}
    (edge : beginsWith (fun c => c.isDigit || c == '.' || c == '-') rest = false) :
    read? (text ++ rest) = read? text := by
  have unsigned : beginsWith (fun c => c.isDigit || c == '.') rest = false := by
    cases rest with
    | nil => rfl
    | cons c rest => exact (Bool.or_eq_false_iff.mp edge).1
  rw [read?_eq, read?_eq]
  cases text with
  | nil =>
    have noMinus : ¬ (([] ++ rest).head? == some '-') = true := by
      cases rest with
      | nil => exact nofun
      | cons c rest => simpa using (Bool.or_eq_false_iff.mp edge).2
    have read : readUnsigned? false ([] ++ rest) = readUnsigned? false [] :=
      readUnsigned?_append false unsigned
    rw [if_neg noMinus]
    exact read
  | cons c text =>
    have first : ((c :: text ++ rest).head? == some '-') = ((c :: text).head? == some '-') := rfl
    rw [first]
    cases (c :: text).head? == some '-' with
    | true => exact readUnsigned?_append true unsigned
    | false =>
      have read : readUnsigned? false (c :: text ++ rest) = readUnsigned? false (c :: text) :=
        readUnsigned?_append false unsigned
      exact read

end PageMarkup.Numeral
