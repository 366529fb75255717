import PageMarkup.Number.Shortest
import PageMarkup.Proofs.Number.Lexeme
import PageMarkup.Proofs.Number.Rounding

namespace PageMarkup

theorem isDigit_of_mem_toDigits {n : Nat} : ∀ c ∈ Nat.toDigits 10 n, c.isDigit = true :=
  fun _ member => Nat.isDigit_of_mem_toDigits (by decide) (by decide) member

namespace Decimal

theorem isDigit_of_mem_zeros {n : Nat} : ∀ c ∈ zeros n, c.isDigit = true := by
  intro c member
  rw [List.eq_of_mem_replicate member]
  rfl

def numeral (negative : Bool) (d : Decimal) : Numeral :=
  let digits := Nat.toDigits 10 d.coefficient
  let places := (-d.exponent).toNat
  if places = 0 then ⟨negative, digits ++ zeros d.exponent.toNat, []⟩
  else if places < digits.length then
    ⟨negative, digits.take (digits.length - places), digits.drop (digits.length - places)⟩
  else ⟨negative, ['0'], zeros (places - digits.length) ++ digits⟩

theorem negative_numeral (negative : Bool) (d : Decimal) :
    (d.numeral negative).negative = negative := by
  simp only [numeral]
  split
  · rfl
  · split <;> rfl

theorem text_numeral (negative : Bool) (d : Decimal) :
    (d.numeral negative).text = (if negative then ['-'] else []) ++ d.text := by
  have nonempty := Nat.toDigits_ne_nil (b := 10) (n := d.coefficient)
  simp only [numeral, text]
  split
  · simp [Numeral.text]
  · split
    · have behind : ((Nat.toDigits 10 d.coefficient).drop
          ((Nat.toDigits 10 d.coefficient).length - (-d.exponent).toNat)).isEmpty = false := by
        simp
        omega
      simp [Numeral.text, behind]
    · simp [Numeral.text, nonempty]

theorem numeral_proper (negative : Bool) (d : Decimal) : (d.numeral negative).Proper := by
  have nonempty := Nat.toDigits_ne_nil (b := 10) (n := d.coefficient)
  have digits := isDigit_of_mem_toDigits (n := d.coefficient)
  simp only [numeral]
  split
  · refine ⟨List.append_ne_nil_of_left_ne_nil nonempty _, ?_, nofun⟩
    exact List.forall_mem_append.mpr ⟨digits, isDigit_of_mem_zeros⟩
  · split
    · refine ⟨?_, ?_, ?_⟩
      · simp [nonempty]
        omega
      · exact fun c member => digits c (List.mem_of_mem_take member)
      · exact fun c member => digits c (List.mem_of_mem_drop member)
    · refine ⟨List.cons_ne_nil _ _, ?_, ?_⟩
      · exact List.forall_mem_singleton.mpr rfl
      · exact List.forall_mem_append.mpr ⟨isDigit_of_mem_zeros, digits⟩

end Decimal

namespace Numeral

theorem digitsValue_eq (digits : List Char) : digitsValue digits = Nat.ofDigitChars 10 digits 0 :=
  Nat.ofDigitChars_eq_foldl.symm

theorem digitsValue_toDigits (n : Nat) : digitsValue (Nat.toDigits 10 n) = n :=
  (digitsValue_eq _).trans Nat.ofDigitChars_ten_toDigits

def ofInt (n : Int) : Numeral := ⟨n < 0, Nat.toDigits 10 n.natAbs, []⟩

theorem text_ofInt (n : Int) : (ofInt n).text = (toString n).toList := by
  rw [Int.toString_eq_repr, Int.repr_eq_if]
  by_cases positive : 0 ≤ n
  · have size : n.natAbs = n.toNat := by omega
    simp [ofInt, text, positive, size]
  · have size : n.natAbs = (-n).toNat := by omega
    have negative : n < 0 := Int.not_le.mp positive
    simp [ofInt, text, positive, negative, size]

theorem text_ofNat (n : Nat) : (ofInt n).text = Nat.toDigits 10 n := by simp [ofInt, text]

theorem ofInt_proper (n : Int) : (ofInt n).Proper :=
  ⟨Nat.toDigits_ne_nil, isDigit_of_mem_toDigits, nofun⟩

end Numeral

namespace Double

theorem units_eq_zero_iff (magnitude : Nat) : units magnitude = 0 ↔ magnitude = 0 :=
  units_strictMono.injective.eq_iff' (by decide)

variable {d : Double} {n : Int}

theorem isNaN_of_isFinite (finite : d.isFinite = true) : d.isNaN = false := by
  rw [isFinite, decide_eq_true_iff] at finite
  exact decide_eq_false (Nat.lt_asymm finite)

theorem isBelowZero_of_isFinite (finite : d.isFinite = true) :
    d.isBelowZero = (d.isNegative && d.magnitude != 0) := by
  rw [isBelowZero, isNaN_of_isFinite finite, Bool.not_false, Bool.and_true]

theorem whole?_of_zero (zero : d.magnitude = 0) : d.whole? = some 0 := by
  have finite : d.isFinite = true := by
    rw [isFinite, zero]
    rfl
  simp [whole?, finite, zero, (units_eq_zero_iff 0).mpr rfl]

theorem whole?_eq_some (whole : d.whole? = some n) : d.isFinite = true ∧
    ∃ size : Nat, units d.magnitude = unitsPerOne * size ∧
      n = if d.isNegative then -(size : Int) else size := by
  unfold whole? at whole
  split at whole
  · rename_i conditions
    obtain ⟨finite, divided⟩ := Bool.and_eq_true_iff.mp conditions
    have quotient := Nat.mul_div_cancel' (Nat.dvd_of_mod_eq_zero (of_decide_eq_true divided))
    exact ⟨finite, _, quotient.symm, (Option.some.inj whole).symm⟩
  · cases whole

theorem isBelowZero_of_whole? (whole : d.whole? = some n) : d.isBelowZero = decide (n < 0) := by
  obtain ⟨finite, size, quotient, rfl⟩ := whole?_eq_some whole
  have zero : d.magnitude = 0 ↔ size = 0 := by
    rw [← units_eq_zero_iff, quotient, Nat.mul_eq_zero, or_iff_right unitsPerOne_pos.ne']
  rw [isBelowZero_of_isFinite finite, Bool.eq_iff_iff]
  cases d.isNegative with
  | true => simp [zero]
  | false => simp

def numeral (d : Double) : Numeral :=
  match d.whole? with
  | some n =>
    if n.natAbs < Nat.pow 10 15 then .ofInt n else (shortest d.magnitude).numeral d.isNegative
  | none => (shortest d.magnitude).numeral d.isNegative

theorem printed_cases (d : Double) :
    (∃ n, d.whole? = some n ∧ d.text = toString n ∧ d.numeral = .ofInt n) ∨
      (d.magnitude ≠ 0 ∧ d.text = d.positional ∧
        d.numeral = (shortest d.magnitude).numeral d.isNegative) := by
  unfold text numeral
  cases whole : d.whole? with
  | some n =>
    by_cases small : n.natAbs < Nat.pow 10 15
    · exact .inl ⟨n, rfl, if_pos small, if_pos small⟩
    · refine .inr ⟨fun zero => ?_, if_neg small, if_neg small⟩
      rw [whole?_of_zero zero] at whole
      cases whole
      exact small (by decide)
  | none =>
    refine .inr ⟨fun zero => ?_, rfl, rfl⟩
    rw [whole?_of_zero zero] at whole
    cases whole

theorem numeral_proper (d : Double) : d.numeral.Proper := by
  rcases d.printed_cases with ⟨n, _, _, same⟩ | ⟨_, _, same⟩
  · exact same ▸ Numeral.ofInt_proper n
  · exact same ▸ Decimal.numeral_proper _ _

theorem text_numeral (finite : d.isFinite = true) : d.numeral.text = d.text.toList := by
  rcases d.printed_cases with ⟨n, _, printed, same⟩ | ⟨nonzero, printed, same⟩
  · rw [printed, same, Numeral.text_ofInt]
  · rw [printed, same, Decimal.text_numeral]
    simp [positional, isNaN_of_isFinite finite, nonzero, finite]

theorem negative_numeral (finite : d.isFinite = true) : d.numeral.negative = d.isBelowZero := by
  rcases d.printed_cases with ⟨n, whole, _, same⟩ | ⟨nonzero, _, same⟩
  · rw [same, isBelowZero_of_whole? whole, Numeral.ofInt]
  · rw [same, isBelowZero_of_isFinite finite, Decimal.negative_numeral]
    simp [nonzero]

theorem text_of_infinite (finite : d.isFinite = false) (number : d.isNaN = false)
    (positive : d.isBelowZero = false) : d.text = "inf" := by
  have nonzero : d.magnitude ≠ 0 := by
    intro zero
    rw [isFinite, zero] at finite
    cases finite
  have sign : d.isNegative = false := by
    rw [isBelowZero, number] at positive
    simpa [nonzero] using positive
  simp [text, whole?, finite, positional, number, sign, nonzero]

end Double

/-- What is printed of a number that is not below zero and was written as that numeral. -/
inductive Numeral.Printed (written : Numeral) : List Char → Prop
  | plain {number : Numeral} (fits : ¬ written.TooLarge) (proper : number.Proper)
      (unsigned : number.negative = false) : Printed written number.text
  | infinite (large : written.TooLarge) : Printed written "inf".toList

theorem Numeral.printed_value {written : Numeral} (accepted : written.value.isBelowZero = false) :
    written.Printed written.value.text.toList := by
  cases finite : written.value.isFinite with
  | true =>
    rw [← Double.text_numeral finite]
    refine .plain (written.isFinite_value_iff.mp finite) (Double.numeral_proper _) ?_
    rw [Double.negative_numeral finite, accepted]
  | false =>
    rw [Double.text_of_infinite finite written.isNaN_value accepted]
    refine .infinite (not_not.mp fun fits => ?_)
    rw [written.isFinite_value_iff.mpr fits] at finite
    cases finite

end PageMarkup
