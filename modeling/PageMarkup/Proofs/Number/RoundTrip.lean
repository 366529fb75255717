import Mathlib.Data.Nat.Factorization.Basic
import PageMarkup.Proofs.Number.Shortest
import PageMarkup.Proofs.Parsing.Primitives

namespace PageMarkup

namespace Decimal

theorem toDigits_mul_pow {n : Nat} (positive : 0 < n) (zeros : Nat) :
    Nat.toDigits 10 (n * 10 ^ zeros) = Nat.toDigits 10 n ++ List.replicate zeros '0' := by
  induction zeros with
  | zero => simp
  | succ zeros ih =>
    have shifted : n * 10 ^ (zeros + 1) = 10 * (n * 10 ^ zeros) + 0 := by ring
    have nonzero : 0 < n * 10 ^ zeros := Nat.mul_pos positive (Nat.pow_pos (by decide))
    rw [shifted, ← Nat.toDigits_append_toDigits (by decide) nonzero (by decide), ih,
      List.replicate_succ', List.append_assoc]
    rfl

theorem text_whole {coefficient : Nat} (positive : 0 < coefficient) (zeros : Nat) :
    (⟨coefficient, zeros⟩ : Decimal).text = Nat.toDigits 10 (10 ^ zeros * coefficient) := by
  have places : (-(zeros : Int)).toNat = 0 := by omega
  rw [Nat.mul_comm, toDigits_mul_pow positive, text, places, if_pos rfl]
  rfl

end Decimal

namespace Numeral

theorem value_ofInt (n : Int) :
    (ofInt n).value = .ofMagnitude (n < 0) (Double.nearest n.natAbs 1) := by
  simp only [value, ofInt, List.append_nil, digitsValue_toDigits]
  rfl

end Numeral

namespace Double

variable {d : Double} {n : Int}

def signedUnits (d : Double) : Int :=
  if d.isNegative then -(units d.magnitude : Int) else units d.magnitude

def toRat (d : Double) : Rat := mkRat d.signedUnits unitsPerOne

theorem toRat_eq_intCast_iff : d.toRat = n ↔ d.signedUnits = n * unitsPerOne := by
  rw [toRat, ← Rat.mkRat_one, Rat.mkRat_eq_iff unitsPerOne_pos.ne' Nat.one_ne_zero, Int.natCast_one,
    Int.mul_one]

/-- A number is written with its value, so that both zeros have one text. -/
theorem toRat_ofMagnitude (finite : d.isFinite = true) :
    (ofMagnitude d.isBelowZero d.magnitude).toRat = d.toRat := by
  have bounded : d.magnitude ≤ infinityMagnitude := (of_decide_eq_true finite).le
  have zero : units 0 = 0 := (units_eq_zero_iff 0).mpr rfl
  rw [toRat, toRat, signedUnits, signedUnits, isNegative_ofMagnitude _ bounded,
    magnitude_ofMagnitude _ bounded, isBelowZero_of_isFinite finite]
  by_cases nonzero : d.magnitude = 0
  · simp [nonzero, zero]
  · simp [nonzero]

theorem whole?_of_toRat (finite : d.isFinite = true) (value : d.toRat = n) : d.whole? = some n := by
  rw [toRat_eq_intCast_iff, signedUnits] at value
  have size : units d.magnitude = n.natAbs * unitsPerOne := by
    rw [← Int.natAbs_natCast unitsPerOne, ← Int.natAbs_mul, ← value]
    split <;> simp
  have divided : units d.magnitude % unitsPerOne = 0 := by rw [size, Nat.mul_mod_left]
  have quotient : units d.magnitude / unitsPerOne = n.natAbs := by
    rw [size, Nat.mul_div_cancel _ unitsPerOne_pos]
  have sign : (if d.isNegative then -(n.natAbs : Int) else n.natAbs) = n := by
    have unit : (unitsPerOne : Int) ≠ 0 := Int.natCast_ne_zero.mpr unitsPerOne_pos.ne'
    refine Int.eq_of_mul_eq_mul_right unit ?_
    rw [← value, size, Int.natCast_mul]
    split
    · exact Int.neg_mul _ _
    · rfl
  rw [whole?, finite, quotient, divided]
  exact congrArg some sign

theorem text_of_whole (whole : d.whole? = some n) (small : n.natAbs < 10 ^ 15) :
    d.text = toString n := by
  rw [text, whole]
  exact if_pos small

theorem text_shortest_whole {magnitude size : Nat} (nonzero : magnitude ≠ 0)
    (finite : magnitude < infinityMagnitude) (whole : units magnitude = size * unitsPerOne)
    (small : size < 10 ^ 15) : (shortest magnitude).text = Nat.toDigits 10 size := by
  obtain ⟨pattern, rfl⟩ := Nat.exists_eq_succ_of_ne_zero nonzero
  have positive : size ≠ 0 := by
    rintro rfl
    rw [Nat.zero_mul, units_eq_zero_iff] at whole
    exact nonzero whole
  obtain ⟨zeros, coefficient, last, same⟩ :=
    Nat.exists_eq_pow_mul_and_not_dvd positive 10 (by decide)
  have nonzero' : coefficient ≠ 0 := by
    rintro rfl
    exact last (Nat.dvd_zero _)
  rw [shortest_whole finite whole small same last,
    Decimal.text_whole (Nat.pos_of_ne_zero nonzero'), ← same]

theorem positional_of_whole (whole : d.whole? = some n) (small : n.natAbs < 10 ^ 15)
    (signed : d.isNegative = true → n ≠ 0) : d.positional = toString n := by
  obtain ⟨finite, size, quotient, signs⟩ := whole?_eq_some whole
  have natural : n.natAbs = size := by
    rw [signs]
    split <;> simp
  have sign : d.isNegative = decide (n < 0) := by
    rw [signs]
    cases negative : d.isNegative with
    | false => simp
    | true =>
      have nonzero := signed negative
      simp
      omega
  have digits : (if d.magnitude = 0 then ['0'] else if d.isFinite then (shortest d.magnitude).text
      else ['i', 'n', 'f']) = Nat.toDigits 10 n.natAbs := by
    rw [natural]
    split
    · rename_i zero
      rw [(units_eq_zero_iff _).mpr zero, eq_comm, Nat.mul_eq_zero,
        or_iff_right unitsPerOne_pos.ne'] at quotient
      rw [quotient]
      rfl
    · rename_i nonzero
      exact text_shortest_whole nonzero (of_decide_eq_true finite)
        (quotient.trans (Nat.mul_comm _ _)) (natural ▸ small)
  rw [← @String.ofList_toList (toString n), ← Numeral.text_ofInt, positional,
    isNaN_of_isFinite finite, digits, sign]
  simp [Numeral.text, Numeral.ofInt]

theorem value_numeral (finite : d.isFinite = true) :
    d.numeral.value = ofMagnitude d.isBelowZero d.magnitude := by
  rcases d.printed_cases with ⟨n, whole, _, same⟩ | ⟨nonzero, _, same⟩
  · obtain ⟨_, size, quotient, sign⟩ := whole?_eq_some whole
    have natural : n.natAbs = size := by
      rw [sign]
      split <;> simp
    have exact : units d.magnitude * 1 = n.natAbs * unitsPerOne := by
      rw [Nat.mul_one, quotient, natural, Nat.mul_comm]
    rw [same, Numeral.value_ofInt, isBelowZero_of_whole? whole,
      nearest_of_exact Nat.one_pos (of_decide_eq_true finite) exact]
  · obtain ⟨pattern, positive⟩ := Nat.exists_eq_succ_of_ne_zero nonzero
    have bounded : d.magnitude < infinityMagnitude := of_decide_eq_true finite
    rw [positive] at bounded
    have sign : d.isBelowZero = d.isNegative := by simp [isBelowZero_of_isFinite finite, nonzero]
    rw [same, Decimal.value_numeral, sign, positive, nearest_shortest bounded]

/-- A finite number is printed as a numeral, which is read to its end and to the same value. A small
    whole number other than negative zero is printed as if it were not a special case. -/
theorem text_reads_back {ε : Type} [OfReason ε] (d : Double) (finite : d.isFinite = true) :
    (∃ numeral : Numeral, numeral.Proper ∧ d.text.toList = numeral.text) ∧
      (∃ value : Double,
        (Parser.number (.ofString d.text) 0 : Except (Failure ε) (Success Double)) =
          .ok ⟨value, (Source.ofString d.text).size⟩ ∧
        value.isFinite = true ∧ value.toRat = d.toRat) ∧
      ∀ n : Int, d.toRat = n → n.natAbs < 10 ^ 15 → (d.isNegative = true → n ≠ 0) →
        d.text = toString n ∧ d.positional = toString n := by
  have text := text_numeral finite
  have bounded : d.magnitude < infinityMagnitude := of_decide_eq_true finite
  refine ⟨⟨d.numeral, d.numeral_proper, text.symm⟩, ⟨d.numeral.value, ?_, ?_, ?_⟩, ?_⟩
  · have here := Source.suffix?_zero (.ofString d.text)
    have read := @Numeral.read?_text d.numeral d.numeral_proper [] rfl
    rw [List.append_nil, text] at read
    rw [Parser.number_reads read here, Nat.zero_add, text, Source.size_eq]
    rfl
  · rw [value_numeral finite, isFinite, magnitude_ofMagnitude _ bounded.le]
    exact finite
  · rw [value_numeral finite, toRat_ofMagnitude finite]
  · intro n value small signed
    have whole := whole?_of_toRat finite value
    exact ⟨text_of_whole whole small, positional_of_whole whole small signed⟩

theorem text_reads_back_hundred :
    (⟨0xc059000000000000⟩ : Double).isFinite = true ∧
      (⟨0xc059000000000000⟩ : Double).toRat = (-100 : Int) ∧
      (∃ value : Double,
        (Parser.number (.ofString "-100") 0 : Except (Failure Reason) (Success Double)) =
          .ok ⟨value, 4⟩ ∧ value.isFinite = true ∧ value.toRat = (-100 : Int)) ∧
      (⟨0xc059000000000000⟩ : Double).text = "-100" ∧
      (⟨0xc059000000000000⟩ : Double).positional = "-100" := by
  have finite : (⟨0xc059000000000000⟩ : Double).isFinite = true := by decide +kernel
  have hundred : (⟨0xc059000000000000⟩ : Double).toRat = (-100 : Int) :=
    toRat_eq_intCast_iff.mpr (by decide +kernel)
  obtain ⟨_, read, whole⟩ := @text_reads_back Reason _ ⟨0xc059000000000000⟩ finite
  obtain ⟨text, positional⟩ := whole (-100) hundred (by decide) (by decide)
  rw [text, hundred] at read
  exact ⟨finite, hundred, read, text, positional⟩

example : (⟨0x3fb999999999999a⟩ : Double).text = "0.1" := by decide +kernel

end Double

end PageMarkup
