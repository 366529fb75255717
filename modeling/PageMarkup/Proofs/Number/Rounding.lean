import Mathlib.Order.MinMax
import Mathlib.Tactic.Ring
import PageMarkup.Number.Numeral

namespace PageMarkup

namespace Double

section Units

theorem unitsPerOne_pos : 0 < unitsPerOne := by decide +kernel

variable {pattern shift significand : Nat}

/-- The value of a pattern by its shift and its significand. A significand of 54 bits may be the next
    power of two. -/
theorem units_of_split (normal : shift = 0 ∨ 2 ^ 52 ≤ significand) (bounded : significand ≤ 2 ^ 53) :
    units (shift * 2 ^ 52 + significand) = significand * 2 ^ shift := by
  simp only [units, Nat.pow_eq]
  rcases Nat.lt_or_ge significand (2 ^ 52) with subnormal | normal'
  · obtain rfl : shift = 0 := by omega
    have exponent : (0 * 2 ^ 52 + significand) / 2 ^ 52 = 0 := by omega
    rw [if_pos exponent]
    omega
  · rcases Nat.lt_or_eq_of_le bounded with narrow | rfl
    · have exponent : (shift * 2 ^ 52 + significand) / 2 ^ 52 = shift + 1 := by omega
      have fraction : 2 ^ 52 + (shift * 2 ^ 52 + significand) % 2 ^ 52 = significand := by omega
      rw [exponent, fraction, if_neg (Nat.succ_ne_zero shift), Nat.add_sub_cancel]
    · have exponent : (shift * 2 ^ 52 + 2 ^ 53) / 2 ^ 52 = shift + 2 := by omega
      have fraction : (shift * 2 ^ 52 + 2 ^ 53) % 2 ^ 52 = 0 := by omega
      have power : shift + 2 - 1 = 1 + shift := by omega
      rw [exponent, fraction, if_neg (Nat.succ_ne_zero _), power, Nat.pow_add]
      ring

theorem exists_split (pattern : Nat) : ∃ significand,
    pattern = (pattern / 2 ^ 52 - 1) * 2 ^ 52 + significand ∧ significand < 2 ^ 53 ∧
      (pattern / 2 ^ 52 - 1 = 0 ∨ 2 ^ 52 ≤ significand) := by
  refine ⟨pattern - (pattern / 2 ^ 52 - 1) * 2 ^ 52, ?_, ?_, ?_⟩ <;> omega

theorem units_succ (pattern : Nat) :
    units (pattern + 1) = units pattern + 2 ^ (pattern / 2 ^ 52 - 1) := by
  obtain ⟨significand, split, bounded, normal⟩ := exists_split pattern
  generalize pattern / 2 ^ 52 - 1 = shift at *
  have normal' : shift = 0 ∨ 2 ^ 52 ≤ significand + 1 := by omega
  rw [split, Nat.add_assoc, units_of_split normal' bounded, units_of_split normal bounded.le]
  ring

theorem units_strictMono : StrictMono units :=
  strictMono_nat_of_lt_succ fun pattern => by
    rw [units_succ]
    exact Nat.lt_add_of_pos_right (Nat.two_pow_pos _)

end Units

section Rounding

variable {numerator denominator : Nat}

theorem div_le_roundDiv : numerator / denominator ≤ roundDiv numerator denominator := by
  simp only [roundDiv]
  split
  · exact Nat.le_refl _
  · split
    · exact Nat.le_succ _
    · exact Nat.le_add_right _ _

theorem roundDiv_le : roundDiv numerator denominator ≤ numerator / denominator + 1 := by
  simp only [roundDiv]
  split
  · exact Nat.le_succ _
  · split
    · exact Nat.le_refl _
    · exact Nat.add_le_add_left (Nat.le_of_lt_succ (Nat.mod_lt _ Nat.two_pos)) _

theorem lt_roundDiv_iff (numerator : Nat) (positive : 0 < denominator) (n : Nat) :
    n < roundDiv numerator denominator ↔
      (2 * n + 1) * denominator + (n + 1) % 2 ≤ 2 * numerator := by
  have divided : denominator * (numerator / denominator) + numerator % denominator = numerator :=
    Nat.div_add_mod numerator denominator
  have remainder := Nat.mod_lt numerator positive
  have wide : (2 * n + 1) * denominator = 2 * (denominator * n) + denominator := by ring
  rw [wide]
  rcases Nat.lt_trichotomy (numerator / denominator) n with less | same | more
  · have upper : roundDiv numerator denominator ≤ numerator / denominator + 1 := roundDiv_le
    have bound := Nat.mul_le_mul_left denominator (Nat.succ_le_of_lt less)
    rw [Nat.mul_succ] at bound
    exact iff_of_false (by omega) (by omega)
  · rw [same] at divided
    simp only [roundDiv, same]
    split
    · exact iff_of_false (by omega) (by omega)
    · split
      · exact iff_of_true (by omega) (by omega)
      · omega
  · have lower : numerator / denominator ≤ roundDiv numerator denominator := div_le_roundDiv
    have bound := Nat.mul_le_mul_left denominator (Nat.succ_le_of_lt more)
    rw [Nat.mul_succ] at bound
    exact iff_of_true (by omega) (by omega)

def shiftOf (numerator denominator : Nat) : Nat :=
  (numerator * unitsPerOne / denominator).log2 - 52

def significandOf (numerator denominator : Nat) : Nat :=
  numerator * unitsPerOne / (denominator * 2 ^ shiftOf numerator denominator)

theorem significandOf_eq (numerator denominator : Nat) : significandOf numerator denominator =
    numerator * unitsPerOne / denominator / 2 ^ shiftOf numerator denominator := by
  rw [significandOf, Nat.div_div_eq_div_mul]

theorem significandOf_lt (numerator denominator : Nat) :
    significandOf numerator denominator < 2 ^ 53 := by
  have below := Nat.lt_log2_self (n := numerator * unitsPerOne / denominator)
  have shifted : (numerator * unitsPerOne / denominator).log2 + 1 ≤
      53 + shiftOf numerator denominator := by
    rw [shiftOf]
    omega
  rw [significandOf_eq, Nat.div_lt_iff_lt_mul (Nat.two_pow_pos _), ← Nat.pow_add]
  exact below.trans_le (Nat.pow_le_pow_right Nat.two_pos shifted)

theorem le_significandOf (shifts : shiftOf numerator denominator ≠ 0) :
    2 ^ 52 ≤ significandOf numerator denominator := by
  rw [shiftOf] at shifts
  have nonzero : numerator * unitsPerOne / denominator ≠ 0 := by
    intro zero
    rw [zero] at shifts
    exact shifts rfl
  have shifted : 52 + shiftOf numerator denominator ≤
      (numerator * unitsPerOne / denominator).log2 := by
    rw [shiftOf]
    omega
  rw [significandOf_eq, Nat.le_div_iff_mul_le (Nat.two_pow_pos _), ← Nat.pow_add]
  exact (Nat.pow_le_pow_right Nat.two_pos shifted).trans (Nat.log2_self_le nonzero)

theorem nearest_le : nearest numerator denominator ≤ infinityMagnitude := Nat.min_le_left _ _

theorem scaled_lt (numerator : Nat) (positive : 0 < denominator) :
    numerator * unitsPerOne < 2 ^ 53 * (denominator * 2 ^ shiftOf numerator denominator) :=
  (Nat.div_lt_iff_lt_mul (Nat.mul_pos positive (Nat.two_pow_pos _))).mp
    (significandOf_lt numerator denominator)

theorem le_scaled (numerator : Nat) (positive : 0 < denominator)
    (shifts : shiftOf numerator denominator ≠ 0) :
    2 ^ 52 * (denominator * 2 ^ shiftOf numerator denominator) ≤ numerator * unitsPerOne :=
  (Nat.le_div_iff_mul_le (Nat.mul_pos positive (Nat.two_pow_pos _))).mp (le_significandOf shifts)

/-- The pattern to which a quotient is rounded, if there is no largest one. -/
def rounded (numerator denominator : Nat) : Nat :=
  shiftOf numerator denominator * 2 ^ 52 +
    roundDiv (numerator * unitsPerOne) (denominator * 2 ^ shiftOf numerator denominator)

theorem nearest_eq (numerator denominator : Nat) :
    nearest numerator denominator = min infinityMagnitude (rounded numerator denominator) := rfl

section Middle

variable {pattern shift significand scaled : Nat}

theorem middle_le_of_below (positive : 0 < denominator) (below : pattern < shift * 2 ^ 52 + 2 ^ 52)
    (lower : 2 ^ 52 * (denominator * 2 ^ shift) ≤ scaled) :
    (units pattern + units (pattern + 1)) * denominator + (pattern + 1) % 2 ≤ 2 * scaled := by
  have grows : units pattern < units (pattern + 1) := units_strictMono (Nat.lt_succ_self pattern)
  have small : units (pattern + 1) ≤ 2 ^ 52 * 2 ^ shift := by
    rw [← units_of_split (.inr le_rfl) (by decide)]
    exact units_strictMono.monotone below
  have sum : (units pattern + units (pattern + 1) + 1) * denominator ≤
      2 * (2 ^ 52 * 2 ^ shift) * denominator := Nat.mul_le_mul_right _ (by omega)
  have scale : 2 * (2 ^ 52 * 2 ^ shift) * denominator =
      2 * (2 ^ 52 * (denominator * 2 ^ shift)) := by ring
  rw [Nat.add_one_mul, scale] at sum
  omega

theorem lt_middle_of_above (above : shift * 2 ^ 52 + 2 ^ 53 ≤ pattern)
    (upper : scaled < 2 ^ 53 * (denominator * 2 ^ shift)) :
    2 * scaled < (units pattern + units (pattern + 1)) * denominator := by
  have grows : units pattern < units (pattern + 1) := units_strictMono (Nat.lt_succ_self pattern)
  have large : 2 ^ 53 * 2 ^ shift ≤ units pattern := by
    rw [← units_of_split (.inr (by decide)) le_rfl]
    exact units_strictMono.monotone above
  have sum : 2 * (2 ^ 53 * 2 ^ shift) * denominator ≤
      (units pattern + units (pattern + 1)) * denominator := Nat.mul_le_mul_right _ (by omega)
  have scale : 2 * (2 ^ 53 * 2 ^ shift) * denominator =
      2 * (2 ^ 53 * (denominator * 2 ^ shift)) := by ring
  rw [scale] at sum
  omega

theorem middle_of_split (normal : shift = 0 ∨ 2 ^ 52 ≤ significand) (bounded : significand < 2 ^ 53)
    (denominator : Nat) :
    (units (shift * 2 ^ 52 + significand) + units (shift * 2 ^ 52 + significand + 1)) *
      denominator = (2 * significand + 1) * (denominator * 2 ^ shift) := by
  have next : units (shift * 2 ^ 52 + (significand + 1)) = (significand + 1) * 2 ^ shift :=
    units_of_split (by omega) bounded
  rw [Nat.add_assoc, units_of_split normal bounded.le, next]
  ring

end Middle

theorem lt_rounded_iff (numerator : Nat) (positive : 0 < denominator) (pattern : Nat) :
    pattern < rounded numerator denominator ↔
      (units pattern + units (pattern + 1)) * denominator + (pattern + 1) % 2 ≤
        2 * (numerator * unitsPerOne) := by
  have upper := scaled_lt numerator positive
  have lower := le_scaled numerator positive
  have most : roundDiv (numerator * unitsPerOne)
      (denominator * 2 ^ shiftOf numerator denominator) ≤ 2 ^ 53 :=
    roundDiv_le.trans (significandOf_lt numerator denominator)
  have least : shiftOf numerator denominator ≠ 0 → 2 ^ 52 ≤ roundDiv (numerator * unitsPerOne)
      (denominator * 2 ^ shiftOf numerator denominator) := fun shifts =>
    (le_significandOf shifts).trans div_le_roundDiv
  have unit : 0 < denominator * 2 ^ shiftOf numerator denominator :=
    Nat.mul_pos positive (Nat.two_pow_pos _)
  unfold rounded
  generalize shiftOf numerator denominator = shift at *
  generalize numerator * unitsPerOne = scaled at *
  -- outside of the binade of the quotient the bounds of the significand decide
  by_cases below : shift ≠ 0 ∧ pattern < shift * 2 ^ 52 + 2 ^ 52
  · obtain ⟨shifts, below⟩ := below
    have reached := middle_le_of_below positive below (lower shifts)
    exact iff_of_true (Nat.lt_of_lt_of_le below (Nat.add_le_add_left (least shifts) _)) reached
  · by_cases above : shift * 2 ^ 52 + 2 ^ 53 ≤ pattern
    · have missed := lt_middle_of_above above upper
      exact iff_of_false (by omega) (by omega)
    · obtain ⟨significand, rfl⟩ : ∃ significand, pattern = shift * 2 ^ 52 + significand :=
        ⟨pattern - shift * 2 ^ 52, by omega⟩
      have rounds := lt_roundDiv_iff scaled unit significand
      rw [middle_of_split (by omega) (by omega)]
      omega

/-- A finite pattern other than zero is nearest to what lies between the middles to its neighbours. An
    even pattern has the middles too. -/
theorem nearest_eq_iff (numerator : Nat) (positive : 0 < denominator) {pattern : Nat}
    (finite : pattern + 1 < infinityMagnitude) :
    nearest numerator denominator = pattern + 1 ↔
      (units pattern + units (pattern + 1)) * denominator + (pattern + 1) % 2 ≤
          2 * (numerator * unitsPerOne) ∧
        2 * (numerator * unitsPerOne) <
          (units (pattern + 1) + units (pattern + 2)) * denominator + (pattern + 2) % 2 := by
  have reached := lt_rounded_iff numerator positive pattern
  have passed : pattern + 1 < rounded numerator denominator ↔
      (units (pattern + 1) + units (pattern + 2)) * denominator + (pattern + 2) % 2 ≤
        2 * (numerator * unitsPerOne) := lt_rounded_iff numerator positive (pattern + 1)
  rw [nearest_eq]
  omega

theorem nearest_of_exact {numerator : Nat} (positive : 0 < denominator) {pattern : Nat}
    (finite : pattern < infinityMagnitude)
    (exact : units pattern * denominator = numerator * unitsPerOne) :
    nearest numerator denominator = pattern := by
  have grows : units pattern + 1 ≤ units (pattern + 1) := units_strictMono (Nat.lt_succ_self pattern)
  have above : (2 * units pattern + 1) * denominator ≤
      (units pattern + units (pattern + 1)) * denominator := Nat.mul_le_mul_right _ (by omega)
  have passed := lt_rounded_iff numerator positive pattern
  rw [Nat.add_one_mul, Nat.mul_assoc] at above
  have most : rounded numerator denominator ≤ pattern := by omega
  have least : pattern ≤ rounded numerator denominator := by
    cases pattern with
    | zero => exact Nat.zero_le _
    | succ pattern =>
      have shrinks : units pattern + 1 ≤ units (pattern + 1) :=
        units_strictMono (Nat.lt_succ_self pattern)
      have below : (units pattern + units (pattern + 1) + 1) * denominator ≤
          2 * units (pattern + 1) * denominator := Nat.mul_le_mul_right _ (by omega)
      rw [Nat.add_one_mul, Nat.mul_assoc, exact] at below
      exact (lt_rounded_iff numerator positive pattern).mpr (by omega)
  rw [nearest_eq, Nat.le_antisymm most least, Nat.min_eq_right finite.le]

/-- Halfway between the largest finite number, 2 ^ 1024 - 2 ^ 971, and 2 ^ 1024. -/
def overflow : Nat := (2 ^ 54 - 1) * Nat.pow 2 970

theorem nearest_eq_infinity_iff (numerator : Nat) (positive : 0 < denominator) :
    nearest numerator denominator = infinityMagnitude ↔ overflow * denominator ≤ numerator := by
  have middle : units (infinityMagnitude - 1) + units (infinityMagnitude - 1 + 1) =
      2 * (overflow * unitsPerOne) := by decide +kernel
  have even : (infinityMagnitude - 1 + 1) % 2 = 0 := by decide +kernel
  have reached := lt_rounded_iff numerator positive (infinityMagnitude - 1)
  rw [middle, even, Nat.add_zero, Nat.mul_assoc, Nat.mul_le_mul_left_iff Nat.two_pos,
    Nat.mul_right_comm, Nat.mul_le_mul_right_iff unitsPerOne_pos] at reached
  have pos : 0 < infinityMagnitude := by decide +kernel
  rw [nearest_eq, min_eq_left_iff, ← reached]
  omega

end Rounding

section Pattern

variable {pattern : Nat} (negative : Bool)

theorem toNat_ofMagnitude (bounded : pattern ≤ infinityMagnitude) :
    (ofMagnitude negative pattern).bits.toNat =
      (if negative then Nat.pow 2 63 else 0) + pattern := by
  have bounded : pattern ≤ 2047 * 2 ^ 52 := bounded
  cases negative <;> simp [ofMagnitude] <;> omega

theorem magnitude_ofMagnitude (bounded : pattern ≤ infinityMagnitude) :
    (ofMagnitude negative pattern).magnitude = pattern := by
  rw [magnitude, toNat_ofMagnitude negative bounded]
  have bounded : pattern ≤ 2047 * 2 ^ 52 := bounded
  cases negative <;> simp <;> omega

theorem isNegative_ofMagnitude (bounded : pattern ≤ infinityMagnitude) :
    (ofMagnitude negative pattern).isNegative = negative := by
  rw [isNegative, toNat_ofMagnitude negative bounded]
  have bounded : pattern ≤ 2047 * 2 ^ 52 := bounded
  cases negative
  · simp
    omega
  · simp

end Pattern

end Double

namespace Numeral

variable (numeral : Numeral)

def TooLarge : Prop :=
  Double.overflow * 10 ^ numeral.fraction.length ≤ digitsValue (numeral.whole ++ numeral.fraction)

theorem isNaN_value : numeral.value.isNaN = false := by
  rw [Double.isNaN, value, Double.magnitude_ofMagnitude _ Double.nearest_le]
  exact decide_eq_false (Nat.not_lt.mpr Double.nearest_le)

theorem isFinite_value_iff : numeral.value.isFinite = true ↔ ¬ numeral.TooLarge := by
  have scale : 0 < Nat.pow 10 numeral.fraction.length := Nat.pow_pos (by decide)
  have infinite :=
    Double.nearest_eq_infinity_iff (digitsValue (numeral.whole ++ numeral.fraction)) scale
  rw [Double.isFinite, value, Double.magnitude_ofMagnitude _ Double.nearest_le, decide_eq_true_iff,
    Nat.lt_iff_le_and_ne, and_iff_right Double.nearest_le]
  exact not_congr infinite

end Numeral

end PageMarkup
