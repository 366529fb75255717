import PageMarkup.Proofs.Number.Printing

namespace PageMarkup

namespace Decimal

variable (negative : Bool) (d : Decimal)

def numerator : Nat := d.coefficient * 10 ^ d.exponent.toNat

def denominator : Nat := 10 ^ (-d.exponent).toNat

theorem denominator_pos : 0 < d.denominator := Nat.pow_pos (by decide)

theorem denominator_whole (coefficient zeros : Nat) :
    (⟨coefficient, zeros⟩ : Decimal).denominator = 1 := by
  have scale : (-(zeros : Int)).toNat = 0 := by omega
  rw [Decimal.denominator, scale, Nat.pow_zero]

theorem digits_numeral :
    Numeral.digitsValue ((d.numeral negative).whole ++ (d.numeral negative).fraction) =
        d.numerator ∧ (d.numeral negative).fraction.length = (-d.exponent).toNat := by
  have digits : Nat.ofDigitChars 10 (Nat.toDigits 10 d.coefficient) 0 = d.coefficient :=
    Nat.ofDigitChars_ten_toDigits
  simp only [numeral, numerator, zeros, Numeral.digitsValue_eq]
  split
  · rename_i whole
    simp [Nat.ofDigitChars_append, Nat.ofDigitChars_replicate_zero, digits, whole, Nat.mul_comm]
  · have scale : d.exponent.toNat = 0 := by omega
    split
    · rw [List.take_append_drop, digits, scale, List.length_drop]
      omega
    · have leading (n : Nat) : ['0'] ++ (List.replicate n '0' ++ Nat.toDigits 10 d.coefficient) =
          List.replicate (n + 1) '0' ++ Nat.toDigits 10 d.coefficient := rfl
      rw [leading, Nat.ofDigitChars_append, Nat.ofDigitChars_replicate_zero, Nat.mul_zero, digits,
        scale, List.length_append, List.length_replicate]
      omega

theorem value_numeral : (d.numeral negative).value =
    .ofMagnitude negative (Double.nearest d.numerator d.denominator) := by
  obtain ⟨digits, places⟩ := d.digits_numeral negative
  rw [Numeral.value, digits, places, negative_numeral]
  rfl

end Decimal

namespace Double

variable {pattern magnitude : Nat} {exponent : Int} {d : Decimal}

theorem roundsBack_iff (finite : pattern + 1 < infinityMagnitude) :
    roundsBack (pattern + 1) d = true ↔ nearest d.numerator d.denominator = pattern + 1 := by
  have scale : 2 * d.coefficient * Nat.pow 10 d.exponent.toNat * unitsPerOne =
      2 * (d.numerator * unitsPerOne) := by
    simp only [Decimal.numerator, Nat.pow_eq, Nat.mul_assoc]
  rw [nearest_eq_iff d.numerator d.denominator_pos finite]
  simp only [roundsBack, Nat.add_sub_cancel, scale]
  change (if (pattern + 1) % 2 = 0 then
      decide ((units pattern + units (pattern + 1)) * d.denominator ≤ _) && decide
        (_ ≤ (units (pattern + 1) + units (pattern + 2)) * d.denominator)
    else decide ((units pattern + units (pattern + 1)) * d.denominator < _) && decide
        (_ < (units (pattern + 1) + units (pattern + 2)) * d.denominator)) = true ↔ _
  split
  · rw [Bool.and_eq_true, decide_eq_true_eq, decide_eq_true_eq]
    omega
  · rw [Bool.and_eq_true, decide_eq_true_eq, decide_eq_true_eq]
    omega

def below (magnitude : Nat) (exponent : Int) : Decimal :=
  ⟨units magnitude * 10 ^ (-exponent).toNat / (unitsPerOne * 10 ^ exponent.toNat), exponent⟩

def above (magnitude : Nat) (exponent : Int) : Decimal :=
  ⟨(below magnitude exponent).coefficient + 1, exponent⟩

theorem candidate?_cases (magnitude : Nat) (exponent : Int) :
    (candidate? magnitude exponent = none ∧ roundsBack magnitude (below magnitude exponent) = false ∧
        roundsBack magnitude (above magnitude exponent) = false) ∨
      (candidate? magnitude exponent = some (below magnitude exponent) ∧
        roundsBack magnitude (below magnitude exponent) = true) ∨
      (candidate? magnitude exponent = some (above magnitude exponent) ∧
        roundsBack magnitude (above magnitude exponent) = true) := by
  have same : (⟨units magnitude * Nat.pow 10 (-exponent).toNat /
      (unitsPerOne * Nat.pow 10 exponent.toNat), exponent⟩ : Decimal) = below magnitude exponent := rfl
  have same' : (⟨units magnitude * Nat.pow 10 (-exponent).toNat /
      (unitsPerOne * Nat.pow 10 exponent.toNat) + 1, exponent⟩ : Decimal) =
        above magnitude exponent := rfl
  simp only [candidate?, same, same']
  cases roundsBack magnitude (below magnitude exponent) <;>
    cases roundsBack magnitude (above magnitude exponent)
  · exact .inl ⟨rfl, rfl, rfl⟩
  · exact .inr (.inr ⟨rfl, rfl⟩)
  · exact .inr (.inl ⟨rfl, rfl⟩)
  · dsimp only
    split
    · exact .inr (.inl ⟨rfl, rfl⟩)
    · exact .inr (.inr ⟨rfl, rfl⟩)

theorem roundsBack_of_candidate? (found : candidate? magnitude exponent = some d) :
    roundsBack magnitude d = true := by
  rcases candidate?_cases magnitude exponent with ⟨none, _⟩ | ⟨chosen, back⟩ | ⟨chosen, back⟩
  · rw [none] at found
    cases found
  · rw [chosen] at found
    exact Option.some.inj found ▸ back
  · rw [chosen] at found
    exact Option.some.inj found ▸ back

theorem numerator_below (magnitude places : Nat) : (below magnitude (-places)).numerator =
    units magnitude * 10 ^ places / unitsPerOne := by
  have fraction : (- -(places : Int)).toNat = places := by omega
  have whole : (-(places : Int)).toNat = 0 := by omega
  simp only [Decimal.numerator, below, fraction, whole, Nat.pow_zero, Nat.mul_one]

theorem denominator_below (magnitude places : Nat) :
    (below magnitude (-places)).denominator = 10 ^ places := by
  have fraction : (- -(places : Int)).toNat = places := by omega
  simp only [Decimal.denominator, below, fraction]

theorem roundsBack_below_least (finite : pattern + 1 < infinityMagnitude) :
    roundsBack (pattern + 1) (below (pattern + 1) leastExponent) = true := by
  obtain ⟨places, least, fine⟩ : ∃ places : Nat,
      leastExponent = -places ∧ 2 * unitsPerOne ≤ 10 ^ places := ⟨324, rfl, by decide +kernel⟩
  have before : units pattern + 1 ≤ units (pattern + 1) := units_strictMono (Nat.lt_succ_self _)
  have after : units (pattern + 1) + 1 ≤ units (pattern + 2) := units_strictMono (Nat.lt_succ_self _)
  rw [least, roundsBack_iff finite, nearest_eq_iff _ (Decimal.denominator_pos _) finite,
    numerator_below, denominator_below]
  generalize 10 ^ places = scale at fine ⊢
  have divided := Nat.div_add_mod (units (pattern + 1) * scale) unitsPerOne
  have remainder := Nat.mod_lt (units (pattern + 1) * scale) unitsPerOne_pos
  have lower : (units pattern + units (pattern + 1) + 1) * scale ≤
      2 * units (pattern + 1) * scale := Nat.mul_le_mul_right _ (by omega)
  have upper : (2 * units (pattern + 1) + 1) * scale ≤
      (units (pattern + 1) + units (pattern + 2)) * scale := Nat.mul_le_mul_right _ (by omega)
  rw [Nat.add_one_mul, Nat.mul_assoc] at lower upper
  rw [Nat.mul_comm unitsPerOne] at divided
  exact ⟨by omega, by omega⟩

theorem shortestFrom_cases (magnitude steps : Nat) :
    ∃ step ≤ steps, (∀ step' ≤ steps, step < step' →
        candidate? magnitude (leastExponent + step') = none) ∧
      (candidate? magnitude (leastExponent + step) = some (shortestFrom magnitude steps) ∨
        step = 0 ∧ candidate? magnitude leastExponent = none) := by
  induction steps with
  | zero =>
    refine ⟨0, le_rfl, fun step' bounded less => by omega, ?_⟩
    rw [shortestFrom, Int.natCast_zero, Int.add_zero]
    cases candidate? magnitude leastExponent <;> simp
  | succ steps ih =>
    rw [shortestFrom]
    cases found : candidate? magnitude (leastExponent + (steps + 1 : Nat)) with
    | some d => exact ⟨steps + 1, le_rfl, fun step' bounded less => by omega, .inl found⟩
    | none =>
      obtain ⟨step, bounded, larger, taken⟩ := ih
      refine ⟨step, bounded.trans (Nat.le_succ _), fun step' bounded' less => ?_, taken⟩
      rcases Nat.lt_or_eq_of_le bounded' with inside | rfl
      · exact larger step' (Nat.le_of_lt_succ inside) less
      · exact found

theorem shortestFrom_eq {steps step : Nat} (bounded : step ≤ steps)
    (found : candidate? magnitude (leastExponent + step) = some d)
    (larger : ∀ step' ≤ steps, step < step' → candidate? magnitude (leastExponent + step') = none) :
    shortestFrom magnitude steps = d := by
  obtain ⟨other, bounded', larger', taken | ⟨rfl, none⟩⟩ := shortestFrom_cases magnitude steps
  · rcases Nat.lt_trichotomy other step with less | rfl | more
    · rw [larger' step bounded less] at found
      cases found
    · exact Option.some.inj (taken.symm.trans found)
    · rw [larger other bounded' more] at taken
      cases taken
  · rcases Nat.eq_zero_or_pos step with rfl | positive
    · rw [Int.natCast_zero, Int.add_zero, none] at found
      cases found
    · rw [larger' step bounded positive] at found
      cases found

theorem exists_candidate_least (finite : pattern + 1 < infinityMagnitude) :
    candidate? (pattern + 1) leastExponent ≠ none := by
  intro none
  rcases candidate?_cases (pattern + 1) leastExponent with ⟨_, fails, _⟩ | ⟨chosen, _⟩ | ⟨chosen, _⟩
  · rw [roundsBack_below_least finite] at fails
    cases fails
  · rw [none] at chosen
    cases chosen
  · rw [none] at chosen
    cases chosen

theorem nearest_shortest (finite : pattern + 1 < infinityMagnitude) :
    nearest (shortest (pattern + 1)).numerator (shortest (pattern + 1)).denominator =
      pattern + 1 := by
  rw [← roundsBack_iff finite]
  obtain ⟨step, _, _, taken | ⟨_, none⟩⟩ := shortestFrom_cases (pattern + 1)
    (325 + (units (pattern + 1) / unitsPerOne).log2 / 3)
  · exact roundsBack_of_candidate? taken
  · exact absurd none (exists_candidate_least finite)

section Whole

theorem units_succ_le (small : units magnitude < 2 ^ 52 * unitsPerOne) :
    units (magnitude + 1) ≤ units magnitude + unitsPerOne := by
  rw [units_succ]
  apply Nat.add_le_add_left
  by_contra wide
  obtain ⟨significand, split, bounded, normal⟩ := exists_split magnitude
  generalize magnitude / 2 ^ 52 - 1 = shift at *
  have shifts : shift ≠ 0 := by
    rintro rfl
    exact wide unitsPerOne_pos
  have normal : 2 ^ 52 ≤ significand := normal.resolve_left shifts
  rw [split, units_of_split (.inr normal) bounded.le] at small
  have large : 2 ^ 52 * unitsPerOne ≤ significand * 2 ^ shift :=
    Nat.mul_le_mul normal (Nat.le_of_not_le wide)
  exact Nat.not_lt.mpr large small

variable {size coefficient zeros : Nat}

theorem below_whole (whole : units magnitude = size * unitsPerOne)
    (same : size = 10 ^ zeros * coefficient) : below magnitude zeros = ⟨coefficient, zeros⟩ := by
  have fraction : (-(zeros : Int)).toNat = 0 := by omega
  have exact : units magnitude = coefficient * (unitsPerOne * 10 ^ zeros) := by
    rw [whole, same]
    ring
  rw [below, fraction, Nat.pow_zero, Nat.mul_one, Int.toNat_natCast, exact, Nat.mul_div_cancel]
  exact Nat.mul_pos unitsPerOne_pos (Nat.pow_pos (by decide))

variable (finite : pattern + 1 < infinityMagnitude)
  (whole : units (pattern + 1) = size * unitsPerOne) (small : size < 10 ^ 15)

include finite whole small

theorem eq_of_roundsBack (back : roundsBack (pattern + 1) ⟨coefficient, zeros⟩ = true) :
    coefficient * 10 ^ zeros = size := by
  have numerator : (⟨coefficient, zeros⟩ : Decimal).numerator = coefficient * 10 ^ zeros := rfl
  rw [roundsBack_iff finite, nearest_eq_iff _ (Decimal.denominator_pos _) finite, numerator,
    Decimal.denominator_whole, Nat.mul_one, Nat.mul_one] at back
  have bound : units (pattern + 1) < 2 ^ 52 * unitsPerOne := by
    rw [whole]
    exact Nat.mul_lt_mul_of_pos_right (by omega) unitsPerOne_pos
  have before : units pattern < units (pattern + 1) := units_strictMono (Nat.lt_succ_self _)
  have near := units_succ_le (before.trans bound)
  have near' : units (pattern + 2) ≤ units (pattern + 1) + unitsPerOne := units_succ_le bound
  generalize coefficient * 10 ^ zeros = value at *
  -- both middles are at most a half away, and two whole numbers are one apart
  have twice (n : Nat) : 2 * n * unitsPerOne = 2 * (n * unitsPerOne) := Nat.mul_assoc ..
  have middle (n : Nat) : (2 * n + 1) * unitsPerOne = 2 * (n * unitsPerOne) + unitsPerOne := by
    rw [Nat.succ_mul, twice]
  have lower : 2 * size * unitsPerOne ≤ (2 * value + 1) * unitsPerOne := by
    rw [twice, middle]
    omega
  have upper : 2 * value * unitsPerOne ≤ (2 * size + 1) * unitsPerOne := by
    rw [twice, middle]
    omega
  have lower := Nat.le_of_mul_le_mul_right lower unitsPerOne_pos
  have upper := Nat.le_of_mul_le_mul_right upper unitsPerOne_pos
  omega

theorem candidate?_whole (same : size = 10 ^ zeros * coefficient) :
    candidate? (pattern + 1) zeros = some ⟨coefficient, zeros⟩ := by
  have exact := below_whole whole same
  have back : roundsBack (pattern + 1) (below (pattern + 1) zeros) = true := by
    rw [exact, roundsBack_iff finite]
    apply nearest_of_exact (Decimal.denominator_pos _) finite
    rw [Decimal.denominator_whole, Nat.mul_one, whole, same, Nat.mul_comm (10 ^ zeros)]
    rfl
  rcases candidate?_cases (pattern + 1) zeros with ⟨_, fails, _⟩ | ⟨chosen, _⟩ | ⟨_, back'⟩
  · rw [back] at fails
    cases fails
  · rw [chosen, exact]
  · have other := eq_of_roundsBack finite whole small back'
    rw [exact, same, Nat.mul_comm] at other
    have next := Nat.eq_of_mul_eq_mul_left (Nat.pow_pos (by decide)) other
    exact absurd next (Nat.succ_ne_self _)

theorem candidate?_eq_none (same : size = 10 ^ zeros * coefficient) (last : ¬ 10 ∣ coefficient)
    {exponent : Nat} (larger : zeros < exponent) : candidate? (pattern + 1) exponent = none := by
  have unread (other : Nat) : roundsBack (pattern + 1) ⟨other, exponent⟩ ≠ true := by
    intro back
    have divided := eq_of_roundsBack finite whole small back
    have split : other * 10 ^ exponent =
        10 ^ zeros * (10 * (other * 10 ^ (exponent - zeros - 1))) := by
      have power : exponent = zeros + (1 + (exponent - zeros - 1)) := by omega
      conv_lhs => rw [power]
      ring
    rw [split, same] at divided
    exact last ⟨_, (Nat.eq_of_mul_eq_mul_left (Nat.pow_pos (by decide)) divided).symm⟩
  rcases candidate?_cases (pattern + 1) exponent with ⟨none, _⟩ | ⟨_, back⟩ | ⟨_, back⟩
  · exact none
  · exact absurd back (unread _)
  · exact absurd back (unread _)

theorem shortest_whole (same : size = 10 ^ zeros * coefficient) (last : ¬ 10 ∣ coefficient) :
    shortest (pattern + 1) = ⟨coefficient, zeros⟩ := by
  -- exponents are tried up to a third of the bits, and three bits are less than a decimal digit
  have tried : zeros ≤ (units (pattern + 1) / unitsPerOne).log2 / 3 := by
    have nonzero : coefficient ≠ 0 := by
      rintro rfl
      exact last (Nat.dvd_zero _)
    have large : 2 ^ (3 * zeros) ≤ size := by
      rw [same, Nat.pow_mul]
      exact (Nat.pow_le_pow_left (by decide) zeros).trans
        (Nat.le_mul_of_pos_right _ (Nat.pos_of_ne_zero nonzero))
    have positive : size ≠ 0 := (Nat.two_pow_pos _).trans_le large |>.ne'
    rw [whole, Nat.mul_div_cancel _ unitsPerOne_pos, Nat.le_div_iff_mul_le (by decide), Nat.mul_comm]
    exact (Nat.le_log2 positive).mpr large
  have least : leastExponent = -324 := rfl
  have exponent (n : Nat) : leastExponent + (324 + n : Nat) = n := by omega
  rw [shortest]
  generalize (units (pattern + 1) / unitsPerOne).log2 / 3 = bound at tried
  refine @shortestFrom_eq _ _ _ (324 + zeros) (by omega) ?_ fun step' _ larger => ?_
  · rw [exponent]
    exact candidate?_whole finite whole small same
  · obtain ⟨zeros', rfl⟩ : ∃ zeros', step' = 324 + zeros' := ⟨step' - 324, by omega⟩
    rw [exponent]
    exact candidate?_eq_none finite whole small same last (by omega)

end Whole

end Double

end PageMarkup
