import Mathlib.Data.List.TakeWhile
import PageMarkup.Text.Blank

namespace PageMarkup

def beginsWith (p : Char → Bool) (text : List Char) : Bool := text.head?.any p

section Runs

variable {p q : Char → Bool} {left right text : List Char} {c : Char}

@[simp] theorem beginsWith_nil : beginsWith p [] = false := rfl

@[simp] theorem beginsWith_cons : beginsWith p (c :: text) = p c := rfl

theorem beginsWith_append (nonempty : left ≠ []) :
    beginsWith p (left ++ right) = beginsWith p left := by
  cases left with
  | nil => contradiction
  | cons c left => rfl

theorem not_beginsWith_append (none : ∀ c ∈ left, p c = false) (edge : beginsWith p right = false) :
    beginsWith p (left ++ right) = false := by
  cases left with
  | nil => exact edge
  | cons c left => exact none c List.mem_cons_self

theorem beginsWith_of_forall (nonempty : left ≠ []) (all : ∀ c ∈ left, p c = true) :
    beginsWith p (left ++ right) = true := by
  cases left with
  | nil => contradiction
  | cons c left => exact all c List.mem_cons_self

theorem beginsWith_disjoint (disjoint : ∀ c, p c = true → q c = false)
    (begins : beginsWith p text = true) : beginsWith q text = false := by
  cases text with
  | nil => rfl
  | cons c text => exact disjoint c begins

theorem not_beginsWith_of_imp (edge : beginsWith q text = false)
    (imp : ∀ c, p c = true → q c = true) : beginsWith p text = false := by
  cases text with
  | nil => rfl
  | cons c text =>
    rw [beginsWith_cons] at edge ⊢
    exact Bool.eq_false_iff.mpr fun found => Bool.eq_false_iff.mp edge (imp c found)

theorem exists_cons_of_beginsWith (begins : beginsWith p text = true) :
    ∃ c rest, text = c :: rest ∧ p c = true := by
  cases text with
  | nil => simp at begins
  | cons c rest => exact ⟨c, rest, rfl, begins⟩

theorem exists_cons_of_beginsWith_beq {d : Char} (begins : beginsWith (· == d) text = true) :
    ∃ rest, text = d :: rest := by
  obtain ⟨c, rest, rfl, same⟩ := exists_cons_of_beginsWith begins
  rw [beq_iff_eq] at same
  exact ⟨rest, same ▸ rfl⟩

theorem nil_or_cons_of_stop {d : Char} (stops : beginsWith (· != d) text = false) :
    text = [] ∨ ∃ rest, text = d :: rest := by
  cases text with
  | nil => exact .inl rfl
  | cons c rest =>
    rw [beginsWith_cons, bne_eq_false_iff_eq] at stops
    exact .inr ⟨rest, stops ▸ rfl⟩

theorem takeWhile_eq_nil_of_not_beginsWith (edge : beginsWith p right = false) :
    right.takeWhile p = [] := by
  cases right with
  | nil => rfl
  | cons c right =>
    rw [beginsWith_cons] at edge
    simp [edge]

theorem dropWhile_eq_self_of_not_beginsWith (edge : beginsWith p right = false) :
    right.dropWhile p = right := by
  cases right with
  | nil => rfl
  | cons c right =>
    rw [beginsWith_cons] at edge
    simp [edge]

theorem takeWhile_run (all : ∀ c ∈ left, p c = true) (edge : beginsWith p right = false) :
    (left ++ right).takeWhile p = left := by
  rw [List.takeWhile_append_of_pos all, takeWhile_eq_nil_of_not_beginsWith edge, List.append_nil]

theorem dropWhile_run (all : ∀ c ∈ left, p c = true) (edge : beginsWith p right = false) :
    (left ++ right).dropWhile p = right := by
  rw [List.dropWhile_append_of_pos all, dropWhile_eq_self_of_not_beginsWith edge]

theorem not_beginsWith_extend (edge : beginsWith p text = false)
    (ends : text = [] → beginsWith p right = false) : beginsWith p (text ++ right) = false := by
  cases text with
  | nil => exact ends rfl
  | cons c text => exact edge

theorem run_unique {left' right' : List Char} (all : ∀ c ∈ left, p c = true)
    (all' : ∀ c ∈ left', p c = true) (edge : beginsWith p right = false)
    (edge' : beginsWith p right' = false) (same : left ++ right = left' ++ right') :
    left = left' ∧ right = right' := by
  have taken := congrArg (List.takeWhile p) same
  have dropped := congrArg (List.dropWhile p) same
  rw [takeWhile_run all edge, takeWhile_run all' edge'] at taken
  rw [dropWhile_run all edge, dropWhile_run all' edge'] at dropped
  exact ⟨taken, dropped⟩

theorem takeWhile_append_of_edge (edge : beginsWith p right = false) :
    (left ++ right).takeWhile p = left.takeWhile p := by
  induction left with
  | nil => exact takeWhile_eq_nil_of_not_beginsWith edge
  | cons c left ih => rw [List.cons_append, List.takeWhile_cons, List.takeWhile_cons, ih]

theorem dropWhile_append_of_edge (edge : beginsWith p right = false) :
    (left ++ right).dropWhile p = left.dropWhile p ++ right := by
  induction left with
  | nil => exact dropWhile_eq_self_of_not_beginsWith edge
  | cons c left ih =>
    rw [List.cons_append, List.dropWhile_cons, List.dropWhile_cons, ih]
    split <;> rfl

theorem not_beginsWith_dropWhile (p : Char → Bool) (text : List Char) :
    beginsWith p (text.dropWhile p) = false := by
  have first := List.head?_dropWhile_not p text
  unfold beginsWith
  cases found : (text.dropWhile p).head? with
  | none => rfl
  | some c =>
    rw [found] at first
    exact first

theorem exists_run (p : Char → Bool) (text : List Char) :
    ∃ run rest, text = run ++ rest ∧ (∀ c ∈ run, p c = true) ∧ beginsWith p rest = false :=
  ⟨text.takeWhile p, text.dropWhile p, List.takeWhile_append_dropWhile.symm,
    fun _ member => List.mem_takeWhile_imp member, not_beginsWith_dropWhile p text⟩

theorem exists_run_of_beginsWith (begins : beginsWith p text = true) :
    ∃ run rest, text = run ++ rest ∧ run ≠ [] ∧ (∀ c ∈ run, p c = true) ∧
      beginsWith p rest = false := by
  obtain ⟨run, rest, rfl, all, edge⟩ := exists_run p text
  refine ⟨run, rest, rfl, ?_, all, edge⟩
  rintro rfl
  rw [List.nil_append, edge] at begins
  cases begins

theorem exists_dropRightWhile (p : Char → Bool) (text : List Char) :
    ∃ last, text = dropRightWhile p text ++ last ∧ ∀ c ∈ last, p c = true := by
  refine ⟨(text.reverse.takeWhile p).reverse, ?_, ?_⟩
  · rw [dropRightWhile, ← List.reverse_append, List.takeWhile_append_dropWhile, List.reverse_reverse]
  · intro c member
    exact List.mem_takeWhile_imp (List.mem_reverse.mp member)

theorem not_beginsWith_reverse_dropRightWhile (p : Char → Bool) (text : List Char) :
    beginsWith p (dropRightWhile p text).reverse = false := by
  rw [dropRightWhile, List.reverse_reverse]
  exact not_beginsWith_dropWhile p text.reverse

theorem dropRightWhile_run (edge : beginsWith p left.reverse = false)
    (all : ∀ c ∈ right, p c = true) : dropRightWhile p (left ++ right) = left := by
  have all : ∀ c ∈ right.reverse, p c = true := fun c member => all c (List.mem_reverse.mp member)
  rw [dropRightWhile, List.reverse_append, dropWhile_run all edge, List.reverse_reverse]

theorem takeWhile_reverse {d : Char} (ends : left = [] ∨ ∃ front, left = front ++ [d])
    (plain : d ∉ right) : (left ++ right).reverse.takeWhile (· ≠ d) = right.reverse := by
  have edge : beginsWith (· ≠ d) left.reverse = false := by
    rcases ends with rfl | ⟨front, rfl⟩
    · rfl
    · simp
  rw [List.reverse_append]
  apply takeWhile_run _ edge
  intro c member
  rw [decide_eq_true_eq]
  rintro rfl
  exact plain (List.mem_reverse.mp member)

theorem exists_last_piece (d : Char) (text : List Char) : ∃ left right,
    text = left ++ right ∧ d ∉ right ∧ (left = [] ∨ ∃ front, left = front ++ [d]) := by
  obtain ⟨run, rest, split, all, edge⟩ := exists_run (· != d) text.reverse
  refine ⟨rest.reverse, run.reverse, ?_, ?_, ?_⟩
  · rw [← List.reverse_append, ← split, List.reverse_reverse]
  · intro member
    simpa using all d (List.mem_reverse.mp member)
  · rcases nil_or_cons_of_stop edge with rfl | ⟨front, rfl⟩
    · exact .inl rfl
    · exact .inr ⟨front.reverse, List.reverse_cons⟩

end Runs

theorem not_isBlank_of_isAlphanum {c : Char} (alphanumeric : c.isAlphanum = true) :
    isBlank c = false := by
  change ((decide (65 ≤ c.val ∧ c.val ≤ 90) || (decide (97 ≤ c.val) && decide (c.val ≤ 122))) ||
    (decide (48 ≤ c.val) && decide (c.val ≤ 57))) = true at alphanumeric
  simp only [Bool.or_eq_true, Bool.and_eq_true, decide_eq_true_eq, UInt32.le_iff_toNat_le]
    at alphanumeric
  change ((65 ≤ c.toNat ∧ c.toNat ≤ 90) ∨ (97 ≤ c.toNat ∧ c.toNat ≤ 122)) ∨
    (48 ≤ c.toNat ∧ c.toNat ≤ 57) at alphanumeric
  simp only [isBlank, Bool.or_eq_false_iff, Bool.and_eq_false_iff, decide_eq_false_iff_not,
    beq_eq_false_iff_ne]
  omega

theorem not_isAlphanum_of_isBlank {c : Char} (blank : isBlank c = true) : c.isAlphanum = false := by
  cases alphanumeric : c.isAlphanum with
  | false => rfl
  | true =>
    rw [not_isBlank_of_isAlphanum alphanumeric] at blank
    cases blank

theorem beq_eq_false_of_isBlank {c d : Char} (blank : isBlank c = true) (other : isBlank d = false) :
    (c == d) = false := by
  rw [beq_eq_false_iff_ne]
  rintro rfl
  rw [blank] at other
  cases other

theorem beq_eq_false_of_isAlphanum {c d : Char} (alphanumeric : c.isAlphanum = true)
    (other : d.isAlphanum = false) : (c == d) = false := by
  rw [beq_eq_false_iff_ne]
  rintro rfl
  rw [alphanumeric] at other
  cases other

theorem isAlphanum_of_isDigit {c : Char} (digit : c.isDigit = true) : c.isAlphanum = true := by
  simp [Char.isAlphanum, digit]

end PageMarkup
