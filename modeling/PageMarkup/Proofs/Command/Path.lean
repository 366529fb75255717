import PageMarkup.Command.Path
import PageMarkup.Proofs.Text.Runs

namespace PageMarkup.Path

variable {path target extension : String} {directory directory' name name' stem : List Char}

structure Splits (path : String) (directory name : List Char) : Prop where
  whole : path.toList = directory ++ name
  plain : '/' ∉ name
  ends : directory = [] ∨ ∃ front, directory = front ++ ['/']

theorem exists_splits (path : String) : ∃ directory name, Splits path directory name := by
  obtain ⟨directory, name, whole, plain, ends⟩ := exists_last_piece '/' path.toList
  exact ⟨directory, name, whole, plain, ends⟩

theorem splitName_of_splits (splits : Splits path directory name) :
    splitName path = (directory, name) := by
  have behind : (path.toList.reverse.takeWhile (· ≠ '/')).reverse = name := by
    rw [splits.whole, takeWhile_reverse splits.ends splits.plain, List.reverse_reverse]
  rw [splitName, behind, splits.whole, List.length_append, Nat.add_sub_cancel, List.take_left]

theorem Splits.unique (splits : Splits path directory name)
    (splits' : Splits path directory' name') : directory = directory' ∧ name = name' := by
  have same := (splitName_of_splits splits).symm.trans (splitName_of_splits splits')
  exact Prod.mk.inj same

theorem splitExtension_append {extension : List Char} (plain : '.' ∉ extension)
    (nonempty : stem ≠ []) :
    splitExtension (stem ++ '.' :: extension) = (stem, some extension) := by
  have split : stem ++ '.' :: extension = (stem ++ ['.']) ++ extension := by simp
  have behind : ((stem ++ '.' :: extension).reverse.takeWhile (· ≠ '.')).reverse = extension := by
    rw [split, takeWhile_reverse (.inr ⟨stem, rfl⟩) plain, List.reverse_reverse]
  have length : (stem ++ '.' :: extension).length = stem.length + 1 + extension.length := by
    rw [split, List.length_append, List.length_append, List.length_singleton]
  have before : (stem ++ '.' :: extension).take
      ((stem ++ '.' :: extension).length - extension.length - 1) = stem := by
    rw [length, Nat.add_sub_cancel, Nat.add_sub_cancel, List.take_left]
  rw [splitExtension, behind, before, if_neg]
  rw [length, List.isEmpty_iff]
  rintro (short | empty)
  · omega
  · exact nonempty empty

theorem splitExtension_cases (name : List Char) : splitExtension name = (name, none) ∨
    ∃ stem extension, stem ≠ [] ∧ '.' ∉ extension ∧ name = stem ++ '.' :: extension := by
  obtain ⟨left, right, rfl, plain, ends⟩ := exists_last_piece '.' name
  have behind := takeWhile_reverse ends plain
  rcases ends with rfl | ⟨stem, rfl⟩
  · refine .inl ?_
    rw [splitExtension, behind, List.reverse_reverse, if_pos (.inl rfl)]
  · by_cases nonempty : stem = []
    · subst nonempty
      refine .inl ?_
      rw [splitExtension, behind, List.reverse_reverse, if_pos]
      simp
    · exact .inr ⟨stem, right, nonempty, plain, by simp⟩

/-- The last name of the path is a stem with this extension. A dot at the front of the name begins no
    extension, and a single dot takes none. -/
def HasExtension (path extension : String) : Prop :=
  ∃ directory stem, Splits path directory (stem ++ '.' :: extension.toList) ∧ stem ≠ [] ∧ stem ≠ ['.']

theorem isFileName_append (nonempty : stem ≠ []) (proper : stem ≠ ['.']) (extension : List Char) :
    isFileName (stem ++ '.' :: extension) = true := by
  have positive := List.length_pos_iff.mpr nonempty
  have dot : stem ++ '.' :: extension ≠ ['.'] := by
    intro same
    have length := congrArg List.length same
    rw [List.length_append, List.length_cons, List.length_singleton] at length
    omega
  have dots : stem ++ '.' :: extension ≠ ['.', '.'] := by
    intro same
    change stem ++ '.' :: extension = ['.'] ++ ['.'] at same
    have length := congrArg List.length same
    rw [List.length_append, List.length_cons, List.length_append, List.length_singleton] at length
    have short : stem.length = ['.'].length := by
      rw [List.length_singleton]
      omega
    exact proper (List.append_inj_left same short)
  simp [isFileName, dot, dots]

theorem withExtension?_eq_self (plain : '.' ∉ extension.toList) (has : HasExtension path extension) :
    withExtension? path extension = some path := by
  obtain ⟨directory, stem, splits, nonempty, proper⟩ := has
  rw [withExtension?, splitName_of_splits splits]
  simp only [isFileName_append nonempty proper, if_true, splitExtension_append plain nonempty]
  split
  · rename_i dot
    exact absurd (congrArg Prod.fst dot) proper
  · rename_i same
    cases same
    rw [List.append_assoc, ← splits.whole, String.ofList_toList]

theorem hasExtension_of_withExtension? (plain : '/' ∉ extension.toList)
    (extended : withExtension? path extension = some target)
    (splits : Splits path directory name) (splits' : Splits target directory' name) :
    HasExtension path extension := by
  have kept {last : List Char} (noSlash : '/' ∉ last)
      (same : some (String.ofList (directory ++ last)) = some target) : last = name := by
    have splits'' : Splits target directory last :=
      ⟨by rw [← Option.some.inj same, String.toList_ofList], noSlash, splits.ends⟩
    exact (splits''.unique splits').2
  rw [withExtension?, splitName_of_splits splits] at extended
  cases named : isFileName name with
  | false => simp [named] at extended
  | true =>
    simp only [named, if_true] at extended
    rcases splitExtension_cases name with whole | ⟨stem, old, nonempty, dotless, rfl⟩
    · rw [whole] at extended
      simp only [List.append_assoc] at extended
      have longer := kept (by simp [splits.plain, plain]) extended
      simp at longer
    · rw [splitExtension_append dotless nonempty] at extended
      split at extended
      · -- the parent directory is no name of a file
        have parent := kept (by simp) extended
        rw [← parent] at named
        cases named
      · rename_i other same
        cases same
        rw [List.append_assoc] at extended
        have slashless : '/' ∉ stem := fun member => splits.plain (List.mem_append_left _ member)
        have again := kept (by simp [slashless, plain]) extended
        refine ⟨directory, stem, by rwa [again], nonempty, ?_⟩
        rintro rfl
        exact other old rfl rfl

end PageMarkup.Path
