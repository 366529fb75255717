import PageMarkup.Command.FileTree
import PageMarkup.Proofs.Command.Path

namespace PageMarkup.FileTree

theorem bind_eq_ok {ε α β : Type} {first : Except ε α} {next : α → Except ε β} {b : β} :
    (first >>= next) = .ok b ↔ ∃ a, first = .ok a ∧ next a = .ok b := by
  cases first with
  | error error => exact ⟨nofun, nofun⟩
  | ok a => exact ⟨fun same => ⟨a, rfl, same⟩, fun ⟨_, rfl, same⟩ => same⟩

variable {tree after : FileTree} {place source target : Place} {path name content : String}
  {entry : Entry}

theorem step_eq_ok : tree.step source name = .ok target ↔
    tree.entry? source = some .directory ∧
      target = if name = "." then source else if name = ".." then source.parent
        else source.child name := by
  unfold step
  cases tree.entry? source with
  | none => simp
  | some entry => cases entry <;> simp [eq_comm]

theorem find?_eq_some {found : Entry} : tree.find? path = some found ↔
    ∃ place, tree.locate path = .ok place ∧ tree.entry? place = some found := by
  unfold find?
  cases tree.locate path <;> simp

section Writing

theorem entry?_put (nonempty : place.names ≠ []) (other : Place) :
    FileTree.entry? (tree.put place entry) other =
      if other = place then some entry else tree.entry? other := by
  unfold entry? put
  by_cases same : other = place
  · subst same
    simp [nonempty]
  · have different : (other == place) = false := beq_eq_false_iff_ne.mpr same
    rw [if_neg same, List.lookup_cons, different]

variable (nonempty : place.names ≠ []) (noDirectory : tree.entry? place ≠ some .directory)

include nonempty noDirectory

/-- A file that is put where no directory was changes no way through directories. -/
theorem step_put : (tree.put place (.text content)).step source name = .ok target ↔
    tree.step source name = .ok target := by
  rw [step_eq_ok, step_eq_ok, entry?_put nonempty]
  by_cases same : source = place
  · subst same
    simp [noDirectory]
  · rw [if_neg same]

theorem foldlM_put (names : List String) :
    names.foldlM (tree.put place (.text content)).step source = .ok target ↔
      names.foldlM tree.step source = .ok target := by
  induction names generalizing source with
  | nil => rfl
  | cons name names ih =>
    simp only [List.foldlM_cons, bind_eq_ok, step_put nonempty noDirectory, ih]

theorem locate_put (other : String) :
    (tree.put place (.text content)).locate other = .ok target ↔ tree.locate other = .ok target :=
  foldlM_put nonempty noDirectory _

theorem find?_put_of_locate {other : String} (located : tree.locate other = .ok place) :
    (tree.put place (.text content)).find? other = some (.text content) := by
  refine find?_eq_some.mpr ⟨place, (locate_put nonempty noDirectory other).mpr located, ?_⟩
  rw [entry?_put nonempty, if_pos rfl]

theorem find?_put_of_ne {other : String} (elsewhere : tree.locate other ≠ .ok place) :
    (tree.put place (.text content)).find? other = tree.find? other := by
  refine Option.ext fun found => ?_
  simp only [find?_eq_some, locate_put nonempty noDirectory, entry?_put nonempty]
  refine exists_congr fun target => and_congr_right fun located => ?_
  have different : target ≠ place := fun same => elsewhere (same ▸ located)
  rw [if_neg different]

end Writing

theorem locateForWriting_eq_ok (opened : tree.locateForWriting path = .ok place) :
    endsInSlash path = false ∧ tree.entry? place ≠ some .directory ∧
      ∃ names name directory, namesOf path = names ++ [name] ∧ name ≠ "." ∧ name ≠ ".." ∧
        names.foldlM tree.step (start path) = .ok directory ∧
        tree.step directory name = .ok place := by
  simp only [locateForWriting] at opened
  split at opened
  · obtain ⟨place, _, refused⟩ := bind_eq_ok.mp opened
    split at refused <;> cases refused
  · rename_i proper
    rw [not_or] at proper
    obtain ⟨directory, reached, opened⟩ := bind_eq_ok.mp opened
    obtain ⟨place, stepped, opened⟩ := bind_eq_ok.mp opened
    split at opened
    · cases opened
    · rename_i free
      rw [not_or, Bool.not_eq_true] at free
      cases opened
      have nonempty : namesOf path ≠ [] := fun none => proper.1 (by rw [none]; rfl)
      refine ⟨free.1, free.2, (namesOf path).dropLast, (namesOf path).getLastD ".", directory, ?_,
        proper.1, proper.2, reached, stepped⟩
      rw [List.getLastD_eq_getLast?, List.getLast?_eq_some_getLast nonempty, Option.getD_some,
        List.dropLast_concat_getLast]

theorem locate_of_locateForWriting (opened : tree.locateForWriting path = .ok place) :
    tree.locate path = .ok place ∧ place.names ≠ [] ∧ tree.entry? place ≠ some .directory := by
  obtain ⟨slash, free, names, name, directory, split, dot, dots, reached, stepped⟩ :=
    locateForWriting_eq_ok opened
  refine ⟨?_, ?_, free⟩
  · rw [locate, slash, split]
    simp only [Bool.false_eq_true, if_false, List.append_nil, List.foldlM_append]
    refine bind_eq_ok.mpr ⟨directory, reached, ?_⟩
    rw [List.foldlM_cons, stepped]
    rfl
  · obtain ⟨_, same⟩ := step_eq_ok.mp stepped
    rw [same, if_neg dot, if_neg dots]
    simp [Place.child]

theorem write_eq_ok (wrote : tree.write path content = .ok after) :
    ∃ place, tree.locate path = .ok place ∧ after.find? path = some (.text content) ∧
      (∀ other, after.entry? other = if other = place then some (.text content)
        else tree.entry? other) ∧
      ∀ other, tree.locate other ≠ .ok place → after.find? other = tree.find? other := by
  obtain ⟨place, opened, same⟩ := bind_eq_ok.mp wrote
  cases same
  obtain ⟨located, nonempty, noDirectory⟩ := locate_of_locateForWriting opened
  exact ⟨place, located, find?_put_of_locate nonempty noDirectory located, entry?_put nonempty,
    fun _ => find?_put_of_ne nonempty noDirectory⟩

section Reading

/-- A place that can be reached: all that it lies in are directories. -/
def Reachable (tree : FileTree) (place : Place) : Prop :=
  ∀ depth < place.names.length,
    tree.entry? { place with names := place.names.take depth } = some .directory

theorem entry?_of_names_nil (atTop : place.names = []) : tree.entry? place = some .directory := by
  unfold entry?
  rw [atTop]
  rfl

theorem Reachable.child (reachable : tree.Reachable place)
    (directory : tree.entry? place = some .directory) (name : String) :
    tree.Reachable (place.child name) := by
  intro depth inside
  simp only [Place.child, List.length_append, List.length_singleton] at inside ⊢
  rcases Nat.lt_succ_iff_lt_or_eq.mp inside with inside | rfl
  · rw [List.take_append_of_le_length (Nat.le_of_lt inside)]
    exact reachable depth inside
  · rw [List.take_append_of_le_length (Nat.le_refl _), List.take_length]
    exact directory

theorem Reachable.parent (reachable : tree.Reachable place) :
    tree.Reachable place.parent ∧ tree.entry? place.parent = some .directory := by
  obtain ⟨absolute, above, names⟩ := place
  rcases List.eq_nil_or_concat names with rfl | ⟨names, name, rfl⟩
  · have top : (Place.mk absolute above []).parent.names = [] := by cases absolute <;> rfl
    refine ⟨fun depth inside => ?_, entry?_of_names_nil top⟩
    rw [top] at inside
    cases inside
  · have up : (Place.mk absolute above (names.concat name)).parent = ⟨absolute, above, names⟩ := by
      simp [Place.parent]
    rw [up]
    constructor
    · intro depth inside
      change depth < names.length at inside
      have outer := reachable depth (by simp; omega)
      simpa [List.take_append_of_le_length (Nat.le_of_lt inside)] using outer
    · have outer := reachable names.length (by simp)
      simpa using outer

theorem Reachable.step (reachable : tree.Reachable source)
    (stepped : tree.step source name = .ok target) : tree.Reachable target := by
  obtain ⟨directory, rfl⟩ := step_eq_ok.mp stepped
  split
  · exact reachable
  · split
    · exact reachable.parent.1
    · exact reachable.child directory name

theorem Reachable.foldlM {names : List String} (reachable : tree.Reachable source)
    (went : names.foldlM tree.step source = .ok target) : tree.Reachable target := by
  induction names generalizing source with
  | nil =>
    cases went
    exact reachable
  | cons name names ih =>
    obtain ⟨next, stepped, went⟩ := bind_eq_ok.mp went
    exact ih (reachable.step stepped) went

theorem reachable_start (tree : FileTree) (path : String) : tree.Reachable (start path) := by
  intro depth inside
  unfold start at inside
  split at inside <;> cases inside

theorem exists_last_name {names : List String} (reachable : tree.Reachable source)
    (directory : tree.entry? source = some .directory)
    (went : names.foldlM tree.step source = .ok target)
    (file : tree.entry? target ≠ some .directory) :
    ∃ init name last, names = init ++ [name] ∧ name ≠ "." ∧ name ≠ ".." ∧
      init.foldlM tree.step source = .ok last ∧ tree.step last name = .ok target := by
  rcases List.eq_nil_or_concat names with rfl | ⟨init, name, rfl⟩
  · cases went
    exact absurd directory file
  · rw [List.concat_eq_append, List.foldlM_append] at went
    obtain ⟨last, entered, went⟩ := bind_eq_ok.mp went
    obtain ⟨target, stepped, same⟩ := bind_eq_ok.mp went
    cases same
    have within := reachable.foldlM entered
    obtain ⟨directory, rfl⟩ := step_eq_ok.mp stepped
    refine ⟨init, name, last, List.concat_eq_append, ?_, ?_, entered, stepped⟩
    · rintro rfl
      exact file directory
    · rintro rfl
      -- above a place that was reached there is a directory, and no file
      exact file within.parent.2

theorem entry?_start (tree : FileTree) (path : String) :
    tree.entry? (start path) = some .directory := by
  refine entry?_of_names_nil ?_
  unfold start
  split <;> rfl

theorem namesOf_of_file (located : tree.locate path = .ok place)
    (file : tree.entry? place ≠ some .directory) : endsInSlash path = false ∧
      ∃ init name last, namesOf path = init ++ [name] ∧ name ≠ "." ∧ name ≠ ".." ∧
        init.foldlM tree.step (start path) = .ok last ∧ tree.step last name = .ok place := by
  obtain ⟨init, name, last, split, dot, dots, went, stepped⟩ :=
    exists_last_name (tree.reachable_start path) (tree.entry?_start path) located file
  cases slash : endsInSlash path with
  | true =>
    rw [slash, if_pos rfl] at split
    obtain ⟨_, same⟩ := List.append_inj' split rfl
    exact absurd (List.singleton_inj.mp same).symm dot
  | false =>
    simp only [slash, Bool.false_eq_true, if_false, List.append_nil] at split
    exact ⟨rfl, init, name, last, split, dot, dots, went, stepped⟩

theorem locateForWriting_iff : tree.locateForWriting path = .ok place ↔
    tree.locate path = .ok place ∧ tree.entry? place ≠ some .directory := by
  constructor
  · intro opened
    obtain ⟨located, _, file⟩ := locate_of_locateForWriting opened
    exact ⟨located, file⟩
  · rintro ⟨located, file⟩
    obtain ⟨slash, init, name, last, split, dot, dots, went, stepped⟩ := namesOf_of_file located file
    have proper : ¬ (name = "." ∨ name = "..") := not_or.mpr ⟨dot, dots⟩
    have free : ¬ (endsInSlash path = true ∨ tree.entry? place = some .directory) := by
      rw [slash]
      exact not_or.mpr ⟨Bool.false_ne_true, file⟩
    simp only [locateForWriting, split, List.getLastD_concat, if_neg proper, List.dropLast_concat]
    refine bind_eq_ok.mpr ⟨last, went, bind_eq_ok.mpr ⟨place, stepped, ?_⟩⟩
    rw [if_neg free]

end Reading

section Names

theorem splits_of_namesOf {init : List String} (split : namesOf path = init ++ [name])
    (noSlash : endsInSlash path = false) :
    ∃ directory, Path.Splits path directory name.toList ∧ name.toList ≠ [] := by
  obtain ⟨directory, last, splits⟩ := Path.exists_splits path
  obtain ⟨whole, plain, ends⟩ := splits
  have nonempty : last ≠ [] := by
    rintro rfl
    rcases ends with rfl | ⟨front, rfl⟩
    · rw [namesOf, whole] at split
      simp at split
    · rw [endsInSlash, whole] at noSlash
      simp at noSlash
  have pieces : ∃ others, path.toList.splitOn '/' = others ++ [last] := by
    rcases ends with rfl | ⟨front, rfl⟩
    · exact ⟨[], by rw [whole, List.nil_append, List.splitOn_eq_singleton plain, List.nil_append]⟩
    · refine ⟨front.splitOn '/', ?_⟩
      rw [whole, List.append_assoc, List.singleton_append, List.splitOn_append_cons_self,
        List.splitOn_eq_singleton plain]
  obtain ⟨others, pieces⟩ := pieces
  rw [namesOf, pieces, List.filter_append, List.map_append] at split
  have kept : [last].filter (· ≠ []) = [last] := by simp [nonempty]
  rw [kept] at split
  obtain ⟨_, same⟩ := List.append_inj' split rfl
  rw [← List.singleton_inj.mp same, String.toList_ofList]
  exact ⟨directory, ⟨whole, plain, ends⟩, nonempty⟩

theorem exists_child_of_file (located : tree.locate path = .ok place)
    (file : tree.entry? place ≠ some .directory) :
    ∃ (parent : Place) (name : String) (directory : List Char),
      place = parent.child name ∧ Path.Splits path directory name.toList ∧
      Path.isFileName name.toList = true := by
  obtain ⟨noSlash, init, name, parent, split, dot, dots, _, stepped⟩ := namesOf_of_file located file
  obtain ⟨directory, splits, nonempty⟩ := splits_of_namesOf split noSlash
  obtain ⟨_, same⟩ := step_eq_ok.mp stepped
  rw [if_neg dot, if_neg dots] at same
  refine ⟨parent, name, directory, same, splits, ?_⟩
  have dot : name.toList ≠ ['.'] := fun same => dot (String.toList_inj.mp same)
  have dots : name.toList ≠ ['.', '.'] := fun same => dots (String.toList_inj.mp same)
  simp [Path.isFileName, nonempty, dot, dots]

end Names

theorem exists_stem_of_file (located : tree.locate path = .ok place)
    (file : tree.entry? place ≠ some .directory) (extension : String) :
    (∃ stem, Path.stem? path = some stem) ∧
      ∃ derived, Path.withExtension? path extension = some derived := by
  obtain ⟨_, name, _, _, splits, named⟩ := exists_child_of_file located file
  have split := Path.splitName_of_splits splits
  constructor
  · simp only [Path.stem?, split, named, if_true]
    exact ⟨_, rfl⟩
  · simp only [Path.withExtension?, split, named, if_true]
    split <;> exact ⟨_, rfl⟩

end PageMarkup.FileTree
