import Mathlib.Data.List.Sort
import PageMarkup.KeyMap

namespace PageMarkup.KeyMap

variable {α β : Type}

theorem mem_keys_iff (map : KeyMap α) {key : String} :
    key ∈ map.keys ↔ ∃ value, map.get? key = some value := by
  simp [keys, get?_eq_some_iff]

theorem sorted_keys (map : KeyMap α) : map.keys.Pairwise (· < ·) := map.sorted.map _ fun _ _ => id

@[simp] theorem keys_empty : (empty : KeyMap α).keys = [] := rfl

@[simp] theorem mem_keys_insert (map : KeyMap α) (key other : String) (value : α) :
    other ∈ (map.insert key value).keys ↔ other ∈ map.keys ∨ other = key := by
  simp only [mem_keys_iff, get?_insert]
  by_cases same : other = key
  · simp [same]
  · simp [same]

theorem ext_get? {map other : KeyMap α} (same : ∀ key, map.get? key = other.get? key) :
    map = other := by
  obtain ⟨entries, sorted⟩ := map
  obtain ⟨entries', sorted'⟩ := other
  have irreflexive : Std.Irrefl fun a b : String × α => a.1 < b.1 :=
    ⟨fun entry => String.lt_irrefl entry.1⟩
  have antisymmetric : Std.Antisymm fun a b : String × α => a.1 < b.1 :=
    ⟨fun _ _ less greater => absurd (String.lt_trans less greater) (String.lt_irrefl _)⟩
  have members : entries = entries' := by
    refine sorted.eq_of_mem_iff sorted' fun entry => ?_
    rw [← get?_eq_some_iff ⟨entries, sorted⟩, ← get?_eq_some_iff ⟨entries', sorted'⟩, same]
  subst members
  rfl

theorem ofList_append_singleton (entries : List (String × α)) (entry : String × α) :
    ofList (entries ++ [entry]) = (ofList entries).insert entry.1 entry.2 := by
  rw [ofList, List.foldl_append]
  rfl

theorem ext_entries {map other : KeyMap α} (same : map.entries = other.entries) : map = other := by
  cases map
  cases other
  cases same
  rfl

theorem eq_empty_of_isEmpty {map : KeyMap α} (none : map.isEmpty = true) : map = empty :=
  ext_entries (List.isEmpty_iff.mp none)

theorem insertIn_of_larger {key : String} (value : α) {entries : List (String × α)}
    (above : ∀ entry ∈ entries, entry.1 < key) :
    insertIn key value entries = entries ++ [(key, value)] := by
  induction entries with
  | nil => rfl
  | cons entry entries ih =>
    obtain ⟨less, above⟩ := List.forall_mem_cons.mp above
    have notAbove : ¬ key < entry.1 := fun greater =>
      String.lt_irrefl key (String.lt_trans greater less)
    have different : key ≠ entry.1 := fun same => String.lt_irrefl key (same ▸ less)
    rw [insertIn, if_neg notAbove, if_neg different, ih above, List.cons_append]

theorem entries_insertAll {entries : List (String × α)}
    (sorted : entries.Pairwise (fun a b => a.1 < b.1)) (map : KeyMap α)
    (above : ∀ old ∈ map.entries, ∀ entry ∈ entries, old.1 < entry.1) :
    (entries.foldl (fun map entry => map.insert entry.1 entry.2) map).entries =
      map.entries ++ entries := by
  induction entries generalizing map with
  | nil => exact (List.append_nil _).symm
  | cons entry entries ih =>
    obtain ⟨less, sorted⟩ := List.pairwise_cons.mp sorted
    have inserted : (map.insert entry.1 entry.2).entries = map.entries ++ [entry] :=
      insertIn_of_larger _ fun old member => above old member entry List.mem_cons_self
    rw [List.foldl_cons, ih sorted, inserted, List.append_assoc, List.singleton_append]
    intro old member new listed
    rw [inserted, List.mem_append, List.mem_singleton] at member
    rcases member with before | rfl
    · exact above old before new (List.mem_cons_of_mem _ listed)
    · exact less new listed

theorem ofList_entries (map : KeyMap α) : ofList map.entries = map :=
  ext_entries (entries_insertAll map.sorted empty nofun)

def filterMap (f : String → α → Option β) (map : KeyMap α) : KeyMap β where
  entries := map.entries.filterMap fun entry => (f entry.1 entry.2).map (entry.1, ·)
  sorted := by
    refine map.sorted.filterMap _ fun entry other less _ given _ given' => ?_
    obtain ⟨_, _, rfl⟩ := Option.map_eq_some_iff.mp given
    obtain ⟨_, _, rfl⟩ := Option.map_eq_some_iff.mp given'
    exact less

@[simp] theorem get?_filterMap (f : String → α → Option β) (map : KeyMap α) (key : String) :
    (map.filterMap f).get? key = (map.get? key).bind (f key) := by
  refine Option.ext fun value => ?_
  rw [get?_eq_some_iff, Option.bind_eq_some_iff]
  simp only [filterMap, List.mem_filterMap, Option.map_eq_some_iff, get?_eq_some_iff]
  constructor
  · rintro ⟨⟨key, old⟩, member, value, given, ⟨⟩⟩
    exact ⟨old, member, given⟩
  · rintro ⟨old, member, given⟩
    exact ⟨(key, old), member, value, given, rfl⟩

end PageMarkup.KeyMap
