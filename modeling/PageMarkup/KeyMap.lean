namespace PageMarkup

/-- A finite map from names, listed by name in code point order. Each map has one such list, so two
    maps that answer alike are equal. -/
structure KeyMap (α : Type) where
  entries : List (String × α)
  sorted : entries.Pairwise (fun a b => a.1 < b.1)
  deriving DecidableEq

namespace KeyMap

variable {α : Type}

def lookupIn (key : String) : List (String × α) → Option α
  | [] => none
  | (k, value) :: rest => if k = key then some value else lookupIn key rest

def insertIn (key : String) (value : α) : List (String × α) → List (String × α)
  | [] => [(key, value)]
  | (k, old) :: rest =>
    if key < k then (key, value) :: (k, old) :: rest
    else if key = k then (key, value) :: rest
    else (k, old) :: insertIn key value rest

theorem mem_insertIn {key : String} {value : α} {entry : String × α} {entries : List (String × α)}
    (member : entry ∈ insertIn key value entries) : entry = (key, value) ∨ entry ∈ entries := by
  induction entries with
  | nil => simpa [insertIn] using member
  | cons head rest ih =>
    obtain ⟨k, old⟩ := head
    rw [insertIn] at member
    split at member
    · simpa using member
    · split at member
      · rcases List.mem_cons.mp member with same | inRest
        · exact .inl same
        · exact .inr (List.mem_cons_of_mem _ inRest)
      · rcases List.mem_cons.mp member with same | inRest
        · exact .inr (same ▸ List.mem_cons_self)
        · exact (ih inRest).imp_right (List.mem_cons_of_mem _)

theorem pairwise_insertIn (key : String) (value : α) {entries : List (String × α)}
    (sorted : entries.Pairwise (fun a b => a.1 < b.1)) :
    (insertIn key value entries).Pairwise (fun a b => a.1 < b.1) := by
  induction entries with
  | nil => simp [insertIn]
  | cons head rest ih =>
    obtain ⟨k, old⟩ := head
    have ⟨above, tail⟩ := List.pairwise_cons.mp sorted
    rw [insertIn]
    split
    · rename_i less
      refine List.pairwise_cons.mpr ⟨fun entry member => ?_, sorted⟩
      rcases List.mem_cons.mp member with rfl | inRest
      · exact less
      · exact String.lt_trans less (above _ inRest)
    · rename_i notLess
      split
      · rename_i same
        subst same
        exact List.pairwise_cons.mpr ⟨above, tail⟩
      · rename_i different
        refine List.pairwise_cons.mpr ⟨fun entry member => ?_, ih tail⟩
        rcases mem_insertIn member with rfl | inRest
        · have le : k ≤ key := String.not_lt.mp notLess
          exact String.not_le.mp fun ge => different (String.le_antisymm ge le)
        · exact above _ inRest

def empty : KeyMap α := ⟨[], .nil⟩

instance : Inhabited (KeyMap α) := ⟨empty⟩

instance : EmptyCollection (KeyMap α) := ⟨empty⟩

def get? (map : KeyMap α) (key : String) : Option α := lookupIn key map.entries

def contains (map : KeyMap α) (key : String) : Bool := (map.get? key).isSome

def insert (map : KeyMap α) (key : String) (value : α) : KeyMap α :=
  ⟨insertIn key value map.entries, pairwise_insertIn key value map.sorted⟩

/-- A key that occurs twice keeps its last value. -/
def ofList (entries : List (String × α)) : KeyMap α :=
  entries.foldl (fun map entry => map.insert entry.1 entry.2) empty

def keys (map : KeyMap α) : List String := map.entries.map (·.1)

def size (map : KeyMap α) : Nat := map.entries.length

def isEmpty (map : KeyMap α) : Bool := map.entries.isEmpty

theorem lookupIn_insertIn_self (key : String) (value : α) (entries : List (String × α)) :
    lookupIn key (insertIn key value entries) = some value := by
  induction entries with
  | nil => simp [insertIn, lookupIn]
  | cons head rest ih =>
    obtain ⟨k, old⟩ := head
    rw [insertIn]
    split
    · simp [lookupIn]
    · split
      · simp [lookupIn]
      · rename_i different
        simp [lookupIn, Ne.symm different, ih]

theorem lookupIn_insertIn_of_ne {key other : String} (different : other ≠ key) (value : α)
    (entries : List (String × α)) :
    lookupIn other (insertIn key value entries) = lookupIn other entries := by
  induction entries with
  | nil => simp [insertIn, lookupIn, Ne.symm different]
  | cons head rest ih =>
    obtain ⟨k, old⟩ := head
    rw [insertIn]
    split
    · simp [lookupIn, Ne.symm different]
    · split
      · rename_i same
        subst same
        simp [lookupIn, Ne.symm different]
      · simp [lookupIn, ih]

@[simp] theorem get?_empty (key : String) : (empty : KeyMap α).get? key = none := rfl

@[simp] theorem get?_insert_self (map : KeyMap α) (key : String) (value : α) :
    (map.insert key value).get? key = some value :=
  lookupIn_insertIn_self key value map.entries

theorem get?_insert_of_ne (map : KeyMap α) {key other : String} (different : other ≠ key)
    (value : α) : (map.insert key value).get? other = map.get? other :=
  lookupIn_insertIn_of_ne different value map.entries

theorem get?_insert (map : KeyMap α) (key other : String) (value : α) :
    (map.insert key value).get? other = if other = key then some value else map.get? other := by
  split
  · rename_i same
    rw [same, get?_insert_self]
  · rename_i different
    exact get?_insert_of_ne map different value

theorem lookupIn_eq_some_of_mem {key : String} {value : α} {entries : List (String × α)}
    (sorted : entries.Pairwise (fun a b => a.1 < b.1)) (member : (key, value) ∈ entries) :
    lookupIn key entries = some value := by
  induction entries with
  | nil => simp at member
  | cons head rest ih =>
    obtain ⟨k, old⟩ := head
    have ⟨above, tail⟩ := List.pairwise_cons.mp sorted
    rcases List.mem_cons.mp member with same | inRest
    · cases same
      simp [lookupIn]
    · have less : k < key := above _ inRest
      have different : k ≠ key := fun same => String.lt_irrefl k (same ▸ less)
      simp [lookupIn, different, ih tail inRest]

theorem mem_of_lookupIn_eq_some {key : String} {value : α} {entries : List (String × α)}
    (found : lookupIn key entries = some value) : (key, value) ∈ entries := by
  induction entries with
  | nil => simp [lookupIn] at found
  | cons head rest ih =>
    obtain ⟨k, old⟩ := head
    rw [lookupIn] at found
    split at found
    · rename_i same
      subst same
      cases found
      exact List.mem_cons_self
    · exact List.mem_cons_of_mem _ (ih found)

theorem get?_eq_some_iff (map : KeyMap α) {key : String} {value : α} :
    map.get? key = some value ↔ (key, value) ∈ map.entries :=
  ⟨mem_of_lookupIn_eq_some, lookupIn_eq_some_of_mem map.sorted⟩

end KeyMap

end PageMarkup
