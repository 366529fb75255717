import PageMarkup.Source

namespace PageMarkup

@[simp] theorem byteLength_nil : byteLength [] = 0 := rfl

@[simp] theorem byteLength_cons (c : Char) (text : List Char) :
    byteLength (c :: text) = c.utf8Size + byteLength text := rfl

theorem byteLength_eq_zero {text : List Char} : byteLength text = 0 ↔ text = [] := by
  cases text with
  | nil => simp
  | cons c text =>
    have positive := c.utf8Size_pos
    simp only [byteLength_cons, reduceCtorEq, iff_false]
    omega

theorem byteLength_pos {text : List Char} (nonempty : text ≠ []) : 0 < byteLength text :=
  Nat.pos_of_ne_zero fun zero => nonempty (byteLength_eq_zero.mp zero)

theorem dropBytes?_eq_some {text rest : List Char} {n : Nat} (drop : dropBytes? text n = some rest) :
    ∃ left, text = left ++ rest ∧ byteLength left = n := by
  induction text generalizing n with
  | nil =>
    cases n with
    | zero =>
      cases drop
      exact ⟨[], rfl, rfl⟩
    | succ n => cases drop
  | cons c text ih =>
    cases n with
    | zero =>
      cases drop
      exact ⟨[], rfl, rfl⟩
    | succ n =>
      rw [dropBytes?] at drop
      split at drop
      · obtain ⟨left, same, length⟩ := ih drop
        refine ⟨c :: left, by rw [same]; rfl, ?_⟩
        rw [byteLength_cons, length]
        omega
      · cases drop

theorem takeBytes_append (left right : List Char) :
    takeBytes (left ++ right) (byteLength left) = left := by
  induction left with
  | nil =>
    cases right with
    | nil => rfl
    | cons c right =>
      have positive := c.utf8Size_pos
      simp only [List.nil_append, byteLength_nil, takeBytes]
      rw [if_neg (by omega)]
  | cons c left ih =>
    rw [List.cons_append, takeBytes, byteLength_cons, if_pos (by omega), Nat.add_sub_cancel_left, ih]

def Span.around (start : Nat) (text : List Char) : Span := ⟨start, start + byteLength text⟩

namespace Source

variable {source : Source} {offset : Nat} {left middle right text : List Char}

theorem suffix?_zero (source : Source) : source.suffix? 0 = some source.text := by
  rw [suffix?_eq, dropBytes?_zero]

theorem exists_before_of_suffix? (here : source.suffix? offset = some right) :
    ∃ left, source.text = left ++ right ∧ byteLength left = offset := by
  rw [suffix?_eq] at here
  exact dropBytes?_eq_some here

theorem suffix?_add (here : source.suffix? offset = some (left ++ right)) :
    source.suffix? (offset + byteLength left) = some right := by
  obtain ⟨before, split, length⟩ := exists_before_of_suffix? here
  rw [← length, ← byteLength_append]
  apply suffix?_of_text_eq
  rw [split, List.append_assoc]

theorem suffix?_cons {c : Char} (here : source.suffix? offset = some (c :: right)) :
    source.suffix? (offset + c.utf8Size) = some right := by
  have here : source.suffix? offset = some ([c] ++ right) := here
  exact suffix?_add here

theorem size_of_suffix? (here : source.suffix? offset = some text) :
    source.size = offset + byteLength text := by
  obtain ⟨before, split, length⟩ := exists_before_of_suffix? here
  rw [size_eq, split, byteLength_append, length]

theorem rest_of_suffix? (here : source.suffix? offset = some text) : source.rest offset = text := by
  rw [rest, here]
  rfl

theorem isBoundary_of_suffix? (here : source.suffix? offset = some text) :
    source.isBoundary offset = true := by
  rw [isBoundary, here]
  rfl

theorem size_le_iff (here : source.suffix? offset = some text) :
    source.size ≤ offset ↔ text = [] := by
  rw [size_of_suffix? here, ← byteLength_eq_zero]
  omega

theorem slice?_around (here : source.suffix? offset = some (left ++ right)) :
    source.slice? (.around offset left) = some left := by
  have stop := isBoundary_of_suffix? (suffix?_add here)
  have ordered : offset ≤ offset + byteLength left := Nat.le_add_right _ _
  simp only [slice?, Span.around, Span.length, stop, ordered, decide_true, Bool.and_true, if_true,
    here, Option.map_some, Nat.add_sub_cancel_left, takeBytes_append]

theorem slice?_eq_some {span : Span} (slice : source.slice? span = some text) :
    span.start ≤ span.stop ∧ span.stop ≤ source.size ∧ source.isBoundary span.start = true ∧
      source.isBoundary span.stop = true := by
  unfold slice? at slice
  split at slice
  · rename_i valid
    rw [Bool.and_eq_true, decide_eq_true_eq] at valid
    obtain ⟨right, here, same⟩ := Option.map_eq_some_iff.mp slice
    obtain ⟨after, there⟩ := Option.isSome_iff_exists.mp valid.2
    have length := size_of_suffix? there
    exact ⟨valid.1, by omega, isBoundary_of_suffix? here, valid.2⟩
  · cases slice

theorem exists_covered {span : Span} (ordered : span.start ≤ span.stop)
    (boundary : source.isBoundary span.start = true)
    (boundary' : source.isBoundary span.stop = true) : ∃ left covered right,
      source.text = left ++ (covered ++ right) ∧ span = .around (byteLength left) covered := by
  obtain ⟨start, stop⟩ := span
  obtain ⟨back, here⟩ := Option.isSome_iff_exists.mp boundary
  obtain ⟨back', there⟩ := Option.isSome_iff_exists.mp boundary'
  obtain ⟨left, split, rfl⟩ := exists_before_of_suffix? here
  obtain ⟨left', split', rfl⟩ := exists_before_of_suffix? there
  rw [split] at split'
  rcases List.append_eq_append_iff.mp split' with ⟨covered, rfl, rfl⟩ | ⟨extra, rfl, rfl⟩
  · exact ⟨left, covered, back', split, by rw [byteLength_append]; rfl⟩
  · have empty : byteLength extra = 0 := by
      have ordered : byteLength (left' ++ extra) ≤ byteLength left' := ordered
      rw [byteLength_append] at ordered
      omega
    obtain rfl := byteLength_eq_zero.mp empty
    rw [List.append_nil] at split ⊢
    exact ⟨left', [], back, split, rfl⟩

theorem exists_split_of_slice? {span : Span} (slice : source.slice? span = some text) :
    ∃ left right, source.text = left ++ (text ++ right) ∧ span = .around (byteLength left) text := by
  obtain ⟨ordered, _, boundary, boundary'⟩ := slice?_eq_some slice
  obtain ⟨left, covered, right, split, rfl⟩ := exists_covered ordered boundary boundary'
  rw [slice?_around (suffix?_of_text_eq split)] at slice
  cases slice
  exact ⟨left, right, split, rfl⟩

end Source

end PageMarkup
