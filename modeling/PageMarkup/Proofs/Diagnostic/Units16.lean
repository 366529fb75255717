import Mathlib.Order.Bounds.Defs
import Mathlib.Order.Monotone.Defs
import PageMarkup.Proofs.Diagnostic.Location
import PageMarkup.Proofs.Text.ByteOrder
import PageMarkup.Text.Units16

namespace PageMarkup

/-- The 16-bit code units of a character. From 0x10000 on it takes a pair of surrogates, which carry
    ten bits each. -/
def codeUnits (c : Char) : List UInt16 :=
  if c.toNat < 0x10000 then [.ofNat c.toNat]
  else
    [.ofNat (0xd800 + (c.toNat - 0x10000) / 0x400), .ofNat (0xdc00 + (c.toNat - 0x10000) % 0x400)]

def encode16 (text : List Char) : List UInt16 := text.flatMap codeUnits

def Source.cut16 (source : Source) (span : Span) : List UInt16 :=
  ((encode16 source.text).take (utf16Offset source.text span.stop)).drop
    (utf16Offset source.text span.start)

section Encoding

variable {c d : Char} {text other left right : List Char}

@[simp] theorem encode16_nil : encode16 [] = [] := rfl

@[simp] theorem encode16_cons (c : Char) (text : List Char) :
    encode16 (c :: text) = codeUnits c ++ encode16 text := List.flatMap_cons

@[simp] theorem encode16_append (left right : List Char) :
    encode16 (left ++ right) = encode16 left ++ encode16 right := List.flatMap_append

theorem length_codeUnits (c : Char) : (codeUnits c).length = units16 c := by
  unfold codeUnits units16
  split <;> rfl

theorem not_surrogate (c : Char) : c.toNat < 0xd800 ∨ 0xe000 ≤ c.toNat := by
  have valid : c.toNat < 0xd800 ∨ 0xdfff < c.toNat ∧ c.toNat < 0x110000 := c.valid
  omega

/-- No character has surrogates for its only code unit, so the first unit tells how many there are. -/
theorem codeUnits_append_inj {rest rest' : List UInt16}
    (same : codeUnits c ++ rest = codeUnits d ++ rest') : c = d ∧ rest = rest' := by
  have bound := Utf8.toNat_lt c
  have bound' := Utf8.toNat_lt d
  have plain := not_surrogate c
  have plain' := not_surrogate d
  unfold codeUnits at same
  split at same <;> split at same <;>
    simp only [List.cons_append, List.nil_append, List.cons.injEq, ← UInt16.toNat_inj,
      UInt16.toNat_ofNat'] at same
  · exact ⟨Char.toNat_inj.mp (by omega), same.2⟩
  · omega
  · omega
  · exact ⟨Char.toNat_inj.mp (by omega), same.2.2⟩

theorem encode16_injective (same : encode16 text = encode16 other) : text = other := by
  have nonempty (c : Char) : codeUnits c ≠ [] := by
    unfold codeUnits
    split <;> exact List.cons_ne_nil _ _
  induction text generalizing other with
  | nil =>
    cases other with
    | nil => rfl
    | cons d other => exact absurd (List.append_eq_nil_iff.mp same.symm).1 (nonempty d)
  | cons c text ih =>
    cases other with
    | nil => exact absurd (List.append_eq_nil_iff.mp same).1 (nonempty c)
    | cons d other =>
      obtain ⟨rfl, rest⟩ := codeUnits_append_inj same
      rw [ih rest]

@[simp] theorem utf16Offset_zero (text : List Char) : utf16Offset text 0 = 0 := by
  cases text <;> rfl

theorem utf16Offset_append (left right : List Char) (offset : Nat) :
    utf16Offset (left ++ right) (byteLength left + offset) =
      (encode16 left).length + utf16Offset right offset := by
  induction left with
  | nil => simp
  | cons c left ih =>
    have positive := c.utf8Size_pos
    have nonzero : byteLength (c :: left) + offset ≠ 0 := by
      rw [byteLength_cons]
      omega
    have behind : byteLength (c :: left) + offset - c.utf8Size = byteLength left + offset := by
      rw [byteLength_cons]
      omega
    rw [List.cons_append, utf16Offset, if_neg nonzero, behind, ih, encode16_cons,
      List.length_append, length_codeUnits, Nat.add_assoc]

theorem utf16Offset_byteLength (left right : List Char) :
    utf16Offset (left ++ right) (byteLength left) = (encode16 left).length := by
  have here := utf16Offset_append left right 0
  rwa [Nat.add_zero, utf16Offset_zero, Nat.add_zero] at here

theorem utf16Offset_past (text : List Char) (offset : Nat) :
    utf16Offset text (byteLength text + offset) = (encode16 text).length := by
  have whole := utf16Offset_append text [] offset
  rwa [List.append_nil, utf16Offset, Nat.add_zero] at whole

theorem utf16Offset_inside {offset : Nat} (begun : byteLength left < offset)
    (inside : offset ≤ byteLength (left ++ [c])) (right : List Char) :
    utf16Offset (left ++ [c] ++ right) offset = (encode16 (left ++ [c])).length := by
  rw [byteLength_append, byteLength_cons, byteLength_nil, Nat.add_zero] at inside
  obtain ⟨extra, rfl⟩ := Nat.exists_eq_add_of_lt begun
  have reached : extra + 1 - c.utf8Size = 0 := by omega
  rw [List.append_assoc, Nat.add_assoc, utf16Offset_append, List.cons_append, utf16Offset,
    if_neg (Nat.succ_ne_zero extra), reached, utf16Offset_zero, encode16_append, encode16_cons,
    List.length_append, List.length_append, length_codeUnits, encode16_nil, List.length_nil]

theorem utf16Offset_mono (text : List Char) : Monotone (utf16Offset text) := by
  intro offset offset' ordered
  induction text generalizing offset offset' with
  | nil => exact Nat.le_refl 0
  | cons c text ih =>
    rw [utf16Offset, utf16Offset]
    split
    · exact Nat.zero_le _
    · have nonzero : offset' ≠ 0 := by omega
      rw [if_neg nonzero]
      exact Nat.add_le_add_left (ih (Nat.sub_le_sub_right ordered _)) _

theorem exists_reaching {offset : Nat} (within : offset ≤ byteLength text) :
    ∃ left right, text = left ++ right ∧ offset ≤ byteLength left ∧
      (left = [] ∨ ∃ front c, left = front ++ [c] ∧ byteLength front < offset) := by
  induction text using List.reverseRecOn with
  | nil => exact ⟨[], [], rfl, within, .inl rfl⟩
  | append_singleton front c ih =>
    by_cases reached : offset ≤ byteLength front
    · obtain ⟨left, right, rfl, reaches, shortest⟩ := ih reached
      exact ⟨left, right ++ [c], List.append_assoc _ _ _, reaches, shortest⟩
    · exact ⟨front ++ [c], [], (List.append_nil _).symm, within, .inr ⟨front, c, rfl, by omega⟩⟩

end Encoding

namespace Source

variable {source : Source}

theorem exists_next {offset : Nat} (within : offset ≤ source.size) : ∃ next,
    IsLeast {boundary | source.isBoundary boundary = true ∧ offset ≤ boundary} next ∧
      utf16Offset source.text offset = utf16Offset source.text next := by
  rw [size_eq] at within
  obtain ⟨left, right, split, reaches, shortest⟩ := exists_reaching within
  have boundary := isBoundary_of_suffix? (suffix?_of_text_eq split)
  refine ⟨byteLength left, ⟨⟨boundary, reaches⟩, fun other ⟨boundary', reaches'⟩ => ?_⟩, ?_⟩
  · rcases shortest with rfl | ⟨front, c, rfl, short⟩
    · exact Nat.zero_le _
    · obtain ⟨rest, here⟩ := Option.isSome_iff_exists.mp boundary'
      obtain ⟨left', split', rfl⟩ := exists_before_of_suffix? here
      rw [split, List.append_assoc] at split'
      rcases List.append_eq_append_iff.mp split' with ⟨extra, rfl, others⟩ | ⟨extra, rfl, _⟩
      · cases extra with
        | nil =>
          rw [List.append_nil] at reaches'
          omega
        | cons d extra =>
          obtain rfl : c = d := (List.cons.inj others).1
          simp only [byteLength_append, byteLength_cons, byteLength_nil]
          omega
      · rw [byteLength_append] at short
        omega
  · rw [split, utf16Offset_byteLength]
    rcases shortest with rfl | ⟨front, c, rfl, short⟩
    · obtain rfl := Nat.le_zero.mp reaches
      simp
    · exact utf16Offset_inside short reaches right

theorem cut16_of_slice? {span : Span} {text : List Char} (slice : source.slice? span = some text) :
    source.cut16 span = encode16 text := by
  obtain ⟨left, right, split, rfl⟩ := exists_split_of_slice? slice
  have start : utf16Offset source.text (byteLength left) = (encode16 left).length := by
    rw [split, utf16Offset_byteLength]
  have stop : utf16Offset source.text (byteLength left + byteLength text) =
      (encode16 (left ++ text)).length := by
    rw [split, ← byteLength_append, ← List.append_assoc, utf16Offset_byteLength]
  rw [cut16, Span.around, start, stop, split, ← List.append_assoc, encode16_append _ right,
    List.take_left, encode16_append, List.drop_left]

theorem selects_of_slice? {span : Span} {text : List Char} (slice : source.slice? span = some text)
    (other : List Char) : encode16 other = source.cut16 span ↔ other = text := by
  rw [cut16_of_slice? slice]
  exact ⟨encode16_injective, congrArg encode16⟩

end Source

/-- Offsets of the source grow into offsets of its code units: each into that of the next boundary, and
    those behind the source into the number of all units. So a span that lies in the source selects
    the units of what it covers, and no other text has these units; and so does the span of every
    diagnostic. -/
theorem utf16Offset_selects (source : Source) :
    (∀ span : Span, span.Valid source → ∃ text, source.slice? span = some text ∧
      ∀ other, encode16 other = source.cut16 span ↔ other = text) ∧
    Monotone (utf16Offset source.text) ∧
    (∀ offset ≤ source.size, ∃ next,
      IsLeast {boundary | source.isBoundary boundary = true ∧ offset ≤ boundary} next ∧
        utf16Offset source.text offset = utf16Offset source.text next) ∧
    (∀ offset, source.size ≤ offset →
      utf16Offset source.text offset = (encode16 source.text).length) ∧
    ∀ compiler : Compiler, ∀ d ∈ (compiler.compile source).errors, ∃ text,
      source.slice? d.span = some text ∧
        ∀ other, encode16 other = source.cut16 d.span ↔ other = text := by
  have selects (span : Span) (valid : span.Valid source) : ∃ text,
      source.slice? span = some text ∧
        ∀ other, encode16 other = source.cut16 span ↔ other = text := by
    obtain ⟨text, slice⟩ := valid.exists_slice
    exact ⟨text, slice, Source.selects_of_slice? slice⟩
  refine ⟨selects, utf16Offset_mono source.text, fun offset => Source.exists_next,
    fun offset past => ?_, fun compiler d member => selects d.span ?_⟩
  · rw [Source.size_eq] at past
    obtain ⟨extra, rfl⟩ := Nat.exists_eq_add_of_le past
    exact utf16Offset_past source.text extra
  · exact Diagnostic.span_valid_of_mem_errors compiler source d member

end PageMarkup
