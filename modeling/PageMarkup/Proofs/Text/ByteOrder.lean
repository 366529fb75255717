import Mathlib.Algebra.Group.Nat.Defs

namespace PageMarkup

def bytesOf (text : String) : List UInt8 := text.toUTF8.data.toList

theorem bytesOf_eq (text : String) : bytesOf text = text.toList.flatMap String.utf8EncodeChar := by
  have bytes : (List.utf8Encode text.toList).data.toList =
      text.toList.flatMap String.utf8EncodeChar := by simp [List.utf8Encode]
  rw [bytesOf, String.toUTF8_eq_toByteArray, ← bytes, String.utf8Encode_toList]

namespace Utf8

/-- The last digits of a code point to the base 64, in the bytes that follow the first one. -/
def continuation (code : Nat) : (count : Nat) → List UInt8
  | 0 => []
  | count + 1 => .ofNat (code / 64 ^ count % 64 + 0x80) :: continuation code count

def following (code : Nat) : Nat :=
  if code ≤ 0x7f then 0 else if code ≤ 0x7ff then 1 else if code ≤ 0xffff then 2 else 3

def marker : (count : Nat) → Nat
  | 0 => 0
  | 1 => 0xc0
  | 2 => 0xe0
  | _ => 0xf0

def lead (code : Nat) : Nat := marker (following code) + code / 64 ^ following code

variable {code other : Nat} {left right : List UInt8}

theorem toNat_lt (c : Char) : c.toNat < 0x110000 := by
  have valid := c.valid
  simp only [UInt32.isValidChar, Nat.isValidChar] at valid
  show c.val.toNat < 0x110000
  omega

theorem encode_eq (c : Char) :
    String.utf8EncodeChar c = .ofNat (lead c.toNat) :: continuation c.toNat (following c.toNat) := by
  have bound := toNat_lt c
  have code : c.val.toNat = c.toNat := rfl
  -- the digit in the first byte is masked in the encoding, but it is small enough anyway
  simp only [String.utf8EncodeChar, lead, following, code]
  split
  · simp [marker, continuation]
  · split
    · have digit : c.toNat / 64 % 32 = c.toNat / 64 := by omega
      simp [marker, continuation, digit, Nat.add_comm]
    · split
      · have digit : c.toNat / 4096 % 16 = c.toNat / 4096 := by omega
        simp [marker, continuation, digit, Nat.add_comm]
      · have digit : c.toNat / 262144 % 8 = c.toNat / 262144 := by omega
        simp [marker, continuation, digit, Nat.add_comm]

theorem lead_cases (bound : code < 0x110000) :
    (following code = 0 ∧ lead code = code ∧ code ≤ 0x7f) ∨
    (following code = 1 ∧ lead code = 0xc0 + code / 64 ∧ 0x7f < code ∧ code ≤ 0x7ff) ∨
    (following code = 2 ∧ lead code = 0xe0 + code / 4096 ∧ 0x7ff < code ∧ code ≤ 0xffff) ∨
    (following code = 3 ∧ lead code = 0xf0 + code / 262144 ∧ 0xffff < code) := by
  unfold lead following
  split
  · simp [marker, *]
  · split
    · simp [marker]
      omega
    · split
      · simp [marker]
        omega
      · simp [marker]
        omega

theorem lead_lt_or_eq (less : code < other) (bound : other < 0x110000) :
    lead other < 256 ∧ (lead code < lead other ∨ lead code = lead other ∧
      following code = following other ∧
        code / 64 ^ following code = other / 64 ^ following code) := by
  rcases lead_cases (Nat.lt_trans less bound) with ⟨count, byte, low⟩ | ⟨count, byte, low⟩ |
      ⟨count, byte, low⟩ | ⟨count, byte, low⟩ <;>
    rcases lead_cases bound with ⟨count', byte', low'⟩ | ⟨count', byte', low'⟩ |
      ⟨count', byte', low'⟩ | ⟨count', byte', low'⟩ <;>
    rw [count, count', byte, byte'] <;> omega

theorem continuation_append_lt (less : code < other) {count : Nat}
    (same : code / 64 ^ count = other / 64 ^ count) (left right : List UInt8) :
    continuation code count ++ left < continuation other count ++ right := by
  induction count with
  | zero => simp at same; omega
  | succ count ih =>
    rw [pow_succ, ← Nat.div_div_eq_div_mul, ← Nat.div_div_eq_div_mul] at same
    have le : code / 64 ^ count ≤ other / 64 ^ count := Nat.div_le_div_right (Nat.le_of_lt less)
    rw [continuation, continuation, List.cons_append, List.cons_append, List.cons_lt_cons_iff,
      UInt8.lt_iff_toNat_lt, UInt8.toNat_ofNat', UInt8.toNat_ofNat']
    by_cases equal : code / 64 ^ count = other / 64 ^ count
    · right
      exact ⟨by rw [equal], ih equal⟩
    · left
      omega

theorem encode_append_lt {c d : Char} (less : c < d) (left right : List UInt8) :
    String.utf8EncodeChar c ++ left < String.utf8EncodeChar d ++ right := by
  have less : c.toNat < d.toNat := less
  rw [encode_eq, encode_eq, List.cons_append, List.cons_append, List.cons_lt_cons_iff,
    UInt8.lt_iff_toNat_lt, UInt8.toNat_ofNat', UInt8.toNat_ofNat']
  obtain ⟨byte, smaller | ⟨same, count, digits⟩⟩ := lead_lt_or_eq less (toNat_lt d)
  · left
    omega
  · right
    rw [same, ← count]
    exact ⟨rfl, continuation_append_lt less digits left right⟩

theorem encode_lt {text other : List Char} (less : text < other) :
    text.flatMap String.utf8EncodeChar < other.flatMap String.utf8EncodeChar := by
  induction less with
  | @nil c other =>
    rw [List.flatMap_cons, encode_eq]
    exact List.nil_lt_cons _ _
  | rel less => exact encode_append_lt less _ _
  | cons _ ih => exact List.append_left_lt ih

end Utf8

theorem bytesOf_lt_iff {text other : String} : bytesOf text < bytesOf other ↔ text < other := by
  have mono {text other : String} (less : text < other) : bytesOf text < bytesOf other := by
    rw [bytesOf_eq, bytesOf_eq]
    exact Utf8.encode_lt less
  constructor
  · intro less
    apply String.not_le.mp
    intro le
    by_cases same : other = text
    · rw [same] at less
      exact List.lt_irrefl _ less
    · have greater : other < text := String.not_le.mp fun ge => same (String.le_antisymm le ge)
      exact List.lt_asymm less (mono greater)
  · exact mono

theorem bytesOf_le_iff {text other : String} : bytesOf text ≤ bytesOf other ↔ text ≤ other := by
  rw [← List.not_lt, ← String.not_lt, bytesOf_lt_iff]

end PageMarkup
