import Mathlib.Data.List.Basic
import PageMarkup.Schema.Builtin

namespace PageMarkup

def unescaped (c : Char) : Bool := c != '&' && c != '"' && c != '<' && c != '>'

theorem unescaped_iff {c : Char} :
    unescaped c = true ↔ c ≠ '&' ∧ c ≠ '"' ∧ c ≠ '<' ∧ c ≠ '>' := by
  simp [unescaped, and_assoc]

inductive Entity where
  | ampersand
  | quote
  | less
  | greater

namespace Entity

def char : Entity → Char
  | ampersand => '&'
  | quote => '"'
  | less => '<'
  | greater => '>'

def name : Entity → List Char
  | ampersand => "amp".toList
  | quote => "quot".toList
  | less => "lt".toList
  | greater => "gt".toList

def text (entity : Entity) : List Char := '&' :: (entity.name ++ [';'])

theorem name_unescaped (entity : Entity) : ∀ c ∈ entity.name ++ [';'], unescaped c = true := by
  cases entity <;> exact List.all_eq_true.mp rfl

end Entity

theorem escapedInAttr_char (entity : Entity) : escapedInAttr entity.char = entity.text := by
  cases entity <;> rfl

theorem escapedInAttr_of_unescaped {c : Char} (plain : unescaped c = true) :
    escapedInAttr c = [c] := by
  obtain ⟨ampersand, quote, less, greater⟩ := unescaped_iff.mp plain
  rw [escapedInAttr, if_neg ampersand, if_neg quote, if_neg less, if_neg greater]

theorem flatMap_escapedInAttr {text : List Char} (plain : ∀ c ∈ text, unescaped c = true) :
    text.flatMap escapedInAttr = text := by
  have kept := List.flatMap_congr fun c member => escapedInAttr_of_unescaped (plain c member)
  exact kept.trans (List.flatMap_singleton' text)

theorem exists_entity_or_unescaped (c : Char) :
    (∃ entity : Entity, c = entity.char) ∨ unescaped c = true := by
  by_cases ampersand : c = '&'
  · exact .inl ⟨.ampersand, ampersand⟩
  by_cases quote : c = '"'
  · exact .inl ⟨.quote, quote⟩
  by_cases less : c = '<'
  · exact .inl ⟨.less, less⟩
  by_cases greater : c = '>'
  · exact .inl ⟨.greater, greater⟩
  exact .inr (unescaped_iff.mpr ⟨ampersand, quote, less, greater⟩)

/-- One pass over an attribute value, from left to right: a name is read as its character, and whatever
    else stands there as itself. -/
def readEntities : List Char → List Char
  | '&' :: 'a' :: 'm' :: 'p' :: ';' :: rest => '&' :: readEntities rest
  | '&' :: 'q' :: 'u' :: 'o' :: 't' :: ';' :: rest => '"' :: readEntities rest
  | '&' :: 'l' :: 't' :: ';' :: rest => '<' :: readEntities rest
  | '&' :: 'g' :: 't' :: ';' :: rest => '>' :: readEntities rest
  | c :: rest => c :: readEntities rest
  | [] => []

def unescapeAttr (value : String) : String := .ofList (readEntities value.toList)

theorem readEntities_entity (entity : Entity) (rest : List Char) :
    readEntities (entity.text ++ rest) = entity.char :: readEntities rest := by
  cases entity <;> rfl

theorem readEntities_cons {c : Char} (plain : c ≠ '&') (rest : List Char) :
    readEntities (c :: rest) = c :: readEntities rest := by
  -- the patterns before the last one all begin with an ampersand
  rw [readEntities] <;> intro _ same <;> exact absurd same plain

theorem readEntities_escapedInAttr (c : Char) (rest : List Char) :
    readEntities (escapedInAttr c ++ rest) = c :: readEntities rest := by
  rcases exists_entity_or_unescaped c with ⟨entity, rfl⟩ | plain
  · rw [escapedInAttr_char, readEntities_entity]
  · rw [escapedInAttr_of_unescaped plain, List.singleton_append,
      readEntities_cons (unescaped_iff.mp plain).1]

theorem readEntities_flatMap (text : List Char) :
    readEntities (text.flatMap escapedInAttr) = text := by
  induction text with
  | nil => rfl
  | cons c text ih => rw [List.flatMap_cons, readEntities_escapedInAttr, ih]

/-- What can stand between the quotes of an attribute: nothing in it ends the value or the tag, and an
    ampersand is there only to begin a name. -/
structure SafeInAttr (text : List Char) : Prop where
  plain : ∀ c ∈ text, c ≠ '"' ∧ c ≠ '<' ∧ c ≠ '>'
  named : ∀ rest, '&' :: rest <:+ text → ∃ entity : Entity, entity.text <+: '&' :: rest

namespace SafeInAttr

variable {text rest : List Char}

theorem nil : SafeInAttr [] := ⟨nofun, fun _ suffix => absurd suffix (by simp)⟩

theorem of_suffix (safe : SafeInAttr text) (suffix : rest <:+ text) : SafeInAttr rest :=
  ⟨fun c member => safe.plain c (suffix.subset member),
    fun _ behind => safe.named _ (behind.trans suffix)⟩

theorem cons {c : Char} (plain : unescaped c = true) (safe : SafeInAttr text) :
    SafeInAttr (c :: text) := by
  obtain ⟨ampersand, others⟩ := unescaped_iff.mp plain
  constructor
  · exact List.forall_mem_cons.mpr ⟨others, safe.plain⟩
  · intro rest suffix
    rcases List.suffix_cons_iff.mp suffix with whole | behind
    · cases whole
      exact absurd rfl ampersand
    · exact safe.named rest behind

theorem append {left : List Char} (plain : ∀ c ∈ left, unescaped c = true)
    (safe : SafeInAttr text) : SafeInAttr (left ++ text) := by
  induction left with
  | nil => exact safe
  | cons c left ih =>
    obtain ⟨first, others⟩ := List.forall_mem_cons.mp plain
    exact cons first (ih others)

theorem entity (entity : Entity) (safe : SafeInAttr text) : SafeInAttr (entity.text ++ text) := by
  have behindName := append entity.name_unescaped safe
  constructor
  · exact List.forall_mem_cons.mpr ⟨by decide, behindName.plain⟩
  · intro rest suffix
    rcases List.suffix_cons_iff.mp suffix with whole | behind
    · rw [whole]
      exact ⟨entity, List.prefix_append _ _⟩
    · exact behindName.named rest behind

theorem escaped (c : Char) (safe : SafeInAttr text) :
    SafeInAttr (escapedInAttr c ++ text) := by
  rcases exists_entity_or_unescaped c with ⟨entity, rfl⟩ | plain
  · rw [escapedInAttr_char]
    exact safe.entity entity
  · rw [escapedInAttr_of_unescaped plain]
    exact safe.cons plain

theorem flatMap (text : List Char) : SafeInAttr (text.flatMap escapedInAttr) := by
  induction text with
  | nil => exact nil
  | cons c text ih =>
    rw [List.flatMap_cons]
    exact ih.escaped c

theorem exists_escaped {text : List Char} (safe : SafeInAttr text) :
    ∃ value : List Char, text = value.flatMap escapedInAttr := by
  match text with
  | [] => exact ⟨[], rfl⟩
  | c :: rest =>
    by_cases ampersand : c = '&'
    · subst ampersand
      obtain ⟨entity, behind, same⟩ := safe.named rest (List.suffix_refl _)
      -- the name is more than the ampersand, so that what is behind it is shorter
      have shorter : behind.length < ('&' :: rest).length := by
        rw [← same, List.length_append, Entity.text, List.length_cons]
        omega
      obtain ⟨value, rfl⟩ := exists_escaped (safe.of_suffix ⟨entity.text, same⟩)
      refine ⟨entity.char :: value, ?_⟩
      rw [List.flatMap_cons, escapedInAttr_char, same]
    · have plain : unescaped c = true :=
        unescaped_iff.mpr ⟨ampersand, safe.plain c List.mem_cons_self⟩
      obtain ⟨value, same⟩ := exists_escaped (safe.of_suffix (List.suffix_cons c rest))
      refine ⟨c :: value, ?_⟩
      rw [List.flatMap_cons, escapedInAttr_of_unescaped plain, List.singleton_append, ← same]
termination_by text.length
decreasing_by
  · exact shorter
  · exact Nat.lt_succ_self rest.length

end SafeInAttr

theorem safeInAttr_escapeAttr (value : String) : SafeInAttr (escapeAttr value).toList := by
  rw [escapeAttr, String.toList_ofList]
  exact .flatMap value.toList

theorem unescapeAttr_escapeAttr (value : String) : unescapeAttr (escapeAttr value) = value := by
  rw [unescapeAttr, escapeAttr, String.toList_ofList, readEntities_flatMap, String.ofList_toList]

example : escapeAttr "&lt;" = "&amp;lt;" ∧ unescapeAttr "&amp;lt;" = "&lt;" := by decide

theorem escapeAttr_unescapeAttr {text : String} (safe : SafeInAttr text.toList) :
    escapeAttr (unescapeAttr text) = text := by
  obtain ⟨value, same⟩ := safe.exists_escaped
  rw [unescapeAttr, same, readEntities_flatMap, escapeAttr, String.toList_ofList, ← same,
    String.ofList_toList]

end PageMarkup
