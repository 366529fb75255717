import PageMarkup.Proofs.Schema.Names
import PageMarkup.Proofs.Text.ByteOrder
import PageMarkup.Schema.Builtin

namespace PageMarkup

theorem least_of_find? {keys : List String} {p : String → Bool} {key : String}
    (sorted : keys.Pairwise (· < ·)) (found : keys.find? p = some key) :
    key ∈ keys ∧ p key = true ∧ ∀ other ∈ keys, p other = true → bytesOf key ≤ bytesOf other := by
  obtain ⟨holds, before, after, rfl, skipped⟩ := List.find?_eq_some_iff_append.mp found
  obtain ⟨above, _⟩ := List.pairwise_cons.mp (List.pairwise_append.mp sorted).2.1
  refine ⟨by simp, holds, fun other member holds => ?_⟩
  rw [bytesOf_le_iff]
  rcases List.mem_append.mp member with skip | member
  · have fails : p other = false := by simpa using skipped other skip
    rw [fails] at holds
    cases holds
  · rcases List.mem_cons.mp member with rfl | behind
    · exact String.le_refl _
    · exact Std.le_of_lt (above other behind)

structure Registration where
  name : String
  definition : TagDefinition

namespace Schema

def attempt (schema : Schema) (call : Registration) :
    Except SchemaError (Option TagDefinition) × Schema :=
  match schema.register call.name call.definition with
  | .ok (previous, registered) => (.ok previous, registered)
  | .error error => (.error error, schema)

def after (schema : Schema) (calls : List Registration) : Schema :=
  calls.foldl (fun schema call => (schema.attempt call).2) schema

inductive Registers (schema : Schema) (call : Registration) :
    Except SchemaError (Option TagDefinition) × Schema → Prop
  | badTagName (invalid : isName call.name = false) :
      Registers schema call (.error (.invalidTagName call.name), schema)
  | badKey {key : String} (named : isName call.name = true)
      (declared : key ∈ call.definition.attrs.keys) (invalid : isName key = false)
      (least : ∀ other ∈ call.definition.attrs.keys, isName other = false →
        bytesOf key ≤ bytesOf other) :
      Registers schema call (.error (.invalidAttributeName call.name key), schema)
  | registered {behind : Schema} (admissible : call.definition.Admissible call.name)
      (here : behind.get? call.name = some call.definition)
      (elsewhere : ∀ other, other ≠ call.name → behind.get? other = schema.get? other) :
      Registers schema call (.ok (schema.get? call.name), behind)

variable {start schema : Schema} {calls : List Registration} {call : Registration}

theorem after_append (start : Schema) (calls : List Registration) (call : Registration) :
    start.after (calls ++ [call]) = ((start.after calls).attempt call).2 := by
  rw [after, List.foldl_append]
  rfl

theorem attempt_of_bad_key {key : String} (named : isName call.name = true)
    (found : call.definition.attrs.keys.find? (!isName ·) = some key) :
    schema.attempt call = (.error (.invalidAttributeName call.name key), schema) := by
  have refused : schema.register call.name call.definition =
      .error (.invalidAttributeName call.name key) := by
    simp [register, named, found]
  rw [attempt, refused]

theorem registers_attempt (schema : Schema) (call : Registration) :
    schema.Registers call (schema.attempt call) := by
  cases named : isName call.name with
  | false =>
    have refused : schema.register call.name call.definition =
        .error (.invalidTagName call.name) := by
      simp [register, named]
    rw [attempt, refused]
    exact .badTagName named
  | true =>
    cases found : call.definition.attrs.keys.find? (!isName ·) with
    | some key =>
      obtain ⟨declared, invalid, least⟩ := least_of_find? call.definition.attrs.sorted_keys found
      rw [attempt_of_bad_key named found]
      apply Registers.badKey named declared (by simpa using invalid)
      intro other member invalid
      exact least other member (by simpa using invalid)
    | none =>
      rw [List.find?_eq_none] at found
      have admissible : call.definition.Admissible call.name :=
        ⟨named, fun key member => by simpa using found key member⟩
      rw [attempt, register_of_admissible admissible]
      apply Registers.registered admissible
      · exact KeyMap.get?_insert_self _ _ _
      · intro other different
        exact KeyMap.get?_insert_of_ne _ different _

/-- What lookup gives behind calls: the definition of the last one for the name that was accepted
    when it was made, or else the one from the start. -/
inductive LookedUp (start : Schema) (calls : List Registration) (name : String) :
    Option TagDefinition → Prop
  | initial (refused : ∀ before call behind, calls = before ++ call :: behind → call.name = name →
      ¬ (start.after before).Accepts call.name call.definition) :
      LookedUp start calls name (start.get? name)
  | last {before behind : List Registration} {call : Registration}
      (split : calls = before ++ call :: behind) (same : call.name = name)
      (accepted : (start.after before).Accepts call.name call.definition)
      (refused : ∀ between later rest, behind = between ++ later :: rest → later.name = name →
        ¬ (start.after (before ++ call :: between)).Accepts later.name later.definition) :
      LookedUp start calls name (some call.definition)

theorem attempt_of_accepts (accepted : schema.Accepts call.name call.definition) :
    schema.attempt call =
      (.ok (schema.get? call.name), ⟨schema.tags.insert call.name call.definition⟩) := by
  rw [attempt, register_of_admissible (accepts_iff.mp accepted)]

theorem attempt_of_refused (refused : ¬ schema.Accepts call.name call.definition) :
    (schema.attempt call).2 = schema := by
  unfold attempt
  split
  · rename_i registered
    exact absurd ⟨_, registered⟩ refused
  · rfl

theorem get?_attempt_of_ne {name : String} (different : call.name ≠ name) :
    (schema.attempt call).2.get? name = schema.get? name := by
  by_cases accepted : schema.Accepts call.name call.definition
  · rw [attempt_of_accepts accepted]
    exact KeyMap.get?_insert_of_ne _ (Ne.symm different) _
  · rw [attempt_of_refused accepted]

theorem split_append_singleton {before behind : List Registration} {last : Registration}
    (split : calls ++ [last] = before ++ call :: behind) :
    behind = [] ∧ before = calls ∧ call = last ∨
      ∃ rest, behind = rest ++ [last] ∧ calls = before ++ call :: rest := by
  rcases List.eq_nil_or_concat' behind with rfl | ⟨rest, other, rfl⟩
  · obtain ⟨same, final⟩ := List.append_inj' split rfl
    cases final
    left
    exact ⟨rfl, same.symm, rfl⟩
  · rw [← List.cons_append, ← List.append_assoc] at split
    obtain ⟨same, final⟩ := List.append_inj' split rfl
    cases final
    right
    exact ⟨rest, rfl, same⟩

theorem LookedUp.append {name : String} {found : Option TagDefinition}
    (lookedUp : start.LookedUp calls name found)
    (passes : call.name = name → ¬ (start.after calls).Accepts call.name call.definition) :
    start.LookedUp (calls ++ [call]) name found := by
  cases lookedUp with
  | initial refused =>
    apply LookedUp.initial
    intro before later behind split same
    rcases split_append_singleton split with ⟨_, rfl, rfl⟩ | ⟨rest, _, split⟩
    · exact passes same
    · exact refused before later rest split same
  | @last before behind won split same accepted refused =>
    subst split
    apply LookedUp.last (List.append_assoc _ _ _) same accepted
    intro between later rest split same
    rcases split_append_singleton split with ⟨_, rfl, rfl⟩ | ⟨rest, _, split⟩
    · exact passes same
    · exact refused between later rest split same

theorem lookedUp_after (start : Schema) (calls : List Registration) (name : String) :
    start.LookedUp calls name ((start.after calls).get? name) := by
  induction calls using List.reverseRecOn with
  | nil =>
    apply LookedUp.initial
    intro before call behind split
    simp at split
  | append_singleton calls call ih =>
    rw [after_append]
    by_cases same : call.name = name
    · by_cases accepted : (start.after calls).Accepts call.name call.definition
      · have here : ((start.after calls).attempt call).2.get? name = some call.definition := by
          rw [attempt_of_accepts accepted, ← same]
          exact KeyMap.get?_insert_self _ _ _
        rw [here]
        apply LookedUp.last rfl same accepted
        intro between later rest split
        simp at split
      · rw [attempt_of_refused accepted]
        exact ih.append fun _ => accepted
    · rw [get?_attempt_of_ne same]
      exact ih.append fun equal => absurd equal same

/-- All that is registered could be registered again. -/
def Admissible (schema : Schema) : Prop :=
  ∀ name definition, schema.get? name = some definition → definition.Admissible name

theorem builtin_admissible : builtin.Admissible := by
  intro name definition known
  rw [get?, KeyMap.get?_eq_some_iff, entries_builtin] at known
  simp only [List.mem_cons, List.not_mem_nil, or_false, Prod.mk.injEq] at known
  rcases known with ⟨rfl, rfl⟩ | ⟨rfl, rfl⟩ | ⟨rfl, rfl⟩ | ⟨rfl, rfl⟩
  · exact ⟨by decide, by decide⟩
  · exact ⟨by decide, by decide⟩
  · exact ⟨by decide, by decide⟩
  · exact ⟨by decide, by decide⟩

theorem Admissible.attempt (admissible : schema.Admissible) (call : Registration) :
    (schema.attempt call).2.Admissible := by
  by_cases accepted : schema.Accepts call.name call.definition
  · rw [attempt_of_accepts accepted]
    intro name definition known
    rw [get?, KeyMap.get?_insert] at known
    split at known
    · rename_i same
      cases known
      rw [same]
      exact accepts_iff.mp accepted
    · exact admissible name definition known
  · rw [attempt_of_refused accepted]
    exact admissible

theorem Admissible.after (admissible : start.Admissible) (calls : List Registration) :
    (start.after calls).Admissible := by
  induction calls using List.reverseRecOn with
  | nil => exact admissible
  | append_singleton calls call ih =>
    rw [after_append]
    exact ih.attempt call

theorem attempt_fails_iff (schema : Schema) (call : Registration) :
    (∃ error, (schema.attempt call).1 = .error error) ↔
      isName call.name = false ∨ ∃ key ∈ call.definition.attrs.keys, isName key = false := by
  have registers := registers_attempt schema call
  generalize schema.attempt call = outcome at registers ⊢
  cases registers with
  | badTagName invalid => exact ⟨fun _ => .inl invalid, fun _ => ⟨_, rfl⟩⟩
  | badKey named declared invalid => exact ⟨fun _ => .inr ⟨_, declared, invalid⟩, fun _ => ⟨_, rfl⟩⟩
  | registered admissible =>
    constructor
    · intro ⟨error, failed⟩
      cases failed
    · rintro (invalid | ⟨key, declared, invalid⟩)
      · rw [admissible.named] at invalid
        cases invalid
      · rw [admissible.keys key declared] at invalid
        cases invalid

structure Session (start : Schema) (calls : List Registration) : Prop where
  admissible : (start.after calls).Admissible
  registers : ∀ call, (start.after calls).Registers call ((start.after calls).attempt call)
  fails_iff : ∀ call, (∃ error, ((start.after calls).attempt call).1 = .error error) ↔
    isName call.name = false ∨ ∃ key ∈ call.definition.attrs.keys, isName key = false
  lookedUp : ∀ name, start.LookedUp calls name ((start.after calls).get? name)
  listed : ∀ name definition, (name, definition) ∈ (start.after calls).tags.entries ↔
    (start.after calls).get? name = some definition
  ordered : (start.after calls).tags.entries.Pairwise fun entry next =>
    bytesOf entry.1 < bytesOf next.1

/-- A schema stays admissible through all calls. It tells which of them to refuse and why, and it
    looks up what was accepted last. -/
theorem session_after {start : Schema} (initial : start = .empty ∨ start = .builtin)
    (calls : List Registration) : start.Session calls where
  admissible := by
    have admissible : start.Admissible := by
      rcases initial with rfl | rfl
      · exact nofun
      · exact builtin_admissible
    exact admissible.after calls
  registers := registers_attempt _
  fails_iff := attempt_fails_iff _
  lookedUp := lookedUp_after start calls
  listed _ _ := (KeyMap.get?_eq_some_iff _).symm
  ordered := (start.after calls).tags.sorted.imp fun less => bytesOf_lt_iff.mpr less

theorem session_after_refused :
    let plain := TagDefinition.ofRender fun _ children => children
    let wide := plain.withAttr "w" .number
    let calls : List Registration := [⟨"note", plain⟩, ⟨"no te", plain⟩, ⟨"note", wide⟩,
      ⟨"note", (plain.withAttr "é" .string).withAttr "a b" .string⟩]
    builtin.Session calls ∧ (builtin.after calls).get? "note" = some wide ∧
      ((builtin.after calls).attempt
        ⟨"box", (plain.withAttr "é" .string).withAttr "a b" .string⟩).1 =
          .error (.invalidAttributeName "box" "a b") := by
  intro plain wide calls
  let bad := (plain.withAttr "é" .string).withAttr "a b" .string
  have accepted : (builtin.after (calls.take 2)).Accepts "note" wide :=
    accepts_iff.mpr ⟨by decide, by decide⟩
  have refused : ¬ (builtin.after (calls.take 3)).Accepts "note" bad := by
    intro accepted
    have named := (accepts_iff.mp accepted).keys "a b" (by decide)
    exact absurd named (by decide)
  have steps : builtin.after calls =
      (((builtin.after (calls.take 2)).attempt ⟨"note", wide⟩).2.attempt ⟨"note", bad⟩).2 := rfl
  have last : (builtin.after calls).get? "note" = some wide := by
    rw [steps, attempt_of_refused refused, attempt_of_accepts accepted]
    exact KeyMap.get?_insert_self _ _ _
  have blamed : ((builtin.after calls).attempt ⟨"box", bad⟩).1 =
      .error (.invalidAttributeName "box" "a b") := by
    have first : bad.attrs.keys.find? (!isName ·) = some "a b" := by decide
    rw [attempt_of_bad_key (by decide) first]
  exact ⟨session_after (.inr rfl) calls, last, blamed⟩

end Schema

end PageMarkup
