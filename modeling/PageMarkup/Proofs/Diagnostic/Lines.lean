import Mathlib.Algebra.BigOperators.Group.List.Basic
import Mathlib.Algebra.GroupWithZero.Nat
import PageMarkup.Proofs.Diagnostic.Tiers
import PageMarkup.Proofs.Layout.Document

namespace PageMarkup

open Layout Written

def lineFeeds (text : String) : Nat := text.toList.count '\n'

theorem lineFeeds_append (left right : String) :
    lineFeeds (left ++ right) = lineFeeds left + lineFeeds right := by
  rw [lineFeeds, String.toList_append, List.count_append]
  rfl

theorem lineFeeds_eq_zero {text : String} : lineFeeds text = 0 ↔ '\n' ∉ text.toList :=
  List.count_eq_zero

theorem not_mem_of_isAlphanum {text : List Char} (alphanumeric : ∀ c ∈ text, c.isAlphanum = true) :
    '\n' ∉ text := fun member => by cases alphanumeric _ member

theorem Written.Name.lineFeeds_eq (name : Name) : lineFeeds (.ofList name.chars) = 0 := by
  rw [lineFeeds_eq_zero, String.toList_ofList]
  exact not_mem_of_isAlphanum name.alphanumeric

theorem lineFeeds_of_isName {name : String} (named : isName name = true) : lineFeeds name = 0 := by
  rw [isName, Bool.and_eq_true, List.all_eq_true] at named
  exact lineFeeds_eq_zero.mpr (not_mem_of_isAlphanum named.2)

theorem lineFeeds_toString (n : Nat) : lineFeeds (toString n) = 0 := by
  refine lineFeeds_eq_zero.mpr fun member => ?_
  rw [show toString n = n.repr from rfl, Nat.toList_repr] at member
  cases Nat.isDigit_of_mem_toDigits (by decide) (by decide) member

theorem not_mem_of_mem_linesOf {text line : List Char} (member : line ∈ linesOf text) :
    '\n' ∉ line := by
  induction text generalizing line with
  | nil =>
    cases List.mem_singleton.mp member
    exact List.not_mem_nil
  | cons c text ih =>
    rw [linesOf] at member
    split at member
    · rcases List.mem_cons.mp member with rfl | member
      · exact List.not_mem_nil
      · exact ih member
    · rename_i other
      cases lines : linesOf text with
      | nil =>
        rw [lines] at member
        cases List.mem_singleton.mp member
        simpa using Ne.symm other
      | cons first others =>
        rw [lines] at member ih
        rcases List.mem_cons.mp member with rfl | member
        · simpa using ⟨Ne.symm other, ih List.mem_cons_self⟩
        · exact ih (List.mem_cons_of_mem _ member)

theorem mem_of_mem_dropRightWhile {p : Char → Bool} {text : List Char} {c : Char}
    (member : c ∈ dropRightWhile p text) : c ∈ text := by
  rw [dropRightWhile, List.mem_reverse] at member
  exact List.mem_reverse.mp ((List.dropWhile_sublist p).mem member)

namespace Template

theorem count_fillAll (params : Params) {template : List Char} (plain : '\n' ∉ template) :
    (fillAll params template).count '\n' =
      ((placeholders template).map fun name => (fill params name.toList).count '\n').sum := by
  induction template using parts with
  | nil => simp
  | char c template other ih =>
    rw [List.mem_cons, not_or] at plain
    rw [fillAll_char other, placeholders_char other, List.count_cons_of_ne (Ne.symm plain.1),
      ih plain.2]
  | placeholder name template inside ih =>
    have plain : '\n' ∉ template := fun member => plain (by simp [member])
    rw [fillAll_name inside, placeholders_name inside, List.count_append, List.map_cons,
      List.sum_cons, ih plain, String.toList_ofList]
  | unclosed template inside =>
    rw [fillAll_unclosed inside, placeholders_unclosed inside, List.count_eq_zero_of_not_mem plain]
    rfl

end Template

namespace Code

theorem lineFeeds_name (code : Code) : lineFeeds code.name = 0 := by
  cases code <;> decide +kernel

theorem lineFeeds_template (code : Code) : lineFeeds code.template = 0 := by
  cases code <;> decide +kernel

end Code

namespace Diagnostic

theorem lineFeeds_message (d : Diagnostic) : lineFeeds d.message =
    (d.code.parameters.map fun name => (Template.fill d.params name.toList).count '\n').sum := by
  rw [lineFeeds, message, Template.render, String.toList_ofList,
    Template.count_fillAll _ (lineFeeds_eq_zero.mp d.code.lineFeeds_template),
    Code.placeholders_template]

theorem not_mem_line (text : List Char) (index : Nat) :
    '\n' ∉ ((linesOf text)[index]?).getD [] := by
  cases found : (linesOf text)[index]? with
  | none => exact List.not_mem_nil
  | some line => exact not_mem_of_mem_linesOf (List.mem_of_getElem? found)

theorem lineFeeds_line (text : List Char) (index : Nat) (p : Char → Bool) :
    lineFeeds (.ofList (dropRightWhile p (((linesOf text)[index]?).getD []))) = 0 := by
  rw [lineFeeds_eq_zero, String.toList_ofList]
  exact fun member => not_mem_line text index (mem_of_mem_dropRightWhile member)

theorem lineFeeds_underline (before width : Nat) :
    lineFeeds (.ofList (List.replicate before ' ' ++ List.replicate width '^')) = 0 := by
  rw [lineFeeds_eq_zero, String.toList_ofList]
  simp

theorem lineFeeds_report (source : Source) (d : Diagnostic) :
    lineFeeds (d.report source) = 3 + lineFeeds d.message := by
  have fixed : lineFeeds "error[" = 0 ∧ lineFeeds "]: " = 0 ∧ lineFeeds "\n  --> line " = 1 ∧
      lineFeeds ", column " = 0 ∧ lineFeeds "\n> " = 1 ∧ lineFeeds "\n  " = 1 := by decide
  unfold report
  simp only [lineFeeds_append, d.code.lineFeeds_name, lineFeeds_toString, lineFeeds_line,
    lineFeeds_underline, fixed]
  omega

end Diagnostic

/-- Parameters in which line feeds can only be in what stands in place of a closing tag. -/
def Params.Flat (code : Code) (params : Params) : Prop :=
  ∀ name value, params.get? name = some value →
    lineFeeds value = 0 ∨ code = .mismatchedNesting ∧ name = "found"

namespace Params.Flat

variable {code : Code} {params : Params}

theorem empty (code : Code) : Flat code .empty := nofun

theorem insert {value : String} (flat : Flat code params) (key : String)
    (plain : lineFeeds value = 0) : Flat code (KeyMap.insert params key value) := by
  intro name value' given
  rw [KeyMap.get?_insert] at given
  split at given
  · cases given
    exact .inl plain
  · exact flat name value' given

theorem insert_found (flat : Flat .mismatchedNesting params) (found : String) :
    Flat .mismatchedNesting (KeyMap.insert params "found" found) := by
  intro name value given
  rw [KeyMap.get?_insert] at given
  split at given
  · rename_i same
    exact .inr ⟨rfl, same⟩
  · exact flat name value given

end Params.Flat

namespace Diagnostic

def Flat (d : Diagnostic) : Prop := d.params.Flat d.code

theorem lineFeeds_fill {params : Params} {name value : String}
    (given : params.get? name = some value) :
    (Template.fill params name.toList).count '\n' = lineFeeds value := by
  have given : params.get? (.ofList name.toList) = some value := by rwa [String.ofList_toList]
  rw [Template.fill_of_get? given, lineFeeds]

theorem Complete.exists_param {d : Diagnostic} (complete : d.Complete) {name : String}
    (listed : name ∈ d.code.parameters) : ∃ value, d.params.get? name = some value := by
  rw [← Code.placeholders_template, ← complete.mem_keys_iff] at listed
  exact d.params.mem_keys_iff.mp listed

theorem lineFeeds_message_of_flat {d : Diagnostic} (complete : d.Complete) (flat : d.Flat)
    (other : d.code ≠ .mismatchedNesting) : lineFeeds d.message = 0 := by
  rw [lineFeeds_message]
  apply List.sum_eq_zero
  intro count member
  obtain ⟨name, listed, rfl⟩ := List.mem_map.mp member
  obtain ⟨value, given⟩ := complete.exists_param listed
  rw [lineFeeds_fill given]
  exact (flat name value given).resolve_right fun mismatch => other mismatch.1

theorem lineFeeds_message_of_mismatched {d : Diagnostic} (complete : d.Complete) (flat : d.Flat)
    (mismatched : d.code = .mismatchedNesting) :
    ∃ found, d.params.get? "found" = some found ∧ lineFeeds d.message = lineFeeds found := by
  have parameters : d.code.parameters = ["expected", "found"] := by rw [mismatched, Code.parameters]
  have listed : "expected" ∈ d.code.parameters := by simp [parameters]
  have listed' : "found" ∈ d.code.parameters := by simp [parameters]
  obtain ⟨expected, given⟩ := complete.exists_param listed
  obtain ⟨found, given'⟩ := complete.exists_param listed'
  refine ⟨found, given', ?_⟩
  have plain : lineFeeds expected = 0 :=
    (flat "expected" expected given).resolve_right fun mismatch => absurd mismatch.2 (by decide)
  rw [lineFeeds_message, parameters]
  simp only [List.map_cons, List.map_nil, List.sum_cons, List.sum_nil, lineFeeds_fill given,
    lineFeeds_fill given', plain, Nat.zero_add, Nat.add_zero]

section Grammar

variable {start : Nat} {text : List Char} {failure : Failure SyntaxFault}

theorem badAttr_flat {tag : String} (plain : lineFeeds tag = 0)
    (bad : BadAttr tag start text failure) : (ofFailure failure).Flat := by
  cases bad with
  | key edge => exact (Params.Flat.empty _).insert "tag" plain
  | value key before after solid bad => exact (Params.Flat.empty _).insert "key" key.lineFeeds_eq

theorem stray_flat {expected : Name} (stray : Stray expected start text failure) :
    (ofFailure failure).Flat := by
  cases stray with
  | intro gap plain solid edge other =>
    exact ((Params.Flat.empty _).insert "expected" expected.lineFeeds_eq).insert_found _

theorem broken_flat {maxDepth levels : Nat} (broken : Broken maxDepth levels start text failure) :
    (ofFailure failure).Flat := by
  induction broken with
  | unnamed gap solid edge => exact .empty _
  | @tooDeep start head text edge =>
    exact ((Params.Flat.empty _).insert "tag" head.name.lineFeeds_eq).insert "max"
      (lineFeeds_toString maxDepth)
  | badAttr head gap ends solid more goesOn bad => exact badAttr_flat head.name.lineFeeds_eq bad
  | unterminated head last => exact (Params.Flat.empty _).insert "tag" head.name.lineFeeds_eq
  | unclosed begun proper => exact (Params.Flat.empty _).insert "tag" begun.head.name.lineFeeds_eq
  | mismatched begun proper stray => exact stray_flat stray
  | inChild begun proper inside broken ih => exact ih

theorem brokenDocument_flat {maxDepth : Nat}
    (broken : BrokenDocument maxDepth start text failure) : (ofFailure failure).Flat := by
  cases broken with
  | intro items canonical flush shallow spaced broken => exact broken_flat broken

end Grammar

end Diagnostic

structure Schema.OneLine (schema : Schema) : Prop where
  key {name key : String} {definition : TagDefinition} {declared : AttrDefinition}
    (known : schema.get? name = some definition)
    (declares : definition.attrs.get? key = some declared) : lineFeeds key = 0
  complaint {name : String} {definition : TagDefinition} {attrs : ResolvedAttrs}
    {complaint : Complaint} (known : schema.get? name = some definition)
    (complains : complaint ∈ definition.complaints attrs) :
    lineFeeds complaint.key = 0 ∧ lineFeeds complaint.reason = 0

theorem Schema.builtin_get? {name : String} {definition : TagDefinition}
    (known : builtin.get? name = some definition) :
    definition ∈ [Builtin.box, Builtin.heading, Builtin.main, Builtin.text] := by
  have found := (KeyMap.get?_eq_some_iff _).mp known
  rw [entries_builtin] at found
  exact List.mem_map_of_mem (f := Prod.snd) found

theorem Builtin.lineFeeds_key : ∀ definition ∈ [box, heading, main, text],
    ∀ key ∈ definition.attrs.keys, lineFeeds key = 0 := by
  decide

theorem Builtin.lineFeeds_validateBox (attrs : ResolvedAttrs) : ∀ complaint ∈ validateBox attrs,
    lineFeeds complaint.key = 0 ∧ lineFeeds complaint.reason = 0 := by
  intro complaint member
  obtain ⟨key, listed, rfl⟩ := List.mem_map.mp member
  have listed := List.mem_of_mem_filter listed
  simp only [List.mem_cons, List.not_mem_nil, or_false] at listed
  rcases listed with rfl | rfl
  · exact ⟨by simp [lineFeeds], by simp [lineFeeds]⟩
  · decide

theorem Builtin.lineFeeds_validateHeading (attrs : ResolvedAttrs) :
    ∀ complaint ∈ validateHeading attrs,
      lineFeeds complaint.key = 0 ∧ lineFeeds complaint.reason = 0 := by
  intro complaint member
  unfold validateHeading at member
  split at member
  · split at member
    · cases List.mem_singleton.mp member
      decide
    · cases member
  · cases member

theorem Schema.builtin_oneLine : builtin.OneLine where
  key known declares :=
    Builtin.lineFeeds_key _ (builtin_get? known) _ ((KeyMap.mem_keys_iff _).mpr ⟨_, declares⟩)
  complaint {_ _ attrs complaint} known complains := by
    have known := builtin_get? known
    simp only [List.mem_cons, List.not_mem_nil, or_false] at known
    rcases known with rfl | rfl | rfl | rfl
    · exact Builtin.lineFeeds_validateBox attrs complaint complains
    · exact Builtin.lineFeeds_validateHeading attrs complaint complains
    · cases complains
    · cases complains

def Parent.Named : Parent → Prop
  | .known name _ => isName name = true
  | _ => True

namespace Schema

variable {schema : Schema} {source : Source} {parent inner : Parent} {node child : Node}

theorem named_inside {name : String} (named : isName name = true) :
    (schema.inside name).Named := by
  unfold inside
  cases schema.get? name with
  | none => exact True.intro
  | some definition => exact named

theorem Within.faithful {path : List Nat} (within : schema.Within parent node path inner child)
    (named : parent.Named) (faithful : Faithful source node) :
    inner.Named ∧ Faithful source child := by
  induction within with
  | self => exact ⟨named, faithful⟩
  | child listed deeper ih =>
    cases faithful with
    | tag lies each => exact ih (named_inside lies.named) (each _ (List.mem_of_getElem? listed))

end Schema

namespace Diagnostic

variable {schema : Schema} {source : Source}

theorem attributes_flat (oneLine : schema.OneLine) {definition : TagDefinition}
    {name : Located String} {attributes : List Attribute} {finding : Finding} {d : Diagnostic}
    (known : schema.get? name.value = some definition) (named : isName name.value = true)
    (lie : ∀ attr ∈ attributes, AttributeLies source attr)
    (violates : definition.Violates name attributes finding d) : d.Flat := by
  have typeName (type : AttrType) : lineFeeds type.name = 0 := by cases type <;> decide
  cases violates with
  | unexpected listed undeclared =>
    have key := lineFeeds_of_isName (lie _ (List.mem_of_getElem? listed)).named
    exact ((Params.Flat.empty _).insert "key" key).insert "tag" (lineFeeds_of_isName named)
  | mistyped listed declares other =>
    have key := lineFeeds_of_isName (lie _ (List.mem_of_getElem? listed)).named
    exact (((Params.Flat.empty _).insert "key" key).insert "expected" (typeName _)).insert "actual"
      (typeName _)
  | missing declares required absent =>
    exact ((Params.Flat.empty _).insert "key" (oneLine.key known declares)).insert "tag"
      (lineFeeds_of_isName named)
  | @complaint position validate complaint validator complains =>
    have member : complaint ∈ definition.complaints (definition.resolve attributes) := by
      rw [TagDefinition.complaints, validator]
      exact List.mem_of_getElem? complains
    obtain ⟨key, reason⟩ := oneLine.complaint known member
    exact ((Params.Flat.empty _).insert "key" key).insert "reason" reason

theorem node_flat (oneLine : schema.OneLine) {parent : Parent} {node : Node} {finding : Finding}
    {d : Diagnostic} (named : parent.Named) (faithful : Faithful source node)
    (violates : schema.Violates parent node finding d) : d.Flat := by
  cases violates with
  | textAtRoot shown => exact (Params.Flat.empty _).insert "parent" (by decide)
  | textInTag shown refused =>
    refine (Params.Flat.empty _).insert "parent" ?_
    simp only [lineFeeds_append, lineFeeds_of_isName named]
    decide
  | unknownTag unknown =>
    cases faithful with
    | tag lies => exact (Params.Flat.empty _).insert "tag" (lineFeeds_of_isName lies.named)
  | knownTag known violates =>
    cases faithful with
    | tag lies => exact attributes_flat oneLine known lies.named lies.attributes_lie violates

theorem problems_flat (oneLine : schema.OneLine) {nodes : List Node}
    (faithful : ∀ node ∈ nodes, Faithful source node) :
    ∀ d ∈ (schema.refine nodes).problems, d.Flat := by
  intro d member
  obtain ⟨site, position, path, node, _, listed, parent, child, within, violates⟩ :=
    (schema.reports_refine nodes).holds member
  have ⟨named, lies⟩ := within.faithful True.intro (faithful node (List.mem_of_getElem? listed))
  exact node_flat oneLine named lies violates

/-- A report has four lines, and one more for each line feed in what stands in place of a closing
    tag. -/
theorem compile_report_lines (maxDepth : Nat) (source : Source) :
    ∀ d ∈ (Compiler.compile ⟨.builtin, maxDepth⟩ source).errors,
      (d.code ≠ .mismatchedNesting → lineFeeds (d.report source) = 3) ∧
      (d.code = .mismatchedNesting → ∃ found, d.params.get? "found" = some found ∧
        lineFeeds (d.report source) = 3 + lineFeeds found) := by
  intro d member
  -- whichever stage reports, the message is filled and only `found` may bring line feeds into it
  have ⟨complete, flat⟩ : d.Complete ∧ d.Flat := by
    rw [Compiler.compile] at member
    cases read : parseDocument maxDepth source with
    | error fault =>
      rw [read] at member
      cases List.mem_singleton.mp member
      obtain ⟨failure, broken, rfl⟩ := exists_broken_of_error read
      exact ⟨(brokenDocument_isSyntaxError broken).2, brokenDocument_flat broken⟩
    | ok nodes =>
      rw [read] at member
      obtain ⟨document, same, _, rfl⟩ := exists_document_of_ok read
      obtain ⟨_, _, faithful⟩ := document.faithful same
      exact ⟨(problems_isViolation .builtin _ d member).2,
        problems_flat Schema.builtin_oneLine faithful d member⟩
  refine ⟨fun other => ?_, fun mismatched => ?_⟩
  · rw [lineFeeds_report, lineFeeds_message_of_flat complete flat other]
  · obtain ⟨found, given, same⟩ := lineFeeds_message_of_mismatched complete flat mismatched
    exact ⟨found, given, by rw [lineFeeds_report, same]⟩

theorem compile_report_lines_unknown_tag :
    let unknown := (Diagnostic.ofCode .unknownTag ⟨1, 2⟩).withParam "tag" "b"
    (Compiler.compile ⟨.builtin, 1⟩ (.ofString "<b>\n</b>")).errors = [unknown] ∧
      lineFeeds (unknown.report (.ofString "<b>\n</b>")) = 3 := by
  intro unknown
  have errors : (Compiler.compile ⟨.builtin, 1⟩ (.ofString "<b>\n</b>")).errors = [unknown] := by
    decide +kernel
  have member : unknown ∈ (Compiler.compile ⟨.builtin, 1⟩ (.ofString "<b>\n</b>")).errors := by
    rw [errors]
    exact List.mem_cons_self
  exact ⟨errors, (compile_report_lines 1 (.ofString "<b>\n</b>") unknown member).1 (by decide)⟩

/-- What is found in place of a closing tag may go over a line feed. -/
theorem exists_report_of_five_lines :
    ∃ d ∈ (Compiler.compile ⟨.builtin, 1⟩ (.ofString "<box></te\nxt>")).errors,
      lineFeeds (d.report (.ofString "<box></te\nxt>")) = 4 := by
  let fault := ((SyntaxFault.ofCode .mismatchedNesting).withParam "expected" "box").withParam
    "found" "te\nxt"
  have errors : (Compiler.compile ⟨.builtin, 1⟩ (.ofString "<box></te\nxt>")).errors =
      [ofFailure (.spanning fault ⟨5, 13⟩)] := by decide +kernel
  refine ⟨ofFailure (.spanning fault ⟨5, 13⟩), by rw [errors]; exact List.mem_cons_self, ?_⟩
  rw [lineFeeds_report]
  decide +kernel

end Diagnostic

end PageMarkup
