import PageMarkup.Proofs.Written.Decided
import PageMarkup.Proofs.Written.Limit

namespace PageMarkup.Written

variable {start maxDepth levels : Nat} {failure : Failure SyntaxFault} {text rest : List Char}
  {name other : Name} {outer : List Name}

def closingTag (name : Name) : List Char := '<' :: '/' :: (name.chars ++ ['>'])

def closingTags (names : List Name) : List Char := names.flatMap closingTag

/-- A text that ends inside tags, each of them read up to the one in it. The name is that of the
    innermost tag, and the outer names go on from there. -/
inductive Unclosed : (levels : Nat) → (text : List Char) → (name : Name) → (outer : List Name) → Prop
  | innermost {levels : Nat} (begun : Begun) (proper : begun.Proper levels) :
      Unclosed (levels + 1) begun.text begun.head.name []
  | around {levels : Nat} {text : List Char} {name : Name} {outer : List Name} (begun : Begun)
      (proper : begun.Proper levels) (inner : Unclosed levels text name outer) :
      Unclosed (levels + 1) (begun.text ++ text) name (outer ++ [begun.head.name])

def unclosedTag (name : Name) (offset : Nat) (span : Span) : Failure SyntaxFault :=
  ⟨(SyntaxFault.ofCode .unclosedTag).withParam "tag" (.ofList name.chars), offset, span⟩

theorem ofFailure_unclosedTag (name : Name) (offset : Nat) (span : Span) :
    Diagnostic.ofFailure (unclosedTag name offset span) =
      (Diagnostic.ofCode .unclosedTag span).withParam "tag" (.ofList name.chars) := rfl

theorem chars_eq_of_unclosedTag {offset : Nat} {span span' : Span}
    (same : (Diagnostic.ofCode .unclosedTag span).withParam "tag" (.ofList name.chars) =
      Diagnostic.ofFailure (unclosedTag other offset span')) : name.chars = other.chars := by
  have named : some (String.ofList name.chars) = some (String.ofList other.chars) := by
    simpa [ofFailure_unclosedTag, Diagnostic.withParam, Diagnostic.ofCode] using
      congrArg (fun fault => fault.params.get? "tag") same
  exact String.ofList_injective (Option.some.inj named)

theorem Broken.unclosed_or (broken : Broken maxDepth levels start text failure) :
    (∃ name outer offset span, Unclosed levels text name outer ∧
        failure = unclosedTag name offset span) ∨
      (Diagnostic.ofFailure failure).code ≠ .unclosedTag := by
  induction broken with
  | unnamed => exact .inr nofun
  | tooDeep => exact .inr nofun
  | badAttr _ _ _ _ _ _ bad =>
    cases bad with
    | key => exact .inr nofun
    | value => exact .inr nofun
  | unterminated => exact .inr nofun
  | unclosed begun proper => exact .inl ⟨_, _, _, _, .innermost begun proper, rfl⟩
  | mismatched _ _ stray =>
    cases stray
    exact .inr nofun
  | inChild begun proper _ _ ih =>
    refine ih.imp_left ?_
    rintro ⟨name, outer, offset, span, unclosed, same⟩
    exact ⟨name, _, offset, span, .around begun proper unclosed, same⟩

theorem Unclosed.notClosing (unclosed : Unclosed levels text name outer) :
    NotClosing (text ++ rest) := by
  cases unclosed with
  | innermost begun proper =>
    rw [Begun.text, List.append_assoc]
    exact begun.head.notClosing
  | around begun proper inner =>
    rw [Begun.text, List.append_assoc, List.append_assoc]
    exact begun.head.notClosing

theorem name_of_closingTag {closing : Closing} {behind : List Char}
    (same : closingTag other ++ rest = closing.text name ++ behind) : other.chars = name.chars := by
  have split : [] ++ (other.chars ++ '>' :: rest) = closing.beforeName.chars ++
      (name.chars ++ (closing.afterName.chars ++ '>' :: behind)) := by
    simpa [closingTag, Closing.text] using same
  have edge : beginsWith Char.isAlphanum (closing.afterName.chars ++ '>' :: behind) = false :=
    not_beginsWith_append
      (fun c member => not_isAlphanum_of_isBlank (closing.afterName.blank c member)) rfl
  obtain ⟨_, named⟩ :=
    run_unique (by simp) closing.beforeName.blank (other.not_beginsWith_isBlank _)
      (name.not_beginsWith_isBlank _) split
  exact (run_unique other.alphanumeric name.alphanumeric rfl edge named).1

theorem Unclosed.mismatched (maxDepth : Nat) (unclosed : Unclosed levels text name outer)
    (different : other.chars ≠ name.chars) (start : Nat) (rest : List Char) :
    ∃ failure, Broken maxDepth levels start (text ++ (closingTag other ++ rest)) failure := by
  induction unclosed generalizing start with
  | innermost begun proper =>
    have otherwise : ∀ (closing : Closing) (behind : List Char),
        '<' :: '/' :: (other.chars ++ ['>'] ++ rest) ≠ closing.text begun.head.name ++ behind :=
      fun closing behind same => different (name_of_closingTag same)
    obtain ⟨failure, stray⟩ :=
      exists_stray begun.head.name otherwise (start + byteLength begun.text)
    exact ⟨failure, .mismatched begun proper stray⟩
  | around begun proper inner ih =>
    obtain ⟨failure, broken⟩ := ih different (start + byteLength begun.text)
    rw [List.append_assoc]
    exact ⟨failure, .inChild begun proper inner.notClosing broken⟩

theorem Unclosed.closed (unclosed : Unclosed levels text name outer) (gap : Blanks) :
    ∃ item : Item, item.gap = gap ∧ item.isText = false ∧
      item.core = text ++ closingTags (name :: outer) ∧ item.Canonical ∧ item.depth ≤ levels := by
  let tight : Blanks := ⟨[], by simp⟩
  induction unclosed generalizing gap with
  | innermost begun proper =>
    refine ⟨.tag gap begun.head begun.last begun.children ⟨begun.gap, tight, tight⟩, rfl, rfl, ?_,
      .tag gap begun.head begun.last proper.canonical proper.visible proper.spaced,
      Nat.succ_le_succ proper.shallow⟩
    simp [Item.core, Begun.text, Closing.text, closingTags, closingTag, tight]
  | @around levels text name outer begun proper inner ih =>
    obtain ⟨child, childGap, tag, core, canonical, shallow⟩ := ih begun.gap
    have spaced : Spaced [] (begun.children ++ [child]) := by
      refine spaced_append proper.spaced (fun empty _ => ⟨tag, ?_⟩) ⟨fun text => ?_, True.intro⟩
      · rw [childGap, empty]
      · rw [tag] at text
        cases text
    have visible : child.Visible := by
      cases child with
      | text => cases tag
      | tag => exact True.intro
    have depth : depths (begun.children ++ [child]) ≤ levels := by
      rw [depths_append]
      exact Nat.max_le.mpr ⟨proper.shallow, by simpa [depths] using shallow⟩
    refine ⟨.tag gap begun.head begun.last (begun.children ++ [child]) ⟨tight, tight, tight⟩, rfl, rfl,
      ?_, .tag gap begun.head begun.last ?_ ?_ spaced, Nat.succ_le_succ depth⟩
    · simp [Item.core, texts_append, texts, childGap, core, Begun.text, Closing.text, closingTags,
        closingTag, tight]
    · exact List.forall_mem_append.mpr ⟨proper.canonical, List.forall_mem_singleton.mpr canonical⟩
    · exact List.forall_mem_append.mpr ⟨proper.visible, List.forall_mem_singleton.mpr visible⟩

theorem BrokenDocument.unclosed_or (broken : BrokenDocument maxDepth start text failure) :
    (∃ name offset span, failure = unclosedTag name offset span ∧
      (∃ outer, ∃ document : Document, document.text = text ++ closingTags (name :: outer) ∧
        document.depth ≤ maxDepth) ∧
      ∀ other : Name, other.chars ≠ name.chars → ∀ rest,
        ∃ failure, BrokenDocument maxDepth start (text ++ (closingTag other ++ rest)) failure) ∨
      (Diagnostic.ofFailure failure).code ≠ .unclosedTag := by
  cases broken with
  | @intro items text failure canonical flush shallow spaced broken =>
    refine broken.unclosed_or.imp_left ?_
    rintro ⟨name, outer, offset, span, unclosed, rfl⟩
    refine ⟨name, offset, span, rfl, ⟨outer, ?_⟩, fun other different rest => ?_⟩
    · obtain ⟨item, gap, tag, core, canonical', shallow'⟩ := unclosed.closed ⟨[], by simp⟩
      have tight : item.gap.chars = [] := by rw [gap]
      let last : Document := ⟨[item], List.forall_mem_singleton.mpr canonical',
        List.forall_mem_singleton.mpr tight, fun text => absurd text (by simp [tag]), True.intro⟩
      let before : Document := ⟨items, canonical, flush, spaced⟩
      have ends : EndsText [] last.items := ⟨tag, tight⟩
      refine ⟨before.append last fun _ => ends, ?_, ?_⟩
      · rw [Document.text_append]
        simp [before, last, Document.text, texts, tight, core]
      · rw [Document.depth_append]
        exact Nat.max_le.mpr ⟨shallow, by simpa [last, Document.depth, depths] using shallow'⟩
    · obtain ⟨failure, broken⟩ :=
        unclosed.mismatched maxDepth different (start + byteLength (texts items)) rest
      rw [List.append_assoc]
      exact ⟨failure, .intro items canonical flush shallow spaced broken⟩

theorem Document.broken_of_closing (document : Document) (shallow : document.depth ≤ maxDepth)
    (text : List Char) :
    ∃ failure, BrokenDocument maxDepth 0 (document.text ++ '<' :: '/' :: text) failure := by
  have broken : Broken maxDepth maxDepth (0 + byteLength (texts document.items))
      ('<' :: ([] ++ '/' :: text)) _ := .unnamed ⟨[], by simp⟩ rfl rfl
  exact ⟨_, .intro document.items document.canonical document.flush shallow document.spaced broken⟩

theorem closingTags_unquoted (names : List Name) : '"' ∉ closingTags names := by
  intro member
  obtain ⟨name, _, member⟩ := List.mem_flatMap.mp member
  have inName : '"' ∈ name.chars := by simpa [closingTag] using member
  cases name.alphanumeric _ inName

/-- A tag is reported as unclosed exactly if closing tags are all that is missing, that of the reported
    tag first. -/
theorem parseDocument_unclosed_iff (maxDepth : Nat) (source : Source) (name : Name) :
    (∃ span, parseDocument maxDepth source =
      .error ((Diagnostic.ofCode .unclosedTag span).withParam "tag" (.ofList name.chars))) ↔
    ∃ outer nodes,
      parseDocument maxDepth (.ofText (source.text ++ closingTags (name :: outer))) = .ok nodes := by
  constructor
  · rintro ⟨span, rejected⟩
    obtain ⟨failure, broken, same⟩ := exists_broken_of_error rejected
    rcases broken.unclosed_or with
      ⟨other, offset, span', rfl, ⟨outer, document, text, shallow⟩, _⟩ | code
    · refine ⟨outer, document.nodes, parseDocument_reads document ?_ shallow⟩
      rw [text, Source.text_ofText, closingTags, closingTags, List.flatMap_cons, List.flatMap_cons,
        closingTag, closingTag, chars_eq_of_unclosedTag same]
    · exact absurd (by rw [← same]; rfl) code
  · rintro ⟨outer, nodes, read⟩
    have whole {failure : Failure SyntaxFault} (broken : BrokenDocument maxDepth 0
        (source.text ++ (closingTag name ++ closingTags outer)) failure) : False := by
      have failed : parseDocument maxDepth
          (.ofText (source.text ++ closingTags (name :: outer))) = _ := parseDocument_fails broken
      rw [read] at failed
      cases failed
    -- neither a document nor what fails for another reason can be completed by closing tags
    cases found : parseDocument maxDepth source with
    | ok nodes =>
      obtain ⟨document, same, shallow, _⟩ := exists_document_of_ok found
      obtain ⟨failure, broken⟩ := document.broken_of_closing shallow
        (name.chars ++ ['>'] ++ closingTags outer)
      rw [same] at broken
      exact (whole broken).elim
    | error fault =>
      obtain ⟨failure, broken, rfl⟩ := exists_broken_of_error found
      rcases broken.unclosed_or with ⟨other, offset, span, rfl, _, mismatched⟩ | code
      · by_cases called : name.chars = other.chars
        · rw [called]
          exact ⟨span, rfl⟩
        · obtain ⟨failure, broken⟩ := mismatched name called (closingTags outer)
          exact (whole broken).elim
      · obtain ⟨failure', broken', _⟩ :=
          broken.append code (.inr ⟨rfl, closingTags_unquoted (name :: outer)⟩)
        exact (whole broken').elim

example : parseDocument 2 (.ofString "<a><b x>ü ") =
    .error ((Diagnostic.ofCode .unclosedTag ⟨4, 5⟩).withParam "tag" "b") := by decide +kernel

end PageMarkup.Written
