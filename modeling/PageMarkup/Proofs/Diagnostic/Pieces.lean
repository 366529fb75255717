import PageMarkup.Proofs.Diagnostic.Template

namespace PageMarkup.Template

structure Without (brace : Char) where
  chars : List Char
  absent : brace ∉ chars

namespace Without

variable {brace : Char} {rest rest' : List Char}

theorem run (part : Without brace) : ∀ c ∈ part.chars, (c != brace) = true := by
  intro c member
  rw [bne_iff_ne]
  rintro rfl
  exact part.absent member

theorem unique {part part' : Without brace} (edge : beginsWith (· != brace) rest = false)
    (edge' : beginsWith (· != brace) rest' = false)
    (same : part.chars ++ rest = part'.chars ++ rest') : part = part' ∧ rest = rest' := by
  obtain ⟨chars, behind⟩ := run_unique part.run part'.run edge edge' same
  cases part
  cases part'
  cases chars
  exact ⟨rfl, behind⟩

theorem exists_append (brace : Char) (text : List Char) : ∃ (part : Without brace) (rest : List Char),
    text = part.chars ++ rest ∧ (rest = [] ∨ ∃ behind, rest = brace :: behind) := by
  obtain ⟨run, rest, split, all, edge⟩ := exists_run (· != brace) text
  have absent : brace ∉ run := fun member => by simpa using all brace member
  exact ⟨⟨run, absent⟩, rest, split, nil_or_cons_of_stop edge⟩

end Without

/-- A template in pieces: text without an opening brace and placeholders in turn, and at the end
    perhaps a brace that is never closed. The label of a placeholder may have opening braces. -/
inductive Pieces where
  | text (plain : Without '{')
  | unclosed (plain : Without '{') (tail : Without '}')
  | placeholder (plain : Without '{') (label : Without '}') (others : Pieces)

namespace Pieces

def written : Pieces → List Char
  | .text plain => plain.chars
  | .unclosed plain tail => plain.chars ++ '{' :: tail.chars
  | .placeholder plain label others =>
    plain.chars ++ '{' :: (label.chars ++ '}' :: others.written)

def names : Pieces → List String
  | .text _ => []
  | .unclosed _ _ => []
  | .placeholder _ label others => .ofList label.chars :: others.names

def filled (params : Params) : Pieces → List Char
  | .text plain => plain.chars
  | .unclosed plain tail => plain.chars ++ '{' :: tail.chars
  | .placeholder plain label others =>
    match params.get? (.ofList label.chars) with
    | some value => plain.chars ++ (value.toList ++ others.filled params)
    | none => plain.chars ++ '{' :: (label.chars ++ '}' :: others.filled params)

def lead : Pieces → Without '{'
  | .text plain => plain
  | .unclosed plain _ => plain
  | .placeholder plain _ _ => plain

def behind : Pieces → List Char
  | .text _ => []
  | .unclosed _ tail => '{' :: tail.chars
  | .placeholder _ label others => '{' :: (label.chars ++ '}' :: others.written)

theorem written_eq (pieces : Pieces) : pieces.written = pieces.lead.chars ++ pieces.behind := by
  cases pieces with
  | text plain => exact (List.append_nil plain.chars).symm
  | unclosed plain tail => rfl
  | placeholder plain label others => rfl

theorem not_beginsWith_behind (pieces : Pieces) : beginsWith (· != '{') pieces.behind = false := by
  cases pieces <;> rfl

theorem exists_written (template : List Char) : ∃ pieces : Pieces, pieces.written = template := by
  -- on the length, for a placeholder takes more than one character
  induction size : template.length using Nat.strong_induction_on generalizing template with
  | _ size' ih =>
    subst size
    obtain ⟨plain, rest, rfl, rfl | ⟨behind, rfl⟩⟩ := Without.exists_append '{' template
    · exact ⟨.text plain, (List.append_nil plain.chars).symm⟩
    · obtain ⟨label, rest, rfl, rfl | ⟨others, rfl⟩⟩ := Without.exists_append '}' behind
      · exact ⟨.unclosed plain label, by rw [written, List.append_nil]⟩
      · have shorter : others.length < (plain.chars ++ '{' :: (label.chars ++ '}' :: others)).length := by
          simp only [List.length_append, List.length_cons]
          omega
        obtain ⟨pieces, rfl⟩ := ih _ shorter others rfl
        exact ⟨.placeholder plain label pieces, rfl⟩

theorem parts_eq {pieces other : Pieces} (same : pieces.written = other.written) :
    pieces.lead = other.lead ∧ pieces.behind = other.behind := by
  rw [written_eq, written_eq] at same
  exact Without.unique pieces.not_beginsWith_behind other.not_beginsWith_behind same

theorem written_injective {pieces other : Pieces} (same : pieces.written = other.written) :
    pieces = other := by
  induction pieces generalizing other with
  | text plain =>
    obtain ⟨leads, rests⟩ := parts_eq same
    cases other with
    | text plain' =>
      cases leads
      rfl
    | unclosed plain' tail' => cases rests
    | placeholder plain' label' others' => cases rests
  | unclosed plain tail =>
    obtain ⟨leads, rests⟩ := parts_eq same
    cases other with
    | text plain' => cases rests
    | unclosed plain' tail' =>
      cases leads
      have tails : tail.chars ++ [] = tail'.chars ++ [] := by simpa [behind] using rests
      obtain ⟨rfl, _⟩ := Without.unique rfl rfl tails
      rfl
    | placeholder plain' label' others' =>
      have tails : tail.chars = label'.chars ++ '}' :: others'.written := (List.cons.inj rests).2
      exact absurd (by simp [tails]) tail.absent
  | placeholder plain label others ih =>
    obtain ⟨leads, rests⟩ := parts_eq same
    cases other with
    | text plain' => cases rests
    | unclosed plain' tail' =>
      have tails : label.chars ++ '}' :: others.written = tail'.chars := (List.cons.inj rests).2
      exact absurd (by simp [← tails]) tail'.absent
    | placeholder plain' label' others' =>
      cases leads
      obtain ⟨rfl, inner⟩ := Without.unique rfl rfl (List.cons.inj rests).2
      rw [ih (List.cons.inj inner).2]

end Pieces

variable {params : Params} {template : List Char}

theorem fillAll_plain (plain : Without '{') (params : Params) (template : List Char) :
    fillAll params (plain.chars ++ template) = plain.chars ++ fillAll params template := by
  obtain ⟨chars, absent⟩ := plain
  induction chars with
  | nil => rfl
  | cons c chars ih =>
    obtain ⟨other, absent⟩ := List.ne_and_not_mem_of_not_mem_cons absent
    rw [List.cons_append, fillAll_char (Ne.symm other), ih absent, List.cons_append]

theorem fillAll_written (params : Params) (pieces : Pieces) :
    fillAll params pieces.written = pieces.filled params := by
  induction pieces with
  | text plain =>
    have whole := fillAll_plain plain params []
    rwa [fillAll_nil, List.append_nil] at whole
  | unclosed plain tail => rw [Pieces.written, fillAll_plain, fillAll_unclosed tail.absent]; rfl
  | placeholder plain label others ih =>
    rw [Pieces.written, fillAll_plain, fillAll_name label.absent, ih, fill, Pieces.filled]
    cases params.get? (.ofList label.chars) <;> simp

theorem Pieces.filled_eq_written {pieces : Pieces} (unnamed : ∀ name ∈ pieces.names, name ∉ params.keys) :
    pieces.filled params = pieces.written := by
  induction pieces with
  | text plain => rfl
  | unclosed plain tail => rfl
  | placeholder plain label others ih =>
    obtain ⟨first, unnamed⟩ := List.forall_mem_cons.mp unnamed
    have none : params.get? (.ofList label.chars) = none := by
      rw [Option.eq_none_iff_forall_ne_some]
      exact fun value given => first (params.mem_keys_iff.mpr ⟨value, given⟩)
    rw [filled, none, written, ih unnamed]

/-- A template falls into pieces in one way, and a message is these pieces filled. So a parameter is
    never read again, whatever braces it has: what follows is filled by itself. A template none of
    whose placeholders has a parameter is its own message. -/
theorem render_pieces (template : String) :
    ∃ pieces : Pieces, (∀ other : Pieces, other.written = template.toList ↔ other = pieces) ∧
      ∀ params : Params, (render template params).toList = pieces.filled params ∧
        (∀ plain label others value, pieces = .placeholder plain label others →
          params.get? (.ofList label.chars) = some value →
          render template params = String.ofList plain.chars ++ value ++
            render (.ofList others.written) params) ∧
        ((∀ name ∈ pieces.names, name ∉ params.keys) → render template params = template) := by
  obtain ⟨pieces, written⟩ := Pieces.exists_written template.toList
  have message (params : Params) : (render template params).toList = pieces.filled params := by
    rw [render, String.toList_ofList, ← written, fillAll_written]
  refine ⟨pieces, fun other => ⟨fun same => ?_, fun same => same ▸ written⟩, fun params =>
    ⟨message params, fun plain label others value split given => ?_, fun unnamed => ?_⟩⟩
  · exact Pieces.written_injective (same.trans written.symm)
  · apply String.toList_injective
    rw [message, split, Pieces.filled, given, String.toList_append, String.toList_append,
      String.toList_ofList, render, String.toList_ofList, String.toList_ofList, fillAll_written,
      List.append_assoc]
  · apply String.toList_injective
    rw [message, Pieces.filled_eq_written unnamed, written]

example : render "\x7ba\x7d\x7bb\x7d \x7b" (KeyMap.empty.insert "a" "\x7bb\x7d") =
    "\x7bb\x7d\x7bb\x7d \x7b" := by decide +kernel

end PageMarkup.Template
