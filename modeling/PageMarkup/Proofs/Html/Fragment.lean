import PageMarkup.Proofs.Text.Runs

namespace PageMarkup.Html

inductive ElementName where
  | div
  | p
  | heading (level : Nat) (valid : 1 ≤ level ∧ level ≤ 6)
  | main

inductive Element where
  | mk (name : ElementName) (children : List Element)

/-- A style attribute and the blank before it, or nothing. The value cannot leave its quotes. -/
def Style (text : List Char) : Prop :=
  text = [] ∨ ∃ value, (∀ c ∈ value, c ≠ '"' ∧ c ≠ '<' ∧ c ≠ '>') ∧
    text = " style=\"".toList ++ (value ++ ['"'])

namespace ElementName

def tag : ElementName → List Char
  | .div => "div".toList
  | .p => "p".toList
  | .heading level _ => 'h' :: (toString level).toList
  | .main => "main".toList

def Styled (name : ElementName) (style : List Char) : Prop :=
  match name with
  | .div | .p => Style style
  | .heading _ _ | .main => style = []

def opening (name : ElementName) (style : List Char) : List Char :=
  '<' :: (name.tag ++ (style ++ ['>']))

def closing (name : ElementName) : List Char := '<' :: '/' :: (name.tag ++ ['>'])

end ElementName

/-- HTML in which elements are properly nested, with the forest of these elements. Between the tags there
    is any text without `<`. -/
inductive Fragment : List Element → List Char → Prop
  | nil : Fragment [] []
  | char {c : Char} {elements : List Element} {text : List Char} (plain : c ≠ '<')
      (rest : Fragment elements text) : Fragment elements (c :: text)
  | element (name : ElementName) {style inner text : List Char} {children siblings : List Element}
      (styled : name.Styled style) (inside : Fragment children inner) (rest : Fragment siblings text) :
      Fragment (.mk name children :: siblings)
        (name.opening style ++ (inner ++ (name.closing ++ text)))

theorem Fragment.append {elements others : List Element} {left right : List Char}
    (first : Fragment elements left) (second : Fragment others right) :
    Fragment (elements ++ others) (left ++ right) := by
  induction first with
  | nil => exact second
  | char plain _ ih => exact .char plain ih
  | element name styled inside _ _ ih =>
    have joined := Fragment.element name styled inside ih
    simpa only [List.append_assoc, List.cons_append] using joined

theorem Fragment.of_plain {text : List Char} (plain : '<' ∉ text) : Fragment [] text := by
  induction text with
  | nil => exact .nil
  | cons c text ih =>
    rw [List.mem_cons, not_or] at plain
    exact .char (Ne.symm plain.1) (ih plain.2)

theorem Fragment.of_element {name : ElementName} {style inner : List Char} {children : List Element}
    (styled : name.Styled style) (inside : Fragment children inner) :
    Fragment [.mk name children] (name.opening style ++ (inner ++ name.closing)) := by
  have alone := Fragment.element name styled inside .nil
  rwa [List.append_nil] at alone

namespace ElementName

theorem tag_alphanumeric (name : ElementName) : ∀ c ∈ name.tag, c.isAlphanum = true := by
  cases name with
  | div => exact List.all_eq_true.mp rfl
  | p => exact List.all_eq_true.mp rfl
  | heading level valid =>
    intro c member
    rcases List.mem_cons.mp member with rfl | digit
    · rfl
    · change c ∈ level.repr.toList at digit
      rw [Nat.toList_repr] at digit
      exact isAlphanum_of_isDigit (Nat.isDigit_of_mem_toDigits (by decide) (by decide) digit)
  | main => exact List.all_eq_true.mp rfl

theorem tag_ne_nil (name : ElementName) : name.tag ≠ [] := by
  cases name with
  | heading level valid => simp [tag]
  | _ => decide

theorem tag_injective {name other : ElementName} (same : name.tag = other.tag) : name = other := by
  cases name with
  | heading level valid =>
    cases other with
    | heading level' valid' =>
      have digits : level.repr.toList = level'.repr.toList := (List.cons.inj same).2
      rw [Nat.toList_repr, Nat.toList_repr] at digits
      have value := congrArg (Nat.ofDigitChars 10 · 0) digits
      simp only [Nat.ofDigitChars_toDigits (b := 10) (by decide) (by decide)] at value
      subst value
      rfl
    | _ => cases same
  | _ => cases other <;> first | rfl | cases same

theorem tag_cons (name : ElementName) : ∃ c rest, name.tag = c :: rest ∧ c ≠ '/' := by
  have alphanumeric := name.tag_alphanumeric
  cases tag : name.tag with
  | nil => exact absurd tag name.tag_ne_nil
  | cons c rest =>
    refine ⟨c, rest, rfl, ?_⟩
    rintro rfl
    have letter := alphanumeric '/' (tag ▸ List.mem_cons_self)
    cases letter

theorem Styled.style {name : ElementName} {style : List Char} (styled : name.Styled style) :
    Style style := by
  cases name with
  | div => exact styled
  | p => exact styled
  | heading level valid => exact .inl styled
  | main => exact .inl styled

end ElementName

theorem Style.no_bracket {style : List Char} (valid : Style style) :
    ∀ c ∈ style, (c != '>') = true := by
  rcases valid with rfl | ⟨value, plain, rfl⟩
  · simp
  · have ofLead : ∀ c ∈ " style=\"".toList, (c != '>') = true := List.all_eq_true.mp rfl
    intro c member
    rw [List.mem_append, List.mem_append, List.mem_singleton] at member
    rcases member with lead | value | rfl
    · exact ofLead c lead
    · exact bne_iff_ne.mpr (plain c value).2.2
    · rfl

theorem Style.edge {style : List Char} (valid : Style style) :
    beginsWith Char.isAlphanum style = false := by
  rcases valid with rfl | ⟨value, _, rfl⟩
  · rfl
  · rfl

theorem ElementName.opening_injective {name other : ElementName} {style style' rest behind : List Char}
    (styled : name.Styled style) (styled' : other.Styled style')
    (same : name.opening style ++ rest = other.opening style' ++ behind) :
    name = other ∧ style = style' ∧ rest = behind := by
  have plain : ∀ (name : ElementName) {style : List Char}, name.Styled style →
      ∀ c ∈ name.tag ++ style, (c != '>') = true := by
    intro name style styled c member
    rcases List.mem_append.mp member with letter | member
    · rw [bne, beq_eq_false_of_isAlphanum (name.tag_alphanumeric c letter) rfl]
      rfl
    · exact styled.style.no_bracket c member
  have same : name.tag ++ style ++ '>' :: rest = other.tag ++ style' ++ '>' :: behind := by
    simpa [opening] using same
  have inner := congrArg (List.takeWhile (· != '>')) same
  have outer := congrArg (List.dropWhile (· != '>')) same
  rw [takeWhile_run (plain name styled) rfl, takeWhile_run (plain other styled') rfl] at inner
  rw [dropWhile_run (plain name styled) rfl, dropWhile_run (plain other styled') rfl] at outer
  have tag := congrArg (List.takeWhile Char.isAlphanum) inner
  have style := congrArg (List.dropWhile Char.isAlphanum) inner
  rw [takeWhile_run name.tag_alphanumeric styled.style.edge,
    takeWhile_run other.tag_alphanumeric styled'.style.edge] at tag
  rw [dropWhile_run name.tag_alphanumeric styled.style.edge,
    dropWhile_run other.tag_alphanumeric styled'.style.edge] at style
  exact ⟨tag_injective tag, style, (List.cons.inj outer).2⟩

def Ends (text : List Char) : Prop := text = [] ∨ ∃ rest, text = '<' :: '/' :: rest

theorem Ends.ne_char {c : Char} {text rest : List Char} (ends : Ends text) (plain : c ≠ '<') :
    text ≠ c :: rest := by
  rintro rfl
  rcases ends with empty | ⟨behind, same⟩
  · cases empty
  · cases same
    exact plain rfl

theorem Ends.ne_opening {name : ElementName} {style text rest : List Char} (ends : Ends text) :
    text ≠ name.opening style ++ rest := by
  rintro rfl
  obtain ⟨c, letters, tag, different⟩ := name.tag_cons
  rw [ElementName.opening, tag] at ends
  rcases ends with empty | ⟨behind, same⟩
  · cases empty
  · cases same
    exact different rfl

theorem ElementName.opening_ne_char {name : ElementName} {style text rest : List Char} {c : Char}
    (plain : c ≠ '<') : name.opening style ++ text ≠ c :: rest := by
  intro same
  cases same
  exact plain rfl

/-- A text is HTML in one way only: what two fragments at the same place have in common is all of
    them. -/
theorem Fragment.unique_before {elements others : List Element} {left right rest behind : List Char}
    (first : Fragment elements left) (second : Fragment others right)
    (same : left ++ rest = right ++ behind) (ends : Ends rest) (ends' : Ends behind) :
    elements = others ∧ rest = behind := by
  induction first generalizing others right rest behind with
  | nil =>
    cases second with
    | nil => exact ⟨rfl, same⟩
    | char plain _ => exact absurd same (ends.ne_char plain)
    | element name styled _ _ =>
      rw [List.append_assoc] at same
      exact absurd same ends.ne_opening
  | char plain _ ih =>
    cases second with
    | nil => exact absurd same.symm (ends'.ne_char plain)
    | char plain' second => exact ih second (List.cons.inj same).2 ends ends'
    | element name styled _ _ =>
      rw [List.append_assoc] at same
      exact absurd same.symm (ElementName.opening_ne_char plain)
  | @element name style inner text children siblings styled inside _ ihInside ihRest =>
    cases second with
    | nil =>
      rw [List.append_assoc] at same
      exact absurd same.symm ends'.ne_opening
    | char plain _ =>
      rw [List.append_assoc] at same
      exact absurd same (ElementName.opening_ne_char plain)
    | element name' styled' inside' second =>
      simp only [List.append_assoc] at same
      obtain ⟨rfl, rfl, sameInner⟩ := ElementName.opening_injective styled styled' same
      have closes : ∀ text, Ends (name.closing ++ text) := fun text => .inr ⟨_, rfl⟩
      obtain ⟨rfl, sameClosing⟩ := ihInside inside' sameInner (closes _) (closes _)
      obtain ⟨rfl, sameRest⟩ := ihRest second (List.append_cancel_left sameClosing) ends ends'
      exact ⟨rfl, sameRest⟩

theorem Fragment.unique {elements others : List Element} {text : List Char}
    (first : Fragment elements text) (second : Fragment others text) : elements = others :=
  (first.unique_before second rfl (.inl rfl) (.inl rfl)).1

end PageMarkup.Html
