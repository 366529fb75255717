import PageMarkup.Proofs.Written.Basic

namespace PageMarkup.Written

variable {source : Source} {start : Nat} {rest : List Char}

namespace Head

variable (head : Head)

theorem byteLength_text : byteLength head.text =
    byteLength (head.lead ++ head.name.chars) + byteLength (head.attrs.flatMap Attr.text) := by
  rw [text, ← List.append_assoc, byteLength_append]

theorem suffix?_lead (here : source.suffix? start = some (head.text ++ rest)) :
    source.suffix? start =
      some (head.lead ++ (head.name.chars ++ (head.attrs.flatMap Attr.text ++ rest))) := by
  rw [text, List.append_assoc, List.append_assoc] at here
  exact here

theorem suffix?_attrs (here : source.suffix? start = some (head.text ++ rest)) :
    source.suffix? (start + byteLength (head.lead ++ head.name.chars)) =
      some (head.attrs.flatMap Attr.text ++ rest) := by
  apply Source.suffix?_add
  rw [List.append_assoc]
  exact head.suffix?_lead here

theorem suffix?_body (last : Blanks)
    (here : source.suffix? start = some (head.text ++ (last.chars ++ '>' :: rest))) :
    source.suffix? (start + byteLength (head.text ++ last.chars) + 1) = some rest := by
  apply Source.suffix?_cons (c := '>')
  apply Source.suffix?_add
  rw [List.append_assoc]
  exact here

end Head

theorem suffix?_attrs_cons {attr : Attr} {attrs : List Attr}
    (here : source.suffix? start = some ((attr :: attrs).flatMap Attr.text ++ rest)) :
    source.suffix? start =
        some (attr.gap.chars ++ (attr.core ++ (attrs.flatMap Attr.text ++ rest))) ∧
      source.suffix? (start + byteLength attr.gap.chars) =
        some (attr.core ++ (attrs.flatMap Attr.text ++ rest)) ∧
      source.suffix? (start + byteLength attr.text) = some (attrs.flatMap Attr.text ++ rest) := by
  have atGap : source.suffix? start =
      some (attr.gap.chars ++ (attr.core ++ (attrs.flatMap Attr.text ++ rest))) := by
    simpa [Attr.text] using here
  have atCore := Source.suffix?_add atGap
  have atRest := Source.suffix?_add atCore
  rw [Nat.add_assoc, ← byteLength_append] at atRest
  exact ⟨atGap, atCore, atRest⟩

theorem suffix?_texts_cons {item : Item} {items : List Item}
    (here : source.suffix? start = some (texts (item :: items) ++ rest)) :
    source.suffix? start = some (item.gap.chars ++ (item.core ++ (texts items ++ rest))) ∧
      source.suffix? (start + byteLength item.gap.chars) =
        some (item.core ++ (texts items ++ rest)) ∧
      source.suffix? (start + byteLength (item.gap.chars ++ item.core)) =
        some (texts items ++ rest) := by
  have atGap : source.suffix? start =
      some (item.gap.chars ++ (item.core ++ (texts items ++ rest))) := by
    rw [texts, List.append_assoc, List.append_assoc] at here
    exact here
  have atCore := Source.suffix?_add atGap
  have atRest := Source.suffix?_add atCore
  rw [Nat.add_assoc, ← byteLength_append] at atRest
  exact ⟨atGap, atCore, atRest⟩

theorem Item.suffix?_head {gap : Blanks} {head : Head} {last : Blanks} {children : List Item}
    {closing : Closing}
    (here : source.suffix? start =
      some ((Item.tag gap head last children closing).core ++ rest)) :
    source.suffix? start = some (head.text ++ (last.chars ++ '>' :: (texts children ++
      (closing.gap.chars ++ (closing.text head.name ++ rest))))) := by
  simpa [Item.core] using here

theorem Item.byteLength_core {gap : Blanks} {head : Head} {last : Blanks} {children : List Item}
    {closing : Closing} : byteLength (Item.tag gap head last children closing).core =
      byteLength (head.text ++ last.chars) + 1 + byteLength (texts children) +
        byteLength (closing.gap.chars ++ closing.text head.name) := by
  have bracket : '>'.utf8Size = 1 := rfl
  simp only [Item.core, byteLength_append, byteLength_cons, bracket]
  omega

end PageMarkup.Written
