import PageMarkup.Parsing.Combinators
import PageMarkup.Proofs.Number.Lexeme
import PageMarkup.Proofs.Text.Cuts

namespace PageMarkup

@[simp] theorem ok_bind {ε α β : Type} (a : α) (f : α → Except ε β) : (Except.ok a >>= f) = f a := rfl

@[simp] theorem error_bind {ε α β : Type} (e : ε) (f : α → Except ε β) :
    ((Except.error e : Except ε α) >>= f) = .error e := rfl

namespace Parser

variable {ε ε' α β : Type} {source : Source} {offset : Nat} {taken rest text : List Char}

theorem isPrefixOf_append (left right : List Char) : left.isPrefixOf (left ++ right) = true := by
  rw [List.isPrefixOf_iff_prefix]
  exact List.prefix_append left right

theorem whitespace_reads (blank : ∀ c ∈ taken, isBlank c = true)
    (edge : beginsWith isBlank rest = false)
    (here : source.suffix? offset = some (taken ++ rest)) :
    (whitespace source offset : Except (Failure ε) (Success String)) =
      .ok ⟨.ofList taken, offset + byteLength taken⟩ := by
  rw [whitespace, Source.rest_of_suffix? here, takeWhile_run blank edge]
  rfl

theorem isPrefixOf_singleton (c : Char) (text : List Char) :
    [c].isPrefixOf text = beginsWith (· == c) text := by
  cases text with
  | nil => rfl
  | cons d text => rw [beginsWith_cons, List.isPrefixOf, List.isPrefixOf, Bool.and_true, BEq.comm]

section Primitives

variable [OfReason ε]

theorem literal_reads {expected : String}
    (here : source.suffix? offset = some (expected.toList ++ rest)) :
    (literal expected source offset : Except (Failure ε) (Success String)) =
      .ok ⟨expected, offset + byteLength expected.toList⟩ := by
  rw [literal, Source.rest_of_suffix? here, isPrefixOf_append, if_pos rfl]
  rfl

theorem literal_fails {expected : String} (absent : expected.toList.isPrefixOf text = false)
    (here : source.suffix? offset = some text) :
    (literal expected source offset : Except (Failure ε) (Success String)) =
      .error (.atPoint (ofReason (.literal expected)) offset) := by
  rw [literal, Source.rest_of_suffix? here, absent]
  rfl

theorem alphanumeric1_reads (nonempty : taken ≠ [])
    (alphanumeric : ∀ c ∈ taken, c.isAlphanum = true)
    (edge : beginsWith Char.isAlphanum rest = false)
    (here : source.suffix? offset = some (taken ++ rest)) :
    (alphanumeric1 source offset : Except (Failure ε) (Success String)) =
      .ok ⟨.ofList taken, offset + byteLength taken⟩ := by
  have some : taken.isEmpty = false := List.isEmpty_eq_false_iff.mpr nonempty
  simp only [alphanumeric1, Source.rest_of_suffix? here, takeWhile_run alphanumeric edge, some]
  rfl

theorem alphanumeric1_fails (edge : beginsWith Char.isAlphanum text = false)
    (here : source.suffix? offset = some text) :
    (alphanumeric1 source offset : Except (Failure ε) (Success String)) =
      .error (.atPoint (ofReason .alphanumeric) offset) := by
  simp only [alphanumeric1, Source.rest_of_suffix? here, takeWhile_eq_nil_of_not_beginsWith edge]
  rfl

theorem number_reads {numeral : Numeral} (read : Numeral.read? text = some numeral)
    (here : source.suffix? offset = some text) :
    (number source offset : Except (Failure ε) (Success Double)) =
      .ok ⟨numeral.value, offset + byteLength numeral.text⟩ := by
  simp only [number, Source.rest_of_suffix? here, read]
  rfl

theorem number_fails (unread : Numeral.read? text = none)
    (here : source.suffix? offset = some text) :
    (number source offset : Except (Failure ε) (Success Double)) =
      .error (.atPoint (ofReason .number) offset) := by
  simp only [number, Source.rest_of_suffix? here, unread]
  rfl

theorem endOfInput_reads (here : source.suffix? offset = some []) :
    (endOfInput source offset : Except (Failure ε) (Success Unit)) = .ok ⟨(), offset⟩ := by
  rw [endOfInput, if_pos ((Source.size_le_iff here).mpr rfl)]

theorem endOfInput_fails (more : text ≠ []) (here : source.suffix? offset = some text) :
    (endOfInput source offset : Except (Failure ε) (Success Unit)) =
      .error (.atPoint (ofReason .expectedEnd) offset) := by
  rw [endOfInput, if_neg fun done => more ((Source.size_le_iff here).mp done)]
  rfl

theorem takeUntil1_reads {stop : Char → Bool} (nonempty : taken ≠ [])
    (goes : ∀ c ∈ taken, stop c = false) (edge : beginsWith (!stop ·) rest = false)
    (here : source.suffix? offset = some (taken ++ rest)) :
    (takeUntil1 stop source offset : Except (Failure ε) (Success String)) =
      .ok ⟨.ofList taken, offset + byteLength taken⟩ := by
  cases taken with
  | nil => contradiction
  | cons c taken =>
    have first : stop c = false := goes c List.mem_cons_self
    have run : (c :: taken ++ rest).takeWhile (!stop ·) = c :: taken :=
      takeWhile_run (fun d member => by simp [goes d member]) edge
    rw [List.cons_append] at run
    simp only [takeUntil1, Source.rest_of_suffix? here, List.cons_append, first, run]
    rfl

end Primitives

theorem choice_pair_of_ok {first second : Parser ε α} {success : Success α}
    (read : first source offset = .ok success) :
    choice first [second] source offset = .ok success := by
  rw [choice, read]

theorem choice_pair_of_error {first second : Parser ε α} {failure : Failure ε} {success : Success α}
    (failed : first source offset = .error failure) (read : second source offset = .ok success) :
    choice first [second] source offset = .ok success := by
  rw [choice, failed]
  simp only [choice, read]

theorem choice_pair_fails {first second : Parser ε α} {failure failure' : Failure ε}
    (failed : first source offset = .error failure)
    (failed' : second source offset = .error failure')
    (further : failure'.span.stop ≤ failure.span.stop) :
    choice first [second] source offset = .error failure := by
  rw [choice, failed]
  simp only [choice, failed', furthest]
  rw [if_neg (Nat.not_lt.mpr further)]

theorem map_of_ok {f : α → β} {parser : Parser ε α} {success : Success α}
    (read : parser source offset = .ok success) :
    parser.map f source offset = .ok ⟨f success.value, success.offset⟩ := by
  rw [map, read]
  rfl

theorem map_of_error {f : α → β} {parser : Parser ε α} {failure : Failure ε}
    (failed : parser source offset = .error failure) :
    parser.map f source offset = .error failure := by
  rw [map, failed]
  rfl

theorem located_of_ok {parser : Parser ε α} {success : Success α}
    (read : parser source offset = .ok success) :
    parser.located source offset =
      .ok ⟨⟨success.value, ⟨offset, success.offset⟩⟩, success.offset⟩ := by
  rw [located, read]
  rfl

theorem located_of_error {parser : Parser ε α} {failure : Failure ε}
    (failed : parser source offset = .error failure) :
    parser.located source offset = .error failure := by
  rw [located, failed]
  rfl

theorem expect_of_ok {parser : Parser ε α} {reason : ε'} {success : Success α}
    (read : parser source offset = .ok success) :
    parser.expect reason source offset = .ok success := by
  rw [expect, read]
  rfl

theorem expect_of_error {parser : Parser ε α} {reason : ε'} {failure : Failure ε}
    (failed : parser source offset = .error failure) :
    parser.expect reason source offset =
      .error ⟨reason, failure.offset, (Span.point offset).cover failure.span⟩ := by
  rw [expect, failed]
  rfl

end Parser

end PageMarkup
