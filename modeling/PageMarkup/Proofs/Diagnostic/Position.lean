import Mathlib.Order.Bounds.Defs
import PageMarkup.Diagnostic.Report
import PageMarkup.Proofs.Text.Cuts
import PageMarkup.Proofs.Text.Runs

namespace PageMarkup

theorem linesOf_eq_splitOn (text : List Char) : linesOf text = text.splitOn '\n' := by
  induction text with
  | nil => rfl
  | cons c text ih =>
    rw [linesOf, List.splitOn_cons_eq_if_modifyHead, ih]
    by_cases feed : c = '\n'
    · rw [if_pos feed, if_pos (beq_iff_eq.mpr feed)]
    · rw [if_neg feed, if_neg fun same => feed (beq_iff_eq.mp same)]
      obtain ⟨line, lines, split⟩ := List.exists_cons_of_ne_nil (List.splitOn_ne_nil '\n' text)
      rw [split]
      rfl

/-- Where an offset is in a text: in which line, behind how many characters of it. It is as far from
    the start as the lines above with their line feeds and these characters are long. -/
inductive PlacedAt (text : List Char) : (offset line column : Nat) → (content : List Char) → Prop
  | intro {above below : List (List Char)} {left right : List Char}
      (lines : text.splitOn '\n' = above ++ (left ++ right) :: below) :
      PlacedAt text (byteLength (above.flatMap (· ++ ['\n'])) + byteLength left)
        (above.length + 1) (left.length + 1) (left ++ right)

theorem exists_lines (front back : List Char) : ∃ above below left right,
    (front ++ back).splitOn '\n' = above ++ (left ++ right) :: below ∧
      front = above.flatMap (· ++ ['\n']) ++ left ∧ above.length = front.count '\n' ∧
      '\n' ∉ left := by
  induction front with
  | nil =>
    obtain ⟨right, below, lines⟩ := List.exists_cons_of_ne_nil (List.splitOn_ne_nil '\n' back)
    exact ⟨[], below, [], right, lines, rfl, rfl, List.not_mem_nil⟩
  | cons c front ih =>
    obtain ⟨above, below, left, right, lines, split, count, plain⟩ := ih
    rw [List.cons_append, List.splitOn_cons_eq_if_modifyHead, lines]
    by_cases feed : c = '\n'
    · subst feed
      refine ⟨[] :: above, below, left, right, rfl, ?_, ?_, plain⟩
      · rw [split]
        rfl
      · rw [List.length_cons, count, List.count_cons_self]
    · rw [if_neg fun same => feed (beq_iff_eq.mp same), List.count_cons_of_ne feed]
      cases above with
      | nil =>
        refine ⟨[], below, c :: left, right, rfl, by rw [split]; rfl, count, ?_⟩
        exact List.not_mem_cons_of_ne_of_not_mem (Ne.symm feed) plain
      | cons first above =>
        exact ⟨(c :: first) :: above, below, left, right, rfl, by rw [split]; rfl, count, plain⟩

theorem takeWhile_reverse_lines (above : List (List Char)) {left : List Char} (plain : '\n' ∉ left) :
    (above.flatMap (· ++ ['\n']) ++ left).reverse.takeWhile (· ≠ '\n') = left.reverse := by
  refine takeWhile_reverse ?_ plain
  rcases List.eq_nil_or_concat above with rfl | ⟨above, last, rfl⟩
  · exact .inl rfl
  · exact .inr ⟨above.flatMap (· ++ ['\n']) ++ last, by simp⟩

theorem placedAt_of_split (front back : List Char) : ∃ content,
    ((linesOf (front ++ back))[front.count '\n']?).getD [] = content ∧
      PlacedAt (front ++ back) (byteLength front) (front.count '\n' + 1)
        ((front.reverse.takeWhile (· ≠ '\n')).length + 1) content := by
  obtain ⟨above, below, left, right, lines, split, count, plain⟩ := exists_lines front back
  refine ⟨left ++ right, ?_, ?_⟩
  · rw [linesOf_eq_splitOn, lines, ← count]
    simp
  · have column : (front.reverse.takeWhile (· ≠ '\n')).length = left.length := by
      rw [split, takeWhile_reverse_lines above plain, List.length_reverse]
    have offset : byteLength front =
        byteLength (above.flatMap (· ++ ['\n'])) + byteLength left := by
      rw [← byteLength_append, ← split]
    rw [← count, column, offset]
    exact .intro lines

theorem exists_trimmed (text : List Char) (c : Char) : ∃ count,
    text = dropRightWhile (· == c) text ++ List.replicate count c ∧
      (dropRightWhile (· == c) text).getLast? ≠ some c := by
  obtain ⟨last, split, all⟩ := exists_dropRightWhile (· == c) text
  have same : last = List.replicate last.length c :=
    List.eq_replicate_of_mem fun d member => beq_iff_eq.mp (all d member)
  refine ⟨last.length, by rw [← same]; exact split, ?_⟩
  intro ends
  have edge := not_beginsWith_reverse_dropRightWhile (· == c) text
  rw [beginsWith, List.head?_reverse, ends, Option.any_some, BEq.rfl] at edge
  cases edge

namespace Source

variable {source : Source}

theorem floorBoundary_isGreatest (source : Source) (offset : Nat) :
    IsGreatest {boundary | source.isBoundary boundary = true ∧ boundary ≤ offset}
      (source.floorBoundary offset) := by
  induction offset with
  | zero =>
    have start := isBoundary_of_suffix? source.suffix?_zero
    exact ⟨⟨start, le_rfl⟩, fun boundary member => member.2⟩
  | succ offset ih =>
    rw [floorBoundary]
    by_cases boundary : source.isBoundary (offset + 1) = true
    · rw [if_pos boundary]
      exact ⟨⟨boundary, le_rfl⟩, fun boundary member => member.2⟩
    · rw [if_neg boundary]
      refine ⟨⟨ih.1.1, Nat.le_succ_of_le ih.1.2⟩, fun other member => ih.2 ⟨member.1, ?_⟩⟩
      have different : other ≠ offset + 1 := fun same => boundary (same ▸ member.1)
      have := member.2
      omega

end Source

/-- How many columns a part of the source takes: one for each character, or for each byte if it ends
    inside a character, and at least one. -/
inductive Wide (source : Source) (start stop : Nat) : (width : Nat) → Prop
  | chars {left covered right : List Char} (split : source.text = left ++ (covered ++ right))
      (start_eq : byteLength left = start) (stop_eq : byteLength (left ++ covered) = stop) :
      Wide source start stop (max 1 covered.length)
  | bytes (inside : source.isBoundary stop = false) : Wide source start stop (max 1 (stop - start))

theorem wide_of_slice? {source : Source} {start stop : Nat} (ordered : start ≤ stop)
    (boundary : source.isBoundary start = true) :
    Wide source start stop (max (match source.slice? ⟨start, stop⟩ with
      | some text => text.length
      | none => stop - start) 1) := by
  rw [Nat.max_comm]
  cases boundary' : source.isBoundary stop with
  | false =>
    have noSlice : source.slice? ⟨start, stop⟩ = none := by simp [Source.slice?, boundary']
    rw [noSlice]
    exact .bytes boundary'
  | true =>
    obtain ⟨left, covered, right, split, same⟩ :=
      @Source.exists_covered source ⟨start, stop⟩ ordered boundary boundary'
    cases same
    rw [← Span.around, Source.slice?_around (Source.suffix?_of_text_eq split)]
    exact .chars split rfl (byteLength_append left covered)

theorem underline_ofSpan (source : Source) (span : Span) : ∃ start content,
    IsGreatest {boundary | source.isBoundary boundary = true ∧
      boundary ≤ min (min span.start span.stop) source.size} start ∧
    ((linesOf source.text)[(Underline.ofSpan source span).line - 1]?).getD [] = content ∧
    PlacedAt source.text start (Underline.ofSpan source span).line
      (Underline.ofSpan source span).column content ∧
    Wide source start (max start (min (max span.start span.stop) source.size))
      (Underline.ofSpan source span).width := by
  have greatest := source.floorBoundary_isGreatest (min (min span.start span.stop) source.size)
  generalize same : source.floorBoundary (min (min span.start span.stop) source.size) = start
    at greatest
  have boundary := greatest.1.1
  obtain ⟨back, here⟩ := Option.isSome_iff_exists.mp boundary
  obtain ⟨front, split, length⟩ := Source.exists_before_of_suffix? here
  have before : source.before start = front := by
    rw [Source.before, split, ← length, takeBytes_append]
  obtain ⟨content, shows, placed⟩ := placedAt_of_split front back
  rw [← split] at placed shows
  rw [length] at placed
  have ordered := Nat.le_max_left start (min (max span.start span.stop) source.size)
  have wide := wide_of_slice? ordered boundary
  refine ⟨start, content, greatest, ?_, ?_, ?_⟩
  · simp only [Underline.ofSpan, same, before]
    exact shows
  · simp only [Underline.ofSpan, same, before]
    exact placed
  · simp only [Underline.ofSpan, same]
    rw [Nat.max_comm span.stop, Nat.max_comm _ start]
    exact wide

/-- The ends of this span are in the wrong order, and one of them is behind the source. -/
example : Underline.ofSpan (.ofString "é\r\n<b>") ⟨9, 5⟩ = ⟨2, 2, 2⟩ := by decide +kernel

/-- Whatever the span of a diagnostic, its report tells the line and the column of the place where the
    span is underlined, shows this line without the carriage returns at its end, and has a caret
    under each column that the span takes there. -/
theorem Diagnostic.report_underlines (source : Source) (d : Diagnostic) :
    ∃ start line column width content shown returns,
      IsGreatest {boundary | source.isBoundary boundary = true ∧
        boundary ≤ min (min d.span.start d.span.stop) source.size} start ∧
      PlacedAt source.text start line column content ∧
      content = shown ++ List.replicate returns '\r' ∧ shown.getLast? ≠ some '\r' ∧
      Wide source start (max start (min (max d.span.start d.span.stop) source.size)) width ∧
      d.report source = "error[" ++ d.code.name ++ "]: " ++ d.message ++
        "\n  --> line " ++ toString line ++ ", column " ++ toString column ++
        "\n> " ++ .ofList shown ++
        "\n  " ++ .ofList (List.replicate (column - 1) ' ' ++ List.replicate width '^') := by
  obtain ⟨start, content, greatest, shows, placed, wide⟩ := underline_ofSpan source d.span
  obtain ⟨returns, trimmed, bare⟩ := exists_trimmed content '\r'
  refine ⟨start, _, _, _, content, _, returns, greatest, placed, trimmed, bare, wide, ?_⟩
  subst shows
  rfl

end PageMarkup
