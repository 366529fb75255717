import PageMarkup.Diagnostic.Basic
import PageMarkup.Proofs.KeyMap
import PageMarkup.Proofs.Text.Runs

namespace PageMarkup.Template

def placeholders : List Char → List String
  | [] => []
  | c :: cs =>
    if c = '{' then
      match _closed : cs.dropWhile (· ≠ '}') with
      | [] => []
      | _ :: rest => .ofList (cs.takeWhile (· ≠ '}')) :: placeholders rest
    else placeholders cs
termination_by template => template.length
decreasing_by
  · have shorter := (List.dropWhile_sublist (· ≠ '}') (l := cs)).length_le
    rw [_closed] at shorter
    simp only [List.length_cons] at shorter ⊢
    omega
  · simp

/-- A template and its message, in which a parameter stands for every name in braces. -/
inductive Filled (params : Params) : (template message : List Char) → Prop
  | nil : Filled params [] []
  | char {c : Char} {template message : List Char} (plain : c ≠ '{')
      (others : Filled params template message) : Filled params (c :: template) (c :: message)
  | placeholder {name template message : List Char} {value : String} (inside : '}' ∉ name)
      (given : params.get? (.ofList name) = some value)
      (others : Filled params template message) :
      Filled params ('{' :: (name ++ '}' :: template)) (value.toList ++ message)
  | unclosed {template : List Char} (inside : '}' ∉ template) :
      Filled params ('{' :: template) ('{' :: template)

variable {params : Params} {name template message : List Char} {c : Char}

theorem ne_brace_iff : (∀ c ∈ name, decide (c ≠ '}') = true) ↔ '}' ∉ name := by
  simp only [decide_eq_true_eq]
  exact ⟨fun other member => other _ member rfl, fun inside _ member same => inside (same ▸ member)⟩

theorem takeWhile_name (inside : '}' ∉ name) (template : List Char) :
    (name ++ '}' :: template).takeWhile (· ≠ '}') = name :=
  takeWhile_run (ne_brace_iff.mpr inside) rfl

theorem dropWhile_name (inside : '}' ∉ name) (template : List Char) :
    (name ++ '}' :: template).dropWhile (· ≠ '}') = '}' :: template :=
  dropWhile_run (ne_brace_iff.mpr inside) rfl

theorem dropWhile_eq_nil_iff : template.dropWhile (· ≠ '}') = [] ↔ '}' ∉ template :=
  List.dropWhile_eq_nil_iff.trans ne_brace_iff

theorem exists_name {rest : List Char} (closed : template.dropWhile (· ≠ '}') = c :: rest) :
    ∃ name, template = name ++ '}' :: rest ∧ '}' ∉ name := by
  obtain ⟨name, others, rfl, all, edge⟩ := exists_run (· ≠ '}') template
  rw [dropWhile_run all edge] at closed
  subst closed
  have brace : c = '}' := by simpa using edge
  exact ⟨name, brace ▸ rfl, ne_brace_iff.mp all⟩

@[elab_as_elim]
theorem parts {motive : List Char → Prop} (nil : motive [])
    (char : ∀ c template, c ≠ '{' → motive template → motive (c :: template))
    (placeholder : ∀ name template, '}' ∉ name → motive template →
      motive ('{' :: (name ++ '}' :: template)))
    (unclosed : ∀ template, '}' ∉ template → motive ('{' :: template)) (template : List Char) :
    motive template := by
  induction template using placeholders.induct with
  | case1 => exact nil
  | case2 cs unclosed' => exact unclosed cs (dropWhile_eq_nil_iff.mp unclosed')
  | case3 cs c rest closed ih =>
    obtain ⟨name, rfl, inside⟩ := exists_name closed
    exact placeholder name rest inside ih
  | case4 c cs plain ih => exact char c cs plain ih

@[simp] theorem placeholders_nil : placeholders [] = [] := by rw [placeholders]

theorem placeholders_char (plain : c ≠ '{') (template : List Char) :
    placeholders (c :: template) = placeholders template := by
  rw [placeholders, if_neg plain]

theorem placeholders_name (inside : '}' ∉ name) (template : List Char) :
    placeholders ('{' :: (name ++ '}' :: template)) = .ofList name :: placeholders template := by
  rw [placeholders, if_pos rfl]
  split
  · rename_i unclosed
    rw [dropWhile_name inside] at unclosed
    cases unclosed
  · rename_i closed
    rw [dropWhile_name inside] at closed
    cases closed
    rw [takeWhile_name inside]

theorem placeholders_unclosed (inside : '}' ∉ template) : placeholders ('{' :: template) = [] := by
  rw [placeholders, if_pos rfl]
  split
  · rfl
  · rename_i closed
    rw [dropWhile_eq_nil_iff.mpr inside] at closed
    cases closed

@[simp] theorem fillAll_nil (params : Params) : fillAll params [] = [] := by rw [fillAll]

theorem fillAll_char (plain : c ≠ '{') (params : Params) (template : List Char) :
    fillAll params (c :: template) = c :: fillAll params template := by
  rw [fillAll, if_neg plain]

theorem fillAll_name (inside : '}' ∉ name) (params : Params) (template : List Char) :
    fillAll params ('{' :: (name ++ '}' :: template)) =
      fill params name ++ fillAll params template := by
  rw [fillAll, if_pos rfl]
  split
  · rename_i unclosed
    rw [dropWhile_name inside] at unclosed
    cases unclosed
  · rename_i closed
    rw [dropWhile_name inside] at closed
    cases closed
    rw [takeWhile_name inside]

theorem fillAll_unclosed (inside : '}' ∉ template) (params : Params) :
    fillAll params ('{' :: template) = '{' :: template := by
  rw [fillAll, if_pos rfl]
  split
  · rfl
  · rename_i closed
    rw [dropWhile_eq_nil_iff.mpr inside] at closed
    cases closed

theorem fill_of_get? {value : String} (given : params.get? (.ofList name) = some value) :
    fill params name = value.toList := by
  rw [fill, given]

theorem filled_fillAll (given : ∀ name ∈ placeholders template, name ∈ params.keys) :
    Filled params template (fillAll params template) := by
  induction template using parts with
  | nil =>
    rw [fillAll_nil]
    exact .nil
  | char c template plain ih =>
    rw [placeholders_char plain] at given
    rw [fillAll_char plain]
    exact .char plain (ih given)
  | placeholder name template inside ih =>
    rw [placeholders_name inside] at given
    obtain ⟨value, here⟩ := (params.mem_keys_iff).mp (given _ List.mem_cons_self)
    rw [fillAll_name inside, fill_of_get? here]
    exact .placeholder inside here (ih fun name member => given name (List.mem_cons_of_mem _ member))
  | unclosed template inside =>
    rw [fillAll_unclosed inside]
    exact .unclosed inside

theorem Filled.given (filled : Filled params template message) :
    ∀ name ∈ placeholders template, name ∈ params.keys := by
  induction filled with
  | nil => simp
  | char plain _ ih => rwa [placeholders_char plain]
  | placeholder inside given _ ih =>
    rw [placeholders_name inside]
    exact List.forall_mem_cons.mpr ⟨params.mem_keys_iff.mpr ⟨_, given⟩, ih⟩
  | unclosed inside => simp [placeholders_unclosed inside]

theorem Filled.eq_fillAll (filled : Filled params template message) :
    message = fillAll params template := by
  induction filled with
  | nil => rw [fillAll_nil]
  | char plain _ ih => rw [fillAll_char plain, ih]
  | placeholder inside given _ ih => rw [fillAll_name inside, fill_of_get? given, ih]
  | unclosed inside => rw [fillAll_unclosed inside]

theorem filled_iff : Filled params template message ↔
    (∀ name ∈ placeholders template, name ∈ params.keys) ∧ message = fillAll params template := by
  constructor
  · intro filled
    exact ⟨filled.given, filled.eq_fillAll⟩
  · rintro ⟨given, rfl⟩
    exact filled_fillAll given

end PageMarkup.Template
