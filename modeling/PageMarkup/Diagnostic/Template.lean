import PageMarkup.KeyMap

namespace PageMarkup

abbrev Params : Type := KeyMap String

namespace Template

/-- What stands for a placeholder: its parameter, or the placeholder itself if there is none. -/
def fill (params : Params) (name : List Char) : List Char :=
  match params.get? (.ofList name) with
  | some value => value.toList
  | none => '{' :: name ++ ['}']

/-- Fills the placeholders in one pass from left to right, so that braces in a parameter mean
    nothing. A brace that is never closed is kept with all that follows. -/
def fillAll (params : Params) : List Char → List Char
  | [] => []
  | c :: cs =>
    if c = '{' then
      match _closed : cs.dropWhile (· ≠ '}') with
      | [] => c :: cs
      | _ :: rest => fill params (cs.takeWhile (· ≠ '}')) ++ fillAll params rest
    else c :: fillAll params cs
termination_by template => template.length
decreasing_by
  · have shorter := (List.dropWhile_sublist (· ≠ '}') (l := cs)).length_le
    rw [_closed] at shorter
    simp only [List.length_cons] at shorter ⊢
    omega
  · simp

def render (template : String) (params : Params) : String :=
  .ofList (fillAll params template.toList)

end Template

end PageMarkup
