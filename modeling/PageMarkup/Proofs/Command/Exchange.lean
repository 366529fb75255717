import PageMarkup.Proofs.Command.Contract
import PageMarkup.Proofs.Diagnostic.Location
import PageMarkup.Proofs.Json.RoundTrip
import PageMarkup.Proofs.KeyMap

namespace PageMarkup

theorem mapM_map_eq_some {α β : Type} {read : β → Option α} {write : α → β} {values : List α}
    (inverse : ∀ value ∈ values, read (write value) = some value) :
    (values.map write).mapM read = some values := by
  induction values with
  | nil => rfl
  | cons value values ih =>
    obtain ⟨first, others⟩ := List.forall_mem_cons.mp inverse
    rw [List.map_cons, List.mapM_cons, first, ih others]
    rfl

theorem Phase.ofName?_name (phase : Phase) : ofName? phase.name = some phase := by
  cases phase <;> rfl

theorem Code.ofName?_name (code : Code) : ofName? code.name = some code := by
  cases code <;> decide

theorem Params.ofJson?_toJson (params : Params) : ofJson? (toJson params) = some params := by
  rw [toJson, ofJson?, mapM_map_eq_some]
  · exact congrArg some params.ofList_entries
  · exact fun _ _ => rfl

namespace Span

def Fits (span : Span) : Prop := span.start < UInt64.size ∧ span.stop < UInt64.size

theorem ofJson?_toJson {span : Span} (fits : span.Fits) : ofJson? span.toJson = some span := by
  have start : Json.offset? (.natural span.start) = some span.start := if_pos fits.1
  have stop : Json.offset? (.natural span.stop) = some span.stop := if_pos fits.2
  simp [toJson, ofJson?, Json.member?, start, stop]

end Span

namespace Diagnostic

theorem ofJson?_toJson {d : Diagnostic} (fits : d.span.Fits) : ofJson? d.toJson = some d := by
  have params := Params.ofJson?_toJson d.params
  have span := Span.ofJson?_toJson fits
  have phase := d.phase.ofName?_name
  have code := d.code.ofName?_name
  by_cases empty : d.params.isEmpty
  · have none : d.params = .empty := KeyMap.eq_empty_of_isEmpty empty
    simp [toJson, ofJson?, Json.member?, Json.word?, empty, phase, code, span, ← none]
  · simp [toJson, ofJson?, Json.member?, Json.word?, empty, phase, code, span, params]

theorem params_toJson (d : Diagnostic) : d.toJson.field? "params" =
    if d.params.isEmpty then none else some (Params.toJson d.params) := by
  by_cases empty : d.params.isEmpty <;>
    simp [toJson, Json.field?, Json.object?, Json.member?, empty]

theorem canonical_toJson (d : Diagnostic) : d.toJson.Canonical := by
  have params : (Params.toJson d.params).Canonical := by
    rw [Params.toJson, Json.Canonical]
    induction d.params.entries with
    | nil => trivial
    | cons entry entries ih => exact ⟨trivial, ih⟩
  rw [toJson]
  split
  · exact ⟨trivial, trivial, ⟨trivial, trivial, trivial⟩, trivial⟩
  · exact ⟨trivial, trivial, params, ⟨trivial, trivial, trivial⟩, trivial⟩

theorem canonicalElements_map_toJson (errors : List Diagnostic) :
    Json.CanonicalElements (errors.map toJson) := by
  induction errors with
  | nil => trivial
  | cons d errors ih => exact ⟨d.canonical_toJson, ih⟩

theorem fits_of_mem_errors {compiler : Compiler} {source : Source}
    (small : source.size < UInt64.size) : ∀ d ∈ (compiler.compile source).errors, d.span.Fits := by
  intro d member
  have valid := span_valid_of_mem_errors compiler source d member
  exact ⟨valid.ordered.trans_lt (valid.bounded.trans_lt small), valid.bounded.trans_lt small⟩

end Diagnostic

namespace Command

open Diagnostic

variable {σ : Type} {files : FileAccess (StateM σ)}

theorem stdout_check_json (lawful : files.Lawful) (threshold : Log.Threshold) {path text : String}
    (maxDepth : Nat) {state : σ} (readable : ((files.read path).run state).1 = .content text) :
    ((check files threshold path .json maxDepth).run state).1.stdout =
      .ofList (Json.pretty 0 (.array ((compileText maxDepth text).errors.map Diagnostic.toJson)) ++
        ['\n']) := by
  rw [check, run_read lawful, readable, String.ofList_append]
  rfl

/-- Every diagnostic is read back from the form in which it leaves the program, wherever its span of
    64 bits points; parameters are left out when there are none. A check of a text that can be read
    prints a list that is read back as the errors of the compilation, in their order. -/
theorem exchange_lossless :
    (∀ d : Diagnostic, d.span.Fits →
      ofJson? d.toJson = some d ∧
      Json.read? (.ofList (Json.pretty 0 d.toJson)) = some d.toJson ∧
      d.toJson.field? "params" =
        if d.params.isEmpty then none else some (Params.toJson d.params)) ∧
    ∀ (tree : FileTree) (logLevel : Option String) (arguments : List String) (verbose : Bool)
      (path text : String) (maxDepth : Nat),
      readInvocation Grammar.defaultMaxDepth false arguments =
        .ok (.run verbose (.check path .json maxDepth)) →
      tree.reading path = .content text → (Source.ofString text).size < UInt64.size →
      ∃ elements,
        Json.read? ((run FileTree.access logLevel arguments).run tree).1.stdout =
          some (.array elements) ∧
        elements.mapM ofJson? = some (compileText maxDepth text).errors := by
  refine ⟨fun d fits => ⟨ofJson?_toJson fits, ?_, d.params_toJson⟩, ?_⟩
  · have read := @Json.read?_pretty _ d.canonical_toJson 0 [] nofun
    rwa [List.append_nil] at read
  · intro tree logLevel arguments verbose path text maxDepth invoked readable small
    refine ⟨(compileText maxDepth text).errors.map toJson, ?_, ?_⟩
    · have printed := @stdout_check_json _ _ FileTree.access_lawful (threshold logLevel verbose)
        path text maxDepth tree readable
      have canonical : (Json.array ((compileText maxDepth text).errors.map toJson)).Canonical :=
        canonicalElements_map_toJson _
      rw [run, invoked]
      change Json.read? ((check FileTree.access (threshold logLevel verbose) path .json
        maxDepth).run tree).1.stdout = _
      rw [printed]
      exact Json.read?_pretty canonical 0 (List.forall_mem_singleton.mpr rfl)
    · exact mapM_map_eq_some fun d member => ofJson?_toJson (fits_of_mem_errors small d member)

theorem exchange_lossless_sample :
    let d : Diagnostic := ⟨.parser, .textNotAllowed, KeyMap.empty.insert "parent" "\"ü\n", ⟨9, 2⟩⟩
    let tree : FileTree := ⟨[(⟨false, 0, ["a.dml"]⟩, .text "<ü")]⟩
    let arguments := ["check", "--format", "json", "--max-depth", "1", "a.dml"]
    ofJson? d.toJson = some d ∧
      ∃ elements,
        Json.read? ((run FileTree.access none arguments).run tree).1.stdout =
          some (.array elements) ∧
        elements.mapM ofJson? = some [ofCode .tagNameAlphanumeric ⟨1, 1⟩] := by
  intro d tree arguments
  obtain ⟨one, check⟩ := exchange_lossless
  have errors : (compileText 1 "<ü").errors = [ofCode .tagNameAlphanumeric ⟨1, 1⟩] := by decide +kernel
  rw [← errors]
  refine ⟨(one d ⟨by decide +kernel, by decide +kernel⟩).1, ?_⟩
  exact check tree none arguments false "a.dml" "<ü" 1 (by decide +kernel) (by decide +kernel)
    (by decide +kernel)

end Command

end PageMarkup
