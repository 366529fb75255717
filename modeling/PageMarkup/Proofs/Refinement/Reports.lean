import Mathlib.Data.List.Basic
import PageMarkup.Refinement

namespace PageMarkup

variable {ι κ α β : Type} {Before : ι → ι → Prop} {Holds : ι → β → Prop} {reports : List β}

/-- The reports are about the places at which something holds: about each of them once, and in the
    order of the places. -/
def Reports (Before : ι → ι → Prop) (Holds : ι → β → Prop) (reports : List β) : Prop :=
  ∃ found : List (ι × β), found.map Prod.snd = reports ∧
    found.Pairwise (fun first next => Before first.1 next.1) ∧
    ∀ place report, (place, report) ∈ found ↔ Holds place report

namespace Reports

theorem nil (none : ∀ place report, ¬ Holds place report) : Reports Before Holds [] :=
  ⟨[], rfl, .nil, fun place report => by simp [none place report]⟩

theorem singleton (place : ι) {report : β}
    (only : ∀ other d, Holds other d ↔ other = place ∧ d = report) :
    Reports Before Holds [report] := by
  refine ⟨[(place, report)], rfl, List.pairwise_singleton _ _, fun other d => ?_⟩
  rw [List.mem_singleton, Prod.mk.injEq, only]

theorem holds (listed : Reports Before Holds reports) {report : β} (member : report ∈ reports) :
    ∃ place, Holds place report := by
  obtain ⟨found, rfl, _, exact⟩ := listed
  obtain ⟨⟨place, _⟩, here, rfl⟩ := List.mem_map.mp member
  exact ⟨place, (exact _ _).mp here⟩

theorem congr {Holds' : ι → β → Prop} (listed : Reports Before Holds reports)
    (same : ∀ place report, Holds' place report ↔ Holds place report) :
    Reports Before Holds' reports := by
  obtain ⟨found, diagnostics, ordered, exact⟩ := listed
  exact ⟨found, diagnostics, ordered, fun place report => (exact place report).trans
    (same place report).symm⟩

theorem append {Left Right : ι → β → Prop} {left right : List β} (first : Reports Before Left left)
    (second : Reports Before Right right)
    (before : ∀ {place other d e}, Left place d → Right other e → Before place other) :
    Reports Before (fun place report => Left place report ∨ Right place report) (left ++ right) := by
  obtain ⟨found, rfl, ordered, holds⟩ := first
  obtain ⟨others, rfl, ordered', holds'⟩ := second
  refine ⟨found ++ others, List.map_append, ?_, fun place report => ?_⟩
  · refine List.pairwise_append.mpr ⟨ordered, ordered', fun one member other member' => ?_⟩
    exact before ((holds _ _).mp member) ((holds' _ _).mp member')
  · rw [List.mem_append, holds, holds']

theorem map {After : κ → κ → Prop} (f : ι → κ) (listed : Reports Before Holds reports)
    (monotone : ∀ {place other}, Before place other → After (f place) (f other)) :
    Reports After (fun place report => ∃ inner, f inner = place ∧ Holds inner report) reports := by
  obtain ⟨found, rfl, ordered, holds⟩ := listed
  refine ⟨found.map (Prod.map f id), by simp, ?_, fun place report => ?_⟩
  · exact List.pairwise_map.mpr (ordered.imp monotone)
  · constructor
    · intro member
      obtain ⟨⟨inner, d⟩, listed, same⟩ := List.mem_map.mp member
      cases same
      exact ⟨inner, rfl, (holds _ _).mp listed⟩
    · rintro ⟨inner, rfl, here⟩
      exact List.mem_map.mpr ⟨(inner, report), (holds _ _).mpr here, rfl⟩

theorem flatMap {Holds : α → ι → β → Prop} {f : α → List β} {members : List α}
    (each : ∀ member ∈ members, Reports Before (Holds member) (f member)) :
    Reports (Prod.Lex (fun i j : Nat => i < j) Before)
      (fun place report => ∃ member, members[place.1]? = some member ∧
        Holds member place.2 report) (members.flatMap f) := by
  induction members with
  | nil => exact nil fun place report => by simp
  | cons first members ih =>
    have own : Reports (Prod.Lex (fun i j : Nat => i < j) Before) _ (f first) :=
      (each first List.mem_cons_self).map (fun inner => (0, inner)) fun before => .right 0 before
    have others := ih fun member listed => each member (List.mem_cons_of_mem _ listed)
    have others : Reports (Prod.Lex (fun i j : Nat => i < j) Before) _ (members.flatMap f) :=
      others.map (fun place => (place.1 + 1, place.2)) fun before => by
        cases before with
        | left _ _ before => exact .left _ _ (Nat.succ_lt_succ before)
        | right _ before => exact .right _ before
    refine (own.append others ?_).congr fun place report => ?_
    · rintro _ _ _ _ ⟨inner, rfl, _⟩ ⟨place, rfl, _⟩
      exact .left _ _ (Nat.succ_pos _)
    · obtain ⟨position, inner⟩ := place
      cases position with
      | zero => simp
      | succ position =>
        constructor
        · rintro ⟨member, listed, holds⟩
          exact .inr ⟨(position, inner), rfl, member, listed, holds⟩
        · rintro (⟨_, same, _⟩ | ⟨_, same, holds⟩)
          · cases same
          · cases same
            exact holds

theorem filterMap (f : α → Option β) (members : List α) :
    Reports (fun i j : Nat => i < j)
      (fun position report => ∃ member, members[position]? = some member ∧ f member = some report)
      (members.filterMap f) := by
  have each : ∀ member ∈ members, Reports (fun _ _ => False)
      (fun (_ : Unit) report => f member = some report) (f member).toList := by
    intro member _
    cases f member with
    | none => exact nil fun _ _ => nofun
    | some report => exact singleton () fun _ d => by simp [eq_comm]
  rw [List.filterMap_eq_flatMap_toList]
  refine ((flatMap each).map Prod.fst fun before => ?_).congr fun position report => by simp
  cases before with
  | left _ _ before => exact before
  | right _ before => exact before.elim

end Reports

end PageMarkup
