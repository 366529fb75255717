import Mathlib.Data.Set.Card
import Mathlib.Order.Interval.Finset.Nat
import Mathlib.Order.Monotone.Basic
import PageMarkup.Parsing.Rule
import PageMarkup.Proofs.Parsing.Cursor

namespace PageMarkup

variable {ε : Type} [OfReason ε]

abbrev Answers (ε : Type) : Type := String → Nat → Except (Failure ε) (Success Value) → Prop

/-- The rule gives the same answer whatever stands for its references, as long as they answer so. -/
def Rule.SettledBy (source : Source) (answers : Answers ε) (rule : Rule ε) (offset : Nat)
    (answer : Except (Failure ε) (Success Value)) : Prop :=
  ∀ named : String → Parser ε Value,
    (∀ name next reply, answers name next reply → named name source next = reply) →
      rule.parser named source offset = answer

theorem Rule.SettledBy.mono {source : Source} {answers answers' : Answers ε} {rule : Rule ε}
    {offset : Nat} {answer : Except (Failure ε) (Success Value)}
    (settled : rule.SettledBy source answers offset answer)
    (more : ∀ name next reply, answers name next reply → answers' name next reply) :
    rule.SettledBy source answers' offset answer := fun named agrees =>
  settled named fun name next reply given => agrees name next reply (more name next reply given)

namespace Definitions

/-- A reference whose run ends, and with what answer: its rule is settled by references ahead whose
    runs end. -/
inductive Answered (definitions : Definitions ε) (source : Source) : Answers ε
  | intro {name : String} {rule : Rule ε} {offset : Nat}
      {answer : Except (Failure ε) (Success Value)} (answers : Answers ε)
      (ahead : ∀ {name next reply}, answers name next reply →
        offset ≤ next ∧ source.isBoundary next = true)
      (answered : ∀ {name next reply}, answers name next reply →
        Answered definitions source name next reply)
      (found : definitions.lookup name = some rule)
      (settled : rule.SettledBy source answers offset answer) :
      Answered definitions source name offset answer

/-- A run of a rule ends with an answer: references ahead whose own runs end settle it. Whenever a
    run ends, the references that it follows do so. -/
def Ends (definitions : Definitions ε) (source : Source) (rule : Rule ε) (offset : Nat)
    (answer : Except (Failure ε) (Success Value)) : Prop :=
  rule.SettledBy source
    (fun name next reply => offset ≤ next ∧ source.isBoundary next = true ∧
      definitions.Answered source name next reply) offset answer

/-- The answers of references behind `entry` that are found by following references `depth` deep. -/
def answeredWithin (definitions : Definitions ε) (source : Source) (entry : Nat) : Nat → Answers ε
  | 0 => fun _ _ _ => False
  | depth + 1 => fun name next reply => entry ≤ next ∧ source.isBoundary next = true ∧
      ∃ rule, definitions.lookup name = some rule ∧
        rule.SettledBy source (definitions.answeredWithin source entry depth) next reply

variable {definitions : Definitions ε} {source : Source} {entry depth : Nat} {name : String}
  {next : Nat} {reply : Except (Failure ε) (Success Value)}

theorem answeredWithin_succ
    (answered : definitions.answeredWithin source entry depth name next reply) :
    definitions.answeredWithin source entry (depth + 1) name next reply := by
  induction depth generalizing name next reply with
  | zero => exact answered.elim
  | succ depth ih =>
    obtain ⟨ahead, boundary, rule, found, settled⟩ := answered
    exact ⟨ahead, boundary, rule, found, settled.mono fun _ _ _ => ih⟩

theorem named_of_answeredWithin {deep : Nat} (enough : depth ≤ deep)
    (answered : definitions.answeredWithin source entry depth name next reply) :
    definitions.named deep name source next = reply := by
  induction depth generalizing deep name next reply with
  | zero => exact answered.elim
  | succ depth ih =>
    obtain ⟨_, _, rule, found, settled⟩ := answered
    obtain ⟨deep, rfl⟩ := Nat.exists_eq_add_of_lt enough
    rw [named, found]
    exact settled _ fun _ _ _ given => ih (by omega) given

def answering (definitions : Definitions ε) (source : Source) (entry depth : Nat) :
    Set (String × Nat) :=
  {call | ∃ reply, definitions.answeredWithin source entry depth call.1 call.2 reply}

def references (definitions : Definitions ε) (source : Source) (entry : Nat) :
    Finset (String × Nat) :=
  (definitions.map Prod.fst).toFinset ×ˢ Finset.Icc entry source.size

omit [OfReason ε] in
theorem card_references_le (definitions : Definitions ε) (source : Source) (entry : Nat) :
    (definitions.references source entry).card ≤
      definitions.length * (source.size + 1 - entry) := by
  rw [references, Finset.card_product, Nat.card_Icc]
  refine Nat.mul_le_mul_right _ ((List.toFinset_card_le _).trans ?_)
  rw [List.length_map]

theorem answering_subset (depth : Nat) :
    definitions.answering source entry depth ⊆ definitions.references source entry := by
  rintro ⟨name, next⟩ ⟨reply, answered⟩
  cases depth with
  | zero => exact answered.elim
  | succ depth =>
    obtain ⟨ahead, boundary, rule, found, _⟩ := answered
    obtain ⟨before, behind, split, _⟩ := List.lookup_eq_some_iff.mp found
    refine Finset.mem_coe.mpr (Finset.mem_product.mpr ⟨?_, ?_⟩)
    · rw [List.mem_toFinset, split]
      simp
    · exact Finset.mem_Icc.mpr ⟨ahead, Source.le_size_of_isBoundary boundary⟩

theorem finite_answering (depth : Nat) : (definitions.answering source entry depth).Finite :=
  (Finset.finite_toSet _).subset (answering_subset depth)

theorem answering_succ (depth : Nat) :
    definitions.answering source entry depth ⊆ definitions.answering source entry (depth + 1) := by
  rintro call ⟨reply, answered⟩
  exact ⟨reply, answeredWithin_succ answered⟩

theorem answeredWithin_stable
    (same : (definitions.answering source entry depth).ncard =
      (definitions.answering source entry (depth + 1)).ncard) :
    definitions.answeredWithin source entry (depth + 1) =
      definitions.answeredWithin source entry depth := by
  have sets := Set.eq_of_subset_of_ncard_le (answering_succ depth) same.ge
    (finite_answering (depth + 1))
  funext name next reply
  refine propext ⟨fun answered => ?_, answeredWithin_succ⟩
  have member : (name, next) ∈ definitions.answering source entry depth := by
    rw [sets]
    exact ⟨reply, answered⟩
  obtain ⟨reply', answered'⟩ := member
  -- both replies are what the reference answers when it is followed deep enough
  have first := named_of_answeredWithin (Nat.le_refl _) answered
  have second := named_of_answeredWithin (Nat.le_succ _) answered'
  rw [← first, second]
  exact answered'

theorem exists_stable (definitions : Definitions ε) (source : Source) (entry : Nat) :
    definitions.answeredWithin source entry
        (definitions.length * (source.size + 1 - entry) + 1) =
      definitions.answeredWithin source entry
        (definitions.length * (source.size + 1 - entry)) := by
  let count (depth : Nat) : Nat := (definitions.answering source entry depth).ncard
  have grows : Monotone count := monotone_nat_of_le_succ fun depth =>
    Set.ncard_le_ncard (answering_succ depth) (finite_answering (depth + 1))
  have bounded (depth : Nat) : count depth ≤ definitions.length * (source.size + 1 - entry) := by
    refine le_trans ?_ (definitions.card_references_le source entry)
    rw [← Set.ncard_coe_finset]
    exact Set.ncard_le_ncard (answering_subset depth) (Finset.finite_toSet _)
  have stays (depth : Nat) (same : count depth = count (depth + 1)) :
      count (depth + 1) = count (depth + 2) := by
    have stable := answeredWithin_stable same
    have next : definitions.answeredWithin source entry (depth + 2) =
        definitions.answeredWithin source entry (depth + 1) := by
      conv_lhs => rw [answeredWithin, stable]
      rw [answeredWithin]
    simp only [count, answering, next]
  exact answeredWithin_stable
    (Nat.stabilises_of_monotone grows bounded stays (Nat.le_succ _)).symm

/-- A run in which the same reference is followed again before it has answered does not end. So no
    more references are followed inside one another than there are. -/
theorem Answered.within (answered : definitions.Answered source name next reply)
    (ahead : entry ≤ next) (boundary : source.isBoundary next = true) :
    definitions.answeredWithin source entry (definitions.length * (source.size + 1 - entry)) name
      next reply := by
  induction answered with
  | intro answers behind _ found settled ih =>
    rw [← exists_stable]
    refine ⟨ahead, boundary, _, found, settled.mono fun name next reply given => ?_⟩
    obtain ⟨later, boundary⟩ := behind given
    exact ih given (Nat.le_trans ahead later) boundary

omit [OfReason ε] in
theorem length_mul_le_depthFor (definitions : Definitions ε) (source : Source) (entry : Nat) :
    definitions.length * (source.size + 1 - entry) ≤ definitions.depthFor source := by
  have narrower : definitions.length * (source.size + 1 - entry) ≤
      definitions.length * (source.size + 2) := Nat.mul_le_mul_left _ (by omega)
  rw [depthFor]
  omega

theorem Answered.named_eq (answered : definitions.Answered source name next reply)
    (boundary : source.isBoundary next = true) :
    definitions.named (definitions.depthFor source) name source next = reply :=
  named_of_answeredWithin (definitions.length_mul_le_depthFor source next)
    (answered.within (Nat.le_refl _) boundary)

theorem Ends.run_eq {rule : Rule ε} (ends : definitions.Ends source rule entry reply) :
    definitions.run rule source entry = reply :=
  ends _ fun _ _ _ given => given.2.2.named_eq given.2.1

end Definitions

end PageMarkup
