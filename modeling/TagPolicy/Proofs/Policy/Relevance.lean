import Mathlib.Data.List.Basic
import Mathlib.Data.List.Find
import TagPolicy.Proofs.Policy.Pass
import TagPolicy.Proofs.Policy.Strict

/-!
Which tags a decision depends on. A condition reports the tags that occur in it, each once and in the
order of their first occurrence. Two requests with the same attributes that agree on every tag
reported by some condition of a table are decided by the same rule, also where references of the table
were never checked.
-/

namespace TagPolicy

namespace Condition

inductive Mentions (name : String) : Condition → Prop
  | tag : Mentions name (.tag name)
  | all {members : List Condition} {member : Condition} :
      member ∈ members → Mentions name member → Mentions name (.all members)
  | any {members : List Condition} {member : Condition} :
      member ∈ members → Mentions name member → Mentions name (.any members)
  | not {operand : Condition} : Mentions name operand → Mentions name (.not operand)

section Reporting

variable {name : String} {members : List Condition} {seen items : List String}

theorem mem_tag_occurrences_of_members :
    name ∈ tagOccurrencesOfMembers members ↔ ∃ member ∈ members, name ∈ member.tagOccurrences := by
  induction members with
  | nil => simp [tagOccurrencesOfMembers]
  | cons member members induction => simp [tagOccurrencesOfMembers, induction]

theorem mem_tag_occurrences (condition : Condition) :
    name ∈ condition.tagOccurrences ↔ condition.Mentions name := by
  constructor
  · intro inside
    induction condition using induct with
    | all members each =>
        obtain ⟨member, present, inside⟩ := mem_tag_occurrences_of_members.mp inside
        exact .all present (each member present inside)
    | any members each =>
        obtain ⟨member, present, inside⟩ := mem_tag_occurrences_of_members.mp inside
        exact .any present (each member present inside)
    | not operand inner => exact .not (inner inside)
    | tag other =>
        rw [List.mem_singleton.mp inside]
        exact .tag
    | attr | const | predicate => simp [tagOccurrences] at inside
  · intro mentions
    induction mentions with
    | tag => exact List.mem_singleton.mpr rfl
    | all present _ inside => exact mem_tag_occurrences_of_members.mpr ⟨_, present, inside⟩
    | any present _ inside => exact mem_tag_occurrences_of_members.mpr ⟨_, present, inside⟩
    | not _ inside => exact inside

theorem mem_first_occurrences :
    name ∈ firstOccurrences seen items ↔ name ∈ items ∧ name ∉ seen := by
  induction items generalizing seen with
  | nil => simp [firstOccurrences]
  | cons item items induction =>
      by_cases known : item ∈ seen
      · rw [firstOccurrences, if_pos known, induction, List.mem_cons]
        constructor
        · rintro ⟨inside, new⟩
          exact ⟨.inr inside, new⟩
        · rintro ⟨rfl | inside, new⟩
          · exact absurd known new
          · exact ⟨inside, new⟩
      · rw [firstOccurrences, if_neg known, List.mem_cons, induction, List.mem_cons, List.mem_cons]
        by_cases same : name = item
        · simp [same, known]
        · simp [same]

/-- What is kept of a list differs from an item seen before, and so stands one place further in the
list behind that item. -/
theorem idxOf_behind {item : String} (known : item ∈ seen) :
    ∀ other ∈ firstOccurrences seen items,
      (item :: items).idxOf other = items.idxOf other + 1 := by
  intro other inside
  have new := (mem_first_occurrences.mp inside).2
  apply List.idxOf_cons_ne
  intro same
  exact new (same ▸ known)

/-- Items are kept in the order in which they occur first. -/
theorem pairwise_first_occurrences :
    (firstOccurrences seen items).Pairwise fun earlier later =>
      items.idxOf earlier < items.idxOf later := by
  induction items generalizing seen with
  | nil => exact .nil
  | cons item items induction =>
      have shifted : ∀ {before}, item ∈ before → (firstOccurrences before items).Pairwise
          fun earlier later => (item :: items).idxOf earlier < (item :: items).idxOf later := by
        intro before known
        apply List.Pairwise.imp_of_mem _ induction
        intro earlier later first second less
        rw [idxOf_behind known earlier first, idxOf_behind known later second]
        exact Nat.succ_lt_succ less
      by_cases known : item ∈ seen
      · rw [firstOccurrences, if_pos known]
        exact shifted known
      · rw [firstOccurrences, if_neg known, List.pairwise_cons]
        refine ⟨?_, shifted List.mem_cons_self⟩
        intro other inside
        rw [idxOf_behind List.mem_cons_self other inside, List.idxOf_cons_self]
        exact Nat.zero_lt_succ _

/-- The reported tags are those that occur, each once and in the order of first occurrence. -/
structure Reports (condition : Condition) (names : List String) : Prop where
  mem_iff : ∀ name, name ∈ names ↔ condition.Mentions name
  nodup : names.Nodup
  ordered : names.Pairwise fun earlier later =>
    condition.tagOccurrences.idxOf earlier < condition.tagOccurrences.idxOf later

theorem reports_referenced_tags (condition : Condition) :
    condition.Reports condition.referencedTags where
  mem_iff name := by
    rw [referencedTags, mem_first_occurrences, mem_tag_occurrences]
    simp
  nodup := by
    apply pairwise_first_occurrences.imp
    intro earlier later less same
    rw [same] at less
    exact Nat.lt_irrefl _ less
  ordered := pairwise_first_occurrences

end Reporting

section Agreement

variable {left right : Facts} {meaning : Nat → Bool}

theorem holds_of_mentions (attributes : left.attributes = right.attributes) (condition : Condition)
    (tags : ∀ name, condition.Mentions name → (name ∈ left.tags ↔ name ∈ right.tags)) :
    condition.holds left meaning = condition.holds right meaning := by
  induction condition using induct with
  | all members each =>
      exact Connective.conjunction.holds_congr fun member inside =>
        each member inside fun name mentions => tags name (.all inside mentions)
  | any members each =>
      exact Connective.disjunction.holds_congr fun member inside =>
        each member inside fun name mentions => tags name (.any inside mentions)
  | not operand inner =>
      rw [holds, holds, inner fun name mentions => tags name (.not mentions)]
  | tag name =>
      rw [holds, holds, Bool.eq_iff_iff, OrderedSet.contains_eq_true, OrderedSet.contains_eq_true]
      exact tags name .tag
  | attr name comparison value => rw [holds, holds, attributes]
  | const | predicate => rfl

/-- The condition asks for no tag on which the requests differ. -/
def Agreed (left right : Facts) (condition : Condition) : Prop :=
  ∀ name ∈ condition.referencedTags, name ∈ left.tags ↔ name ∈ right.tags

theorem Agreed.holds {condition : Condition} (agreed : condition.Agreed left right)
    (attributes : left.attributes = right.attributes) :
    condition.holds left meaning = condition.holds right meaning := by
  apply holds_of_mentions attributes
  intro name mentions
  exact agreed name ((condition.reports_referenced_tags.mem_iff name).mpr mentions)

end Agreement

end Condition

open Condition (Agreed)

section Decisions

variable {predicates : List Predicate} {left right : Facts}

/-- Where the bodies cannot tell two requests apart, neither can the meanings, by induction on the
position: a body sees nothing but the meanings before it. -/
theorem meaning_of_of_agreed (attributes : left.attributes = right.attributes)
    (agreed : ∀ predicate ∈ predicates, Agreed left right predicate.condition) (index : Nat) :
    meaningOf predicates left index = meaningOf predicates right index := by
  induction index using Nat.strongRecOn with
  | ind index induction =>
      by_cases inside : index < predicates.length
      · have present := List.getElem?_eq_getElem inside
        have seen : (fun earlier => decide (earlier < index) && meaningOf predicates left earlier) =
            fun earlier => decide (earlier < index) && meaningOf predicates right earlier := by
          funext earlier
          by_cases below : earlier < index
          · rw [induction earlier below]
          · simp [below]
        rw [meaning_of_eq present, meaning_of_eq present, seen]
        exact (agreed _ (List.getElem_mem inside)).holds attributes
      · have outside := Nat.le_of_not_lt inside
        rw [meaning_of_of_length_le outside, meaning_of_of_length_le outside]

/-- A decision depends on the attributes and on the reported tags, and on nothing else. -/
theorem Table.decides_by_reported_tags :
    (∀ (table : Table) (left right : Facts), left.attributes = right.attributes →
      (∀ condition ∈ table.conditions, ∀ name ∈ condition.referencedTags,
        name ∈ left.tags ↔ name ∈ right.tags) →
          table.firstMatch left = table.firstMatch right) ∧
    ∀ condition : Condition, condition.Reports condition.referencedTags := by
  refine ⟨?_, Condition.reports_referenced_tags⟩
  intro table left right attributes agreed
  rw [Table.conditions, List.forall_mem_append, List.forall_mem_map, List.forall_mem_map] at agreed
  have meanings : meaningOf table.predicates left = meaningOf table.predicates right :=
    funext (meaning_of_of_agreed attributes agreed.1)
  rw [table.first_match_eq_find, table.first_match_eq_find, meanings]
  apply List.find?_congr
  intro rule inside
  exact Agreed.holds (agreed.2 rule inside) attributes

/-- A table that refers to a later predicate and past its end, and does not ask for every tag. -/
def lampTable : Table where
  schemaVersion := ""
  predicates :=
    [⟨"open", .any [.predicate 1, .tag "hall"]⟩, ⟨"dark", .all [.tag "night", .not (.tag "lamp")]⟩]
  rules :=
    [⟨.predicate 7, .deny, 1, 1⟩, ⟨.all [.predicate 0, .tag "night"], .deny, 2, 2⟩,
      ⟨.any [.tag "lamp", .tag "night", .tag "lamp"], .allow, 3, 3⟩]

/-- The tag that no condition asks for does not matter. -/
theorem guest_not_asked_for :
    let plain : Facts := ⟨.ofList ["night"], .empty⟩
    let guest : Facts := ⟨.ofList ["guest", "night"], .empty⟩
    plain.attributes = guest.attributes ∧
      (∀ condition ∈ lampTable.conditions, ∀ name ∈ condition.referencedTags,
        name ∈ plain.tags ↔ name ∈ guest.tags) ∧
      lampTable.firstMatch guest =
        some ⟨.any [.tag "lamp", .tag "night", .tag "lamp"], .allow, 3, 3⟩ ∧
      (Condition.any [.tag "lamp", .tag "night", .tag "lamp"]).Reports ["lamp", "night"] := by
  intro plain guest
  have agreed : ∀ condition ∈ lampTable.conditions, ∀ name ∈ condition.referencedTags,
      name ∈ plain.tags ↔ name ∈ guest.tags := by decide
  have third : lampTable.firstMatch plain =
      some ⟨.any [.tag "lamp", .tag "night", .tag "lamp"], .allow, 3, 3⟩ := by decide +kernel
  obtain ⟨decided, reports⟩ := Table.decides_by_reported_tags
  rw [decided lampTable plain guest rfl agreed] at third
  exact ⟨rfl, agreed, third, reports _⟩

end Decisions

end TagPolicy
