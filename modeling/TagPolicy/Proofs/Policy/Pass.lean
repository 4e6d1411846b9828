import TagPolicy.Proofs.Policy.Folding

/-!
What a pass over a table computes. The results that a pass remembers are those of the first
predicates, each computed from the results before it, so they do not depend on which predicate was
asked for when. Hence a rule holds in a pass exactly when its condition holds where every reference
means what `meaningOf` says, and the first match is the first rule that holds in this sense. This is
true of every table, also of one whose references were never checked.
-/

namespace TagPolicy

namespace Known

variable {predicates : List Predicate} {facts : Facts} {known other : Known}

/-- Results that a pass can have: each is that of a body that sees the results before it. -/
def Sound (predicates : List Predicate) (facts : Facts) (known : Known) : Prop :=
  ∀ index < known.size, ∃ predicate, predicates[index]? = some predicate ∧
    known.meaning index =
      predicate.condition.holds facts fun earlier => decide (earlier < index) && known.meaning earlier

theorem sound_empty : Sound predicates facts #[] := by
  intro index inside
  simp at inside

theorem meaning_push_lt {value : Bool} {index : Nat} (inside : index < known.size) :
    meaning (known.push value) index = meaning known index := by
  simp [meaning, Array.getElem?_push, Nat.ne_of_lt inside]

theorem meaning_push_size {value : Bool} : meaning (known.push value) known.size = value := by
  simp [meaning]

theorem meaning_of_size_le {index : Nat} (outside : known.size ≤ index) :
    meaning known index = false := by
  simp [meaning, outside]

theorem getElem_of_lt_size {index : Nat} (inside : index < known.size) :
    known[index]? = some (meaning known index) := by
  simp [meaning, inside]

/-- The results below the size are all that a body sees, before and after one more is known. -/
theorem seen_push {value : Bool} {index : Nat} (inside : index ≤ known.size) :
    (fun earlier => decide (earlier < index) && meaning (known.push value) earlier) =
      fun earlier => decide (earlier < index) && meaning known earlier := by
  funext earlier
  by_cases below : earlier < index
  · rw [meaning_push_lt (Nat.lt_of_lt_of_le below inside)]
  · simp [below]

theorem seen_all :
    (fun earlier => decide (earlier < known.size) && meaning known earlier) = meaning known := by
  funext earlier
  by_cases below : earlier < known.size
  · simp [below]
  · simp [meaning_of_size_le (Nat.le_of_not_lt below)]

theorem Sound.push {predicate : Predicate} (sound : Sound predicates facts known)
    (next : predicates[known.size]? = some predicate) :
    Sound predicates facts (known.push (predicate.condition.holds facts known.meaning)) := by
  intro index inside
  rw [Array.size_push] at inside
  rw [seen_push (Nat.le_of_lt_succ inside)]
  rcases Nat.lt_succ_iff_lt_or_eq.mp inside with below | rfl
  · rw [meaning_push_lt below]
    exact sound index below
  · rw [meaning_push_size, seen_all]
    exact ⟨predicate, next, rfl⟩

theorem Sound.extend (sound : Sound predicates facts known) (count : Nat) :
    Sound predicates facts (known.extend predicates facts count) := by
  induction count generalizing known with
  | zero => exact sound
  | succ count induction =>
      rw [Known.extend]
      split
      · exact sound
      · rename_i predicate next
        exact induction (sound.push next)

theorem Sound.size_le (sound : Sound predicates facts known) : known.size ≤ predicates.length := by
  by_cases none : known.size = 0
  · omega
  · obtain ⟨predicate, present, -⟩ := sound (known.size - 1) (by omega)
    have inside := (List.getElem?_eq_some_iff.mp present).1
    omega

theorem le_size_extend {count index : Nat} (inside : index < predicates.length)
    (enough : index < known.size + count) :
    index < (known.extend predicates facts count).size := by
  induction count generalizing known with
  | zero => exact enough
  | succ count induction =>
      rw [Known.extend]
      split
      · rename_i absent
        have := List.getElem?_eq_none_iff.mp absent
        omega
      · apply induction
        rw [Array.size_push]
        omega

/-- Two passes never disagree about a predicate. -/
theorem Sound.agree (left : Sound predicates facts known) (right : Sound predicates facts other)
    {index : Nat} (inside : index < known.size) (inOther : index < other.size) :
    known.meaning index = other.meaning index := by
  induction index using Nat.strongRecOn with
  | ind index induction =>
      obtain ⟨predicate, present, leftValue⟩ := left index inside
      obtain ⟨same, again, rightValue⟩ := right index inOther
      rw [present] at again
      cases again
      rw [leftValue, rightValue]
      congr 1
      funext earlier
      by_cases below : earlier < index
      · rw [induction earlier below (by omega) (by omega)]
      · simp [below]

end Known

/-- What references to the predicates of a list mean; a reference past the list is false. -/
def meaningOf (predicates : List Predicate) (facts : Facts) : Nat → Bool :=
  Known.meaning (Known.extend predicates facts predicates.length #[])

section Pass

variable {predicates : List Predicate} {facts : Facts} {known : Known}

/-- The results of every predicate of a list. -/
theorem sound_results (facts : Facts) :
    Known.Sound predicates facts (Known.extend predicates facts predicates.length #[]) :=
  Known.sound_empty.extend predicates.length

theorem size_results :
    (Known.extend predicates facts predicates.length #[]).size = predicates.length := by
  apply Nat.le_antisymm (sound_results facts).size_le
  by_cases none : predicates.length = 0
  · omega
  · have last := @Known.le_size_extend predicates facts #[] predicates.length
      (predicates.length - 1) (by omega) (by simp; omega)
    omega

/-- A predicate means what its body says, where a body sees only the predicates before it. -/
theorem meaning_of_eq {index : Nat} {predicate : Predicate}
    (present : predicates[index]? = some predicate) :
    meaningOf predicates facts index =
      predicate.condition.holds facts fun earlier =>
        decide (earlier < index) && meaningOf predicates facts earlier := by
  have inside := (List.getElem?_eq_some_iff.mp present).1
  obtain ⟨same, again, value⟩ := sound_results facts index (by
    rw [size_results]
    exact inside)
  rw [present] at again
  cases again
  exact value

theorem meaning_of_of_length_le {index : Nat} (outside : predicates.length ≤ index) :
    meaningOf predicates facts index = false :=
  Known.meaning_of_size_le (by rw [size_results]; exact outside)

theorem Known.Sound.meaning_eq (sound : known.Sound predicates facts) {index : Nat}
    (inside : index < known.size) : known.meaning index = meaningOf predicates facts index :=
  sound.agree (sound_results facts) inside (by
    rw [size_results]
    exact Nat.lt_of_lt_of_le inside sound.size_le)

/-- What an answer of a pass is worth: the value meant, and results that are sound again. -/
structure Answers (predicates : List Predicate) (facts : Facts) (value : Bool)
    (answer : Bool × Known) : Prop where
  value_eq : answer.1 = value
  sound : answer.2.Sound predicates facts

theorem Known.Sound.ask (sound : known.Sound predicates facts) (index : Nat) :
    Answers predicates facts (meaningOf predicates facts index)
      (known.ask predicates facts index) := by
  rw [Known.ask]
  split
  · rename_i inside
    exact ⟨sound.meaning_eq inside, sound⟩
  · split
    · rename_i outside
      exact ⟨(meaning_of_of_length_le outside).symm, sound⟩
    · have extended := sound.extend (index + 1 - known.size)
      have enough : index < (known.extend predicates facts (index + 1 - known.size)).size :=
        Known.le_size_extend (by omega) (by omega)
      exact ⟨extended.meaning_eq enough, extended⟩

namespace Connective

def check (predicates : List Predicate) (facts : Facts) :
    Connective → List Condition → Known → Bool × Known
  | conjunction => Condition.checkAll predicates facts
  | disjunction => Condition.checkAny predicates facts

variable {connective : Connective} {member : Condition} {members : List Condition}

theorem check_nil : connective.check predicates facts [] known = (connective.unit, known) := by
  cases connective <;> rfl

theorem check_cons : connective.check predicates facts (member :: members) known =
    if (member.check predicates facts known).1 = connective.unit then
      connective.check predicates facts members (member.check predicates facts known).2
    else member.check predicates facts known := by
  generalize answer : member.check predicates facts known = answered
  obtain ⟨value, after⟩ := answered
  cases connective
  all_goals
    simp only [check, Condition.checkAll, Condition.checkAny, answer, unit]
    cases value <;> rfl

theorem check_answers (connective : Connective)
    (each : ∀ member ∈ members, ∀ known : Known, known.Sound predicates facts →
      Answers predicates facts (member.holds facts (meaningOf predicates facts))
        (member.check predicates facts known))
    (sound : known.Sound predicates facts) :
    Answers predicates facts (connective.holds facts (meaningOf predicates facts) members)
      (connective.check predicates facts members known) := by
  induction members generalizing known with
  | nil =>
      rw [holds_nil, check_nil]
      exact ⟨rfl, sound⟩
  | cons member members induction =>
      have first := each member (by simp) known sound
      have others := fun later inside => each later (List.mem_cons_of_mem member inside)
      rw [holds_cons, ← first.value_eq, check_cons]
      split
      · rename_i passed
        rw [passed, combine_unit_left]
        exact induction others first.sound
      · rename_i decided
        rw [Bool.eq_not_of_ne decided, combine_zero_left]
        exact ⟨Bool.eq_not_of_ne decided, first.sound⟩

end Connective

namespace Condition

theorem check_answers (condition : Condition) {known : Known}
    (sound : known.Sound predicates facts) :
    Answers predicates facts (condition.holds facts (meaningOf predicates facts))
      (condition.check predicates facts known) := by
  induction condition using induct generalizing known with
  | all members each =>
      exact Connective.conjunction.check_answers
        (fun member inside known sound => each member inside sound) sound
  | any members each =>
      exact Connective.disjunction.check_answers
        (fun member inside known sound => each member inside sound) sound
  | not operand induction =>
      obtain ⟨value, sound⟩ := induction sound
      exact ⟨by rw [check, holds, ← value], sound⟩
  | tag name => exact ⟨rfl, sound⟩
  | attr name comparison value => exact ⟨rfl, sound⟩
  | const value => exact ⟨rfl, sound⟩
  | predicate index => exact sound.ask index.toNat

end Condition

theorem first_holding_eq_find (rules : List Rule) (sound : known.Sound predicates facts) :
    firstHolding predicates facts rules known =
      rules.find? fun rule => rule.condition.holds facts (meaningOf predicates facts) := by
  induction rules generalizing known with
  | nil => rfl
  | cons rule rules induction =>
      obtain ⟨value, after⟩ := rule.condition.check_answers sound
      rw [firstHolding, List.find?_cons, ← value]
      dsimp only
      cases (rule.condition.check predicates facts known).1 with
      | true => rfl
      | false => exact induction after

/-- The first match is the first rule that holds, whatever the pass remembered on its way. -/
theorem Table.first_match_eq_find (table : Table) (facts : Facts) :
    table.firstMatch facts =
      table.rules.find? fun rule =>
        rule.condition.holds facts (meaningOf table.predicates facts) :=
  first_holding_eq_find table.rules Known.sound_empty

end Pass

end TagPolicy
