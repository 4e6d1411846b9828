import TagPolicy.Proofs.Policy.Pass

/-!
A pass as it proceeds. One record of results is shared by all that the pass looks at, and it only
grows. To give a result that is missing, the pass fills the record up, one body after the other; a
missing result that a body asks for meanwhile counts as false. `Yields` states this question by
question, with the bodies that have been begun. Every question has exactly one answer, the one that
`Condition.check` computes, and the bodies are begun in their order, so none of them twice.
-/

namespace TagPolicy

structure Recording where
  known : Known
  /-- Whether results are being filled in. -/
  filling : Bool
  /-- The predicates whose bodies the pass has begun to evaluate, one after the other. -/
  begun : List Nat

namespace Recording

/-- The recording between two rules, after the bodies of all known results. -/
def idle (known : Known) : Recording := ⟨known, false, List.range known.size⟩

def start : Recording := ⟨#[], false, []⟩

end Recording

inductive Query
  | condition (condition : Condition)
  /-- Whether all members of a list hold. -/
  | all (members : List Condition)
  /-- Whether any member of a list holds. -/
  | any (members : List Condition)
  /-- What a reference to a predicate means. -/
  | reference (index : Nat)
  /-- To go on filling results in, and then for the result of a predicate. -/
  | filled (index : Nat)

/-- The answer of a pass to a query, and how its recording changes. -/
inductive Yields (predicates : List Predicate) (facts : Facts) :
    Query → Recording → Bool → Recording → Prop
  | ofAll {members before value after}
      (listed : Yields predicates facts (.all members) before value after) :
      Yields predicates facts (.condition (.all members)) before value after
  | ofAny {members before value after}
      (listed : Yields predicates facts (.any members) before value after) :
      Yields predicates facts (.condition (.any members)) before value after
  | ofNot {operand before value after}
      (inner : Yields predicates facts (.condition operand) before value after) :
      Yields predicates facts (.condition (.not operand)) before (!value) after
  | tag {name before} :
      Yields predicates facts (.condition (.tag name)) before (facts.tags.contains name) before
  | attr {name comparison value before} :
      Yields predicates facts (.condition (.attr name comparison value)) before
        (comparison.holds (facts.attributes.get? name) value) before
  | const {value before} : Yields predicates facts (.condition (.const value)) before value before
  | ofPredicate {index before value after}
      (referred : Yields predicates facts (.reference index.toNat) before value after) :
      Yields predicates facts (.condition (.predicate index)) before value after
  | allEmpty {before} : Yields predicates facts (.all []) before true before
  | allDecided {member members before after}
      (fails : Yields predicates facts (.condition member) before false after) :
      Yields predicates facts (.all (member :: members)) before false after
  | allNext {member members before between value after}
      (holds : Yields predicates facts (.condition member) before true between)
      (rest : Yields predicates facts (.all members) between value after) :
      Yields predicates facts (.all (member :: members)) before value after
  | anyEmpty {before} : Yields predicates facts (.any []) before false before
  | anyDecided {member members before after}
      (holds : Yields predicates facts (.condition member) before true after) :
      Yields predicates facts (.any (member :: members)) before true after
  | anyNext {member members before between value after}
      (fails : Yields predicates facts (.condition member) before false between)
      (rest : Yields predicates facts (.any members) between value after) :
      Yields predicates facts (.any (member :: members)) before value after
  | recalled {index before value} (present : before.known[index]? = some value) :
      Yields predicates facts (.reference index) before value before
  /-- A body is being evaluated, or there is no such predicate. -/
  | missed {index before} (absent : before.known[index]? = none)
      (refused : before.filling = true ∨ predicates.length ≤ index) :
      Yields predicates facts (.reference index) before false before
  | supplied {index before value after} (absent : before.known[index]? = none)
      (idle : before.filling = false) (inside : index < predicates.length)
      (fills : Yields predicates facts (.filled index) { before with filling := true } value after) :
      Yields predicates facts (.reference index) before value { after with filling := false }
  | done {index before value} (present : before.known[index]? = some value) :
      Yields predicates facts (.filled index) before value before
  /-- The body after those of the known results is evaluated next. -/
  | next {index before predicate result between value after}
      (short : before.known.size ≤ index)
      (following : predicates[before.known.size]? = some predicate)
      (body : Yields predicates facts (.condition predicate.condition)
        { before with begun := before.begun ++ [before.known.size] } result between)
      (rest : Yields predicates facts (.filled index)
        { between with known := between.known.push result } value after) :
      Yields predicates facts (.filled index) before value after

/-- The outcome of trying rules in order, and how the recording changes. -/
inductive Tries (predicates : List Predicate) (facts : Facts) :
    List Rule → Recording → Option Rule → Recording → Prop
  | none {before} : Tries predicates facts [] before none before
  | found {rule rules before after}
      (holds : Yields predicates facts (.condition rule.condition) before true after) :
      Tries predicates facts (rule :: rules) before (some rule) after
  | next {rule rules before between outcome after}
      (fails : Yields predicates facts (.condition rule.condition) before false between)
      (rest : Tries predicates facts rules between outcome after) :
      Tries predicates facts (rule :: rules) before outcome after

/-- The recordings that a pass can have after conditions of any kind, asked in any order. -/
inductive Reaches (predicates : List Predicate) (facts : Facts) : Recording → Prop
  | start : Reaches predicates facts .start
  | asked {condition before value after} (earlier : Reaches predicates facts before)
      (yields : Yields predicates facts (.condition condition) before value after) :
      Reaches predicates facts after

section Determined

variable {predicates : List Predicate} {facts : Facts}

theorem Known.lt_size_of_present {known : Known} {index : Nat} {value : Bool}
    (present : known[index]? = some value) : index < known.size :=
  (Array.getElem?_eq_some_iff.mp present).1

theorem Recording.not_refused {recording : Recording} {index : Nat}
    (idle : recording.filling = false) (inside : index < predicates.length) :
    ¬ (recording.filling = true ∨ predicates.length ≤ index) := by
  rw [idle]
  rintro (filling | outside)
  · cases filling
  · exact absurd inside (Nat.not_lt.mpr outside)

theorem Yields.unique {query : Query} {before after later : Recording} {value other : Bool}
    (yields : Yields predicates facts query before value after)
    (again : Yields predicates facts query before other later) : other = value ∧ later = after := by
  induction yields generalizing other later with
  | ofAll _ listed => cases again with | ofAll again => exact listed again
  | ofAny _ listed => cases again with | ofAny again => exact listed again
  | ofNot _ inner =>
      cases again with
      | ofNot again =>
          obtain ⟨rfl, rfl⟩ := inner again
          exact ⟨rfl, rfl⟩
  | tag => cases again; exact ⟨rfl, rfl⟩
  | attr => cases again; exact ⟨rfl, rfl⟩
  | const => cases again; exact ⟨rfl, rfl⟩
  | ofPredicate _ referred => cases again with | ofPredicate again => exact referred again
  | allEmpty => cases again; exact ⟨rfl, rfl⟩
  | allDecided _ fails =>
      cases again with
      | allDecided again => exact ⟨rfl, (fails again).2⟩
      | allNext again _ => cases (fails again).1
  | allNext _ _ holds rest =>
      cases again with
      | allDecided again => cases (holds again).1
      | allNext again others =>
          cases (holds again).2
          exact rest others
  | anyEmpty => cases again; exact ⟨rfl, rfl⟩
  | anyDecided _ holds =>
      cases again with
      | anyDecided again => exact ⟨rfl, (holds again).2⟩
      | anyNext again _ => cases (holds again).1
  | anyNext _ _ fails rest =>
      cases again with
      | anyDecided again => cases (fails again).1
      | anyNext again others =>
          cases (fails again).2
          exact rest others
  | recalled present =>
      cases again with
      | recalled found =>
          rw [present] at found
          cases found
          exact ⟨rfl, rfl⟩
      | missed absent _ => cases absent.symm.trans present
      | supplied absent _ _ _ => cases absent.symm.trans present
  | missed absent refused =>
      cases again with
      | recalled found => cases absent.symm.trans found
      | missed _ _ => exact ⟨rfl, rfl⟩
      | supplied _ idle inside _ => exact absurd refused (Recording.not_refused idle inside)
  | supplied absent idle inside _ fills =>
      cases again with
      | recalled found => cases absent.symm.trans found
      | missed _ refused => exact absurd refused (Recording.not_refused idle inside)
      | supplied _ _ _ again =>
          obtain ⟨rfl, rfl⟩ := fills again
          exact ⟨rfl, rfl⟩
  | done present =>
      cases again with
      | done found =>
          rw [present] at found
          cases found
          exact ⟨rfl, rfl⟩
      | next short _ _ _ => exact absurd (Known.lt_size_of_present present) (Nat.not_lt.mpr short)
  | next short following _ _ body rest =>
      cases again with
      | done found => exact absurd (Known.lt_size_of_present found) (Nat.not_lt.mpr short)
      | next _ otherwise again others =>
          rw [following] at otherwise
          cases otherwise
          obtain ⟨rfl, rfl⟩ := body again
          exact rest others

theorem Tries.unique {rules : List Rule} {before after later : Recording}
    {outcome other : Option Rule} (tries : Tries predicates facts rules before outcome after)
    (again : Tries predicates facts rules before other later) :
    other = outcome ∧ later = after := by
  induction tries generalizing other later with
  | none => cases again; exact ⟨rfl, rfl⟩
  | found holds =>
      cases again with
      | found again => exact ⟨rfl, (holds.unique again).2⟩
      | next again _ => cases (holds.unique again).1
  | next fails _ induction =>
      cases again with
      | found again => cases (fails.unique again).1
      | next again others =>
          cases (fails.unique again).2
          exact induction others

end Determined

section Answering

variable {predicates sight : List Predicate} {facts : Facts} {place : Known → Recording}

namespace Connective

variable {connective : Connective} {member : Condition} {members : List Condition}
  {before between after : Recording} {value : Bool}

def query : Connective → List Condition → Query
  | conjunction => .all
  | disjunction => .any

theorem yields_nil : Yields predicates facts (connective.query []) before connective.unit before := by
  cases connective with
  | conjunction => exact .allEmpty
  | disjunction => exact .anyEmpty

theorem yields_next
    (first : Yields predicates facts (.condition member) before connective.unit between)
    (rest : Yields predicates facts (connective.query members) between value after) :
    Yields predicates facts (connective.query (member :: members)) before value after := by
  cases connective with
  | conjunction => exact .allNext first rest
  | disjunction => exact .anyNext first rest

theorem yields_decided
    (first : Yields predicates facts (.condition member) before (!connective.unit) after) :
    Yields predicates facts (connective.query (member :: members)) before (!connective.unit)
      after := by
  cases connective with
  | conjunction => exact .allDecided first
  | disjunction => exact .anyDecided first

theorem yields_check (connective : Connective)
    (each : ∀ member ∈ members, ∀ known, Yields predicates facts (.condition member) (place known)
      (member.check sight facts known).1 (place (member.check sight facts known).2))
    (known : Known) :
    Yields predicates facts (connective.query members) (place known)
      (connective.check sight facts members known).1
      (place (connective.check sight facts members known).2) := by
  induction members generalizing known with
  | nil =>
      rw [check_nil]
      exact yields_nil
  | cons member members induction =>
      have first := each member (by simp) known
      have later := induction fun later inside => each later (List.mem_cons_of_mem _ inside)
      rw [check_cons]
      split
      · rename_i passed
        rw [passed] at first
        exact yields_next first (later _)
      · rename_i decided
        rw [Bool.eq_not_of_ne decided] at first ⊢
        exact yields_decided first

end Connective

namespace Condition

/-- A condition is answered as `check` does it, in recordings that depend on the known results only,
if references are answered as `ask` does it. -/
theorem yields_check
    (asks : ∀ index known, Yields predicates facts (.reference index) (place known)
      (Known.ask sight facts index known).1 (place (Known.ask sight facts index known).2))
    (condition : Condition) (known : Known) :
    Yields predicates facts (.condition condition) (place known)
      (condition.check sight facts known).1 (place (condition.check sight facts known).2) := by
  induction condition using induct generalizing known with
  | all members each => exact .ofAll (Connective.conjunction.yields_check each known)
  | any members each => exact .ofAny (Connective.disjunction.yields_check each known)
  | not operand induction => exact .ofNot (induction known)
  | tag name => exact .tag
  | attr name comparison value => exact .attr
  | const value => exact .const
  | predicate index => exact .ofPredicate (asks index.toNat known)

end Condition

end Answering

section Filling

variable {predicates : List Predicate} {facts : Facts}

theorem Known.ask_nothing (known : Known) (index : Nat) :
    known.ask [] facts index = (known.meaning index, known) := by
  rw [ask]
  split
  · rfl
  · rename_i outside
    rw [List.length_nil, if_pos (Nat.zero_le index), meaning_of_size_le (Nat.le_of_not_lt outside)]

theorem Connective.check_nothing (connective : Connective) {members : List Condition}
    {known : Known} (each : ∀ member ∈ members,
      member.check [] facts known = (member.holds facts known.meaning, known)) :
    connective.check [] facts members known =
      (connective.holds facts known.meaning members, known) := by
  induction members with
  | nil => rw [check_nil, holds_nil]
  | cons member members induction =>
      obtain ⟨first, later⟩ := List.forall_mem_cons.mp each
      rw [holds_cons, check_cons, first]
      dsimp only
      split
      · rename_i passed
        rw [passed, combine_unit_left, induction later]
      · rename_i decided
        rw [Bool.eq_not_of_ne decided, combine_zero_left]

/-- A pass over no predicates has no results to add. -/
theorem Condition.check_nothing (condition : Condition) (known : Known) :
    condition.check [] facts known = (condition.holds facts known.meaning, known) := by
  induction condition using Condition.induct with
  | all members each => exact Connective.conjunction.check_nothing each
  | any members each => exact Connective.disjunction.check_nothing each
  | not operand induction => rw [check, induction, holds]
  | tag name => rfl
  | attr name comparison value => rfl
  | const value => rfl
  | predicate index => exact known.ask_nothing index.toNat

/-- While results are filled in, a condition sees those there are and changes nothing. -/
theorem Condition.yields_filling (condition : Condition) (known : Known) (begun : List Nat) :
    Yields predicates facts (.condition condition) ⟨known, true, begun⟩
      (condition.holds facts known.meaning) ⟨known, true, begun⟩ := by
  have asks : ∀ (index : Nat) (known : Known),
      Yields predicates facts (.reference index) ⟨known, true, begun⟩
        (known.ask [] facts index).1 ⟨(known.ask [] facts index).2, true, begun⟩ := by
    intro index known
    rw [Known.ask_nothing]
    by_cases inside : index < known.size
    · exact .recalled (Known.getElem_of_lt_size inside)
    · have outside := Nat.le_of_not_lt inside
      rw [Known.meaning_of_size_le outside]
      exact .missed (Array.getElem?_eq_none outside) (Or.inl rfl)
  have checked := @yields_check predicates [] facts (fun known => ⟨known, true, begun⟩) asks
    condition known
  rwa [check_nothing] at checked

/-- Filling in as many results as `extend` does begins as many bodies. -/
theorem Known.yields_filled {index count : Nat} (inside : index < predicates.length)
    (known : Known) (enough : known.size + count = index + 1) :
    Yields predicates facts (.filled index) ⟨known, true, List.range known.size⟩
      ((known.extend predicates facts count).meaning index)
      ⟨known.extend predicates facts count, true,
        List.range (known.extend predicates facts count).size⟩ := by
  induction count generalizing known with
  | zero =>
      have present : index < known.size := by omega
      exact .done (getElem_of_lt_size present)
  | succ count induction =>
      have short : known.size ≤ index := by omega
      have following := List.getElem?_eq_getElem (Nat.lt_of_le_of_lt short inside)
      have body := @Condition.yields_filling predicates facts
        predicates[known.size].condition known (List.range known.size ++ [known.size])
      have grown : (known.push (predicates[known.size].condition.holds facts known.meaning)).size +
          count = index + 1 := by
        rw [Array.size_push]
        omega
      have rest := induction _ grown
      rw [Array.size_push, List.range_succ] at rest
      rw [extend, following]
      exact .next short following body rest

theorem Known.yields_ask (known : Known) (index : Nat) :
    Yields predicates facts (.reference index) (.idle known) (known.ask predicates facts index).1
      (.idle (known.ask predicates facts index).2) := by
  rw [ask]
  split
  · rename_i present
    exact .recalled (getElem_of_lt_size present)
  · rename_i absent
    have missing := Array.getElem?_eq_none (Nat.le_of_not_lt absent)
    split
    · rename_i outside
      exact .missed missing (Or.inr outside)
    · rename_i present
      have inside := Nat.lt_of_not_le present
      have enough : known.size + (index + 1 - known.size) = index + 1 := by omega
      exact @Yields.supplied predicates facts index (.idle known) _ ⟨_, true, _⟩ missing rfl inside
        (yields_filled inside known enough)

/-- The pass ends every query by a condition, with the answer and the results of `check`. -/
theorem Condition.yields (condition : Condition) (known : Known) :
    Yields predicates facts (.condition condition) (.idle known)
      (condition.check predicates facts known).1
      (.idle (condition.check predicates facts known).2) :=
  yields_check (fun index known => known.yields_ask index) condition known

theorem tries_first_holding (rules : List Rule) (known : Known) :
    ∃ final, Tries predicates facts rules (.idle known)
      (firstHolding predicates facts rules known) (.idle final) := by
  induction rules generalizing known with
  | nil => exact ⟨known, .none⟩
  | cons rule rules induction =>
      have first := @Condition.yields predicates facts rule.condition known
      rw [firstHolding]
      dsimp only
      cases value : (rule.condition.check predicates facts known).1 with
      | true =>
          rw [value] at first
          exact ⟨_, .found first⟩
      | false =>
          rw [value] at first
          obtain ⟨final, rest⟩ := induction (rule.condition.check predicates facts known).2
          exact ⟨final, .next first rest⟩

/-- Whatever was asked before, the results are sound and no body is being evaluated. -/
theorem Reaches.idle {recording : Recording} (reaches : Reaches predicates facts recording) :
    ∃ known, Known.Sound predicates facts known ∧ recording = .idle known := by
  induction reaches with
  | start => exact ⟨#[], Known.sound_empty, rfl⟩
  | @asked condition before value after earlier yields induction =>
      obtain ⟨known, sound, rfl⟩ := induction
      have same := (condition.yields known).unique yields
      exact ⟨_, (condition.check_answers sound).sound, same.2⟩

end Filling

end TagPolicy
