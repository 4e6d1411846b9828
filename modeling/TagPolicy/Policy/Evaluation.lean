import TagPolicy.Ordered.Map
import TagPolicy.Ordered.Set
import TagPolicy.Policy.Table

/-!
Evaluation of conditions and tables. `Condition.holds` reads a condition plainly, given what the
predicates mean. A pass over a table's rules remembers what it learns about predicates: it evaluates
the predicates in order up to the greatest one asked for, each at most once, and a body sees only
the results of earlier predicates. A reference to anything else is false.
-/

namespace TagPolicy

structure Facts where
  tags : OrderedSet String
  attributes : OrderedMap String Value
deriving DecidableEq

namespace Condition

mutual

/-- Whether a condition holds, given what predicate references mean. -/
def holds (facts : Facts) (meaning : Nat → Bool) : Condition → Bool
  | all members => holdsForAll facts meaning members
  | any members => holdsForAny facts meaning members
  | not operand => !operand.holds facts meaning
  | tag name => facts.tags.contains name
  | attr name comparison value => comparison.holds (facts.attributes.get? name) value
  | const value => value
  | predicate index => meaning index.toNat

def holdsForAll (facts : Facts) (meaning : Nat → Bool) : List Condition → Bool
  | [] => true
  | member :: members => member.holds facts meaning && holdsForAll facts meaning members

def holdsForAny (facts : Facts) (meaning : Nat → Bool) : List Condition → Bool
  | [] => false
  | member :: members => member.holds facts meaning || holdsForAny facts meaning members

end

def holdsAlone (facts : Facts) (condition : Condition) : Bool :=
  condition.holds facts fun _ => false

end Condition

/-- The results a pass has for the first predicates of the table, in order. -/
abbrev Known := Array Bool

/-- The result of a predicate, or false if it is not known. -/
def Known.meaning (known : Known) (index : Nat) : Bool := known[index]?.getD false

/-- The results with those of the next `count` predicates added. -/
def Known.extend (predicates : List Predicate) (facts : Facts) : Nat → Known → Known
  | 0, known => known
  | count + 1, known =>
      match predicates[known.size]? with
      | none => known
      | some predicate =>
          extend predicates facts count (known.push (predicate.condition.holds facts known.meaning))

/-- The result of a predicate and what the pass knows after it was asked for. -/
def Known.ask (predicates : List Predicate) (facts : Facts) (index : Nat) (known : Known) :
    Bool × Known :=
  if index < known.size then (known.meaning index, known)
  else if predicates.length ≤ index then (false, known)
  else
    let known := known.extend predicates facts (index + 1 - known.size)
    (known.meaning index, known)

namespace Condition

mutual

/-- Whether a condition holds in a pass, and what the pass knows afterwards. Members of a connective
are tried in order until one decides. -/
def check (predicates : List Predicate) (facts : Facts) : Condition → Known → Bool × Known
  | all members, known => checkAll predicates facts members known
  | any members, known => checkAny predicates facts members known
  | not operand, known =>
      let (value, known) := operand.check predicates facts known
      (!value, known)
  | tag name, known => (facts.tags.contains name, known)
  | attr name comparison value, known =>
      (comparison.holds (facts.attributes.get? name) value, known)
  | const value, known => (value, known)
  | predicate index, known => known.ask predicates facts index.toNat

def checkAll (predicates : List Predicate) (facts : Facts) : List Condition → Known → Bool × Known
  | [], known => (true, known)
  | member :: members, known =>
      let (value, known) := member.check predicates facts known
      if value then checkAll predicates facts members known else (false, known)

def checkAny (predicates : List Predicate) (facts : Facts) : List Condition → Known → Bool × Known
  | [], known => (false, known)
  | member :: members, known =>
      let (value, known) := member.check predicates facts known
      if value then (true, known) else checkAny predicates facts members known

end

end Condition

/-- The first rule of a list whose condition holds, in a pass that knows some results already. -/
def firstHolding (predicates : List Predicate) (facts : Facts) : List Rule → Known → Option Rule
  | [], _ => none
  | rule :: rules, known =>
      let (value, known) := rule.condition.check predicates facts known
      if value then some rule else firstHolding predicates facts rules known

def Table.firstMatch (table : Table) (facts : Facts) : Option Rule :=
  firstHolding table.predicates facts table.rules #[]

end TagPolicy
