import TagPolicy.Language.Parser
import TagPolicy.Policy.Table

/-!
Compilation of documents into tables. Nested chains become connectives with many members, constants
are folded away and double negations removed. A reference to a predicate whose condition is a leaf
becomes that leaf, so folding goes on across it; any other reference keeps the position of the
predicate. Nothing depends on the facts of a request.
-/

namespace TagPolicy

open TagPolicy.Language (Document Expr Statement)

/-- Why a document has no table. The parser lets none of these through. -/
inductive CompileFault
  | definedTwice (name : String)
  | unresolved (name : String)
  | tooManyPredicates
  | tooManyRules
deriving DecidableEq, Repr

def CompileFault.message : CompileFault → String
  | .definedTwice name => "predicate [" ++ name ++ "] defined twice"
  | .unresolved name => "unresolved predicate reference [" ++ name ++ "]"
  | .tooManyPredicates => "too many predicates"
  | .tooManyRules => "too many rules"

namespace Condition

/-- The members that a condition contributes to a conjunction, or nothing if it is never true. -/
def conjuncts : Condition → Option (List Condition)
  | all members => some members
  | const true => some []
  | const false => none
  | condition => some [condition]

/-- The members that a condition contributes to a disjunction, or nothing if it is always true. -/
def disjuncts : Condition → Option (List Condition)
  | any members => some members
  | const false => some []
  | const true => none
  | condition => some [condition]

def both (left right : Condition) : Condition :=
  match left.conjuncts, right.conjuncts with
  | some lefts, some rights =>
      match lefts ++ rights with
      | [] => const true
      | [single] => single
      | members => all members
  | _, _ => const false

def either (left right : Condition) : Condition :=
  match left.disjuncts, right.disjuncts with
  | some lefts, some rights =>
      match lefts ++ rights with
      | [] => const false
      | [single] => single
      | members => any members
  | _, _ => const true

def negation : Condition → Condition
  | const value => const !value
  | not operand => operand
  | condition => not condition

def isLeaf : Condition → Bool
  | all _ => false
  | any _ => false
  | not _ => false
  | _ => true

end Condition

/-- The predicate of a name and its position, in a list whose first predicate has a position. -/
def lookupFrom (name : String) (position : Nat) : List Predicate → Option (Nat × Predicate)
  | [] => none
  | predicate :: rest =>
      if predicate.name = name then some (position, predicate)
      else lookupFrom name (position + 1) rest

/-- What a reference to a predicate stands for, where some predicates are compiled already. -/
def resolve (predicates : List Predicate) (name : String) : Except CompileFault Condition :=
  match lookupFrom name 0 predicates with
  | none => .error (.unresolved name)
  | some (position, predicate) =>
      .ok (if predicate.condition.isLeaf then predicate.condition
        else .predicate (UInt32.ofNat position))

def lower (predicates : List Predicate) : Expr → Except CompileFault Condition
  | .and left right => do
      let left ← lower predicates left
      let right ← lower predicates right
      pure (left.both right)
  | .or left right => do
      let left ← lower predicates left
      let right ← lower predicates right
      pure (left.either right)
  | .not operand => do
      let operand ← lower predicates operand
      pure operand.negation
  | .tag name => pure (.tag name)
  | .attr name comparison value => pure (.attr name comparison value)
  | .literal value => pure (.const value)
  | .reference name => resolve predicates name

def maxCount : Nat := UInt32.size - 1

/-- The predicates of a table after statements, and the rules of the statements, where some
predicates and a number of rules come before them. -/
def compileStatements (predicates : List Predicate) (before : Nat) :
    List Statement → Except CompileFault (List Predicate × List Rule)
  | [] => .ok (predicates, [])
  | .define name body _ :: rest =>
      if name ∈ predicates.map Predicate.name then .error (.definedTwice name)
      else do
        let condition ← lower predicates body
        if maxCount < predicates.length then .error .tooManyPredicates
        else compileStatements (predicates ++ [⟨name, condition⟩]) before rest
  | .rule effect condition line :: rest => do
      let condition ← lower predicates condition
      let order := before + 1
      if maxCount < order then .error .tooManyRules
      else
        let rule : Rule :=
          ⟨condition, effect, UInt32.ofNat order, UInt32.ofNat (min line maxCount)⟩
        let (predicates, later) ← compileStatements predicates order rest
        pure (predicates, rule :: later)

def Table.ofDocument (schemaVersion : String) (document : Document) :
    Except CompileFault Table := do
  let (predicates, rules) ← compileStatements [] 0 document.statements
  pure ⟨schemaVersion, predicates, rules⟩

end TagPolicy
