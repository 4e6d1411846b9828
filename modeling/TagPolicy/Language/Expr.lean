import TagPolicy.Value

/-!
Expressions of the rule language, as written: two-operand connectives, negation and leaves.
-/

namespace TagPolicy

inductive Comparison
  | equal
  | unequal
deriving DecidableEq, Repr

def Comparison.render : Comparison → String
  | .equal => "=="
  | .unequal => "!="

/-- Whether a comparison of an attribute, which may be missing, with a value holds. A missing
attribute equals no value. -/
def Comparison.holds (comparison : Comparison) (actual : Option Value) (value : Value) : Bool :=
  match comparison with
  | .equal => actual = some value
  | .unequal => actual ≠ some value

inductive Effect
  | allow
  | deny
deriving DecidableEq, Repr

def Effect.render : Effect → String
  | .allow => "ALLOW"
  | .deny => "DENY"

namespace Language

inductive Expr
  | and (left right : Expr)
  | or (left right : Expr)
  | not (operand : Expr)
  /-- The request carries the tag. -/
  | tag (name : String)
  /-- The target's attribute compares with the value. -/
  | attr (name : String) (comparison : Comparison) (value : Value)
  | literal (value : Bool)
  /-- The predicate defined under the name holds. -/
  | reference (name : String)
deriving DecidableEq, Repr

namespace Expr

/-- The depth of the tree; a leaf has depth one. -/
def depth : Expr → Nat
  | and left right => max left.depth right.depth + 1
  | or left right => max left.depth right.depth + 1
  | not operand => operand.depth + 1
  | _ => 1

def size : Expr → Nat
  | and left right => left.size + right.size + 1
  | or left right => left.size + right.size + 1
  | not operand => operand.size + 1
  | _ => 1

def negated (operand : Expr) : Nat → Expr
  | 0 => operand
  | count + 1 => not (negated operand count)

theorem depth_negated (operand : Expr) (count : Nat) :
    (operand.negated count).depth = operand.depth + count := by
  induction count with
  | zero => rfl
  | succ count induction => simp [negated, depth, induction, Nat.add_assoc]

/-- The operands of a chain joined into a balanced tree: the first half of them, rounded down, and
the rest are joined in the same way, and their order is kept. -/
def balanced (join : Expr → Expr → Expr) (first : Expr) (rest : List Expr) : Expr :=
  let half := (rest.length + 1) / 2
  match split : rest.drop (half - 1) with
  | [] => first
  | second :: others =>
      join (balanced join first (rest.take (half - 1))) (balanced join second others)
termination_by rest.length
decreasing_by
  · have length := congrArg List.length split
    simp only [List.length_drop, List.length_cons, List.length_take] at length ⊢
    omega
  · have length := congrArg List.length split
    simp only [List.length_drop, List.length_cons] at length ⊢
    omega

end Expr

end Language

end TagPolicy
