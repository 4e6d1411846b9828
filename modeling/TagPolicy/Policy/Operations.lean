import TagPolicy.Language.SourceError
import TagPolicy.Policy.Condition

/-!
Conditions as flat lists of operations. Operands come before the operation that takes them, so a
list is read with a stack and no recursion. Only conditions of bounded depth are read back.
-/

namespace TagPolicy

open TagPolicy.Language (maxDepth)

/-- One operation: a leaf puts itself on the stack, a connective takes its operands from it. -/
inductive Operation
  | all (count : UInt32)
  | any (count : UInt32)
  /-- Takes one operand. -/
  | not
  | tag (name : String)
  | attr (name : String) (comparison : Comparison) (value : Value)
  | const (value : Bool)
  | predicate (index : UInt32)
deriving DecidableEq, Repr

inductive OperationFault
  | missingOperand
  | missingOperands (wanted available : Nat)
  | tooDeep
  | notOneCondition
deriving DecidableEq, Repr

def OperationFault.message : OperationFault → String
  | .missingOperand => "NOT without operand"
  | .missingOperands wanted available =>
      s!"connective over {wanted} operands, {available} available"
  | .tooDeep => s!"expression nests deeper than {maxDepth} levels"
  | .notOneCondition => "postfix expression does not reduce to one condition"

namespace Condition

def memberCount (members : List Condition) : UInt32 :=
  UInt32.ofNat (min members.length (UInt32.size - 1))

mutual

def operations : Condition → List Operation
  | all members => operationsOfMembers members ++ [.all (memberCount members)]
  | any members => operationsOfMembers members ++ [.any (memberCount members)]
  | not operand => operand.operations ++ [.not]
  | tag name => [.tag name]
  | attr name comparison value => [.attr name comparison value]
  | const value => [.const value]
  | predicate index => [.predicate index]

def operationsOfMembers : List Condition → List Operation
  | [] => []
  | member :: members => member.operations ++ operationsOfMembers members

end

/-- The stack with one more condition, unless it is too deep. -/
def pushed (condition : Condition) (stack : List Condition) :
    Except OperationFault (List Condition) :=
  if condition.depth ≤ maxDepth then .ok (condition :: stack) else .error .tooDeep

/-- The stack after a connective has taken its members; the last member is on top. -/
def gathered (connective : List Condition → Condition) (count : Nat) (stack : List Condition) :
    Except OperationFault (List Condition) :=
  if stack.length < count then .error (.missingOperands count stack.length)
  else pushed (connective (stack.take count).reverse) (stack.drop count)

end Condition

def Operation.apply (stack : List Condition) : Operation → Except OperationFault (List Condition)
  | .all count => Condition.gathered .all count.toNat stack
  | .any count => Condition.gathered .any count.toNat stack
  | .not =>
      match stack with
      | [] => .error .missingOperand
      | operand :: rest => Condition.pushed (.not operand) rest
  | .tag name => Condition.pushed (.tag name) stack
  | .attr name comparison value => Condition.pushed (.attr name comparison value) stack
  | .const value => Condition.pushed (.const value) stack
  | .predicate index => Condition.pushed (.predicate index) stack

def Operation.run (stack : List Condition) :
    List Operation → Except OperationFault (List Condition)
  | [] => .ok stack
  | operation :: rest => do
      let stack ← operation.apply stack
      run stack rest

def Condition.ofOperations (operations : List Operation) : Except OperationFault Condition := do
  match ← Operation.run [] operations with
  | [condition] => .ok condition
  | _ => .error .notOneCondition

end TagPolicy
