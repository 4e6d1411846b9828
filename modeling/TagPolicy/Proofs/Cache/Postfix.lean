import TagPolicy.Proofs.Cache.Operations

/-!
A condition of bounded depth and the list of its operations are two forms of one thing: operations
build a condition exactly if they are the operations of that condition, and it is neither too deep nor
too wide. The width matters since an operation records the number of its operands in 32 bits. A
condition that is too wide demands fewer operands than it writes, so its operations leave more than
one condition on the stack.
-/

namespace TagPolicy

open TagPolicy.Language (maxDepth)

namespace Operation

/-- The number of operands that an operation takes off the stack. -/
def arity : Operation → Nat
  | all count => count.toNat
  | any count => count.toNat
  | not => 1
  | _ => 0

/-- The number of operands that all operations of a list take. -/
def demand : List Operation → Nat
  | [] => 0
  | operation :: operations => operation.arity + demand operations

theorem demand_append (front rest : List Operation) :
    demand (front ++ rest) = demand front + demand rest := by
  induction front with
  | nil => rw [List.nil_append, demand, Nat.zero_add]
  | cons operation front induction => rw [List.cons_append, demand, demand, induction, Nat.add_assoc]

theorem demand_singleton (operation : Operation) : demand [operation] = operation.arity := rfl

end Operation

open Operation (demand demand_append demand_singleton)

namespace Condition

theorem toNat_member_count (members : List Condition) :
    (memberCount members).toNat = min members.length (UInt32.size - 1) := by
  have size : 0 < UInt32.size := by decide
  rw [memberCount, UInt32.toNat_ofNat_of_lt' (by omega)]

/-- All operations but one put an operand of another one on the stack, unless an operation has
recorded fewer operands than there are. -/
def Balanced (condition : Condition) : Prop :=
  demand condition.operations + 1 ≤ condition.operations.length ∧
    (demand condition.operations + 1 = condition.operations.length ↔ condition.Narrow)

theorem balanced_members {members : List Condition} (each : ∀ member ∈ members, member.Balanced) :
    demand (operationsOfMembers members) + members.length ≤ (operationsOfMembers members).length ∧
      (demand (operationsOfMembers members) + members.length = (operationsOfMembers members).length ↔
        NarrowMembers members) := by
  induction members with
  | nil => simp [operationsOfMembers, demand, NarrowMembers]
  | cons member members induction =>
      obtain ⟨first, later⟩ := List.forall_mem_cons.mp each
      obtain ⟨enough, exactly⟩ := first
      obtain ⟨enoughLater, exactlyLater⟩ := induction later
      rw [operationsOfMembers, demand_append, List.length_append, List.length_cons, NarrowMembers,
        ← exactly, ← exactlyLater]
      omega

theorem balanced_connective {connective : List Condition → Condition}
    {record : UInt32 → Operation}
    (own : ∀ members, (connective members).operations =
      operationsOfMembers members ++ [record (memberCount members)])
    (takes : ∀ count, (record count).arity = count.toNat)
    (narrow : ∀ members, (connective members).Narrow ↔
      members.length < UInt32.size ∧ NarrowMembers members)
    {members : List Condition} (each : ∀ member ∈ members, member.Balanced) :
    (connective members).Balanced := by
  obtain ⟨enough, exactly⟩ := balanced_members each
  have size : 0 < UInt32.size := by decide
  rw [Balanced, own, demand_append, demand_singleton, takes, toNat_member_count, List.length_append,
    List.length_singleton, narrow, ← exactly]
  omega

theorem balanced (condition : Condition) : condition.Balanced := by
  induction condition using induct with
  | all members each =>
      exact balanced_connective (fun _ => rfl) (fun _ => rfl) (fun _ => Iff.rfl) each
  | any members each =>
      exact balanced_connective (fun _ => rfl) (fun _ => rfl) (fun _ => Iff.rfl) each
  | not operand induction =>
      obtain ⟨enough, exactly⟩ := induction
      have single : Operation.not.arity = 1 := rfl
      rw [Balanced, operations, demand_append, demand_singleton, List.length_append,
        List.length_singleton, Narrow, ← exactly, single]
      omega
  | tag name => exact ⟨Nat.le_refl _, iff_of_true rfl trivial⟩
  | attr name comparison value => exact ⟨Nat.le_refl _, iff_of_true rfl trivial⟩
  | const value => exact ⟨Nat.le_refl _, iff_of_true rfl trivial⟩
  | predicate index => exact ⟨Nat.le_refl _, iff_of_true rfl trivial⟩

/-- A list of operations shows whether the condition it comes from is too wide. -/
theorem Narrow.of_operations {condition other : Condition} (narrow : other.Narrow)
    (same : other.operations = condition.operations) : condition.Narrow := by
  have exactly := other.balanced.2.mpr narrow
  rw [same] at exactly
  exact condition.balanced.2.mp exactly

theorem of_operations_eq_ok {operations : List Operation} {condition : Condition} :
    ofOperations operations = .ok condition ↔
      condition.operations = operations ∧ condition.Narrow ∧ condition.depth ≤ maxDepth := by
  constructor
  · exact of_of_operations
  · rintro ⟨rfl, narrow, shallow⟩
    rw [of_operations_operations narrow, if_pos shallow]

theorem of_operations_refused {condition : Condition}
    (unfit : ¬ (condition.Narrow ∧ condition.depth ≤ maxDepth)) :
    ∃ fault, ofOperations condition.operations = .error fault := by
  cases built : ofOperations condition.operations with
  | error fault => exact ⟨fault, rfl⟩
  | ok other =>
      obtain ⟨same, narrow, shallow⟩ := of_of_operations built
      have own := narrow.of_operations same
      by_cases deep : condition.depth ≤ maxDepth
      · exact absurd ⟨own, deep⟩ unfit
      · rw [of_operations_operations own, if_neg deep] at built
        cases built

/-- Operations build a condition exactly if they are its own, and it is neither too wide nor too deep.
A deeper condition is refused for its depth; one that is too wide is refused, too. No two lists of
operations build the same condition. -/
theorem operations_correspond :
    (∀ operations condition, ofOperations operations = .ok condition ↔
      condition.operations = operations ∧ condition.Narrow ∧ condition.depth ≤ maxDepth) ∧
    (∀ condition : Condition, condition.Narrow → maxDepth < condition.depth →
      ofOperations condition.operations = .error .tooDeep) ∧
    (∀ condition : Condition, ¬ (condition.Narrow ∧ condition.depth ≤ maxDepth) →
      ∃ fault, ofOperations condition.operations = .error fault) ∧
    ∀ left right condition,
      ofOperations left = .ok condition → ofOperations right = .ok condition → left = right := by
  refine ⟨?_, ?_, ?_, ?_⟩
  · intro operations condition
    exact of_operations_eq_ok
  · intro condition narrow deep
    rw [of_operations_operations narrow, if_neg (Nat.not_le.mpr deep)]
  · intro condition unfit
    exact of_operations_refused unfit
  · intro left right condition builtLeft builtRight
    rw [← (of_of_operations builtLeft).1, (of_of_operations builtRight).1]

def unevenCondition : Condition :=
  .any [.all [.not (.tag "a")], .all [], .attr "height" .unequal (.integer 42)]

def negatedTruth : Nat → Condition
  | 0 => .const true
  | count + 1 => .not (negatedTruth count)

theorem negated_truth_narrow (count : Nat) : (negatedTruth count).Narrow := by
  induction count with
  | zero => trivial
  | succ count induction => exact induction

theorem depth_negated_truth (count : Nat) : (negatedTruth count).depth = count + 1 := by
  induction count with
  | zero => rfl
  | succ count induction => rw [negatedTruth, depth, induction]

theorem uneven_built_and_deepest_refused :
    ofOperations unevenCondition.operations = .ok unevenCondition ∧
      ofOperations (negatedTruth 127).operations = .ok (negatedTruth 127) ∧
        ofOperations (negatedTruth 128).operations = .error .tooDeep ∧
          ∀ operations, ofOperations operations = .ok unevenCondition →
            operations = [.tag "a", .not, .all 1, .all 0, .attr "height" .unequal (.integer 42),
              .any 3] := by
  obtain ⟨builds, refuses, -, unique⟩ := operations_correspond
  have bound : maxDepth = 128 := rfl
  have uneven : unevenCondition.Narrow := by
    simp only [unevenCondition, Narrow, NarrowMembers]
    decide
  have built := (builds _ _).mpr ⟨rfl, uneven, by decide⟩
  have least := depth_negated_truth 127
  have most := depth_negated_truth 128
  refine ⟨built, ?_, ?_, ?_⟩
  · exact (builds _ _).mpr ⟨rfl, negated_truth_narrow 127, by omega⟩
  · exact refuses _ (negated_truth_narrow 128) (by omega)
  · intro operations same
    exact unique _ _ _ same built

end Condition

end TagPolicy
