import TagPolicy.Policy.Operations
import TagPolicy.Proofs.Outcome

/-!
Running the operations of a condition puts that condition on the stack, whatever stands below it and
whatever operations follow. The only thing that can go wrong is the depth: a condition that is too
deep is refused, and no other condition is ever built in its place. Conversely, a condition that any
operations build is one whose operations they are.
-/

namespace TagPolicy.Condition

open TagPolicy.Language (maxDepth)
open Outcome (bind_eq_ok)

theorem length_operations_pos (condition : Condition) : 0 < condition.operations.length := by
  cases condition <;> simp [operations]

theorem length_le_operations (members : List Condition) :
    members.length ≤ (operationsOfMembers members).length := by
  induction members with
  | nil => exact Nat.zero_le _
  | cons member members induction =>
      have positive := member.length_operations_pos
      rw [operationsOfMembers, List.length_cons, List.length_append]
      omega

theorem length_operations_le {member : Condition} {members : List Condition}
    (inside : member ∈ members) :
    member.operations.length ≤ (operationsOfMembers members).length := by
  induction members with
  | nil => cases inside
  | cons first others induction =>
      rw [operationsOfMembers, List.length_append]
      rcases List.mem_cons.mp inside with rfl | later
      · omega
      · exact Nat.le_trans (induction later) (Nat.le_add_left _ _)

mutual

/-- No connective of the condition has more members than its operation can record. -/
def Narrow : Condition → Prop
  | all members => members.length < UInt32.size ∧ NarrowMembers members
  | any members => members.length < UInt32.size ∧ NarrowMembers members
  | not operand => operand.Narrow
  | _ => True

def NarrowMembers : List Condition → Prop
  | [] => True
  | member :: members => member.Narrow ∧ NarrowMembers members

end

theorem narrow_members_iff {members : List Condition} :
    NarrowMembers members ↔ ∀ member ∈ members, member.Narrow := by
  induction members with
  | nil => simp [NarrowMembers]
  | cons member members induction => rw [NarrowMembers, List.forall_mem_cons, induction]

/-- What few operations write has few members everywhere. -/
theorem narrow_of_length {condition : Condition}
    (fits : condition.operations.length < UInt32.size) : condition.Narrow := by
  have members : ∀ list : List Condition, (operationsOfMembers list).length < UInt32.size →
      (∀ member ∈ list, member.operations.length < UInt32.size → member.Narrow) →
      list.length < UInt32.size ∧ NarrowMembers list := by
    intro list fits each
    refine ⟨Nat.lt_of_le_of_lt (length_le_operations list) fits, narrow_members_iff.mpr ?_⟩
    intro member inside
    exact each member inside (Nat.lt_of_le_of_lt (length_operations_le inside) fits)
  induction condition using induct with
  | all list each =>
      rw [operations, List.length_append] at fits
      exact members list (by omega) each
  | any list each =>
      rw [operations, List.length_append] at fits
      exact members list (by omega) each
  | not operand induction =>
      rw [operations, List.length_append] at fits
      exact induction (by omega)
  | tag name => trivial
  | attr name comparison value => trivial
  | const value => trivial
  | predicate index => trivial

theorem member_count_eq {members : List Condition} (few : members.length < UInt32.size) :
    (memberCount members).toNat = members.length := by
  rw [memberCount, UInt32.toNat_ofNat_of_lt' (by omega)]
  omega

theorem gathered_members (connective : List Condition → Condition) {members stack : List Condition}
    {count : Nat} (same : count = members.length) :
    gathered connective count (members.reverse ++ stack) = pushed (connective members) stack := by
  have length : members.reverse.length = count := by rw [List.length_reverse, same]
  rw [gathered, if_neg (by rw [List.length_append]; omega), ← length, List.take_left,
    List.drop_left, List.reverse_reverse]

/-- What a stack machine has to do for one condition, in front of any other operations. -/
def Runs (condition : Condition) : Prop :=
  condition.Narrow →
    ∀ (stack : List Condition) (rest : List Operation),
      Operation.run stack (condition.operations ++ rest) =
        if condition.depth ≤ maxDepth then Operation.run (condition :: stack) rest
        else .error .tooDeep

theorem run_cons (stack : List Condition) (operation : Operation) (rest : List Operation) :
    Operation.run stack (operation :: rest) =
      operation.apply stack >>= fun stack => Operation.run stack rest := rfl

theorem run_pushed (condition : Condition) (stack : List Condition) (rest : List Operation) :
    (pushed condition stack >>= fun stack => Operation.run stack rest) =
      if condition.depth ≤ maxDepth then Operation.run (condition :: stack) rest
      else .error .tooDeep := by
  rw [pushed]
  split <;> rfl

theorem run_members {members : List Condition} (each : ∀ member ∈ members, member.Runs)
    (narrow : NarrowMembers members) (stack : List Condition) (rest : List Operation) :
    Operation.run stack (operationsOfMembers members ++ rest) =
      if depthOfMembers members ≤ maxDepth then Operation.run (members.reverse ++ stack) rest
      else .error .tooDeep := by
  induction members generalizing stack with
  | nil =>
      rw [depthOfMembers, if_pos (Nat.zero_le _)]
      rfl
  | cons member members induction =>
      obtain ⟨first, later⟩ := List.forall_mem_cons.mp each
      rw [operationsOfMembers, List.append_assoc, first narrow.1, depthOfMembers,
        induction later narrow.2]
      rw [List.reverse_cons, List.append_assoc, List.singleton_append]
      split
      · split
        · rw [if_pos (by omega)]
        · rw [if_neg (by omega)]
      · rw [if_neg (by omega)]

theorem run_connective (connective : List Condition → Condition) (operation : UInt32 → Operation)
    (applies : ∀ (stack : List Condition) (count : UInt32),
      (operation count).apply stack = gathered connective count.toNat stack)
    (deeper : ∀ members, (connective members).depth = depthOfMembers members + 1)
    {members : List Condition} (each : ∀ member ∈ members, member.Runs)
    (narrow : members.length < UInt32.size ∧ NarrowMembers members)
    (stack : List Condition) (rest : List Operation) :
    Operation.run stack (operationsOfMembers members ++ [operation (memberCount members)] ++ rest) =
      if (connective members).depth ≤ maxDepth then
        Operation.run (connective members :: stack) rest
      else .error .tooDeep := by
  rw [List.append_assoc, run_members each narrow.2, List.singleton_append, run_cons, applies,
    gathered_members connective (member_count_eq narrow.1), run_pushed, deeper]
  split
  · rfl
  · rw [if_neg (by omega)]

theorem runs (condition : Condition) : condition.Runs := by
  induction condition using induct with
  | all members each =>
      intro narrow stack rest
      exact run_connective .all .all (fun _ _ => rfl) (fun _ => rfl) each narrow stack rest
  | any members each =>
      intro narrow stack rest
      exact run_connective .any .any (fun _ _ => rfl) (fun _ => rfl) each narrow stack rest
  | not operand runs =>
      intro narrow stack rest
      rw [operations, List.append_assoc, runs narrow, List.singleton_append, run_cons, depth]
      split
      · exact run_pushed (.not operand) stack rest
      · rw [if_neg (by omega)]
  | tag name =>
      intro _ stack rest
      exact run_pushed (.tag name) stack rest
  | attr name comparison value =>
      intro _ stack rest
      exact run_pushed (.attr name comparison value) stack rest
  | const value =>
      intro _ stack rest
      exact run_pushed (.const value) stack rest
  | predicate index =>
      intro _ stack rest
      exact run_pushed (.predicate index) stack rest

/-- The operations of a condition build that condition, or nothing if it is too deep. -/
theorem of_operations_operations {condition : Condition} (narrow : condition.Narrow) :
    ofOperations condition.operations =
      if condition.depth ≤ maxDepth then .ok condition else .error .tooDeep := by
  have run := condition.runs narrow [] []
  rw [List.append_nil] at run
  rw [ofOperations, run]
  split <;> rfl

section Building

variable {operations : List Operation} {stack after : List Condition}

theorem operations_of_members_append (members others : List Condition) :
    operationsOfMembers (members ++ others) =
      operationsOfMembers members ++ operationsOfMembers others := by
  induction members with
  | nil => rfl
  | cons member members induction =>
      rw [List.cons_append, operationsOfMembers, induction, operationsOfMembers, List.append_assoc]

theorem operations_of_members_singleton (condition : Condition) :
    operationsOfMembers [condition] = condition.operations := by
  rw [operationsOfMembers, operationsOfMembers, List.append_nil]

/-- A stack that operations have built: the operations of its conditions, the lowest first, are
those operations again, and no condition on it is too deep or has too many members anywhere. -/
structure Built (operations : List Operation) (stack : List Condition) : Prop where
  operations_eq : operationsOfMembers stack.reverse = operations
  narrow : ∀ condition ∈ stack, condition.Narrow
  shallow : ∀ condition ∈ stack, condition.depth ≤ maxDepth

theorem built_nil : Built [] [] := ⟨rfl, by simp, by simp⟩

/-- A condition takes its members off the stack and is put on what is left. -/
theorem Built.pushed (members : List Condition) {left : List Condition} {condition : Condition}
    {operation : Operation} (built : Built operations stack) (split : stack = members ++ left)
    (own : condition.operations = operationsOfMembers members.reverse ++ [operation])
    (pushes : pushed condition left = .ok after) (narrow : condition.Narrow) :
    Built (operations ++ [operation]) after := by
  rw [Condition.pushed] at pushes
  split at pushes
  · rename_i shallow
    cases pushes
    obtain ⟨rfl, eachNarrow, eachShallow⟩ := built
    subst split
    refine ⟨?_, List.forall_mem_cons.mpr ⟨narrow, ?_⟩, List.forall_mem_cons.mpr ⟨shallow, ?_⟩⟩
    · rw [List.reverse_cons, List.reverse_append, operations_of_members_append,
        operations_of_members_append, operations_of_members_singleton, own, List.append_assoc]
    · intro condition inside
      exact eachNarrow condition (List.mem_append_right _ inside)
    · intro condition inside
      exact eachShallow condition (List.mem_append_right _ inside)
  · cases pushes

theorem Built.gathered {connective : List Condition → Condition} {record : UInt32 → Operation}
    {count : UInt32} (built : Built operations stack)
    (own : ∀ members, (connective members).operations =
      operationsOfMembers members ++ [record (memberCount members)])
    (few : ∀ members, members.length < UInt32.size → NarrowMembers members →
      (connective members).Narrow)
    (gathers : gathered connective count.toNat stack = .ok after) :
    Built (operations ++ [record count]) after := by
  rw [Condition.gathered] at gathers
  split at gathers
  · cases gathers
  · rename_i enough
    have below : count.toNat ≤ UInt32.size - 1 := Nat.le_pred_of_lt count.toNat_lt
    have length : (stack.take count.toNat).reverse.length = count.toNat := by
      rw [List.length_reverse, List.length_take]
      omega
    have recorded : memberCount (stack.take count.toNat).reverse = count := by
      rw [memberCount, length, Nat.min_eq_left (by omega), UInt32.ofNat_toNat]
    have each : NarrowMembers (stack.take count.toNat).reverse := by
      apply narrow_members_iff.mpr
      intro member inside
      exact built.narrow member (List.mem_of_mem_take (List.mem_reverse.mp inside))
    apply built.pushed _ (List.take_append_drop count.toNat stack).symm ?_ gathers
    · apply few _ _ each
      rw [length]
      exact count.toNat_lt
    · rw [own, recorded]

theorem Built.apply {operation : Operation} (built : Built operations stack)
    (applies : operation.apply stack = .ok after) : Built (operations ++ [operation]) after := by
  cases operation with
  | all count => exact built.gathered (fun _ => rfl) (fun _ => And.intro) applies
  | any count => exact built.gathered (fun _ => rfl) (fun _ => And.intro) applies
  | not =>
      cases stack with
      | nil => cases applies
      | cons operand left =>
          have own : operand.not.operations = operationsOfMembers [operand].reverse ++ [.not] := by
            rw [List.reverse_singleton, operations_of_members_singleton]
            rfl
          exact built.pushed [operand] rfl own applies (built.narrow operand List.mem_cons_self)
  | tag name => exact built.pushed [] rfl rfl applies trivial
  | attr name comparison value => exact built.pushed [] rfl rfl applies trivial
  | const value => exact built.pushed [] rfl rfl applies trivial
  | predicate index => exact built.pushed [] rfl rfl applies trivial

theorem Built.run {later : List Operation} (built : Built operations stack)
    (runs : Operation.run stack later = .ok after) : Built (operations ++ later) after := by
  induction later generalizing operations stack with
  | nil =>
      cases runs
      rwa [List.append_nil]
  | cons operation later induction =>
      obtain ⟨next, applies, continues⟩ := bind_eq_ok.mp runs
      have last := induction (built.apply applies) continues
      rwa [List.append_assoc, List.singleton_append] at last

/-- Operations that build a condition are the operations of that condition. -/
theorem of_of_operations {condition : Condition} (built : ofOperations operations = .ok condition) :
    condition.operations = operations ∧ condition.Narrow ∧ condition.depth ≤ maxDepth := by
  obtain ⟨stack, runs, single⟩ := bind_eq_ok.mp built
  have whole := built_nil.run runs
  split at single
  · cases single
    obtain ⟨same, narrow, shallow⟩ := whole
    rw [List.reverse_singleton, operations_of_members_singleton] at same
    exact ⟨same, narrow _ List.mem_cons_self, shallow _ List.mem_cons_self⟩
  · cases single

end Building

end TagPolicy.Condition
