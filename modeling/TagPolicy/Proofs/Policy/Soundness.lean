import TagPolicy.Failure
import TagPolicy.Proofs.Cache.Roundtrip
import TagPolicy.Proofs.Language.Acceptance
import TagPolicy.Proofs.Policy.NormalForm

/-!
Compiled tables are sound. A condition is not deeper than the expression it comes from, and every
reference points backward, so the table that a text compiles to comes back from a cache slot.
-/

namespace TagPolicy

open TagPolicy.Language (Document Expr Statement maxDepth)
open Outcome (bind_eq_ok pure_eq_ok)

namespace Condition

theorem depth_of_members_append (lefts rights : List Condition) :
    depthOfMembers (lefts ++ rights) = max (depthOfMembers lefts) (depthOfMembers rights) := by
  induction lefts with
  | nil => simp [depthOfMembers]
  | cons left lefts induction =>
      rw [List.cons_append, depthOfMembers, depthOfMembers, induction, Nat.max_assoc]

theorem depth_of_members_singleton (condition : Condition) :
    depthOfMembers [condition] = condition.depth := by
  simp [depthOfMembers]

theorem depth_negation (operand : Condition) : operand.negation.depth ≤ operand.depth + 1 := by
  cases operand <;> simp [negation, depth]
  omega

theorem depth_of_is_leaf {condition : Condition} (leaf : condition.isLeaf = true) :
    condition.depth = 1 := by
  cases condition <;> first | rfl | cases leaf

end Condition

namespace Connective

variable {connective : Connective} {condition left right : Condition} {members : List Condition}

theorem depth_wrap : (connective.wrap members).depth = Condition.depthOfMembers members + 1 := by
  cases connective <;> rfl

theorem depth_of_split (split : connective.split condition = some members) :
    Condition.depthOfMembers members ≤ condition.depth := by
  obtain ⟨rfl, rfl⟩ | rfl | ⟨-, -, rfl⟩ := split_cases split
  · exact Nat.zero_le _
  · rw [depth_wrap]
    exact Nat.le_succ _
  · rw [Condition.depth_of_members_singleton]

theorem depth_join (connective : Connective) (left right : Condition) :
    (connective.join left right).depth ≤ max left.depth right.depth + 1 := by
  have joined := connective.joined left right
  generalize connective.join left right = condition at joined
  cases joined with
  | const => simp [Condition.depth]
  | single leftSplit rightSplit single =>
      have front := depth_of_split leftSplit
      have back := depth_of_split rightSplit
      have total := congrArg Condition.depthOfMembers single
      rw [Condition.depth_of_members_append, Condition.depth_of_members_singleton] at total
      omega
  | several leftSplit rightSplit _ =>
      have front := depth_of_split leftSplit
      have back := depth_of_split rightSplit
      rw [depth_wrap, Condition.depth_of_members_append]
      omega

end Connective

theorem depth_lower {predicates : List Predicate} {expr : Expr} {condition : Condition}
    (lowered : lower predicates expr = .ok condition) : condition.depth ≤ expr.depth := by
  replace lowered := lowers_of_ok lowered
  induction lowered with
  | @and _ _ first second _ _ left right =>
      have both : (first.both second).depth ≤ _ := Connective.conjunction.depth_join first second
      rw [Expr.depth]
      omega
  | @or _ _ first second _ _ left right =>
      have either : (first.either second).depth ≤ _ :=
        Connective.disjunction.depth_join first second
      rw [Expr.depth]
      omega
  | @not _ inner _ operand =>
      have negation := Condition.depth_negation inner
      rw [Expr.depth]
      omega
  | copied _ _ leaf => exact Nat.le_of_eq (Condition.depth_of_is_leaf leaf)
  | _ => exact Nat.le_refl _

/-- Nothing in a compiled table is deeper than the deepest statement. -/
theorem Compiles.depth {final predicates : List Predicate} {before : Nat}
    {statements : List Statement} {rules : List Rule}
    (compiles : Compiles final predicates before statements rules)
    (shallow : ∀ statement ∈ statements, statement.expr.depth ≤ maxDepth)
    (known : ∀ predicate ∈ predicates, predicate.condition.depth ≤ maxDepth) :
    (∀ predicate ∈ final, predicate.condition.depth ≤ maxDepth) ∧
      ∀ rule ∈ rules, rule.condition.depth ≤ maxDepth := by
  induction compiles with
  | nil =>
      refine ⟨known, ?_⟩
      intro rule inside
      cases inside
  | define fresh lowered room compiles induction =>
      obtain ⟨first, later⟩ := List.forall_mem_cons.mp shallow
      apply induction later
      intro predicate inside
      rcases List.mem_append.mp inside with old | new
      · exact known predicate old
      · cases List.mem_singleton.mp new
        exact Nat.le_trans (depth_lower lowered) first
  | rule lowered room compiles induction =>
      obtain ⟨first, later⟩ := List.forall_mem_cons.mp shallow
      obtain ⟨predicates, rules⟩ := induction later known
      refine ⟨predicates, ?_⟩
      intro rule inside
      rcases List.mem_cons.mp inside with rfl | inside
      · exact Nat.le_trans (depth_lower lowered) first
      · exact rules rule inside

theorem first_reference_past_eq_none {bound : Nat} {condition : Condition} :
    condition.firstReferencePast bound = none ↔
      ∀ index ∈ condition.references, index.toNat < bound := by
  rw [Condition.firstReferencePast, List.find?_eq_none]
  simp only [decide_eq_true_eq, Nat.not_le]

def BackwardFrom (bound : Nat) (predicates : List Predicate) : Prop :=
  ∀ (position : Nat) (predicate : Predicate), predicates[position]? = some predicate →
    ∀ index ∈ predicate.condition.references, index.toNat < bound + position

theorem backward_from_cons {bound : Nat} {predicate : Predicate} {rest : List Predicate} :
    BackwardFrom bound (predicate :: rest) ↔
      (∀ index ∈ predicate.condition.references, index.toNat < bound) ∧
        BackwardFrom (bound + 1) rest := by
  have next : ∀ position, bound + (position + 1) = bound + 1 + position := by omega
  constructor
  · intro backward
    refine ⟨backward 0 predicate rfl, ?_⟩
    intro position other present
    rw [← next]
    exact backward (position + 1) other present
  · rintro ⟨first, later⟩ position other present
    cases position with
    | zero =>
        cases present
        exact first
    | succ position =>
        rw [next]
        exact later position other present

theorem first_forward_reference_eq_none {predicates : List Predicate} {bound : Nat} :
    firstForwardReference bound predicates = none ↔ BackwardFrom bound predicates := by
  induction predicates generalizing bound with
  | nil => simp [firstForwardReference, BackwardFrom]
  | cons predicate rest induction =>
      rw [firstForwardReference, backward_from_cons, ← first_reference_past_eq_none, ← induction]
      cases predicate.condition.firstReferencePast bound <;> simp

theorem first_dangling_reference_eq_none {rules : List Rule} {bound : Nat} :
    firstDanglingReference bound rules = none ↔
      ∀ rule ∈ rules, ∀ index ∈ rule.condition.references, index.toNat < bound := by
  induction rules with
  | nil => simp [firstDanglingReference]
  | cons rule rest induction =>
      rw [firstDanglingReference, List.forall_mem_cons, ← first_reference_past_eq_none, ← induction]
      cases rule.condition.firstReferencePast bound <;> simp

/-- What a table has to be to come back from a cache slot. -/
structure Table.WellFormed (table : Table) : Prop where
  shallow : Layout.Shallow table
  backward : Backward table.predicates
  known : ∀ rule ∈ table.rules, ∀ index ∈ rule.condition.references,
    index.toNat < table.predicates.length

theorem Table.first_bad_reference_eq_none {table : Table} :
    table.firstBadReference = none ↔
      Backward table.predicates ∧ ∀ rule ∈ table.rules, ∀ index ∈ rule.condition.references,
        index.toNat < table.predicates.length := by
  have backward : firstForwardReference 0 table.predicates = none ↔ Backward table.predicates := by
    simp only [first_forward_reference_eq_none, BackwardFrom, Nat.zero_add]
    rfl
  rw [firstBadReference, ← backward, ← first_dangling_reference_eq_none]
  cases firstForwardReference 0 table.predicates <;> simp

theorem Table.well_formed_iff {table : Table} :
    table.WellFormed ↔ Layout.Shallow table ∧ table.firstBadReference = none := by
  rw [first_bad_reference_eq_none]
  constructor
  · rintro ⟨shallow, backward, known⟩
    exact ⟨shallow, backward, known⟩
  · rintro ⟨shallow, backward, known⟩
    exact ⟨shallow, backward, known⟩

theorem Backward.take {predicates : List Predicate} (backward : Backward predicates) (count : Nat) :
    Backward (predicates.take count) := by
  intro position predicate present
  rw [List.getElem?_take] at present
  split at present
  · exact backward position predicate present
  · cases present

theorem Compiles.references_bounded {final : List Predicate} {statements : List Statement}
    {rules : List Rule} (compiles : Compiles final [] 0 statements rules) :
    ∀ rule ∈ rules, ∀ index ∈ rule.condition.references, index.toNat < final.length := by
  intro rule inside index referred
  obtain ⟨position, below, here⟩ := List.mem_iff_getElem.mp inside
  have size := compiles.length_le (by decide)
  rw [compiles.rules_length] at below
  obtain ⟨known, within, condition, lowered, -, place⟩ :=
    compiles.rule_at (List.getElem?_eq_getElem below)
  rw [List.getElem?_eq_getElem (by rw [compiles.rules_length]; exact below), here] at place
  cases place
  have bound := references_lower (compiles.backward.take known)
    (by rw [List.length_take]; omega) lowered index referred
  rw [List.length_take] at bound
  omega

/-- What compiles has been read as a document. -/
theorem Table.document_of_compile {schemaVersion text : String} {table : Table}
    (compiled : Table.compile schemaVersion text = .ok table) :
    ∃ document, Document.parse text = .ok document ∧
      Table.ofDocument schemaVersion document = .ok table := by
  rw [compile] at compiled
  split at compiled
  · cases compiled
  · rename_i document parsed
    split at compiled
    · cases compiled
    · rename_i found finished
      cases compiled
      exact ⟨document, parsed, finished⟩

theorem Table.compiles_of_compile {schemaVersion text : String} {table : Table}
    (compiled : Table.compile schemaVersion text = .ok table) :
    table.schemaVersion = schemaVersion ∧ ∃ statements : List Statement,
      (∀ statement ∈ statements, statement.expr.depth ≤ maxDepth) ∧
        Compiles table.predicates [] 0 statements table.rules := by
  obtain ⟨document, parsed, finished⟩ := document_of_compile compiled
  obtain ⟨-, -, -, -, shallow⟩ := Language.Document.of_parse parsed
  exact ⟨Table.schema_version_of_document finished, document.statements, shallow,
    Table.compiles finished⟩

theorem Table.well_formed_of_compile {schemaVersion text : String} {table : Table}
    (compiled : Table.compile schemaVersion text = .ok table) : table.WellFormed := by
  obtain ⟨-, statements, shallow, compiles⟩ := compiles_of_compile compiled
  have none : ∀ predicate ∈ ([] : List Predicate), predicate.condition.depth ≤ maxDepth := by
    intro predicate inside
    cases inside
  exact ⟨compiles.depth shallow none, compiles.backward, compiles.references_bounded⟩

/-- The text of a compiled table is decoded as that table. -/
theorem Table.decode_of_compile {schemaVersion text kept : String} {table : Table}
    (compiled : Table.compile schemaVersion text = .ok table)
    (encoded : Cache.encode table = .ok kept) : Cache.decode kept = .ok table := by
  obtain ⟨shallow, sound⟩ := well_formed_iff.mp (well_formed_of_compile compiled)
  exact Cache.decode_encode_sound encoded shallow sound

end TagPolicy
