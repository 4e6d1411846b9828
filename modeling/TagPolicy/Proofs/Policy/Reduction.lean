import TagPolicy.Proofs.Language.Extent
import TagPolicy.Proofs.Policy.Strict

/-!
What the compiler does to documents. Every document that is read from a text compiles, because the
parser and the compiler agree on which names are known where. A compiled table holds the predicates
and the rules of its document in their order, with conditions in normal form that are neither deeper
nor larger than what was written. A table is therefore no larger than its text, however its
predicates build on each other.
-/

namespace TagPolicy

namespace Language

structure WrittenPredicate where
  name : String
  body : Expr

/-- The definition that a statement writes, if it writes one. -/
def Statement.predicate? : Statement → Option WrittenPredicate
  | define name body _ => some ⟨name, body⟩
  | rule .. => none

def Document.predicates (document : Document) : List WrittenPredicate :=
  document.statements.filterMap Statement.predicate?

end Language

open TagPolicy.Language (Document Expr InScope Statement WrittenPredicate WrittenRule)
open Outcome (bind_eq_ok)

section Success

variable {predicates : List Predicate} {names : List String} {expr : Expr}

theorem lookup_from_succeeds {name : String} (position : Nat)
    (known : name ∈ predicates.map Predicate.name) :
    ∃ found, lookupFrom name position predicates = some found := by
  induction predicates generalizing position with
  | nil => cases known
  | cons predicate rest induction =>
      rw [lookupFrom]
      split
      · exact ⟨_, rfl⟩
      · rename_i other
        rcases List.mem_cons.mp known with same | later
        · exact absurd same.symm other
        · exact induction (position + 1) later

theorem lower_succeeds (resolved : expr.Resolved (predicates.map Predicate.name)) :
    ∃ condition, lower predicates expr = .ok condition := by
  induction expr with
  | and left right leftLowers rightLowers =>
      obtain ⟨known, others⟩ := List.forall_mem_append.mp resolved
      obtain ⟨first, leftLowered⟩ := leftLowers known
      obtain ⟨second, rightLowered⟩ := rightLowers others
      refine ⟨first.both second, bind_eq_ok.mpr ⟨first, leftLowered, ?_⟩⟩
      exact bind_eq_ok.mpr ⟨second, rightLowered, rfl⟩
  | or left right leftLowers rightLowers =>
      obtain ⟨known, others⟩ := List.forall_mem_append.mp resolved
      obtain ⟨first, leftLowered⟩ := leftLowers known
      obtain ⟨second, rightLowered⟩ := rightLowers others
      refine ⟨first.either second, bind_eq_ok.mpr ⟨first, leftLowered, ?_⟩⟩
      exact bind_eq_ok.mpr ⟨second, rightLowered, rfl⟩
  | not operand operandLowers =>
      obtain ⟨inner, lowered⟩ := operandLowers resolved
      exact ⟨inner.negation, bind_eq_ok.mpr ⟨_, lowered, rfl⟩⟩
  | tag => exact ⟨_, rfl⟩
  | attr => exact ⟨_, rfl⟩
  | literal => exact ⟨_, rfl⟩
  | reference name =>
      obtain ⟨found, here⟩ := lookup_from_succeeds 0 (resolved name List.mem_cons_self)
      rw [lower, resolve, here]
      exact ⟨_, rfl⟩

/-- The names that the parser knows stay those of the predicates. -/
theorem known_after (name : String) (condition : Condition)
    (known : ∀ other, other ∈ names ↔ other ∈ predicates.map Predicate.name) (other : String) :
    other ∈ name :: names ↔
      other ∈ (predicates ++ [(⟨name, condition⟩ : Predicate)]).map Predicate.name := by
  rw [List.map_append, List.mem_append, List.mem_cons, known, List.map_singleton,
    List.mem_singleton, or_comm]

/-- Statements compile if every name is defined once and before it is used, and there is room. -/
theorem compile_statements_succeeds {statements : List Statement} {before : Nat}
    (known : ∀ name, name ∈ names ↔ name ∈ predicates.map Predicate.name)
    (inScope : InScope names statements)
    (predicateRoom : predicates.length + statements.length ≤ maxCount)
    (ruleRoom : before + statements.length ≤ maxCount) :
    ∃ compiled, compileStatements predicates before statements = .ok compiled := by
  induction statements generalizing predicates names before with
  | nil => exact ⟨_, rfl⟩
  | cons statement rest induction =>
      obtain ⟨fresh, resolved, later⟩ := inScope
      rw [List.length_cons] at predicateRoom ruleRoom
      obtain ⟨condition, lowered⟩ :=
        lower_succeeds fun name inside => (known name).mp (resolved name inside)
      cases statement with
      | define name body line =>
          have isNew : name ∉ predicates.map Predicate.name :=
            fun inside => fresh name rfl ((known name).mpr inside)
          have room : ¬ maxCount < predicates.length := by omega
          obtain ⟨compiled, compiles⟩ := induction (known_after name condition known) later
            (by rw [List.length_append, List.length_singleton]; omega)
            (show before + rest.length ≤ maxCount by omega)
          rw [compileStatements, if_neg isNew]
          refine ⟨compiled, bind_eq_ok.mpr ⟨condition, lowered, ?_⟩⟩
          rw [if_neg room]
          exact compiles
      | rule effect written line =>
          have room : ¬ maxCount < before + 1 := by omega
          obtain ⟨⟨final, rules⟩, compiles⟩ := induction known later (by omega)
            (show before + 1 + rest.length ≤ maxCount by omega)
          let rule : Rule :=
            ⟨condition, effect, UInt32.ofNat (before + 1), UInt32.ofNat (min line maxCount)⟩
          rw [compileStatements]
          refine ⟨(final, rule :: rules), bind_eq_ok.mpr ⟨condition, lowered, ?_⟩⟩
          dsimp only
          rw [if_neg room]
          exact bind_eq_ok.mpr ⟨_, compiles, rfl⟩

theorem Table.of_document_succeeds {text : String} {document : Document} (version : String)
    (parsed : Document.parse text = .ok document)
    (few : document.statements.length ≤ maxCount) :
    ∃ table, Table.ofDocument version document = .ok table := by
  obtain ⟨-, -, -, inScope, -⟩ := Document.of_parse parsed
  have room : 0 + document.statements.length ≤ maxCount := by omega
  have compiles : ∃ compiled, compileStatements [] 0 document.statements = .ok compiled :=
    compile_statements_succeeds (fun _ => Iff.rfl) inScope room room
  obtain ⟨⟨predicates, rules⟩, compiled⟩ := compiles
  exact ⟨⟨version, predicates, rules⟩, bind_eq_ok.mpr ⟨_, compiled, rfl⟩⟩

end Success

/-- A condition in normal form, neither deeper nor larger than the expression it stands for. -/
structure Reduces (predicates : List Predicate) (expr : Expr) (condition : Condition) : Prop where
  normal : condition.Normal (Shared predicates)
  depth : condition.depth ≤ expr.depth
  size : condition.size ≤ expr.size

structure ReducesPredicate (predicates : List Predicate) (written : WrittenPredicate)
    (predicate : Predicate) : Prop where
  name : predicate.name = written.name
  condition : Reduces predicates written.body predicate.condition

structure ReducesRule (predicates : List Predicate) (written : WrittenRule) (rule : Rule) :
    Prop where
  effect : rule.effect = written.effect
  condition : Reduces predicates written.condition rule.condition

section Parts

variable {final predicates : List Predicate} {before : Nat} {statements : List Statement}
  {rules : List Rule} {expr : Expr} {condition : Condition}

/-- The predicates that are known so far may be referred to in the end. -/
theorem Compiles.shared (compiles : Compiles final predicates before statements rules)
    (room : predicates.length ≤ UInt32.size) (position : Nat) (predicate : Predicate)
    (present : predicates[position]? = some predicate)
    (compound : predicate.condition.IsCompound) : Shared final (UInt32.ofNat position) := by
  have below := (List.getElem?_eq_some_iff.mp present).1
  refine ⟨predicate, ?_, compound⟩
  rw [UInt32.toNat_ofNat_of_lt' (Nat.lt_of_lt_of_le below room)]
  exact compiles.getElem? present

theorem Compiles.reduces (compiles : Compiles final predicates before statements rules)
    (room : predicates.length ≤ UInt32.size)
    (normal : ∀ predicate ∈ predicates, predicate.condition.Normal (Shared final))
    (lowered : lower predicates expr = .ok condition) : Reduces final expr condition :=
  ⟨normal_lower (fun predicate inside _ => normal predicate inside) (compiles.shared room) lowered,
    depth_lower lowered, size_lower lowered⟩

/-- Every definition adds one predicate and every rule one rule, in their order. -/
theorem Compiles.parts (compiles : Compiles final predicates before statements rules)
    (room : predicates.length ≤ UInt32.size)
    (normal : ∀ predicate ∈ predicates, predicate.condition.Normal (Shared final)) :
    ∃ added, final = predicates ++ added ∧
      List.Forall₂ (ReducesPredicate final) (statements.filterMap Statement.predicate?) added ∧
        List.Forall₂ (ReducesRule final) (statements.filterMap Statement.rule?) rules := by
  induction compiles with
  | nil => exact ⟨[], (List.append_nil _).symm, .nil, .nil⟩
  | @define predicates before name body line condition rest rules fresh lowered below compiles
      induction =>
      have whole : Compiles final predicates before (.define name body line :: rest) rules :=
        .define fresh lowered below compiles
      have reduces := whole.reduces room normal lowered
      have roomLater : (predicates ++ [(⟨name, condition⟩ : Predicate)]).length ≤ UInt32.size := by
        rw [List.length_append, List.length_singleton]
        have : maxCount < UInt32.size := by decide
        omega
      -- what is compiled against predicates in normal form may be added to them
      have normalLater : ∀ predicate ∈ predicates ++ [⟨name, condition⟩],
          predicate.condition.Normal (Shared final) :=
        List.forall_mem_append.mpr ⟨normal, List.forall_mem_singleton.mpr reduces.normal⟩
      obtain ⟨added, same, definitions, rules⟩ := induction roomLater normalLater
      refine ⟨⟨name, condition⟩ :: added, ?_, .cons ⟨rfl, reduces⟩ definitions, rules⟩
      rw [same, List.append_assoc, List.singleton_append]
  | rule lowered below compiles induction =>
      have reduces := compiles.reduces room normal lowered
      obtain ⟨added, same, definitions, rules⟩ := induction room normal
      exact ⟨added, same, definitions, .cons ⟨rfl, reduces⟩ rules⟩

theorem Compiles.orders (compiles : Compiles final predicates before statements rules) :
    rules.map (fun rule => rule.order.toNat) = List.range' (before + 1) rules.length := by
  induction compiles with
  | nil => rfl
  | define _ _ _ _ induction => exact induction
  | rule _ below _ induction =>
      have small : maxCount < UInt32.size := by decide
      rw [List.map_cons, List.length_cons, List.range'_succ, induction,
        UInt32.toNat_ofNat_of_lt' (Nat.lt_of_le_of_lt below small)]

end Parts

theorem size_of_parts (document : Document) :
    document.size = (document.predicates.map fun written => written.body.size).sum +
      (document.rules.map fun written => written.condition.size).sum := by
  unfold Document.size Document.predicates Document.rules
  induction document.statements with
  | nil => rfl
  | cons statement rest induction =>
      rw [List.map_cons, List.sum_cons, induction]
      cases statement with
      | define name body line =>
          have definitions : (Statement.define name body line :: rest).filterMap
              Statement.predicate? = ⟨name, body⟩ :: rest.filterMap Statement.predicate? := rfl
          have rules : (Statement.define name body line :: rest).filterMap Statement.rule? =
              rest.filterMap Statement.rule? := rfl
          rw [definitions, rules, List.map_cons, List.sum_cons, Nat.add_assoc]
          rfl
      | rule effect condition line =>
          have definitions : (Statement.rule effect condition line :: rest).filterMap
              Statement.predicate? = rest.filterMap Statement.predicate? := rfl
          have rules : (Statement.rule effect condition line :: rest).filterMap Statement.rule? =
              ⟨effect, condition, line⟩ :: rest.filterMap Statement.rule? := rfl
          rw [definitions, rules, List.map_cons, List.sum_cons, Nat.add_left_comm]
          rfl

namespace Table

def nodes (table : Table) : Nat := (table.conditions.map Condition.size).sum

structure Reduces (table : Table) (document : Document) : Prop where
  sound : table.firstBadReference = none
  predicates : List.Forall₂ (ReducesPredicate table.predicates) document.predicates table.predicates
  rules : List.Forall₂ (ReducesRule table.predicates) document.rules table.rules
  orders : table.rules.map (fun rule => rule.order.toNat) = List.range' 1 table.rules.length
  nodes : table.nodes ≤ document.size

theorem nodes_le {table : Table} {document : Document}
    (predicates : List.Forall₂ (ReducesPredicate table.predicates) document.predicates
      table.predicates)
    (rules : List.Forall₂ (ReducesRule table.predicates) document.rules table.rules) :
    table.nodes ≤ document.size := by
  have definitions : (table.predicates.map fun predicate => predicate.condition.size).sum ≤
      (document.predicates.map fun written => written.body.size).sum := by
    apply List.Forall₂.sum_le_sum
    rw [List.forall₂_map_left_iff, List.forall₂_map_right_iff]
    exact predicates.flip.imp fun _ _ reduces => reduces.condition.size
  have conditions : (table.rules.map fun rule => rule.condition.size).sum ≤
      (document.rules.map fun written => written.condition.size).sum := by
    apply List.Forall₂.sum_le_sum
    rw [List.forall₂_map_left_iff, List.forall₂_map_right_iff]
    exact rules.flip.imp fun _ _ reduces => reduces.condition.size
  rw [size_of_parts, nodes, Table.conditions, List.map_append, List.sum_append, List.map_map,
    List.map_map]
  exact Nat.add_le_add definitions conditions

theorem reduces_of_document {version : String} {document : Document} {table : Table}
    (built : ofDocument version document = .ok table) : table.Reduces document := by
  have compiles := Table.compiles built
  obtain ⟨added, same, definitions, rules⟩ := compiles.parts (Nat.zero_le _) (by simp)
  cases same
  exact {
    sound := first_bad_reference_eq_none.mpr ⟨compiles.backward, compiles.references_bounded⟩
    predicates := definitions
    rules := rules
    orders := compiles.orders
    nodes := nodes_le definitions rules }

/-- What is read from a text compiles, if its rules can be numbered; what compiles is in normal form
and no larger than it was; and the table of a text is bounded by the language and by the text. -/
theorem compile_reduces (version : String) :
    (∀ text, (∀ document, Document.parse text = .ok document →
        document.statements.length < 2 ^ 32) →
      (∃ table, compile version text = .ok table) ∨
        ∃ error, compile version text = .error (.source error)) ∧
    (∀ document table, ofDocument version document = .ok table → table.Reduces document) ∧
    ∀ text table, compile version text = .ok table →
      (∀ condition ∈ table.conditions, condition.depth ≤ 128) ∧
        table.nodes ≤ text.toList.length := by
  refine ⟨?_, fun _ _ => reduces_of_document, ?_⟩
  · intro text few
    rw [compile]
    cases parsed : Document.parse text with
    | error error => exact .inr ⟨error, rfl⟩
    | ok document =>
        have count := few document parsed
        have room : document.statements.length ≤ maxCount := Nat.le_of_lt_succ count
        obtain ⟨table, built⟩ := of_document_succeeds version parsed room
        dsimp only
        rw [built]
        exact .inl ⟨table, rfl⟩
  · intro text table compiled
    have shallow := (well_formed_of_compile compiled).shallow
    constructor
    · rw [conditions, List.forall_mem_append, List.forall_mem_map, List.forall_mem_map]
      exact shallow
    · obtain ⟨document, parsed, built⟩ := document_of_compile compiled
      exact Nat.le_trans (reduces_of_document built).nodes (Language.size_of_parse parsed)

def chainedText : String :=
  "DEFINE [near] AS tag(north) AND (tag(south) AND TRUE)\n" ++
    "DEFINE [same] AS [near]\nALLOW IF NOT NOT [same]"

def chainedTable : Table where
  schemaVersion := "1"
  predicates := [⟨"near", .all [.tag "north", .tag "south"]⟩, ⟨"same", .predicate 0⟩]
  rules := [⟨.predicate 0, .allow, 1, 3⟩]

/-- The second name is another one for the first, and nothing is left of the constant and of the
negations. -/
theorem chained_text_is_reduced :
    compile "1" chainedText = .ok chainedTable ∧
      ((∃ table, compile "1" chainedText = .ok table) ∨
        ∃ error, compile "1" chainedText = .error (.source error)) ∧
      (∃ document, Document.parse chainedText = .ok document ∧
        document.statements.length = 3 ∧ chainedTable.Reduces document) ∧
      (∀ condition ∈ chainedTable.conditions, condition.depth ≤ 128) ∧
        chainedTable.nodes ≤ chainedText.toList.length := by
  have compiled : compile "1" chainedText = .ok chainedTable := by decide +kernel
  have counted : (Document.parse chainedText).toOption.map (fun document =>
      document.statements.length) = some 3 := by decide +kernel
  obtain ⟨document, parsed, built⟩ := document_of_compile compiled
  rw [parsed] at counted
  have three : document.statements.length = 3 := Option.some.inj counted
  obtain ⟨total, reduces, bounded⟩ := compile_reduces "1"
  refine ⟨compiled, total chainedText ?_, ⟨document, parsed, three, reduces document _ built⟩,
    bounded chainedText _ compiled⟩
  intro other same
  cases parsed.symm.trans same
  rw [three]
  decide

end Table

end TagPolicy
