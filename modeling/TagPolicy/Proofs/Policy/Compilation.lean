import TagPolicy.Policy.Compilation
import TagPolicy.Proofs.Outcome
import TagPolicy.Proofs.Policy.Folding

/-!
Finished compilations. `Compiles` lists what every step of one has done, so that no proof about a
compiled table has to take the compiler apart again. From it follow where each predicate and each
rule of the table comes from, that no name is defined twice, and that predicates refer only to
predicates before them.
-/

namespace TagPolicy

namespace Language

structure WrittenRule where
  effect : Effect
  condition : Expr
  line : Nat

def Statement.rule? : Statement → Option WrittenRule
  | define .. => none
  | rule effect condition line => some ⟨effect, condition, line⟩

def Document.rules (document : Document) : List WrittenRule :=
  document.statements.filterMap Statement.rule?

end Language

open TagPolicy.Language (Document Expr Statement WrittenRule)
open Outcome (bind_eq_ok pure_eq_ok)

/-- A finished compilation, step by step: from the predicates and the number of rules before some
statements to the rules of these statements, where `final` are the predicates in the end. -/
inductive Compiles (final : List Predicate) :
    List Predicate → Nat → List Statement → List Rule → Prop
  | nil {before : Nat} : Compiles final final before [] []
  | define {predicates : List Predicate} {before : Nat} {name : String} {body : Expr} {line : Nat}
      {condition : Condition} {rest : List Statement} {rules : List Rule} :
      name ∉ predicates.map Predicate.name → lower predicates body = .ok condition →
        predicates.length ≤ maxCount →
        Compiles final (predicates ++ [⟨name, condition⟩]) before rest rules →
        Compiles final predicates before (.define name body line :: rest) rules
  | rule {predicates : List Predicate} {before : Nat} {effect : Effect} {written : Expr} {line : Nat}
      {condition : Condition} {rest : List Statement} {rules : List Rule} :
      lower predicates written = .ok condition → before + 1 ≤ maxCount →
        Compiles final predicates (before + 1) rest rules →
        Compiles final predicates before (.rule effect written line :: rest)
          (⟨condition, effect, UInt32.ofNat (before + 1), UInt32.ofNat (min line maxCount)⟩ :: rules)

theorem compiles_of_ok {statements : List Statement} {predicates final : List Predicate}
    {before : Nat} {rules : List Rule}
    (compiled : compileStatements predicates before statements = .ok (final, rules)) :
    Compiles final predicates before statements rules := by
  induction statements generalizing predicates before rules with
  | nil =>
      cases compiled
      exact .nil
  | cons statement rest induction =>
      cases statement with
      | define name body line =>
          rw [compileStatements] at compiled
          split at compiled
          · cases compiled
          · rename_i fresh
            obtain ⟨condition, lowered, compiled⟩ := bind_eq_ok.mp compiled
            split at compiled
            · cases compiled
            · rename_i room
              exact .define fresh lowered (Nat.le_of_not_lt room) (induction compiled)
      | rule effect written line =>
          rw [compileStatements] at compiled
          obtain ⟨condition, lowered, compiled⟩ := bind_eq_ok.mp compiled
          dsimp only at compiled
          split at compiled
          · cases compiled
          · rename_i room
            obtain ⟨⟨last, later⟩, rest, compiled⟩ := bind_eq_ok.mp compiled
            cases pure_eq_ok.mp compiled
            exact .rule lowered (Nat.le_of_not_lt room) (induction rest)

theorem of_lookup_from {name : String} {start position : Nat} {predicates : List Predicate}
    {predicate : Predicate}
    (found : lookupFrom name start predicates = some (position, predicate)) :
    start ≤ position ∧ predicates[position - start]? = some predicate ∧ predicate.name = name := by
  induction predicates generalizing start with
  | nil => cases found
  | cons head rest induction =>
      rw [lookupFrom] at found
      split at found
      · rename_i same
        cases found
        exact ⟨Nat.le_refl _, by simp, same⟩
      · obtain ⟨after, present, same⟩ := induction found
        refine ⟨by omega, ?_, same⟩
        rw [show position - start = position - (start + 1) + 1 by omega, List.getElem?_cons_succ]
        exact present

/-- What a reference has been resolved to. -/
theorem of_resolve {predicates : List Predicate} {name : String} {condition : Condition}
    (resolved : resolve predicates name = .ok condition) :
    ∃ (position : Nat) (predicate : Predicate),
      predicates[position]? = some predicate ∧ predicate.name = name ∧
        condition = if predicate.condition.isLeaf then predicate.condition
          else .predicate (UInt32.ofNat position) := by
  rw [resolve] at resolved
  split at resolved
  · cases resolved
  · rename_i position predicate found
    obtain ⟨-, present, same⟩ := of_lookup_from found
    cases resolved
    exact ⟨position, predicate, present, same, rfl⟩

/-- What an expression compiles to, with a rule for each kind of expression and two for references. -/
inductive Lowers (predicates : List Predicate) : Expr → Condition → Prop
  | and {left right : Expr} {first second : Condition} :
      Lowers predicates left first → Lowers predicates right second →
        Lowers predicates (.and left right) (first.both second)
  | or {left right : Expr} {first second : Condition} :
      Lowers predicates left first → Lowers predicates right second →
        Lowers predicates (.or left right) (first.either second)
  | not {operand : Expr} {inner : Condition} :
      Lowers predicates operand inner → Lowers predicates (.not operand) inner.negation
  | tag {name : String} : Lowers predicates (.tag name) (.tag name)
  | attr {name : String} {comparison : Comparison} {value : Value} :
      Lowers predicates (.attr name comparison value) (.attr name comparison value)
  | literal {value : Bool} : Lowers predicates (.literal value) (.const value)
  | copied {name : String} {position : Nat} {predicate : Predicate} :
      predicates[position]? = some predicate → predicate.name = name →
        predicate.condition.isLeaf = true →
          Lowers predicates (.reference name) predicate.condition
  | referred {name : String} {position : Nat} {predicate : Predicate} :
      predicates[position]? = some predicate → predicate.name = name →
        predicate.condition.isLeaf = false →
          Lowers predicates (.reference name) (.predicate (UInt32.ofNat position))

theorem lowers_of_ok {predicates : List Predicate} {expr : Expr} {condition : Condition}
    (lowered : lower predicates expr = .ok condition) : Lowers predicates expr condition := by
  induction expr generalizing condition with
  | and left right leftLowers rightLowers =>
      obtain ⟨first, leftLowered, lowered⟩ := bind_eq_ok.mp lowered
      obtain ⟨second, rightLowered, lowered⟩ := bind_eq_ok.mp lowered
      cases pure_eq_ok.mp lowered
      exact .and (leftLowers leftLowered) (rightLowers rightLowered)
  | or left right leftLowers rightLowers =>
      obtain ⟨first, leftLowered, lowered⟩ := bind_eq_ok.mp lowered
      obtain ⟨second, rightLowered, lowered⟩ := bind_eq_ok.mp lowered
      cases pure_eq_ok.mp lowered
      exact .or (leftLowers leftLowered) (rightLowers rightLowered)
  | not operand operandLowers =>
      obtain ⟨inner, operandLowered, lowered⟩ := bind_eq_ok.mp lowered
      cases pure_eq_ok.mp lowered
      exact .not (operandLowers operandLowered)
  | tag name =>
      cases pure_eq_ok.mp lowered
      exact .tag
  | attr name comparison value =>
      cases pure_eq_ok.mp lowered
      exact .attr
  | literal value =>
      cases pure_eq_ok.mp lowered
      exact .literal
  | reference name =>
      obtain ⟨position, predicate, present, named, rfl⟩ := of_resolve lowered
      split
      · exact .copied present named ‹_›
      · exact .referred present named (Bool.eq_false_iff.mpr ‹_›)

/-- Every predicate refers only to predicates before it. -/
def Backward (predicates : List Predicate) : Prop :=
  ∀ (position : Nat) (predicate : Predicate), predicates[position]? = some predicate →
    ∀ index ∈ predicate.condition.references, index.toNat < position

/-- An expression compiles to a condition that refers only to the predicates there are. -/
theorem references_lower {predicates : List Predicate} (backward : Backward predicates)
    (room : predicates.length ≤ UInt32.size) {expr : Expr} {condition : Condition}
    (lowered : lower predicates expr = .ok condition) :
    ∀ index ∈ condition.references, index.toNat < predicates.length := by
  replace lowered := lowers_of_ok lowered
  induction lowered with
  | and _ _ left right =>
      intro index inside
      rcases Connective.conjunction.mem_references_join inside with inside | inside
      · exact left index inside
      · exact right index inside
  | or _ _ left right =>
      intro index inside
      rcases Connective.disjunction.mem_references_join inside with inside | inside
      · exact left index inside
      · exact right index inside
  | not _ operand =>
      rw [Condition.references_negation]
      exact operand
  | tag =>
      intro index inside
      cases inside
  | attr =>
      intro index inside
      cases inside
  | literal =>
      intro index inside
      cases inside
  | @copied _ position predicate present =>
      have below := (List.getElem?_eq_some_iff.mp present).1
      intro index inside
      exact Nat.lt_trans (backward position predicate present index inside) below
  | referred present =>
      have below := (List.getElem?_eq_some_iff.mp present).1
      intro index inside
      rw [Condition.references, List.mem_singleton] at inside
      subst inside
      rw [UInt32.toNat_ofNat_of_lt' (Nat.lt_of_lt_of_le below room)]
      exact below

section Origins

variable {final predicates : List Predicate} {before : Nat} {statements : List Statement}
  {rules : List Rule}

/-- Predicates are added at the end and nowhere else. -/
theorem Compiles.take (compiles : Compiles final predicates before statements rules) :
    predicates.length ≤ final.length ∧ final.take predicates.length = predicates := by
  induction compiles with
  | nil => exact ⟨Nat.le_refl _, List.take_length⟩
  | @define predicates _ _ _ _ _ _ _ _ _ _ _ induction =>
      obtain ⟨shorter, start⟩ := induction
      rw [List.length_append, List.length_singleton] at shorter start
      refine ⟨by omega, ?_⟩
      have front := congrArg (List.take predicates.length) start
      rw [List.take_take, List.take_left, Nat.min_eq_left (Nat.le_succ _)] at front
      exact front
  | rule _ _ _ induction => exact induction

theorem Compiles.take_before {predicate : Predicate}
    (compiles : Compiles final (predicates ++ [predicate]) before statements rules) :
    final.take predicates.length = predicates := by
  have front := congrArg (List.take predicates.length) compiles.take.2
  rw [List.take_take, List.take_left, List.length_append, Nat.min_eq_left (Nat.le_add_right _ _)]
    at front
  exact front

theorem Compiles.getElem? (compiles : Compiles final predicates before statements rules)
    {position : Nat} {predicate : Predicate} (present : predicates[position]? = some predicate) :
    final[position]? = some predicate := by
  have inside := (List.getElem?_eq_some_iff.mp present).1
  rw [← compiles.take.2, List.getElem?_take_of_lt inside] at present
  exact present

theorem Compiles.length_le (compiles : Compiles final predicates before statements rules)
    (room : predicates.length ≤ UInt32.size) : final.length ≤ UInt32.size := by
  induction compiles with
  | nil => exact room
  | define _ _ below _ induction =>
      apply induction
      rw [List.length_append, List.length_singleton]
      have : maxCount = UInt32.size - 1 := rfl
      have : 0 < UInt32.size := by decide
      omega
  | rule _ _ _ induction => exact induction room

theorem Compiles.nodup (compiles : Compiles final predicates before statements rules)
    (distinct : (predicates.map Predicate.name).Nodup) : (final.map Predicate.name).Nodup := by
  induction compiles with
  | nil => exact distinct
  | define fresh _ _ _ induction =>
      apply induction
      rw [List.map_append, List.nodup_append]
      refine ⟨distinct, by simp, ?_⟩
      intro old inside new added same
      rw [List.map_singleton, List.mem_singleton] at added
      rw [same, added] at inside
      exact fresh inside
  | rule _ _ _ induction => exact induction distinct

/-- Every definition has its place among the predicates, and was compiled against those before. -/
theorem Compiles.place (compiles : Compiles final predicates before statements rules)
    {name : String} {body : Expr} {line : Nat}
    (inside : .define name body line ∈ statements) :
    ∃ position condition, final[position]? = some ⟨name, condition⟩ ∧
      lower (final.take position) body = .ok condition := by
  induction compiles with
  | nil => cases inside
  | @define predicates _ other _ _ condition _ _ _ lowered _ compiles induction =>
      rcases List.mem_cons.mp inside with same | inside
      · cases same
        refine ⟨predicates.length, condition, compiles.getElem? (by simp), ?_⟩
        rw [compiles.take_before]
        exact lowered
      · exact induction inside
  | rule _ _ _ induction =>
      rcases List.mem_cons.mp inside with same | inside
      · cases same
      · exact induction inside

/-- Every predicate that is not there from the start has been defined. -/
theorem Compiles.origin (compiles : Compiles final predicates before statements rules)
    {position : Nat} {predicate : Predicate} (present : final[position]? = some predicate)
    (added : predicates.length ≤ position) :
    ∃ body line, .define predicate.name body line ∈ statements ∧
      lower (final.take position) body = .ok predicate.condition := by
  induction compiles with
  | nil =>
      rw [List.getElem?_eq_none added] at present
      cases present
  | @define predicates _ name body line condition _ _ _ lowered _ compiles induction =>
      by_cases here : position = predicates.length
      · subst here
        have same : final[predicates.length]? = some ⟨name, condition⟩ :=
          compiles.getElem? (by simp)
        rw [present] at same
        cases same
        refine ⟨body, line, by simp, ?_⟩
        rw [compiles.take_before]
        exact lowered
      · obtain ⟨body, line, inside, lowered⟩ := induction (by
          rw [List.length_append, List.length_singleton]
          omega)
        exact ⟨body, line, List.mem_cons_of_mem _ inside, lowered⟩
  | rule _ _ _ induction =>
      obtain ⟨body, line, inside, lowered⟩ := induction added
      exact ⟨body, line, List.mem_cons_of_mem _ inside, lowered⟩

/-- Every written rule has its place among the rules, and was compiled against the predicates
before it. -/
theorem Compiles.rule_at (compiles : Compiles final predicates before statements rules)
    {position : Nat} {written : WrittenRule}
    (present : (statements.filterMap Statement.rule?)[position]? = some written) :
    ∃ known ≤ final.length, ∃ condition,
      lower (final.take known) written.condition = .ok condition ∧
        before + position + 1 ≤ maxCount ∧
          rules[position]? = some ⟨condition, written.effect, UInt32.ofNat (before + position + 1),
            UInt32.ofNat (min written.line maxCount)⟩ := by
  induction compiles generalizing position with
  | nil => cases present
  | define _ _ _ _ induction => exact induction present
  | @rule predicates before effect expr line condition rest rules lowered bound compiles induction =>
      change (⟨effect, expr, line⟩ :: rest.filterMap Statement.rule?)[position]? = some written
        at present
      cases position with
      | zero =>
          cases present
          obtain ⟨shorter, start⟩ := compiles.take
          refine ⟨predicates.length, shorter, condition, ?_, bound, rfl⟩
          rw [start]
          exact lowered
      | succ position =>
          obtain ⟨known, within, compiled, lowered, bound, place⟩ := induction present
          refine ⟨known, within, compiled, lowered, by omega, ?_⟩
          rw [List.getElem?_cons_succ, place]
          congr 4
          omega

theorem Compiles.rules_length (compiles : Compiles final predicates before statements rules) :
    rules.length = (statements.filterMap Statement.rule?).length := by
  induction compiles with
  | nil => rfl
  | define _ _ _ _ induction => exact induction
  | rule _ _ _ induction => exact congrArg (· + 1) induction

end Origins

/-- In a compiled list of predicates every reference points backward. -/
theorem Compiles.backward {final : List Predicate} {statements : List Statement}
    {rules : List Rule} (compiles : Compiles final [] 0 statements rules) : Backward final := by
  intro position
  induction position using Nat.strongRecOn with
  | ind position induction =>
      intro predicate present
      obtain ⟨body, line, -, lowered⟩ := compiles.origin present (Nat.zero_le _)
      have inside := (List.getElem?_eq_some_iff.mp present).1
      have size := compiles.length_le (by decide)
      have length : (final.take position).length = position := by
        rw [List.length_take]
        omega
      have earlier : Backward (final.take position) := by
        intro below predicate present
        have bound := (List.getElem?_eq_some_iff.mp present).1
        rw [length] at bound
        rw [List.getElem?_take_of_lt bound] at present
        exact induction below bound predicate present
      have references := references_lower earlier (by omega) lowered
      rw [length] at references
      exact references

theorem Table.compiles {version : String} {document : Document} {table : Table}
    (built : Table.ofDocument version document = .ok table) :
    Compiles table.predicates [] 0 document.statements table.rules := by
  obtain ⟨⟨predicates, rules⟩, compiled, built⟩ := bind_eq_ok.mp built
  cases pure_eq_ok.mp built
  exact compiles_of_ok compiled

theorem Table.schema_version_of_document {version : String} {document : Document} {table : Table}
    (built : Table.ofDocument version document = .ok table) : table.schemaVersion = version := by
  obtain ⟨⟨predicates, rules⟩, -, built⟩ := bind_eq_ok.mp built
  cases pure_eq_ok.mp built
  rfl

end TagPolicy
